/-
What a Reconcile that got through has left behind.

An object stands (`Stands`) when the callback that keeps it in shape has
nothing more to do: applied to the stored object it gives that object
back. A phase that returns leaves its object standing, because every
callback is steady (`Steady`): it asks for nothing new once its own
answer is stored. No later phase writes an object of that kind, so all of
them stand at the end (`Settled`), and the ring is one that would not be
written again (`RingStands`).
-/
import CacheOperator.Proofs.Live

namespace CacheOperator

open Lib

-- ===================================================== kinds untouched

/-- Only objects of these kinds differ. -/
def Cluster.SameBut (ks : List Kind) (s s' : Cluster) : Prop :=
  ∀ k, k ∉ ks → s'.objects k = s.objects k

namespace Cluster.SameBut

variable {ks ks' : List Kind} {s s' s'' : Cluster}

theorem refl : SameBut ks s s := fun _ _ => rfl

theorem trans (h : SameBut ks s s') (h' : SameBut ks' s' s'') :
    SameBut (ks ++ ks') s s'' := by
  intro k hk
  rw [List.mem_append, not_or] at hk
  rw [h' k hk.2, h k hk.1]

theorem of_writes {k : Kind} {key : NamespacedName}
    {mutate : Object k → Except GoError (Object k)} (hm : Keeps mutate)
    (h : Writes key mutate s s') : SameBut [k] s s' := by
  intro k' hk
  funext key'
  apply (writes_frame hm h).2
  intro heq
  injection heq with heq
  exact hk (by rw [heq]; exact List.mem_singleton_self _)

/-- The status is the business of one kind. -/
theorem of_updateStatus (w : DistributedCache) :
    SameBut [.distributedCache] s (api.serve (.updateStatus w) s).2 := by
  intro k hk
  funext key
  apply serve_objects
  intro heq
  injection heq with heq
  injection heq with heq
  exact hk (by rw [← heq]; exact List.mem_singleton_self _)

end Cluster.SameBut

-- ==================================================== standing objects

/-- The stored object is the one the callback asks for. -/
def Stands (k : Kind) (key : NamespacedName)
    (mutate : Object k → Except GoError (Object k)) (s : Cluster) : Prop :=
  ∃ o, s.objects k key = some o ∧ mutate o.1 = .ok o.1

/-- The callback asks for nothing new once its answer is stored. -/
def Steady {k : Kind} (mutate : Object k → Except GoError (Object k)) :
    Prop :=
  ∀ (s : Cluster) (o o' : Object k), mutate o = .ok o' →
    mutate (s.stamp o') = .ok (s.stamp o')

section
variable {k : Kind} {key : NamespacedName}
  {mutate : Object k → Except GoError (Object k)} {s s' : Cluster}
  {cache : DistributedCache} {ks : List Kind}

theorem Stands.sameBut (h : Stands k key mutate s)
    (hsame : Cluster.SameBut ks s s') (hk : k ∉ ks) :
    Stands k key mutate s' := by
  unfold Stands
  rw [hsame k hk]
  exact h

theorem Settles.stands (hkeeps : Keeps mutate) (hsteady : Steady mutate)
    (h : Settles key mutate s s') : Stands k key mutate s' := by
  rcases h with ⟨rfl, h⟩ | ⟨o, ho, rfl⟩
  · exact h
  · have hkey : (s.stamp o).key = key := (hkeeps _ _ ho).1.trans storedOr_key
    subst hkey
    exact ⟨⟨s.stamp o, rfl⟩, Cluster.put_objects_self _, hsteady s _ o ho⟩

theorem Settles.sameBut (hkeeps : Keeps mutate)
    (h : Settles key mutate s s') :
    Cluster.SameBut [k] s s' ∧ s'.pods = s.pods := by
  rcases h with ⟨rfl, -⟩ | h
  · exact ⟨.refl, rfl⟩
  · exact ⟨.of_writes hkeeps h, (writes_frame hkeeps h).1⟩

theorem reconcileObject_returns {what reason : String}
    {message : OperationResult → String} (hk : k ≠ .distributedCache)
    (hkeeps : Keeps mutate) :
    (reconcileObject k key what mutate cache reason message).Returns api s
      fun _ s' => Settles key mutate s s' :=
  .of_sat (reconcileObject_sat hk hkeeps) fun _ _ h => h

theorem wrapping_returns {α : Type} {text : String} {p : Op α}
    {R : α → Cluster → Prop} (hp : p.Returns api s R) :
    (wrapping text p).Returns api s R := by
  refine Prog.Sat.bind (hp.attempt (Q := fun res s1 => match res with
      | .ok (.ok a) => R a s1
      | .ok (.error _) => True
      | .error _ => False
      | .crashed => True)
    (fun a _ h => h a rfl) (fun _ _ _ => trivial) (fun _ _ => trivial)) ?_
    (fun _ _ h => h.elim) (fun _ _ _ => nofun)
  intro x s1 h
  cases x with
  | ok a => exact Prog.Returns.ret h
  | error e => exact Prog.Returns.fail

theorem orDegrade_returns {α : Type} {now : Time} {reason : Reason}
    {text : String} {p : Op α} {R : α → Cluster → Prop}
    (hp : p.Returns api s R) :
    (orDegrade now cache reason text p).Returns api s R :=
  orDegrade_sat hp (fun _ _ h => h) (fun _ _ _ => nofun)
    (fun _ _ _ _ _ _ _ _ => trivial) (fun _ _ _ _ _ _ _ => nofun)
    fun _ _ _ _ => nofun

end

-- ======================================================= the callbacks

section
variable {k : Kind} {cache : DistributedCache} {component : String}
  {body : Object k → k.Body}

/-- The four labels are on the object. -/
structure Labelled (cache : DistributedCache) (component : String)
    (labels : Dict String String) : Prop where
  name : labels.get labelName = some appName
  inst : labels.get labelInstance = some cache.name
  managedBy : labels.get labelManagedBy = some managedByValue
  component : labels.get labelComponent = some component

theorem labelled_ownedLabels (cache : DistributedCache)
    (component : String) (labels : Dict String String) :
    Labelled cache component (ownedLabels cache component labels) where
  name := by
    unfold ownedLabels
    rw [Dict.get_set_of_ne _ _ (by decide), Dict.get_set_of_ne _ _
      (by decide), Dict.get_set_of_ne _ _ (by decide), Dict.get_set_self]
  inst := by
    unfold ownedLabels
    rw [Dict.get_set_of_ne _ _ (by decide), Dict.get_set_of_ne _ _
      (by decide), Dict.get_set_self]
  managedBy := by
    unfold ownedLabels
    rw [Dict.get_set_of_ne _ _ (by decide), Dict.get_set_self]
  component := by
    unfold ownedLabels
    rw [Dict.get_set_self]

theorem Labelled.ownedLabels_eq {labels : Dict String String}
    (h : Labelled cache component labels) :
    ownedLabels cache component labels = labels := by
  unfold ownedLabels
  rw [Dict.set_eq_self _ h.name, Dict.set_eq_self _ h.inst,
    Dict.set_eq_self _ h.managedBy, Dict.set_eq_self _ h.component]

/-- Another label does not matter. -/
theorem Labelled.set {labels : Dict String String}
    (h : Labelled cache component labels) (key value : String)
    (hne : key ∉ [labelName, labelInstance, labelManagedBy,
      labelComponent]) :
    Labelled cache component (labels.set key value) := by
  simp only [List.mem_cons, List.not_mem_nil, or_false, not_or] at hne
  obtain ⟨h1, h2, h3, h4⟩ := hne
  constructor
  · rw [Dict.get_set_of_ne _ _ (Ne.symm h1), h.name]
  · rw [Dict.get_set_of_ne _ _ (Ne.symm h2), h.inst]
  · rw [Dict.get_set_of_ne _ _ (Ne.symm h3), h.managedBy]
  · rw [Dict.get_set_of_ne _ _ (Ne.symm h4), h.component]

/-- The labels and the owner of the callback's object. -/
theorem mutateOwned_metadata {o o' : Object k}
    (h : mutateOwned cache component body o = .ok o') :
    o'.metadata.labels = ownedLabels cache component o.metadata.labels
      ∧ (isCrossNamespaceChild cache = false → o'.metadata.controller
        = some ⟨cacheKind, cache.name, cache.metadata.uid⟩) := by
  unfold mutateOwned setControllerReferenceIfSameNamespace at h
  by_cases hx : isCrossNamespaceChild cache = true
  · rw [if_pos hx] at h
    cases h
    refine ⟨rfl, ?_⟩
    intro hf
    rw [hx] at hf
    cases hf
  · rw [if_neg hx] at h
    unfold setControllerReference at h
    dsimp only at h
    split at h
    · cases h
      exact ⟨rfl, fun _ => rfl⟩
    · split at h
      · cases h
        exact ⟨rfl, fun _ => rfl⟩
      · cases h

/-- The callback gives an object back that has all it would set. -/
theorem mutateOwned_eq_self {o : Object k}
    (hlabels : ownedLabels cache component o.metadata.labels
      = o.metadata.labels)
    (hbody : body o = o.body)
    (howner : isCrossNamespaceChild cache = false → o.metadata.controller
      = some ⟨cacheKind, cache.name, cache.metadata.uid⟩) :
    mutateOwned cache component body o = .ok o := by
  have hset : ({ setLabels cache component o with body := body o } : Object k)
      = o := by
    unfold setLabels
    rw [hlabels, hbody]
  unfold mutateOwned setControllerReferenceIfSameNamespace
  rw [hset]
  by_cases hx : isCrossNamespaceChild cache = true
  · rw [if_pos hx]
  · have hctl := howner (Bool.eq_false_iff.mpr hx)
    rw [if_neg hx]
    unfold setControllerReference
    rw [hctl]
    simp only [and_self, if_true]
    rw [← hctl]

/-- Setting the labels, body and owner again changes nothing, provided
the body does not. -/
theorem steady_mutateOwned
    (hbody : ∀ o o' : Object k, o'.body = body o →
      o'.metadata.created = true → body o' = body o) :
    Steady (mutateOwned cache component body) := by
  intro s o o' h
  obtain ⟨hb, -, -, -, -, -⟩ := mutateOwned_ok h
  obtain ⟨hlabels, howner⟩ := mutateOwned_metadata h
  apply mutateOwned_eq_self
  · change ownedLabels cache component o'.metadata.labels
      = o'.metadata.labels
    rw [hlabels, (labelled_ownedLabels ..).ownedLabels_eq]
  · rw [hbody o (s.stamp o') hb rfl]
    exact hb.symm
  · exact howner

theorem steady_mutateCellNamespace :
    Steady (mutateCellNamespace cache) := by
  intro s o o' h
  cases h
  have hlabelled := (labelled_ownedLabels cache "cell"
    o.metadata.labels).set labelCellOf (cache.ns ++ "." ++ cache.name)
      (by decide)
  unfold mutateCellNamespace setLabels Cluster.stamp
  dsimp only
  rw [hlabelled.ownedLabels_eq, Dict.set_eq_self _ (Dict.get_set_self ..)]

theorem heldReplicas_true (desired current : Option Int32) :
    heldReplicas true desired current = desired := rfl

theorem steady_mutateStatefulSet :
    Steady (mutateStatefulSet cache true) := by
  apply steady_mutateOwned
  intro o o' hbody hcreated
  simp only [heldReplicas_true] at hbody ⊢
  rw [hbody]
  simp [hcreated]

end

-- ========================================================== the phases

/-- The objects of the cell stand. -/
structure CellStands (cache : DistributedCache) (s : Cluster) : Prop where
  cell : Stands .ns ⟨"", targetNamespace cache⟩ (mutateCellNamespace cache) s
  quota : Stands .resourceQuota ⟨targetNamespace cache, "cell-quota"⟩
    (mutateResourceQuota cache) s
  policy : Stands .networkPolicy ⟨targetNamespace cache, "cell-isolation"⟩
    (mutateNetworkPolicy cache) s

/-- The ring is the one that would be published now, and its write would
be skipped. -/
structure RingStands (srt : SliceSort) (cache : DistributedCache)
    (ring : Ring) (s : Cluster) : Prop where
  eq : nextRing srt cache s = ring
  skips : skipsWrite ring (ringConfigMap cache s) = true

/-- The kinds of the cell's objects. -/
def cellKinds : List Kind := [.ns, .resourceQuota, .networkPolicy]

section
variable {srt : SliceSort} {now : Time} {cache : DistributedCache}
  {s s' : Cluster} {ks : List Kind}

theorem CellStands.sameBut (h : CellStands cache s)
    (hsame : Cluster.SameBut ks s s') (hks : ∀ k ∈ cellKinds, k ∉ ks) :
    CellStands cache s' :=
  ⟨h.cell.sameBut hsame (hks _ (by decide)),
    h.quota.sameBut hsame (hks _ (by decide)),
    h.policy.sameBut hsame (hks _ (by decide))⟩

theorem RingStands.congr {ring : Ring} (h : RingStands srt cache ring s)
    (hcm : s'.objects .configMap = s.objects .configMap)
    (hpods : s'.pods = s.pods) : RingStands srt cache ring s' := by
  have hcm' : ringConfigMap cache s' = ringConfigMap cache s :=
    ringConfigMap_congr (by rw [hcm])
  constructor
  · rw [← h.eq]
    unfold nextRing
    rw [hcm', cachePods_congr hpods]
  · rw [hcm']
    exact h.skips

/-- A phase that keeps one object in shape. -/
theorem reconcileObject_stands {k : Kind} {key : NamespacedName}
    {mutate : Object k → Except GoError (Object k)} {what reason : String}
    {message : OperationResult → String} (hk : k ≠ .distributedCache)
    (hkeeps : Keeps mutate) (hsteady : Steady mutate) :
    (reconcileObject k key what mutate cache reason message).Returns api s
      fun _ s' => Stands k key mutate s' ∧ Cluster.SameBut [k] s s'
        ∧ s'.pods = s.pods :=
  (reconcileObject_returns hk hkeeps).imp fun _ _ h =>
    ⟨h.stands hkeeps hsteady, h.sameBut hkeeps⟩

theorem reconcileCell_returns :
    (reconcileCell cache).Returns api s fun _ s' =>
      (isolated cache = true → CellStands cache s')
        ∧ Cluster.SameBut cellKinds s s' ∧ s'.pods = s.pods := by
  unfold reconcileCell
  by_cases hiso : isolated cache = true
  · rw [if_neg (by simp [hiso])]
    refine (wrapping_returns (reconcileObject_stands (by simp)
      keeps_mutateCellNamespace steady_mutateCellNamespace)).bind ?_
    intro _ s1 ⟨hns, hsame1, hpods1⟩
    refine (wrapping_returns (reconcileObject_stands (by simp)
      keeps_mutateOwned (steady_mutateOwned fun _ _ _ _ => rfl))).bind ?_
    intro _ s2 ⟨hquota, hsame2, hpods2⟩
    refine (wrapping_returns (reconcileObject_stands (by simp)
      keeps_mutateOwned (steady_mutateOwned fun _ _ _ _ => rfl))).imp ?_
    intro _ s3 ⟨hpolicy, hsame3, hpods3⟩
    refine ⟨fun _ => ⟨?_, ?_, hpolicy⟩, (hsame1.trans hsame2).trans hsame3,
      (hpods3.trans hpods2).trans hpods1⟩
    · exact (hns.sameBut hsame2 (by decide)).sameBut hsame3 (by decide)
    · exact hquota.sameBut hsame3 (by decide)
  · rw [if_pos (by simpa using hiso)]
    exact Prog.Returns.ret ⟨fun h => absurd h hiso, .refl, rfl⟩

theorem reconcileServiceTwice_returns :
    (reconcileServiceTwice cache).Returns api s fun _ s' =>
      Stands .service ⟨targetNamespace cache, cache.name⟩
          (mutateService cache) s'
        ∧ Cluster.SameBut [.service] s s' ∧ s'.pods = s.pods := by
  have hkeeps : Keeps (mutateService cache) := keeps_mutateOwned
  have hsteady : Steady (mutateService cache) :=
    steady_mutateOwned fun _ _ _ _ => rfl
  have hfirst : (reconcileService cache).Sat api s (fun _ => True)
      (EndsSettled ⟨targetNamespace cache, cache.name⟩
        (mutateService cache) s) :=
    (reconcileObject_sat (by simp) hkeeps).imp (fun _ _ => trivial)
      fun _ _ h => h
  have hsecond : ∀ s1, (reconcileService cache).Returns api s1
      fun _ s' => Stands .service ⟨targetNamespace cache, cache.name⟩
          (mutateService cache) s'
        ∧ Cluster.SameBut [.service] s1 s' ∧ s'.pods = s1.pods :=
    fun s1 => reconcileObject_stands (by simp) hkeeps hsteady
  unfold reconcileServiceTwice
  refine Prog.Sat.bind (hfirst.attempt (Q := fun res s1 => match res with
      | .ok (.ok _) => Settles ⟨targetNamespace cache, cache.name⟩
          (mutateService cache) s s1
      | .ok (.error _) => Cluster.SameBut [.service] s s1 ∧ s1.pods = s.pods
      | .error _ => False
      | .crashed => True)
    (fun _ _ h => h) ?_ (fun _ _ => trivial)) ?_ (fun _ _ h => h.elim)
    (fun _ _ _ => nofun)
  · intro e s1 h
    rcases h with rfl | h
    · exact ⟨.refl, rfl⟩
    · exact ⟨.of_writes hkeeps h, (writes_frame hkeeps h).1⟩
  · intro x s1 h
    cases x with
    | ok u =>
      exact Prog.Returns.ret ⟨Settles.stands hkeeps hsteady h,
        Settles.sameBut hkeeps h⟩
    | error e =>
      refine (hsecond s1).imp ?_
      intro _ s2 ⟨hstands, hsame, hpods⟩
      refine ⟨hstands, ?_, hpods.trans h.2⟩
      intro k hk
      exact (hsame k hk).trans (h.1 k hk)

/-- The drain changes no object, gives its permission exactly when the
state does, and then leaves everything as it was. -/
theorem drainScaleDown_returns :
    (drainScaleDown now cache).Returns api s fun b s' =>
      s'.objects = s.objects ∧ (b = true ↔ Permits now cache s)
        ∧ (b = true → s' = s) := by
  have hend : (drainScaleDown now cache).Returns api s fun b s' =>
      s'.objects = s.objects ∧ (b = true → s' = s ∧ Permits now cache s) :=
    .of_sat drainScaleDown_sat fun b s' h =>
      ⟨h.annotates.objects, fun hb => h.permitted (by rw [hb])⟩
  by_cases hperm : Permits now cache s
  · refine (Prog.Sat.and hend (drainScaleDown_of_permits (E := fun _ => True)
      hperm (fun _ _ => trivial) fun _ _ => trivial)).imp
      (fun _ _ => trivial) ?_
    intro res s' h b heq
    obtain ⟨hobj, hyes⟩ := h.1 b heq
    exact ⟨hobj, ⟨fun _ => hperm, fun _ => h.2.2 b heq⟩,
      fun h => (hyes h).1⟩
  · refine hend.imp ?_
    intro b s' ⟨hobj, hyes⟩
    exact ⟨hobj, ⟨fun h => (hyes h).2, fun h => absurd h hperm⟩,
      fun h => (hyes h).1⟩

/-- A ring that is stored as published is not written again. -/
theorem ringStands_of_stored {ring : Ring}
    (hstored : storedRing cache s = some ring)
    (hmembers : ring.members = computeMembers srt (cachePods cache s)) :
    RingStands srt cache ring s := by
  have hcurrent : currentRing (ringConfigMap cache s) = ring := by
    rw [currentRing_eq, hstored, Option.getD_some]
  constructor
  · unfold nextRing desiredRing
    rw [hcurrent, if_pos (Ring.membersEqual_iff.mpr hmembers.symm),
      ← hmembers]
  · unfold skipsWrite
    rw [hcurrent, Ring.equal_iff.mpr rfl, Bool.true_and, decide_eq_true_iff]
    obtain ⟨cm, hcm, hpayload⟩ := Option.bind_eq_some_iff.mp hstored
    obtain ⟨text, htext, -⟩ := Option.bind_eq_some_iff.mp hpayload
    rw [hcm]
    exact Dict.size_pos_of_get htext

theorem reconcileRing_returns :
    (reconcileRing srt cache).Returns api s fun ring s' =>
      RingStands srt cache ring s'
        ∧ Cluster.SameBut [.configMap] s s' ∧ s'.pods = s.pods := by
  refine .of_sat reconcileRing_sat ?_
  intro ring s' h
  have hreturned : RingReturned srt cache s s' ring := h
  refine ⟨?_, ?_, hreturned.pods⟩
  · rcases hreturned.published with ⟨-, hstored⟩ | ⟨hskip, rfl⟩
    · apply ringStands_of_stored hstored
      rw [hreturned.eq, nextRing_members, cachePods_congr hreturned.pods]
    · exact ⟨hreturned.eq.symm, hskip⟩
  · intro k hk
    funext key
    apply hreturned.others
    intro heq
    injection heq with heq
    exact hk (by rw [heq]; exact List.mem_singleton_self _)

/-- The replicas the StatefulSet phase starts from. -/
theorem storedOr_replicas :
    (s.storedOr .statefulSet (statefulSetKey cache)).body.replicas
      = storedReplicas cache s := by
  unfold storedReplicas
  cases h : s.objects .statefulSet (statefulSetKey cache) with
  | none =>
    rw [storedOr_of_none h]
    rfl
  | some o =>
    rw [storedOr_of_some h]
    rfl

/-- What the phases that returned `b` and `ring` have left. -/
structure OwnedSettled (srt : SliceSort) (now : Time)
    (cache : DistributedCache) (s : Cluster) (b : Bool) (ring : Ring)
    (s' : Cluster) : Prop where
  cell : isolated cache = true → CellStands cache s'
  service : Stands .service ⟨targetNamespace cache, cache.name⟩
    (mutateService cache) s'
  replicas : storedReplicas cache s' = heldReplicas b
    cache.body.spec.replicas
    (s.storedOr .statefulSet (statefulSetKey cache)).body.replicas
  statefulSet : b = true → Stands .statefulSet (statefulSetKey cache)
    (mutateStatefulSet cache true) s'
  ring : RingStands srt cache ring s'
  permitted : b = true ↔ Permits now cache s
  caches : s'.objects .distributedCache = s.objects .distributedCache

theorem reconcileOwned_returns :
    (reconcileOwned srt now cache).Returns api s fun r s' =>
      OwnedSettled srt now cache s r.1 r.2 s' := by
  unfold reconcileOwned
  refine (orDegrade_returns reconcileCell_returns).bind ?_
  intro _ s1 ⟨hcell, hsame1, hpods1⟩
  refine (orDegrade_returns reconcileServiceTwice_returns).bind ?_
  intro _ s2 ⟨hservice, hsame2, hpods2⟩
  have hcore : s2.core cache = s.core cache := by
    have hsame := hsame1.trans hsame2
    unfold Cluster.core
    rw [hsame .statefulSet (by decide), hsame .configMap (by decide),
      hpods2, hpods1]
  refine (orDegrade_returns drainScaleDown_returns).bind ?_
  intro b s3 ⟨hobjects, hperm, hb⟩
  have hsame3 : Cluster.SameBut [] s2 s3 := fun k _ => by rw [hobjects]
  refine (orDegrade_returns (reconcileObject_returns (by simp)
    keeps_mutateOwned)).bind ?_
  intro _ s4 hsettles
  obtain ⟨hsame4, hpods4⟩ := Settles.sameBut keeps_mutateOwned hsettles
  refine (orDegrade_returns reconcileRing_returns).bind ?_
  intro ring s5 ⟨hring, hsame5, hpods5⟩
  refine Prog.Returns.ret ⟨?_, ?_, ?_, ?_, hring, ?_, ?_⟩
  · intro hiso
    exact (hcell hiso).sameBut (((hsame2.trans hsame3).trans hsame4).trans
      hsame5) (by decide)
  · exact hservice.sameBut ((hsame3.trans hsame4).trans hsame5) (by decide)
  · -- what the StatefulSet phase found is what was there at the start
    obtain ⟨o, ho, -, hbody⟩ := settles_stored hsettles
    have hfound : s3.objects .statefulSet (statefulSetKey cache)
        = s.objects .statefulSet (statefulSetKey cache) := by
      rw [hobjects, core_sts hcore]
    unfold storedReplicas
    rw [hsame5 _ (by decide), ho, Option.bind_some, hbody,
      storedOr_congr hfound]
  · intro hyes
    subst hyes
    exact (Settles.stands keeps_mutateOwned steady_mutateStatefulSet
      hsettles).sameBut hsame5 (by decide)
  · exact hperm.trans (permits_congr hcore)
  · have hall := (((hsame1.trans hsame2).trans hsame3).trans hsame4).trans
      hsame5
    exact hall _ (by decide)

end

-- ========================================================== Reconcile

/-- When to come back after all phases. -/
def comeBack (b : Bool) (cache : DistributedCache) : ReconcileResult :=
  if !b then { requeueAfter := 2 * second }
  else if isCrossNamespaceChild cache then { requeueAfter := 10 * second }
  else {}

section
variable {srt : SliceSort} {now : Time} {cache : DistributedCache}
  {s : Cluster} {key : NamespacedName}

theorem finish_returns {b : Bool} {ring : Ring} :
    (finish now cache b ring).Returns api s fun r s' =>
      r = comeBack b cache
        ∧ s' = (api.serve (.updateStatus (observed now ring cache)) s).2
        ∧ ∃ x, (api.serve (.updateStatus (observed now ring cache)) s).1
          = .ok x := by
  unfold finish
  simp only [bind, pure, Prog.bind, request]
  refine Prog.Returns.call ?_ fun _ => .fail
  cases hsv : (api.serve (.updateStatus (observed now ring cache)) s).1 with
  | error e => exact Prog.Returns.fail
  | ok x =>
    dsimp only
    unfold comeBack
    split
    · exact Prog.Returns.ret ⟨rfl, rfl, x, rfl⟩
    · split
      · exact Prog.Returns.ret ⟨rfl, rfl, x, rfl⟩
      · exact Prog.Returns.ret ⟨rfl, rfl, x, rfl⟩

/-- What a Reconcile to the end has done: the phases have settled the
owned objects in `s1`, and the status was stored in `s'`. -/
structure Concluded (srt : SliceSort) (now : Time)
    (cache : DistributedCache) (s : Cluster) (r : ReconcileResult)
    (s' : Cluster) (b : Bool) (ring : Ring) (s1 : Cluster) : Prop where
  owned : OwnedSettled srt now cache s b ring s1
  result : r = comeBack b cache
  state : s' = (api.serve (.updateStatus (observed now ring cache)) s1).2
  stored : ∃ x, (api.serve (.updateStatus (observed now ring cache)) s1).1
    = .ok x

theorem reconcileLive_returns :
    (reconcileLive srt now cache).Returns api s fun r s' =>
      ∃ b ring s1, Concluded srt now cache s r s' b ring s1 := by
  unfold reconcileLive
  refine reconcileOwned_returns.bind ?_
  intro ⟨b, ring⟩ s1 h
  refine finish_returns.imp ?_
  intro r s' ⟨hresult, hstate, hstored⟩
  exact ⟨b, ring, s1, h, hresult, hstate, hstored⟩

/-- A Reconcile of a live object that returns has come to its end, or has
only put the finalizer on the object and asks to be called again. -/
theorem reconcile_returns
    {stored : {o : DistributedCache // o.key = key}}
    (hstored : s.objects .distributedCache key = some stored)
    (hlive : stored.1.metadata.deleting = false) :
    (reconcile srt now key).Returns api s fun r s' =>
      r.requeue = false → drainFinalizer ∈ stored.1.metadata.finalizers
        ∧ ∃ b ring s1, Concluded srt now stored.1 s r s' b ring s1 := by
  unfold reconcile
  simp only [bind, pure, Prog.bind, request]
  refine Prog.Returns.read rfl ?_ .fail
  rw [serve_get_some hstored]
  dsimp only
  rw [if_neg (by rw [hlive]; simp)]
  split
  · unfold holdCache
    simp only [bind, pure, Prog.bind, request]
    refine .call ?_ fun _ => .fail
    split
    · exact Prog.Returns.fail
    · exact Prog.Returns.ret (by simp)
  · next hheld =>
    refine reconcileLive_returns.imp ?_
    intro r s' h _
    exact ⟨by simpa using hheld, h⟩

end

end CacheOperator
