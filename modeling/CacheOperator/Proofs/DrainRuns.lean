/-
Publishing before terminating, over whole runs with failures.

The drain writes its annotation first and the ring is published two
phases later. An execution that ends in between, by an error or a crash,
leaves pods whose grace period runs while the ring still lists them, and
the next `Reconcile` after the grace period lowers the replicas with the
old ring in place. That is the only way: when every `Reconcile` that
annotates a pod gets to the end of the ring phase, no annotated pod is
ever in the stored ring (`Unlisted`), and a scale-down only takes
annotated pods.

The drain finds the pods by their labels. A pod that bears a name of the
StatefulSet and has lost its labels is taken without having been looked
at, so the pods have to keep them (`PodsLabelled`). The operator leaves
labels alone.
-/
import CacheOperator.Lib.Run
import CacheOperator.Proofs.Object
import CacheOperator.Proofs.Published

namespace CacheOperator

open Lib

-- ======================================================= the same cell

/-- The two objects are one cache, with its objects in one place. -/
structure SameCell (c c' : DistributedCache) : Prop where
  key : c'.key = c.key
  tenant : c'.body.spec.tenant = c.body.spec.tenant

namespace SameCell

variable {c c' : DistributedCache}

theorem symm (h : SameCell c c') : SameCell c' c :=
  ⟨h.key.symm, h.tenant.symm⟩

theorem name (h : SameCell c c') : c'.name = c.name :=
  congrArg NamespacedName.name h.key

theorem isolated (h : SameCell c c') :
    isolated c' = CacheOperator.isolated c := by
  unfold CacheOperator.isolated
  rw [h.tenant]

theorem targetNamespace (h : SameCell c c') :
    targetNamespace c' = CacheOperator.targetNamespace c := by
  have hns : c'.ns = c.ns := congrArg NamespacedName.ns h.key
  unfold CacheOperator.targetNamespace
  rw [h.isolated, h.name, hns]

theorem ringKey (h : SameCell c c') :
    ringKey c' = CacheOperator.ringKey c := by
  unfold CacheOperator.ringKey ringConfigMapName
  rw [h.targetNamespace, h.name]

theorem podName (h : SameCell c c') (i : Int) :
    podName c' i = CacheOperator.podName c i := by
  unfold CacheOperator.podName
  rw [h.name]

theorem cachePods (h : SameCell c c') (s : Cluster) :
    cachePods c' s = CacheOperator.cachePods c s := by
  unfold CacheOperator.cachePods podLabels
  rw [h.targetNamespace, h.name]

theorem storedRing (h : SameCell c c') (s : Cluster) :
    storedRing c' s = CacheOperator.storedRing c s := by
  unfold CacheOperator.storedRing ringConfigMap
  rw [h.ringKey]

theorem ringConfigMap (h : SameCell c c') (s : Cluster) :
    ringConfigMap c' s = CacheOperator.ringConfigMap c s := by
  unfold CacheOperator.ringConfigMap
  rw [h.ringKey]

theorem statefulSetKey (h : SameCell c c') :
    statefulSetKey c' = CacheOperator.statefulSetKey c := by
  unfold CacheOperator.statefulSetKey
  rw [h.targetNamespace, h.name]

theorem storedReplicas (h : SameCell c c') (s : Cluster) :
    storedReplicas c' s = CacheOperator.storedReplicas c s := by
  unfold CacheOperator.storedReplicas
  rw [h.statefulSetKey]

theorem foreign {k : Kind} (h : SameCell c c') (o : Object k) :
    Foreign c' o ↔ Foreign c o := by
  have hns : c'.ns = c.ns := congrArg NamespacedName.ns h.key
  unfold Foreign isCrossNamespaceChild
  rw [h.targetNamespace, h.name, hns]

end SameCell

-- ========================================================== the system

/-- One `Reconcile`, or anything else that happens to the cluster. -/
inductive ClusterEvent where
  | reconcile (now : Time) (fs : List Fault)
  | change (s : Cluster)

def clusterStep (srt : SliceSort) (key : NamespacedName) (s : Cluster) :
    ClusterEvent → Cluster
  | .reconcile now fs => ((reconcile srt now key).exec api fs s).state
  | .change s' => s'

/-- What happens besides the operator: pods come and go and change their
readiness, the spec is edited, but only the operator writes the cache's
ring ConfigMap and drain annotations, and the cache stays where it is. -/
structure Churn (key : NamespacedName) (s s' : Cluster) : Prop where
  ring : ∀ stored, s.objects .distributedCache key = some stored →
    s'.objects .configMap (ringKey stored.1)
      = s.objects .configMap (ringKey stored.1)
  spec : ∀ spec', s'.live key = some spec' →
    ∃ spec, s.live key = some spec ∧ spec'.tenant = spec.tenant
  marks : ∀ q ∈ s'.pods.items, ∀ raw,
    q.metadata.annotations.get drainAnnotation = some raw →
    ∃ p ∈ s.pods.items, p.key = q.key
      ∧ p.metadata.annotations.get drainAnnotation = some raw

/-- The events of a run. -/
def ClusterEvent.Possible (key : NamespacedName) (s : Cluster) :
    ClusterEvent → Prop
  | .reconcile _ _ => True
  | .change s' => Churn key s s'

/-- A `Reconcile` that annotates a pod gets to the end of the ring phase:
its phases change no pod, or they end without an error. The first entry
of the plan is for the read of the object. -/
def GetsThrough (srt : SliceSort) (now : Time) (key : NamespacedName)
    (fs : List Fault) (s : Cluster) : Prop :=
  ∀ stored, s.objects .distributedCache key = some stored →
    ((reconcileOwned srt now stored.1).exec api fs.tail s).state.pods
        = s.pods
      ∨ ∃ x, ((reconcileOwned srt now stored.1).exec api fs.tail s).result
        = .ok x

instance (srt : SliceSort) (now : Time) (key : NamespacedName)
    (fs : List Fault) (s : Cluster) :
    Decidable (GetsThrough srt now key fs s) :=
  inferInstanceAs (Decidable (∀ stored ∈ s.objects .distributedCache key,
    ((reconcileOwned srt now stored.1).exec api fs.tail s).state.pods
        = s.pods
      ∨ ∃ x, ((reconcileOwned srt now stored.1).exec api fs.tail s).result
        = .ok x))

/-- A pod in the cache's namespace that bears a name of its StatefulSet
carries the labels the cache's pods are listed by. -/
def PodsLabelled (cache : DistributedCache) (s : Cluster) : Prop :=
  ∀ q ∈ s.pods.items, q.metadata.ns = targetNamespace cache →
    ∀ i : Int, q.name = podName cache i →
    matchesLabels (podLabels cache) q = true

/-- The same, for the cache as it is stored, while it lives. -/
def LivePodsLabelled (key : NamespacedName) (s : Cluster) : Prop :=
  ∀ stored, s.objects .distributedCache key = some stored →
    stored.1.metadata.deleting = false → PodsLabelled stored.1 s

/-- The events of a run in which no drain is left unpublished and the
pods keep their labels. -/
def ClusterEvent.Publishes (srt : SliceSort) (key : NamespacedName)
    (s : Cluster) : ClusterEvent → Prop
  | .reconcile now fs => GetsThrough srt now key fs s
  | .change s' => Churn key s s' ∧ LivePodsLabelled key s'

/-- No annotated pod is in the stored ring. -/
def Unlisted (cache : DistributedCache) (s : Cluster) : Prop :=
  ∀ q ∈ s.pods.items, q.metadata.ns = targetNamespace cache →
    (q.metadata.annotations.get drainAnnotation).isSome →
    ∀ r, storedRing cache s = some r → q.name ∉ r.members

/-- The same, for the cache as it is stored, while it lives. -/
def LiveUnlisted (key : NamespacedName) (s : Cluster) : Prop :=
  ∀ stored, s.objects .distributedCache key = some stored →
    stored.1.metadata.deleting = false → Unlisted stored.1 s

section

variable {srt : SliceSort} {now : Time} {cache cache' : DistributedCache}
  {key : NamespacedName} {s s' : Cluster} {fs : List Fault}

theorem Unlisted.sameCell (h : Unlisted cache s)
    (hcell : SameCell cache cache') : Unlisted cache' s := by
  unfold Unlisted
  rw [hcell.targetNamespace, hcell.storedRing]
  exact h

/-- A pod is determined by its namespace and its name. -/
theorem pod_unique {p q : Pod} (hp : p ∈ s.pods.items)
    (hq : q ∈ s.pods.items) (hkey : p.key = q.key) : p = q := by
  have hp' := find?_of_mem hp
  rw [hkey, find?_of_mem hq] at hp'
  cases hp'
  rfl

theorem cachePods_ns {p : Pod} (hp : p ∈ cachePods cache s) :
    p.metadata.ns = targetNamespace cache := by
  have h := (List.mem_filter.mp hp).2
  rw [Bool.and_eq_true, beq_iff_eq] at h
  exact h.1

theorem pod_key_eq {p q : Pod} (hns : p.metadata.ns = q.metadata.ns)
    (hname : p.name = q.name) : p.key = q.key := by
  unfold Pod.key ObjectMeta.key
  unfold Pod.name at hname
  rw [hns, hname]

/-- A ring computed from the present pods lists no annotated one. -/
theorem unlisted_of_computed (srt : SliceSort)
    (h : ∀ r, storedRing cache s = some r →
      r.members = computeMembers srt (cachePods cache s)) :
    Unlisted cache s := by
  intro q hq hns hann r hr hmem
  rw [h r hr] at hmem
  obtain ⟨p, hp, ord, hentry⟩ := mem_computeMembers.mp hmem
  obtain ⟨-, hnone, -, -, -, hname⟩ := ringEntry_eq_some.mp hentry
  have hpq : p = q := pod_unique (mem_cachePods hp) hq
    (pod_key_eq ((cachePods_ns hp).trans hns.symm) hname)
  rw [hpq] at hnone
  rw [hnone] at hann
  cases hann

/-- After the ring phase the stored ring, if there is one, is the one
computed from the pods. -/
theorem OwnedReturned.stored_members {b : Bool} {ring r : Ring}
    (h : OwnedReturned srt now cache s s' b ring)
    (hr : storedRing cache s' = some r) :
    r.members = computeMembers srt (cachePods cache s') := by
  have hring : ring.members = computeMembers srt (cachePods cache s') := by
    rw [h.eq]
    exact desiredRing_members _ _
  rcases h.published with ⟨-, hstored⟩ | ⟨hskip, hsame⟩
  · rw [hstored] at hr
    cases hr
    exact hring
  · -- the write was skipped because the ring is the stored one
    rw [storedRing_congr hsame] at hr
    rw [(skipsWrite_iff.mp hskip).1, currentRing_eq, hr] at hring
    exact hring

-- =========================================================== one event

/-- What the phases leave when they start with no annotated pod listed
and get through. -/
theorem unlisted_of_owned (h : Unlisted cache s)
    (hthrough : ((reconcileOwned srt now cache).exec api fs s).state.pods
        = s.pods
      ∨ ∃ x, ((reconcileOwned srt now cache).exec api fs s).result
        = .ok x) :
    Unlisted cache ((reconcileOwned srt now cache).exec api fs s).state := by
  have hend : OwnedEnd srt now cache s
      ((reconcileOwned srt now cache).exec api fs s).result
      ((reconcileOwned srt now cache).exec api fs s).state :=
    (reconcileOwned_sat fs).2
  rcases hthrough with hpods | ⟨x, hres⟩
  · rcases (OwnedEnd.effect hend).cm with hcm | ⟨hring, -⟩
    · unfold Unlisted
      rw [hpods, storedRing_congr hcm]
      exact h
    · refine unlisted_of_computed srt fun r hr => ?_
      rw [hring] at hr
      cases hr
      exact desiredRing_members _ _
  · rw [hres] at hend
    exact unlisted_of_computed srt fun r hr => hend.stored_members hr

theorem Unlisted.congr (h : Unlisted cache s)
    (hcore : s'.core cache = s.core cache) : Unlisted cache s' := by
  unfold Unlisted
  rw [core_pods hcore, storedRing_congr (core_cm hcore)]
  exact h

/-- Objects with one key and one spec are in one cell. -/
theorem sameCell_of_spec {stored stored' : {o : DistributedCache // o.key = key}}
    (h : stored'.1.body.spec.tenant = stored.1.body.spec.tenant) :
    SameCell stored.1 stored'.1 :=
  ⟨stored'.2.trans stored.2.symm, h⟩

/-- A live object was there before the `Reconcile`, in the same cell. -/
theorem stored_before_reconcile
    {stored' : {o : DistributedCache // o.key = key}}
    (hstored' : ((reconcile srt now key).exec api fs s).state.objects
      .distributedCache key = some stored')
    (hlive' : stored'.1.metadata.deleting = false) :
    ∃ stored : {o : DistributedCache // o.key = key},
      s.objects .distributedCache key = some stored
      ∧ stored.1.metadata.deleting = false
      ∧ SameCell stored.1 stored'.1 := by
  have hsame : ((reconcile srt now key).exec api fs s).state.live key
      = s.live key := (reconcile_live srt now key s fs).2
  rw [live_of_stored hstored' hlive'] at hsame
  obtain ⟨stored, hstored, hlive, hspec⟩ := live_eq_some hsame.symm
  exact ⟨stored, hstored, hlive, sameCell_of_spec (by rw [hspec])⟩

theorem liveUnlisted_reconcile (h : LiveUnlisted key s)
    (hthrough : GetsThrough srt now key fs s) :
    LiveUnlisted key ((reconcile srt now key).exec api fs s).state := by
  intro stored' hstored' hlive'
  obtain ⟨stored, hstored, hlive, hcell⟩ :=
    stored_before_reconcile hstored' hlive'
  refine Unlisted.sameCell ?_ hcell
  rcases reconcile_core srt now hstored hlive fs with hcore | hcore
  · exact (h stored hstored hlive).congr hcore
  · exact (unlisted_of_owned (h stored hstored hlive)
      (hthrough stored hstored)).congr hcore

theorem liveUnlisted_churn (h : LiveUnlisted key s)
    (hchurn : Churn key s s') : LiveUnlisted key s' := by
  intro stored' hstored' hlive'
  obtain ⟨spec, hspec, htenant⟩ := hchurn.spec _
    (live_of_stored hstored' hlive')
  obtain ⟨stored, hstored, hlive, rfl⟩ := live_eq_some hspec
  have hcell : SameCell stored.1 stored'.1 := sameCell_of_spec htenant
  refine Unlisted.sameCell ?_ hcell
  intro q hq hns hann r hr
  obtain ⟨raw, hraw⟩ := Option.isSome_iff_exists.mp hann
  obtain ⟨p, hp, hkey, hpraw⟩ := hchurn.marks q hq raw hraw
  rw [storedRing_congr (hchurn.ring stored hstored)] at hr
  have hname : p.name = q.name := congrArg NamespacedName.name hkey
  have hpns : p.metadata.ns = q.metadata.ns :=
    congrArg NamespacedName.ns hkey
  rw [← hname]
  exact h stored hstored hlive p hp (hpns.trans hns) (by rw [hpraw]; rfl)
    r hr

/-- No annotated pod is listed, along every run that publishes its
drains. -/
theorem liveUnlisted_of_run (h : LiveUnlisted key s)
    (hrun : Run (clusterStep srt key) (fun s e => e.Publishes srt key s)
      s s') : LiveUnlisted key s' := by
  refine hrun.invariant (fun s e ih he => ?_) h
  cases e with
  | reconcile now fs => exact liveUnlisted_reconcile ih he
  | change s'' => exact liveUnlisted_churn ih he.1

-- ========================================================== the labels

theorem PodsLabelled.congr (h : PodsLabelled cache s) (hpods : s'.pods = s.pods) :
    PodsLabelled cache s' := by
  unfold PodsLabelled
  rw [hpods]
  exact h

theorem PodsLabelled.sameCell (h : PodsLabelled cache s)
    (hcell : SameCell cache cache') : PodsLabelled cache' s := by
  intro q hq hns i hname
  rw [hcell.targetNamespace] at hns
  rw [hcell.podName] at hname
  have hlabels : podLabels cache' = podLabels cache := by
    unfold podLabels
    rw [hcell.name]
  rw [hlabels]
  exact h q hq hns i hname

/-- What is listed by name is listed by label. -/
theorem PodsLabelled.listed (h : PodsLabelled cache s) {p : Pod}
    (hp : p ∈ s.pods.items) (hns : p.metadata.ns = targetNamespace cache)
    {i : Int} (hname : p.name = podName cache i) :
    p ∈ cachePods cache s := by
  refine List.mem_filter.mpr ⟨hp, ?_⟩
  rw [Bool.and_eq_true, beq_iff_eq]
  exact ⟨hns, h p hp hns i hname⟩

/-- The pod sent along carries the labels. -/
def Request.WithLabels (cache : DistributedCache) (r : Request) : Prop :=
  ∀ p, r = .updatePod p → matchesLabels (podLabels cache) p = true

theorem PodsLabelled.serve {r : Request} (h : PodsLabelled cache s)
    (hr : r.WithLabels cache) : PodsLabelled cache (api.serve r s).2 := by
  by_cases hpod : ∃ p, r = .updatePod p
  · obtain ⟨p, rfl⟩ := hpod
    show PodsLabelled cache (s.serveUpdatePod p).2
    unfold Cluster.serveUpdatePod
    split
    · exact h
    split
    · exact h
    split
    · exact h
    · intro q hq
      obtain ⟨q', hq', rfl⟩ := List.mem_map.mp hq
      split
      · exact fun _ _ _ => hr p rfl
      · exact h q' hq'
  · refine h.congr (serve_pods fun key hkey => hpod ?_)
    cases r with
    | updatePod p => exact ⟨p, rfl⟩
    | get k key => cases hkey
    | create k o => cases hkey
    | update k o => cases hkey
    | updateStatus c => cases hkey
    | deleteNamespace name => cases hkey
    | listPods ns labels => cases hkey
    | event ns reason text => cases hkey

/-- A program that sends no pod but with its labels. -/
theorem labelled_of_uses {α : Type} {p : Op α} (h : PodsLabelled cache s)
    (hp : p.Uses (Request.WithLabels cache)) :
    p.Sat api s (fun _ => True) fun _ s' => PodsLabelled cache s' :=
  Prog.Sat.of_uses_keeping (fun _ _ hr hs => hs.serve hr) hp h

theorem Request.OfObject.withLabels {k : Kind} {key : NamespacedName}
    {r : Request} (h : r.OfObject cache k key) : r.WithLabels cache := by
  intro p hp
  subst hp
  cases h

/-- The pods that are annotated were listed by their labels. -/
theorem drainScaleDown_labelled (h : PodsLabelled cache s) :
    (drainScaleDown now cache).Sat api s (fun _ => True)
      fun _ s' => PodsLabelled cache s' := by
  refine drainScaleDown_rule h (fun _ => h) (fun _ _ => trivial)
    (fun _ => h) fun doomed _ => ?_
  refine Prog.Sat.bind_only (listPods_sat fun _ _ => trivial) h
    (fun _ => h) ?_
  refine labelled_of_uses h (drainScaleDownLoop_uses _ _ ?_ ?_)
  · intro p hp p' hp'
    cases hp'
    have hlisted := (List.mem_filter.mp hp).2
    rw [Bool.and_eq_true] at hlisted
    exact hlisted.2
  · intro reason text p hp
    cases hp

theorem orDegrade_labelled {α : Type} {reason : Reason} {text : String}
    {p : Op α}
    (hp : p.Sat api s (fun _ => True) fun _ s' => PodsLabelled cache s') :
    (orDegrade now cache reason text p).Sat api s (fun _ => True)
      fun _ s' => PodsLabelled cache s' :=
  orDegrade_sat hp (fun _ _ h => h) (fun _ h => h)
    (fun _ _ _ _ _ _ _ _ => trivial)
    (fun _ _ _ _ h hcore => h.congr (core_pods hcore)) fun _ _ h => h

theorem reconcileOwned_labelled (h : PodsLabelled cache s) :
    (reconcileOwned srt now cache).Sat api s (fun _ => True)
      fun _ s' => PodsLabelled cache s' := by
  have hlist : Request.WithLabels cache
      (.listPods (targetNamespace cache) (podLabels cache)) := by
    intro p hp
    cases hp
  unfold reconcileOwned
  refine Prog.Sat.bind (orDegrade_labelled (labelled_of_uses h
    (reconcileCell_uses fun _ _ _ _ _ _ hr => hr.withLabels)))
    (fun _ s₁ h₁ => ?_) (fun _ _ h => h) fun _ h => h
  refine Prog.Sat.bind (orDegrade_labelled (labelled_of_uses h₁
    (reconcileServiceTwice_uses fun _ hr => hr.withLabels)))
    (fun _ s₂ h₂ => ?_) (fun _ _ h => h) fun _ h => h
  refine Prog.Sat.bind (orDegrade_labelled (drainScaleDown_labelled h₂))
    (fun b s₃ h₃ => ?_) (fun _ _ h => h) fun _ h => h
  refine Prog.Sat.bind (orDegrade_labelled (labelled_of_uses h₃
    (reconcileObject_uses fun _ hr => hr.withLabels)))
    (fun _ s₄ h₄ => ?_) (fun _ _ h => h) fun _ h => h
  exact Prog.Sat.bind (orDegrade_labelled (labelled_of_uses h₄
    (reconcileRing_uses hlist fun _ hr => hr.withLabels)))
    (fun _ _ h₅ => .ret h₅) (fun _ _ h => h) fun _ h => h

theorem livePodsLabelled_reconcile (h : LivePodsLabelled key s) :
    LivePodsLabelled key ((reconcile srt now key).exec api fs s).state := by
  intro stored' hstored' hlive'
  obtain ⟨stored, hstored, hlive, hcell⟩ :=
    stored_before_reconcile hstored' hlive'
  refine PodsLabelled.sameCell ?_ hcell
  rcases reconcile_core srt now hstored hlive fs with hcore | hcore
  · exact (h stored hstored hlive).congr (core_pods hcore)
  · exact PodsLabelled.congr (reconcileOwned_labelled
      (h stored hstored hlive) fs.tail).2 (core_pods hcore)

theorem livePodsLabelled_of_run (h : LivePodsLabelled key s)
    (hrun : Run (clusterStep srt key) (fun s e => e.Publishes srt key s)
      s s') : LivePodsLabelled key s' := by
  refine hrun.invariant (fun s e ih he => ?_) h
  cases e with
  | reconcile now fs => exact livePodsLabelled_reconcile ih
  | change s'' => exact he.2

end

/-- In a run in which every `Reconcile` that annotates a pod gets to the
end of the ring phase and pods keep their labels, the stored ring lists
none of the existing pods that a `Reconcile` is about to terminate, at
the moment it lowers the replicas. -/
theorem published_before_terminated (srt : SliceSort)
    (key : NamespacedName) (s₀ s : Cluster) (hstart : LiveUnlisted key s₀)
    (hlabels : LivePodsLabelled key s₀)
    (hrun : Run (clusterStep srt key) (fun s e => e.Publishes srt key s)
      s₀ s)
    (now : Time) (fs : List Fault)
    (stored : {o : DistributedCache // o.key = key})
    (hstored : s.objects .distributedCache key = some stored)
    (e : Call) (he : e ∈ ((reconcile srt now key).exec api fs s).trace)
    (c d : Int32) (hl : Lowers stored.1 e c d)
    (r : Ring) (hr : storedRing stored.1 e.before = some r)
    (p : Pod) (hp : p ∈ e.before.pods.items)
    (hns : p.metadata.ns = targetNamespace stored.1)
    (i : Int) (hlo : d.toInt ≤ i) (hhi : i < c.toInt)
    (hname : p.name = podName stored.1 i) : p.name ∉ r.members := by
  have hun := liveUnlisted_of_run hstart hrun
  have hlab := livePodsLabelled_of_run hlabels hrun
  obtain ⟨hlive, hd, hcore, hperm⟩ :=
    ((reconcile_sat srt now hstored fs).1 e he).lowers c d hl
  rw [core_pods hcore] at hp
  rw [storedRing_congr (core_cm hcore)] at hr
  -- the labels bring the pod before the drain
  obtain ⟨raw, -, hraw, -⟩ :=
    hperm p ((hlab stored hstored hlive).listed hp hns hname)
      (doomed_of_lowers hl hcore hd hlo hhi hname)
  exact hun stored hstored hlive p hp hns (by rw [hraw]; rfl) r hr

-- ==================================================== a small cluster

/-- Two ready pods, both in the stored ring, of which the second has to
go: the user asks for one replica. -/
def ordersShrunk : Cluster :=
  (ordersCluster 1 2 (ordersPods (true, none) (true, none))).put
    (ordersConfigMap (Dict.empty.set "ring.json"
      (marshalRing ⟨1, ["orders-cache-0", "orders-cache-1"]⟩)))

theorem ordersShrunk_unlisted : LiveUnlisted ordersKey ordersShrunk := by
  have hnone : ∀ q ∈ ordersShrunk.pods.items,
      q.metadata.annotations.get drainAnnotation = none := by
    decide
  intro stored _ _ q hq _ hann
  rw [hnone q hq] at hann
  cases hann

theorem ordersShrunk_labelled : LivePodsLabelled ordersKey ordersShrunk := by
  have hall : ∀ q ∈ ordersShrunk.pods.items,
      matchesLabels (podLabels (ordersCache 1)) q = true := by
    decide
  intro stored hstored _ q hq _ _ _
  rw [show ordersShrunk.objects .distributedCache ordersKey
    = some ⟨ordersCache 1, rfl⟩ from rfl] at hstored
  cases hstored
  exact hall q hq

/-- The cluster after the drain has started at second 100, with a plan
for what fails. -/
def ordersDraining (fs : List Fault) : Cluster :=
  clusterStep .insertionSort ordersKey ordersShrunk
    (.reconcile (Time.ofUnix 100) fs)

theorem ordersDraining_run {P : Cluster → ClusterEvent → Prop}
    {fs : List Fault}
    (h : P ordersShrunk (.reconcile (Time.ofUnix 100) fs)) :
    Run (clusterStep .insertionSort ordersKey) P ordersShrunk
      (ordersDraining fs) :=
  .snoc .nil _ h

/-- The `Reconcile` 30 seconds later. -/
def ordersTermination (fs : List Fault) : List Call :=
  ((reconcile .insertionSort (Time.ofUnix 130) ordersKey).exec api []
    (ordersDraining fs)).trace

/-- The drain is published at second 100; at second 130 the replicas are
lowered, and the pod that goes is in no ring. -/
theorem published_before_terminated_orders :
    ∃ stored, ∃ e ∈ ordersTermination [], ∃ p,
      Lowers stored e 2 1 ∧ p ∈ e.before.pods.items
        ∧ p.metadata.ns = targetNamespace stored
        ∧ p.name = podName stored 1
        ∧ ∀ r, storedRing stored e.before = some r →
          p.name ∉ r.members := by
  have hthrough : GetsThrough .insertionSort (Time.ofUnix 100) ordersKey []
      ordersShrunk := by
    decide +kernel
  have hrun : Run (clusterStep .insertionSort ordersKey)
      (fun s e => e.Publishes .insertionSort ordersKey s) ordersShrunk
      (ordersDraining []) :=
    ordersDraining_run hthrough
  have hany : ((ordersDraining []).objects .distributedCache ordersKey).any
      (fun (stored : {o : DistributedCache // o.key = ordersKey}) =>
        decide (∃ e ∈ ordersTermination [], Lowers stored.1 e 2 1
          ∧ ∃ p ∈ e.before.pods.items,
            p.metadata.ns = targetNamespace stored.1
              ∧ p.name = podName stored.1 1)) = true := by
    decide +kernel
  obtain ⟨stored, hstored, h⟩ := (Option.any_eq_true _ _).mp hany
  obtain ⟨e, he, hl, p, hp, hns, hname⟩ := of_decide_eq_true h
  exact ⟨stored.1, e, he, p, hl, hp, hns, hname, fun r hr =>
    published_before_terminated .insertionSort ordersKey ordersShrunk
      (ordersDraining []) ordersShrunk_unlisted ordersShrunk_labelled hrun
      (Time.ofUnix 130) [] stored hstored e he 2 1 hl r hr p hp hns 1
      (by decide) (by decide) hname⟩

/-- The operator dies after the annotation and before the ring: the pod's
grace period runs out while the ring lists it, and it is terminated. -/
theorem unpublished_drain_is_terminated :
    Run (clusterStep .insertionSort ordersKey)
        (fun s e => e.Possible ordersKey s) ordersShrunk
        (ordersDraining (.replicate 8 .none ++ [.crash]))
      ∧ ∃ e ∈ ordersTermination (.replicate 8 .none ++ [.crash]),
        Lowers (ordersCache 1) e 2 1
          ∧ storedRing (ordersCache 1) e.before
            = some ⟨1, ["orders-cache-0", "orders-cache-1"]⟩
          ∧ ∃ p ∈ cachePods (ordersCache 1) e.before,
            p.name = "orders-cache-1" ∧ p.name = podName (ordersCache 1) 1 :=
  ⟨ordersDraining_run trivial, by decide +kernel⟩

end CacheOperator
