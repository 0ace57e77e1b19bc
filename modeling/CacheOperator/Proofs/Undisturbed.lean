/-
What can stop an undisturbed Reconcile.

With no API call failing, one thing is left that makes a phase return an
error: an object it would write is controlled by somebody else. The cell
and the Service come first, so when one of theirs is in the way nothing
that matters has happened yet. A foreign StatefulSet stops the Reconcile
after the drain has started, and a foreign ring ConfigMap after the
StatefulSet was written. When none of them is (`Unclaimed`), a Reconcile
comes to its end, and leaves them so.
-/
import CacheOperator.Proofs.DrainRuns
import CacheOperator.Proofs.Idempotent

namespace CacheOperator

open Lib

/-- None of the objects that the phases write has another controller. -/
structure Unclaimed (cache : DistributedCache) (s : Cluster) : Prop where
  quota : isolated cache = true → ¬Foreign cache (s.storedOr
    .resourceQuota ⟨targetNamespace cache, "cell-quota"⟩)
  policy : isolated cache = true → ¬Foreign cache (s.storedOr
    .networkPolicy ⟨targetNamespace cache, "cell-isolation"⟩)
  service : ¬Foreign cache (s.storedOr .service
    ⟨targetNamespace cache, cache.name⟩)
  statefulSet : ¬Foreign cache (s.storedOr .statefulSet
    (statefulSetKey cache))
  ring : ¬Foreign cache (s.storedOr .configMap (ringKey cache))

section

variable {srt : SliceSort} {now : Time} {cache : DistributedCache}
  {s s' : Cluster} {k : Kind} {key : NamespacedName} {ks : List Kind}

-- =========================================================== the phases

theorem wrapping_completes {α : Type} {text : String} {p : Op α}
    (h : p.Completes api s) : (wrapping text p).Completes api s := by
  obtain ⟨a, ha⟩ := h
  exact ⟨a, congrArg Prod.fst (wrapping_run (Prod.ext ha rfl))⟩

theorem orDegrade_completes {α : Type} {reason : Reason} {text : String}
    {p : Op α} (h : p.Completes api s) :
    (orDegrade now cache reason text p).Completes api s := by
  obtain ⟨a, ha⟩ := h
  exact ⟨a, congrArg Prod.fst (orDegrade_run (Prod.ext ha rfl))⟩

/-- A phase that keeps one object in shape, when nobody else has it. -/
theorem reconcileObject_completes {component what reason : String}
    {body : Object k → k.Body} {message : OperationResult → String}
    (hk : k ≠ .distributedCache)
    (h : ¬Foreign cache (s.storedOr k key)) :
    (reconcileObject k key what (mutateOwned cache component body) cache
      reason message).Completes api s := by
  obtain ⟨o, ho⟩ := mutateOwned_of_not_foreign h
  exact ⟨(), reconcileObject_run hk keeps_mutateOwned ho⟩

theorem Cluster.SameBut.storedOr (h : Cluster.SameBut ks s s')
    (hk : k ∉ ks) : s'.storedOr k key = s.storedOr k key :=
  storedOr_congr (congrFun (h k hk) key)

theorem reconcileCell_completes (h : Unclaimed cache s) :
    (reconcileCell cache).Completes api s := by
  unfold reconcileCell
  by_cases hiso : isolated cache = true
  · rw [if_neg (by simp [hiso])]
    refine (wrapping_completes ⟨(), ?_⟩).bind
      (wrapping_returns (reconcileObject_stands (by simp)
        keeps_mutateCellNamespace steady_mutateCellNamespace)) ?_
    · exact reconcileObject_run (by simp) keeps_mutateCellNamespace rfl
    intro _ s1 h1
    refine (wrapping_completes (reconcileObject_completes (by simp)
      ?_)).bind (wrapping_returns (reconcileObject_stands (by simp)
        keeps_mutateOwned (steady_mutateOwned fun _ _ _ _ => rfl))) ?_
    · rw [h1.2.1.storedOr (by decide)]
      exact h.quota hiso
    intro _ s2 h2
    refine wrapping_completes (reconcileObject_completes (by simp) ?_)
    rw [h2.2.1.storedOr (by decide), h1.2.1.storedOr (by decide)]
    exact h.policy hiso
  · rw [if_pos (by simpa using hiso)]
    exact ⟨(), rfl⟩

theorem reconcileServiceTwice_completes
    (h : ¬Foreign cache (s.storedOr .service
      ⟨targetNamespace cache, cache.name⟩)) :
    (reconcileServiceTwice cache).Completes api s := by
  have hfirst : (reconcileService cache).Completes api s :=
    reconcileObject_completes (by simp) h
  obtain ⟨u, hu⟩ := hfirst
  refine ⟨(), ?_⟩
  unfold reconcileServiceTwice
  rw [Prog.run_bind, Prog.run_attempt, hu]
  rfl

theorem reconcileRing_completes
    (h : ¬Foreign cache (s.storedOr .configMap (ringKey cache))) :
    (reconcileRing srt cache).Completes api s := by
  have hpublish : ∀ ring, (publishRing cache ring).Completes api s :=
    fun ring => reconcileObject_completes (by simp) h
  have hlist : (listPods cache "list pods").run api s
      = (.ok (cachePods cache s), s) := rfl
  unfold reconcileRing Prog.Completes
  rw [Prog.run_bind, hlist]
  dsimp only
  rw [Prog.run_bind, getRingConfigMap_run]
  dsimp only
  split
  · exact ⟨_, rfl⟩
  · exact (hpublish _).bind (reconcileObject_returns (by simp)
      keeps_mutateOwned) fun _ _ _ => ⟨_, rfl⟩

-- ========================================================= all phases

theorem core_of_run {α : Type} {reason : Reason} {text : String}
    {p : Op α} {res : Except GoError α} (hp : p.Uses Request.Peripheral)
    (hrun : (orDegrade now cache reason text p).run api s = (res, s')) :
    s'.core cache = s.core cache := by
  have huses : (orDegrade now cache reason text p).Uses
      Request.Peripheral :=
    orDegrade_uses hp fun c _ => peripheral_updateStatus c
  have hframe := Prog.run_frame (core_serve cache) huses s
  rw [hrun] at hframe
  exact hframe

/-- The phases from `s` have returned, or they ended before the drain
because something was in the way. -/
def ReturnsOrStops {α : Type} (cache : DistributedCache) (s : Cluster)
    (out : Except GoError α × Cluster) : Prop :=
  (∃ x, out.1 = .ok x)
    ∨ ¬Unclaimed cache s ∧ out.2.core cache = s.core cache

/-- With nobody else's StatefulSet or ring ConfigMap in the way, nothing
stops the phases once the drain has begun. -/
theorem reconcileOwned_run
    (hsts : ¬Foreign cache (s.storedOr .statefulSet (statefulSetKey cache)))
    (hcm : ¬Foreign cache (s.storedOr .configMap (ringKey cache))) :
    ReturnsOrStops cache s
      ((reconcileOwned srt now cache).run api s) := by
  unfold reconcileOwned
  refine Prog.run_bind_cases (Q := ReturnsOrStops cache s) ?_ ?_
  · intro _ s1 hrun1
    obtain ⟨-, hsame1, hpods1⟩ :=
      (orDegrade_returns reconcileCell_returns).run hrun1
    refine Prog.run_bind_cases (Q := ReturnsOrStops cache s) ?_ ?_
    · intro _ s2 hrun2
      obtain ⟨-, hsame2, hpods2⟩ :=
        (orDegrade_returns reconcileServiceTwice_returns).run hrun2
      have hsame := hsame1.trans hsame2
      -- from here on nothing can fail
      left
      refine (orDegrade_completes drainScaleDown_run).bind
        (orDegrade_returns drainScaleDown_returns) ?_
      intro b s3 ⟨hobjects, _⟩
      have hobjects' : ∀ k key, s3.objects k key = s2.objects k key :=
        fun k key => by rw [hobjects]
      refine (orDegrade_completes (reconcileObject_completes (by simp)
        ?_)).bind (orDegrade_returns (reconcileObject_returns (by simp)
          keeps_mutateOwned)) ?_
      · rw [storedOr_congr (hobjects' _ _), hsame.storedOr (by decide)]
        exact hsts
      intro _ s4 hsettles
      obtain ⟨hsame4, -⟩ := Settles.sameBut keeps_mutateOwned hsettles
      refine (orDegrade_completes (reconcileRing_completes ?_)).bind
        (orDegrade_returns reconcileRing_returns) fun _ _ _ => ⟨_, rfl⟩
      rw [hsame4.storedOr (by decide), storedOr_congr (hobjects' _ _),
        hsame.storedOr (by decide)]
      exact hcm
    · intro e s2 hrun2
      right
      constructor
      · intro hun
        refine absurd hrun2 (Prog.Completes.not_error
          (orDegrade_completes (reconcileServiceTwice_completes ?_)))
        rw [hsame1.storedOr (by decide)]
        exact hun.service
      · exact (core_of_run reconcileServiceTwice_peripheral hrun2).trans
          (core_of_run reconcileCell_peripheral hrun1)
  · intro e s1 hrun1
    right
    constructor
    · intro hun
      exact absurd hrun1 (Prog.Completes.not_error
        (orDegrade_completes (reconcileCell_completes hun)))
    · exact core_of_run reconcileCell_peripheral hrun1

-- ========================================================== Reconcile

theorem not_foreign_of_stands {component : String}
    {body : Object k → k.Body}
    (h : Stands k key (mutateOwned cache component body) s) :
    ¬Foreign cache (s.storedOr k key) := by
  obtain ⟨o, ho, hm⟩ := h
  rw [storedOr_of_some ho]
  exact (mutateOwned_ok hm).2.2.2.2.2

/-- The ring ConfigMap stays the cache's own. -/
theorem OwnedEffect.ring_not_foreign (h : OwnedEffect srt now cache s s')
    (hcm : ¬Foreign cache (s.storedOr .configMap (ringKey cache))) :
    ¬Foreign cache (s'.storedOr .configMap (ringKey cache)) := by
  rcases h.cm with hsame | ⟨-, cm, hcm', hnf⟩
  · rw [storedOr_congr hsame]
    exact hcm
  · rw [storedOr_of_some hcm']
    exact hnf

/-- Phases that returned leave nothing that would stop the next ones. -/
theorem Unclaimed.settled {b : Bool} {ring : Ring}
    (h : Unclaimed cache s)
    (hsettled : OwnedSettled srt now cache s b ring s')
    (heffect : OwnedEffect srt now cache s s') : Unclaimed cache s' where
  quota hiso := not_foreign_of_stands (hsettled.cell hiso).quota
  policy hiso := not_foreign_of_stands (hsettled.cell hiso).policy
  service := not_foreign_of_stands hsettled.service
  statefulSet := by
    rcases heffect.sts with hsame | ⟨-, o, -, ho, hnf, -⟩
    · rw [storedOr_congr hsame]
      exact h.statefulSet
    · rw [storedOr_of_some ho]
      exact hnf
  ring := heffect.ring_not_foreign h.ring

theorem Unclaimed.sameBut (h : Unclaimed cache s)
    (hsame : Cluster.SameBut [.distributedCache] s s') :
    Unclaimed cache s' where
  quota hiso := by
    rw [hsame.storedOr (by decide)]
    exact h.quota hiso
  policy hiso := by
    rw [hsame.storedOr (by decide)]
    exact h.policy hiso
  service := by
    rw [hsame.storedOr (by decide)]
    exact h.service
  statefulSet := by
    rw [hsame.storedOr (by decide)]
    exact h.statefulSet
  ring := by
    rw [hsame.storedOr (by decide)]
    exact h.ring

theorem Unclaimed.sameCell {c c' : DistributedCache}
    (h : Unclaimed c s) (hcell : SameCell c c') : Unclaimed c' s where
  quota hiso := by
    rw [hcell.foreign, hcell.targetNamespace]
    exact h.quota (hcell.isolated.symm.trans hiso)
  policy hiso := by
    rw [hcell.foreign, hcell.targetNamespace]
    exact h.policy (hcell.isolated.symm.trans hiso)
  service := by
    rw [hcell.foreign, hcell.targetNamespace, hcell.name]
    exact h.service
  statefulSet := by
    rw [hcell.foreign, hcell.statefulSetKey]
    exact h.statefulSet
  ring := by
    rw [hcell.foreign, hcell.ringKey]
    exact h.ring

/-- The status of an object that was read is stored. -/
theorem serve_updateStatus_read {w : DistributedCache}
    {stored : {o : DistributedCache // o.key = key}}
    (hstored : s.objects .distributedCache key = some stored)
    (hmeta : w.metadata = stored.1.metadata) :
    ∃ x, (api.serve (.updateStatus w) s).1 = .ok x := by
  have hkey : w.key = key :=
    (congrArg ObjectMeta.key hmeta).trans stored.2
  subst hkey
  show ∃ x, (s.serveUpdateStatus w).1 = .ok x
  unfold Cluster.serveUpdateStatus
  rw [hstored]
  dsimp only
  rw [if_neg (by rw [hmeta]; simp)]
  exact ⟨_, rfl⟩

/-- The object is stored, alive, and has the finalizer. -/
structure Held (s : Cluster)
    (o : {o : DistributedCache // o.key = key}) : Prop where
  stored : s.objects .distributedCache key = some o
  live : o.1.metadata.deleting = false
  finalizer : drainFinalizer ∈ o.1.metadata.finalizers

/-- What an undisturbed Reconcile that found `stored` has done when it
came to its end. -/
structure Reconciled (srt : SliceSort) (now : Time)
    (stored : {o : DistributedCache // o.key = key}) (s : Cluster)
    (b : Bool) (ring : Ring) (s' : Cluster) : Prop where
  returned : OwnedReturned srt now stored.1 s s' b ring
  permitted : b = true ↔ Permits now stored.1 s
  replicas : storedReplicas stored.1 s' = heldReplicas b
    stored.1.body.spec.replicas
    (s.storedOr .statefulSet (statefulSetKey stored.1)).body.replicas
  unclaimed : Unclaimed stored.1 s'
  held : ∃ stored' : {o : DistributedCache // o.key = key},
    Held s' stored' ∧ stored'.1.body.spec = stored.1.body.spec

theorem OwnedReturned.congr {s'' : Cluster} {b : Bool} {ring : Ring}
    (h : OwnedReturned srt now cache s s' b ring)
    (hcore : s''.core cache = s'.core cache) :
    OwnedReturned srt now cache s s'' b ring where
  toOwnedEffect := h.toOwnedEffect.congr hcore
  eq := by
    rw [cachePods_congr (core_pods hcore)]
    exact h.eq
  published := by
    rw [storedRing_congr (core_cm hcore), core_cm hcore]
    exact h.published
  marked := h.marked.congr (core_pods hcore)
  permitted hb :=
    ⟨(h.permitted hb).1, (core_pods hcore).trans (h.permitted hb).2⟩

theorem finish_completes {b : Bool} {ring : Ring}
    {stored : {o : DistributedCache // o.key = key}}
    (hstored : s.objects .distributedCache key = some stored) :
    (finish now stored.1 b ring).Completes api s := by
  obtain ⟨x, hx⟩ := serve_updateStatus_read hstored
    (observed_metadata now ring stored.1)
  unfold finish Prog.Completes
  simp only [bind, pure, Prog.bind, request, Prog.run_call]
  rw [hx]
  dsimp only
  split
  · exact ⟨_, rfl⟩
  · split
    · exact ⟨_, rfl⟩
    · exact ⟨_, rfl⟩

/-- With nothing in the way, an undisturbed Reconcile of a live object
comes to its end. -/
theorem reconcile_run_ok
    {stored : {o : DistributedCache // o.key = key}} (hheld : Held s stored)
    (h : Unclaimed stored.1 s) :
    ∃ r b ring s', (reconcile srt now key).run api s = (.ok r, s')
      ∧ Reconciled srt now stored s b ring s' := by
  have howned : (reconcileOwned srt now stored.1).Completes api s := by
    have hend : ReturnsOrStops stored.1 s
        ((reconcileOwned srt now stored.1).run api s) :=
      reconcileOwned_run h.statefulSet h.ring
    rcases hend with hok | ⟨hstop, -⟩
    · exact hok
    · exact absurd h hstop
  obtain ⟨r, hr⟩ : (reconcileLive srt now stored.1).Completes api s :=
    howned.bind reconcileOwned_returns fun x s1 hs1 =>
      finish_completes ((congrFun hs1.caches key).trans hheld.stored)
  have hrun : (reconcileLive srt now stored.1).run api s
      = (.ok r, ((reconcileLive srt now stored.1).run api s).2) :=
    Prod.ext hr rfl
  obtain ⟨b, ring, s1, hrun1, hret, hs', x, hx⟩ := reconcileLive_run_ok hrun
  have hsettled := reconcileOwned_returns.run hrun1
  -- the status is all that the last call changed
  have hsame : Cluster.SameBut [.distributedCache] s1
      ((reconcileLive srt now stored.1).run api s).2 := by
    rw [hs']
    exact .of_updateStatus _
  have hcore : ((reconcileLive srt now stored.1).run api s).2.core stored.1
      = s1.core stored.1 := by
    rw [hs']
    exact core_serve _ _ _ (peripheral_updateStatus _)
  obtain ⟨new, n, created, hnew, hrestated⟩ := stored_after_status
    ((congrFun hsettled.caches key).trans hheld.stored)
    ((observed_status now ring stored.1).1.trans stored.2) hx
  rw [← hs'] at hnew
  rw [reconcile_run_live hheld.stored hheld.live hheld.finalizer]
  refine ⟨r, b, ring, _, hrun, hret.congr hcore, hsettled.permitted, ?_,
    (h.settled hsettled hret.toOwnedEffect).sameBut hsame, new,
    ⟨hnew, ?_, ?_⟩, ?_⟩
  · unfold storedReplicas
    rw [core_sts hcore]
    exact hsettled.replicas
  · rw [hrestated]
    exact hheld.live
  · rw [hrestated]
    exact hheld.finalizer
  · rw [hrestated]
    rfl

end

/-- Nothing in the small cluster is somebody else's. -/
theorem ordersCluster_unclaimed (n c : Int32) (ps : PodSet) :
    Unclaimed (ordersCache n) (ordersCluster n c ps) := by
  constructor
  · intro hiso
    cases hiso
  · intro hiso
    cases hiso
  · exact not_foreign_fresh _
  · intro h
    obtain ⟨-, ref, href, -⟩ := h
    cases href
  · exact not_foreign_fresh _

end CacheOperator
