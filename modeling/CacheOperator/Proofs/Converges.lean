/-
The control loop comes to rest.

Reconcile is level triggered: whatever the state it starts from, what it
does next depends on the state alone. Left to itself it therefore has to
reach a state that it does not change any more (`AtRest`), and it does,
along three stages:

- the first Reconcile puts the finalizer on the object, if it is missing;
- the next one writes everything, but for the StatefulSet when pods have
  to go: their drain begins (`Draining`);
- the Reconciles after it change neither those pods nor the replicas,
  however many there are and at whatever times, until one comes when the
  grace period has passed. It scales down, and that was the last change.

The one thing that can be in the way is an object that is somebody
else's (`Unclaimed`).
-/
import CacheOperator.Proofs.Grace

namespace CacheOperator

open Lib

/-- The cluster after an undisturbed Reconcile. -/
def reconcileAt (srt : SliceSort) (key : NamespacedName) (s : Cluster)
    (now : Time) : Cluster :=
  ((reconcile srt now key).run api s).2

/-- Everything is as the spec of the stored object says, and no Reconcile
changes it, whenever it comes. -/
structure AtRest {key : NamespacedName} (srt : SliceSort)
    (stored : {o : DistributedCache // o.key = key}) (ring : Ring)
    (s : Cluster) : Prop where
  held : Held s stored
  cell : isolated stored.1 = true → CellStands stored.1 s
  service : Stands .service ⟨targetNamespace stored.1, stored.1.name⟩
    (mutateService stored.1) s
  statefulSet : Stands .statefulSet (statefulSetKey stored.1)
    (mutateStatefulSet stored.1 true) s
  replicas : storedReplicas stored.1 s = stored.1.body.spec.replicas
  ring : RingStands srt stored.1 ring s
  quiet : ∀ now, (reconcile srt now key).run api s
    = (.ok (comeBack true stored.1), s)

/-- Every pod that has to go has been told so by `since`. -/
structure Draining {key : NamespacedName} (since : Time)
    (stored : {o : DistributedCache // o.key = key}) (s : Cluster) :
    Prop where
  held : Held s stored
  unclaimed : Unclaimed stored.1 s
  told : ∀ p ∈ cachePods stored.1 s, Doomed stored.1 s p →
    Readable p ∧ NotAhead since p

/-- The cluster is at rest, with this spec. -/
def Rests (srt : SliceSort) (key : NamespacedName)
    (spec : DistributedCacheSpec) (s : Cluster) : Prop :=
  ∃ (stored : {o : DistributedCache // o.key = key}) (ring : Ring),
    stored.1.body.spec = spec ∧ AtRest srt stored ring s

/-- A drain that began by `since` is waited for, with this spec. -/
def Waits (since : Time) (key : NamespacedName)
    (spec : DistributedCacheSpec) (s : Cluster) : Prop :=
  ∃ stored : {o : DistributedCache // o.key = key},
    stored.1.body.spec = spec ∧ Draining since stored s

section

variable {srt : SliceSort} {now t since : Time} {key : NamespacedName}
  {cache : DistributedCache} {s s' : Cluster} {doomed : List String}
  {stored : {o : DistributedCache // o.key = key}}

-- ============================================================= the wait

/-- Pods whose annotations can be read are only looked at. -/
theorem drainScaleDownLoop_of_readable {ps : List Pod}
    (h : ∀ p ∈ ps, p.name ∈ doomed → Readable p) (b : Bool) :
    ∃ b', drainScaleDownLoop now cache doomed ps b = .ret b' := by
  induction ps generalizing b with
  | nil => exact ⟨b, rfl⟩
  | cons p ps ih =>
      have ih := ih fun q hq => h q (List.mem_cons_of_mem p hq)
      unfold drainScaleDownLoop
      by_cases hd : p.name ∈ doomed
      · obtain ⟨raw, ts, hraw, hts⟩ := h p List.mem_cons_self hd
        rw [if_neg (by simpa using hd), hraw]
        dsimp only
        rw [hts]
        exact ih _
      · rw [if_pos hd]
        exact ih b

theorem drainScaleDown_of_readable
    (h : ∀ p ∈ cachePods cache s, Doomed cache s p → Readable p) :
    (drainScaleDown now cache).Returns api s fun _ s' => s' = s := by
  refine drainScaleDown_rule (by simp) (by simp) (fun _ _ => trivial)
    (fun _ _ _ => rfl) fun doomed hdoomed => ?_
  refine Prog.Sat.bind_only (listPods_sat fun _ _ => trivial)
    (by simp) (by simp) ?_
  obtain ⟨b, hb⟩ : ∃ b, drainScaleDownLoop now cache doomed
      (cachePods cache s) true = .ret b :=
    drainScaleDownLoop_of_readable
      (fun p hp hd => h p hp ((hdoomed p).mpr hd)) true
  rw [hb]
  exact Prog.Returns.ret rfl

/-- While a drain is waited for, no pod is written. -/
theorem reconcileOwned_of_readable
    (h : ∀ p ∈ cachePods cache s, Doomed cache s p → Readable p) :
    (reconcileOwned srt now cache).Returns api s fun _ s' =>
      s'.pods = s.pods := by
  unfold reconcileOwned
  refine (orDegrade_returns reconcileCell_returns).bind ?_
  intro _ s1 ⟨_, hsame1, hpods1⟩
  refine (orDegrade_returns reconcileServiceTwice_returns).bind ?_
  intro _ s2 ⟨_, hsame2, hpods2⟩
  have hsts : s2.objects .statefulSet (statefulSetKey cache)
      = s.objects .statefulSet (statefulSetKey cache) := by
    rw [hsame2 _ (by decide), hsame1 _ (by decide)]
  have h2 : ∀ p ∈ cachePods cache s2, Doomed cache s2 p → Readable p := by
    intro p hp hd
    rw [cachePods_congr (hpods2.trans hpods1)] at hp
    exact h p hp ((doomed_congr hsts p).mp hd)
  refine (orDegrade_returns (drainScaleDown_of_readable h2)).bind ?_
  intro b s3 hs3
  refine (orDegrade_returns (reconcileObject_returns (by simp)
    keeps_mutateOwned)).bind ?_
  intro _ s4 hsettles
  obtain ⟨-, hpods4⟩ := Settles.sameBut keeps_mutateOwned hsettles
  refine (orDegrade_returns reconcileRing_returns).bind ?_
  intro ring s5 ⟨_, _, hpods5⟩
  refine Prog.Returns.ret ?_
  rw [hpods5, hpods4, hs3, hpods2, hpods1]

theorem reconcileLive_of_readable
    (h : ∀ p ∈ cachePods cache s, Doomed cache s p → Readable p) :
    (reconcileLive srt now cache).Returns api s fun _ s' =>
      s'.pods = s.pods := by
  unfold reconcileLive
  refine (reconcileOwned_of_readable h).bind ?_
  intro ⟨b, ring⟩ s1 hs1
  refine finish_returns.imp ?_
  intro _ s2 ⟨_, hs2, _⟩
  rw [hs2, ← hs1]
  exact core_pods (core_serve cache _ s1 (peripheral_updateStatus _))

/-- The replicas that are written are those asked for or those there. -/
theorem heldReplicas_either (b : Bool) (desired current : Option Int32) :
    heldReplicas b desired current = desired
      ∨ ∃ c, current = some c
        ∧ heldReplicas b desired current = some c := by
  unfold heldReplicas
  split
  · next d c =>
    by_cases hlt : d < c
    · exact Or.inr ⟨c, rfl, if_pos hlt⟩
    · exact Or.inl (if_neg hlt)
  · exact Or.inl rfl

/-- A Reconcile condemns no pod that it did not find condemned. -/
theorem doomed_before {b : Bool} {p : Pod}
    (h : storedReplicas cache s' = heldReplicas b
      cache.body.spec.replicas (storedReplicas cache s))
    (hd : Doomed cache s' p) : Doomed cache s p := by
  obtain ⟨sts', hsts', hmem⟩ := hd
  have hreplicas : storedReplicas cache s' = sts'.1.body.replicas := by
    unfold storedReplicas
    rw [hsts']
    rfl
  rw [← hreplicas, h] at hmem
  rcases heldReplicas_either b cache.body.spec.replicas
    (storedReplicas cache s) with hasked | ⟨c, hc, hkept⟩
  · -- with the replicas that are asked for nobody has to go
    rw [hasked, show cache.body.spec.replicas.getD 0
      = desiredReplicas cache from rfl,
      doomedNames_of_le Int32.le_rfl] at hmem
    cases hmem
  · rw [hkept] at hmem
    obtain ⟨sts, hsts, hsc⟩ := Option.bind_eq_some_iff.mp hc
    refine ⟨sts, hsts, ?_⟩
    rw [hsc]
    exact hmem

-- ============================================================= the rest

/-- A Reconcile that came to its end without a drain to wait for leaves
everything at rest. -/
theorem Concluded.atRest {ring : Ring} {r : ReconcileResult}
    {s1 : Cluster} (hheld : Held s stored)
    (h : Concluded srt now stored.1 s r s' true ring s1) :
    Rests srt key stored.1.body.spec s' := by
  obtain ⟨howned, -, hstate, x, hok⟩ := h
  have hcaches : s1.objects .distributedCache key = some stored := by
    rw [howned.caches]
    exact hheld.stored
  obtain ⟨⟨new, hkey⟩, n, created, hnew, hrestated⟩ := stored_after_status
    hcaches ((observed_status now ring stored.1).1.trans stored.2) hok
  dsimp only at hrestated
  subst hrestated
  rw [← hstate] at hnew
  -- the status is all that the last call changed
  have hsame : Cluster.SameBut [.distributedCache] s1 s' := by
    rw [hstate]
    exact .of_updateStatus _
  have hpods : s'.pods = s1.pods := by
    rw [hstate]
    exact core_pods (core_serve stored.1 _ s1 (peripheral_updateStatus _))
  have hcell := fun hiso => (howned.cell hiso).sameBut hsame (by decide)
  have hservice := howned.service.sameBut hsame (by decide)
  have hsts := (howned.statefulSet rfl).sameBut hsame (by decide)
  have hring : RingStands srt stored.1 ring s' :=
    howned.ring.congr (hsame _ (by decide)) hpods
  refine ⟨⟨_, hkey⟩, ring, rfl, ⟨hnew, hheld.live, hheld.finalizer⟩,
    fun hiso => (hcell hiso).restated, hservice, hsts, ?_, hring.restated,
    fun now' => ?_⟩
  · have hreplicas := howned.replicas
    rw [heldReplicas_true] at hreplicas
    have hkept : storedReplicas stored.1 s' = storedReplicas stored.1 s1 := by
      unfold storedReplicas
      rw [hsame _ (by decide)]
    exact hkept.trans hreplicas
  · rw [reconcile_run_live hnew hheld.live hheld.finalizer]
    exact reconcileLive_run_stands hnew (fun hiso => (hcell hiso).restated)
      hservice hsts hring.restated (observed_restated n created)

/-- What an undisturbed Reconcile leaves: rest, if the scale-down was
permitted; else the drain goes on, if all pods were told. -/
theorem Reconciled.stage {b : Bool} {ring : Ring} {r : ReconcileResult}
    (h : Reconciled srt t stored s b ring s') (hheld : Held s stored)
    (hrun : (reconcile srt t key).run api s = (.ok r, s'))
    (htold : ∀ p ∈ cachePods stored.1 s', Doomed stored.1 s p →
      Readable p ∧ NotAhead since p) :
    Rests srt key stored.1.body.spec s'
      ∨ ¬Permits t stored.1 s
        ∧ Waits since key stored.1.body.spec s' := by
  cases b with
  | true =>
      left
      rw [reconcile_run_live hheld.stored hheld.live hheld.finalizer]
        at hrun
      obtain ⟨b, ring', s1, hend⟩ := reconcileLive_returns.run hrun
      obtain rfl : b = true :=
        hend.owned.permitted.mpr (h.permitted.mp rfl)
      exact hend.atRest hheld
  | false =>
      right
      refine ⟨fun hperm => absurd (h.permitted.mpr hperm) (by simp), ?_⟩
      obtain ⟨stored', hheld', hspec⟩ := h.held
      have hcell : SameCell stored.1 stored'.1 :=
        sameCell_of_spec (by rw [hspec])
      have hreplicas := h.replicas
      rw [storedOr_replicas] at hreplicas
      refine ⟨stored', hspec, hheld', h.unclaimed.sameCell hcell, ?_⟩
      intro p hp hd
      rw [hcell.cachePods] at hp
      refine htold p hp (doomed_before hreplicas ?_)
      -- who has to go is a matter of the spec
      have hnames : podName stored'.1 = podName stored.1 :=
        funext hcell.podName
      unfold Doomed doomedNames desiredReplicas at hd ⊢
      rw [hcell.statefulSetKey, hnames, hspec] at hd
      exact hd

/-- The first Reconcile of an object that holds the finalizer. -/
theorem stage_first (hheld : Held s stored) (hun : Unclaimed stored.1 s)
    (hahead : ∀ p ∈ cachePods stored.1 s, NotAhead t p) :
    Rests srt key stored.1.body.spec (reconcileAt srt key s t)
      ∨ Waits t key stored.1.body.spec (reconcileAt srt key s t) := by
  obtain ⟨r, b, ring, s', hrun, hrec⟩ : ∃ r b ring s',
      (reconcile srt t key).run api s = (.ok r, s')
        ∧ Reconciled srt t stored s b ring s' :=
    reconcile_run_ok hheld hun
  unfold reconcileAt
  rw [hrun]
  refine (hrec.stage hheld hrun fun p hp hd => ?_).imp_right And.right
  refine ⟨reconcile_legible hheld hrun p hp hd, ?_⟩
  rcases hrec.returned.pods.fresh p (mem_cachePods hp) with
    hold | ⟨-, hfresh⟩
  · exact hahead p (cachePods_of_mem hp hold)
  · exact (fresh_readable hfresh).2

/-- A Reconcile while a drain is waited for, and one that comes when the
grace period has passed. -/
theorem stage_waiting {spec : DistributedCacheSpec}
    (h : Waits since key spec s) (t : Time) :
    (Rests srt key spec (reconcileAt srt key s t)
      ∨ Waits since key spec (reconcileAt srt key s t))
    ∧ (seconds spec.drain.gracePeriodSeconds ≤ t.nanos - since.nanos →
      Rests srt key spec (reconcileAt srt key s t)) := by
  obtain ⟨stored, rfl, hheld, hun, htold⟩ := h
  obtain ⟨r, b, ring, s', hrun, hrec⟩ : ∃ r b ring s',
      (reconcile srt t key).run api s = (.ok r, s')
        ∧ Reconciled srt t stored s b ring s' :=
    reconcile_run_ok hheld hun
  have hpods : s'.pods = s.pods := by
    rw [reconcile_run_live hheld.stored hheld.live hheld.finalizer] at hrun
    exact (reconcileLive_of_readable
      fun p hp hd => (htold p hp hd).1).run hrun
  unfold reconcileAt
  rw [hrun]
  have htold' : ∀ p ∈ cachePods stored.1 s', Doomed stored.1 s p →
      Readable p ∧ NotAhead since p := by
    intro p hp hd
    rw [cachePods_congr hpods] at hp
    exact htold p hp hd
  have hstage := hrec.stage hheld hrun htold'
  refine ⟨hstage.imp_right And.right, fun hlater => ?_⟩
  rcases hstage with hrest | ⟨hno, -⟩
  · exact hrest
  · refine absurd (fun p hp hd => ?_) hno
    obtain ⟨hread, hahead⟩ := htold p hp hd
    exact drained_later hread hahead hlater

theorem Rests.kept {spec : DistributedCacheSpec} (h : Rests srt key spec s)
    (t : Time) : Rests srt key spec (reconcileAt srt key s t) := by
  obtain ⟨stored, ring, hspec, hrest⟩ := h
  refine ⟨stored, ring, hspec, ?_⟩
  unfold reconcileAt
  rw [hrest.quiet t]
  exact hrest

/-- What one Reconcile leaves, any number of them leave. -/
theorem stage_many {spec : DistributedCacheSpec} (ts : List Time) :
    ∀ {s : Cluster}, Rests srt key spec s ∨ Waits since key spec s →
      Rests srt key spec (ts.foldl (reconcileAt srt key) s)
        ∨ Waits since key spec (ts.foldl (reconcileAt srt key) s) := by
  induction ts with
  | nil => exact id
  | cons t ts ih =>
      intro s h
      apply ih
      rcases h with hrest | hwait
      · exact Or.inl (hrest.kept t)
      · exact (stage_waiting hwait t).1

theorem NotAhead.later {t t' : Time} {p : Pod} (h : NotAhead t p)
    (hle : t ≤ t') : NotAhead t' p := by
  intro raw ts hraw hts
  have hts' := h raw ts hraw hts
  rw [Time.le_def] at hts' hle ⊢
  omega

theorem Waits.later {spec : DistributedCacheSpec} {t : Time}
    (h : Waits since key spec s) (hle : since ≤ t) :
    Waits t key spec s := by
  obtain ⟨stored, hspec, hheld, hun, htold⟩ := h
  refine ⟨stored, hspec, hheld, hun, fun p hp hd => ?_⟩
  obtain ⟨hread, hahead⟩ := htold p hp hd
  exact ⟨hread, hahead.later hle⟩

-- ============================================================ the start

/-- The finalizer is put on the object that was read. -/
theorem serve_hold (hstored : s.objects .distributedCache key = some stored)
    (hlive : stored.1.metadata.deleting = false) :
    api.serve (.update .distributedCache (addFinalizer stored.1)) s
      = (.ok (s.stamp (addFinalizer stored.1)),
        s.put (s.stamp (addFinalizer stored.1))) := by
  obtain ⟨c, rfl⟩ := stored
  have hfinal : finalized c (addFinalizer c) = false := by
    unfold finalized
    rw [show (addFinalizer c).metadata.deleting = c.metadata.deleting
      from rfl, hlive]
    rfl
  have hne : addFinalizer c ≠ c := by
    intro heq
    have hlen := congrArg (fun o => o.metadata.finalizers.length) heq
    simp [addFinalizer] at hlen
  show s.serveUpdate (addFinalizer c) = _
  unfold Cluster.serveUpdate
  rw [show s.objects .distributedCache (addFinalizer c).key
    = some ⟨c, rfl⟩ from hstored]
  simp only [show (addFinalizer c).metadata.resourceVersion
      = c.metadata.resourceVersion from rfl, ne_eq, not_true_eq_false,
    if_false, hfinal, Bool.false_eq_true,
    show admitted .distributedCache c (addFinalizer c) = addFinalizer c
      from rfl, Cluster.write, hne]

/-- Reconcile of a live object without the finalizer. -/
theorem reconcile_run_hold
    (hstored : s.objects .distributedCache key = some stored)
    (hlive : stored.1.metadata.deleting = false)
    (hfin : drainFinalizer ∉ stored.1.metadata.finalizers) :
    (reconcile srt t key).run api s
      = (.ok { requeue := true },
        s.put (s.stamp (addFinalizer stored.1))) := by
  unfold reconcile
  simp only [bind, pure, Prog.bind, request, Prog.run_call]
  rw [serve_get_some hstored]
  dsimp only
  rw [if_neg (by rw [hlive]; simp), if_pos hfin]
  unfold holdCache
  simp only [bind, pure, Prog.bind, request, Prog.run_call]
  rw [serve_hold hstored hlive]
  rfl

/-- The first Reconcile of a live object leaves it with the finalizer,
and the pods as they are. -/
theorem stage_hold (hstored : s.objects .distributedCache key = some stored)
    (hlive : stored.1.metadata.deleting = false)
    (hfin : drainFinalizer ∉ stored.1.metadata.finalizers)
    (hun : Unclaimed stored.1 s) :
    ∃ stored' : {o : DistributedCache // o.key = key},
      stored'.1.body.spec = stored.1.body.spec
      ∧ Held (reconcileAt srt key s t) stored'
      ∧ Unclaimed stored'.1 (reconcileAt srt key s t)
      ∧ cachePods stored'.1 (reconcileAt srt key s t)
        = cachePods stored.1 s := by
  have hs' : reconcileAt srt key s t
      = s.put (s.stamp (addFinalizer stored.1)) := by
    unfold reconcileAt
    rw [reconcile_run_hold hstored hlive hfin]
  rw [hs']
  let held : {o : DistributedCache // o.key = key} :=
    ⟨s.stamp (addFinalizer stored.1), stored.2⟩
  have hcell : SameCell stored.1 held.1 := ⟨rfl, rfl⟩
  have hsame : Cluster.SameBut [.distributedCache] s
      (s.put (s.stamp (addFinalizer stored.1))) := by
    intro k hk
    funext key'
    apply Cluster.put_objects_of_ne
    intro heq
    injection heq with heq
    exact hk (by rw [← heq]; exact List.mem_singleton_self _)
  refine ⟨held, rfl, ⟨Cluster.put_objects_key
      (s.stamp (addFinalizer stored.1)) stored.2, hlive, ?_⟩,
    (hun.sameBut hsame).sameCell hcell, ?_⟩
  · exact List.mem_append_right _ List.mem_cons_self
  · exact hcell.cachePods s

/-- Two Reconciles in order leave no doomed pod untold. -/
theorem stage_two {t₀ t₁ : Time}
    (hstored : s.objects .distributedCache key = some stored)
    (hlive : stored.1.metadata.deleting = false)
    (hun : Unclaimed stored.1 s) (hle : t₀ ≤ t₁)
    (hahead : ∀ p ∈ cachePods stored.1 s, NotAhead t₀ p) :
    Rests srt key stored.1.body.spec
        (reconcileAt srt key (reconcileAt srt key s t₀) t₁)
      ∨ Waits t₁ key stored.1.body.spec
        (reconcileAt srt key (reconcileAt srt key s t₀) t₁) := by
  by_cases hfin : drainFinalizer ∈ stored.1.metadata.finalizers
  · -- the first one drains, the second one only waits
    rcases stage_first ⟨hstored, hlive, hfin⟩ hun hahead with hrest | hwait
    · exact Or.inl (hrest.kept t₁)
    · refine (stage_waiting hwait t₁).1.imp_right ?_
      exact fun hwait' => hwait'.later hle
  · -- the first one stores the finalizer, the second one drains
    obtain ⟨stored', hspec, hheld, hun', hpods⟩ :=
      stage_hold hstored hlive hfin hun
    rw [← hspec]
    refine stage_first hheld hun' fun p hp => ?_
    rw [hpods] at hp
    exact (hahead p hp).later hle

end

/-- The loop can do its work: the object is there with this spec, nothing
it writes is somebody else's, and no drain lies ahead of the clock. -/
def Recoverable (key : NamespacedName) (spec : DistributedCacheSpec)
    (t : Time) (s : Cluster) : Prop :=
  ∃ stored : {o : DistributedCache // o.key = key},
    s.objects .distributedCache key = some stored
      ∧ stored.1.metadata.deleting = false
      ∧ stored.1.body.spec = spec
      ∧ Unclaimed stored.1 s
      ∧ ∀ p ∈ cachePods stored.1 s, NotAhead t p

/-- No pod of the small cluster has been told to go. -/
theorem ordersCluster_recoverable (n c : Int32) (t : Time) :
    Recoverable ordersKey (ordersCache n).body.spec t
      (ordersCluster n c (ordersPods (true, none) (true, none))) :=
  ⟨⟨Cluster.empty.stamp (ordersCache n), rfl⟩, rfl, rfl, rfl,
    ordersCluster_unclaimed n c _,
    fun p hp => notAhead_of_untold (ordersPods_untold p (mem_cachePods hp))⟩

/-- Undisturbed Reconciles then bring everything to rest: the first two
in order, any number at any times, and one that is later than the second
by the grace period. -/
theorem Recoverable.rests {srt : SliceSort} {key : NamespacedName}
    {spec : DistributedCacheSpec} {s : Cluster} {t₀ t₁ t : Time}
    (h : Recoverable key spec t₀ s) (hle : t₀ ≤ t₁) (ts : List Time)
    (hlater : seconds spec.drain.gracePeriodSeconds
      ≤ t.nanos - t₁.nanos) :
    Rests srt key spec
      ((t₀ :: t₁ :: ts ++ [t]).foldl (reconcileAt srt key) s) := by
  obtain ⟨stored, hstored, hlive, rfl, hun, hahead⟩ := h
  show Rests srt key _ (List.foldl _ s ([t₀, t₁] ++ ts ++ [t]))
  rw [List.foldl_append, List.foldl_append]
  rcases stage_many ts (stage_two hstored hlive hun hle hahead) with
    hrest | hwait
  · exact hrest.kept t
  · exact (stage_waiting hwait t).2 hlater

end CacheOperator
