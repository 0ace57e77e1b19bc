/-
The drain contract, from the operator to the clients.

A pod that a scale-down is about to terminate should be in no client's
ring any more. The operator starts a grace period when it takes the pod
out of the published ring, and every client polls within that period, so
the pod should be gone from all of them when it is over. The system here
is one cache with any number of clients, and a clock: Reconciles without
API failures, polls, and changes of the spec and the pods in any order.

What carries the argument is that every drain annotation is the second
of some instant at which the pod left the ring, and that a client which
still has the pod has not polled since (`Gone`). The annotation drops the
fraction of a second, which is why the grace period has to be a second
longer than the time between two polls.

A client that finds its own version again takes the ring for unchanged.
A 64-bit version comes back after 2^64 publications, and then a client
may poll in time and still keep a pod that is terminated.
-/
import CacheOperator.Proofs.Cancelled
import CacheOperator.Proofs.Undisturbed
import CacheOperator.Proofs.Versions

namespace CacheOperator

open Lib

/-- The cluster and its clients, with a clock. -/
structure ContractWorld extends RingWorld where
  clock : Time
  /-- When each client last polled successfully. -/
  polledAt : Nat → Time

inductive ContractEvent where
  /-- A Reconcile in which no call fails. -/
  | reconcile (now : Time)
  /-- The user edits the spec; pods come and go. -/
  | change (s : Cluster)
  /-- Client `i` polls. -/
  | poll (now : Time) (i : Nat) (fs : List Fault)

section

variable (srt : SliceSort) (hashString : String → UInt32)
  (cache : DistributedCache) (P : Int)

/-- The world after one event. -/
def ContractWorld.step (w : ContractWorld) : ContractEvent → ContractWorld
  | .reconcile now =>
      let s' := ((reconcile srt now cache.key).run api w.cluster).2
      { w with
        cluster := s'
        published := recordRing cache w.cluster s' w.published
        clock := now }
  | .change s => { w with cluster := s }
  | .poll now i fs =>
      { toRingWorld :=
          w.toRingWorld.step srt hashString cache (.poll i fs)
        clock := now
        polledAt :=
          if Succeeds ((pollOnce srt hashString (w.clients i)).exec api fs
              w.cluster).result then
            Function.update w.polledAt i now
          else w.polledAt }

/-- At `now`, no client with a ring has polled longer than `P`
nanoseconds ago. -/
def ContractWorld.UpToDate (w : ContractWorld) (now : Time) : Prop :=
  ∀ i hr, (w.clients i).ring = some hr →
    now.nanos - (w.polledAt i).nanos ≤ P

/-- The spec asks for at least one replica, and for a grace period that
is a second longer than `P`. -/
structure Specified (spec : DistributedCacheSpec) : Prop where
  replicas : ∃ n, spec.replicas = some n ∧ 1 ≤ n
  grace : P + second ≤ seconds spec.drain.gracePeriodSeconds

/-- What happens in a run: time does not go back, the clients keep up,
and only the operator writes the StatefulSet, the ring and the drain
annotations. -/
def ContractEvent.Possible (w : ContractWorld) : ContractEvent → Prop
  | .reconcile now => w.clock ≤ now ∧ w.UpToDate P now
  | .change s => Churn cache.key w.cluster s
      ∧ (∀ k, s.objects .statefulSet k = w.cluster.objects .statefulSet k)
      ∧ ∃ spec, s.live cache.key = some spec ∧ Specified P spec
  | .poll now _ _ => w.clock ≤ now ∧ w.UpToDate P now

/-- The cache is there, with nothing published or annotated yet. -/
structure ContractWorld.Begins (w : ContractWorld) : Prop where
  fresh : w.toRingWorld.Fresh cache
  stored : w.cluster.objects .distributedCache cache.key
    = some ⟨cache, rfl⟩
  live : cache.metadata.deleting = false
  specified : Specified P cache.body.spec
  unmarked : ∀ q ∈ w.cluster.pods.items,
    q.metadata.annotations.get drainAnnotation = none

/-- The annotation `raw` of the pod `name` is the second of an instant at
which the pod had left the stored ring, and a client that has the pod has
not polled since. -/
def Gone (w : ContractWorld) (name raw : String) : Prop :=
  (∀ r, storedRing cache w.cluster = some r → name ∉ r.members)
    ∧ ∃ t : Time, t ≤ w.clock ∧ raw = decimal t.unix
      ∧ ∀ i hr, (w.clients i).ring = some hr → name ∈ hr.positions →
        w.polledAt i ≤ t

/-- Every drain annotation is that of a pod that is gone. -/
def MarkedGone (w : ContractWorld) : Prop :=
  ∀ q ∈ w.cluster.pods.items, q.metadata.ns = targetNamespace cache →
    ∀ raw, q.metadata.annotations.get drainAnnotation = some raw →
    Gone cache w q.name raw

/-- What holds in every run. A StatefulSet of somebody else stops every
Reconcile in the middle, but then it is never scaled down. -/
structure ContractInv (w : ContractWorld) : Prop where
  spec : ∃ spec, w.cluster.live cache.key = some spec
    ∧ spec.tenant = cache.body.spec.tenant ∧ Specified P spec
  ring : RingInv srt hashString cache w.toRingWorld
  synced : AllSynced w.toRingWorld
  mine : ¬Foreign cache (w.cluster.storedOr .configMap (ringKey cache))
  polled : ∀ i hr, (w.clients i).ring = some hr → w.polledAt i ≤ w.clock
  marks : Foreign cache
      (w.cluster.storedOr .statefulSet (statefulSetKey cache))
    ∨ MarkedGone cache w

end

section

variable {srt : SliceSort} {hashString : String → UInt32}
  {cache : DistributedCache} {P : Int} {w w' : ContractWorld}
  {now : Time} {s s' : Cluster} {spec : DistributedCacheSpec}

-- ======================================================= one Reconcile

/-- What an undisturbed Reconcile does to what the contract is about. -/
structure AfterReconcile (srt : SliceSort) (now : Time)
    (cache : DistributedCache) (s s' : Cluster) : Prop where
  live : s'.live cache.key = s.live cache.key
  ring : ∃ members, RingKept cache s s'
    (desiredRing members (currentRing (ringConfigMap cache s)))
  mine : ¬Foreign cache (s.storedOr .configMap (ringKey cache)) →
    ¬Foreign cache (s'.storedOr .configMap (ringKey cache))
  foreign : Foreign cache (s.storedOr .statefulSet (statefulSetKey cache)) →
    Foreign cache (s'.storedOr .statefulSet (statefulSetKey cache))
  pods : ∀ q ∈ s'.pods.items, q ∈ s.pods.items
    ∨ q.metadata.annotations.get drainAnnotation = some (decimal now.unix)
  through : ¬Foreign cache (s.storedOr .configMap (ringKey cache)) →
    ¬Foreign cache (s.storedOr .statefulSet (statefulSetKey cache)) →
    (s'.pods = s.pods ∧ storedRing cache s' = storedRing cache s)
      ∨ Unlisted cache s'

/-- A Reconcile that nothing stops on the way, seen from its end: it did
nothing to the StatefulSet, the ring and the pods, or its phases
returned. -/
theorem reconcile_through (srt : SliceSort) (now : Time)
    {key : NamespacedName} {stored : {o : DistributedCache // o.key = key}}
    (hstored : s.objects .distributedCache key = some stored)
    (hlive : stored.1.metadata.deleting = false)
    (hcm : ¬Foreign stored.1 (s.storedOr .configMap (ringKey stored.1)))
    (hsts : ¬Foreign stored.1
      (s.storedOr .statefulSet (statefulSetKey stored.1))) :
    ((reconcile srt now key).run api s).2.core stored.1 = s.core stored.1
      ∨ ∃ b ring s1, ((reconcile srt now key).run api s).2.core stored.1
          = s1.core stored.1
        ∧ OwnedReturned srt now stored.1 s s1 b ring
        ∧ OwnedSettled srt now stored.1 s b ring s1 := by
  have hend : ReturnsOrStops stored.1 s
      ((reconcileOwned srt now stored.1).run api s) :=
    reconcileOwned_run hsts hcm
  have hcore := reconcile_core srt now hstored hlive []
  rw [List.tail_nil,
    (Prog.exec_nil api (reconcileOwned srt now stored.1) s).1,
    (Prog.exec_nil api (reconcile srt now key) s).1] at hcore
  rcases hcore with hcore | hcore
  · exact Or.inl hcore
  · rcases hend with ⟨⟨b, ring⟩, hok⟩ | ⟨-, hstop⟩
    · have hrun : (reconcileOwned srt now stored.1).run api s
          = (.ok (b, ring), ((reconcileOwned srt now stored.1).run api
            s).2) := Prod.ext hok rfl
      have hret : OwnedEnd srt now stored.1 s
          (.ofExcept ((reconcileOwned srt now stored.1).run api s).1)
          ((reconcileOwned srt now stored.1).run api s).2 :=
        reconcileOwned_sat.run
      rw [hok] at hret
      exact Or.inr ⟨b, ring, _, hcore, hret,
        reconcileOwned_returns.run hrun⟩
    · exact Or.inl (hcore.trans hstop)

theorem AfterReconcile.sameCell {cache' : DistributedCache}
    (h : AfterReconcile srt now cache s s')
    (hcell : SameCell cache cache') :
    AfterReconcile srt now cache' s s' where
  live := by
    rw [hcell.key]
    exact h.live
  ring := by
    unfold RingKept
    rw [hcell.ringKey, hcell.storedRing, hcell.ringConfigMap]
    exact h.ring
  mine := by
    rw [hcell.foreign, hcell.foreign, hcell.ringKey]
    exact h.mine
  foreign := by
    rw [hcell.foreign, hcell.foreign, hcell.statefulSetKey]
    exact h.foreign
  pods := h.pods
  through := by
    rw [hcell.foreign, hcell.foreign, hcell.ringKey, hcell.statefulSetKey,
      hcell.storedRing, hcell.storedRing]
    intro hcm hsts
    rcases h.through hcm hsts with hsame | hun
    · exact Or.inl hsame
    · exact Or.inr (hun.sameCell hcell)

/-- The Reconcile of the object that is stored. -/
theorem afterReconcile_stored {key : NamespacedName}
    {stored : {o : DistributedCache // o.key = key}}
    (hstored : s.objects .distributedCache key = some stored)
    (hlive : stored.1.metadata.deleting = false) :
    AfterReconcile srt now stored.1 s
      ((reconcile srt now key).run api s).2 := by
  have heffect := reconcile_effect srt now hstored hlive []
  have hsame := (reconcile_live srt now key s []).2
  rw [(Prog.exec_nil api (reconcile srt now key) s).1] at heffect hsame
  refine ⟨?_, ?_, heffect.ring_not_foreign, ?_, ?_, ?_⟩
  · rw [stored.2]
    exact hsame
  · rcases heffect.cm with hsame | ⟨hring, -⟩
    · exact ⟨[], Or.inl hsame⟩
    · exact ⟨_, Or.inr hring⟩
  · intro hf
    rcases heffect.sts with hsame | ⟨hnf, -⟩
    · rw [storedOr_congr hsame]
      exact hf
    · exact absurd hf hnf
  · intro q hq
    rcases heffect.pods.fresh q hq with hold | ⟨-, hnew⟩
    · exact Or.inl hold
    · exact Or.inr hnew
  · intro hcm hsts
    rcases reconcile_through srt now hstored hlive hcm hsts with
      hcore | ⟨b, ring, s1, hcore, hret, -⟩
    · exact Or.inl ⟨core_pods hcore, storedRing_congr (core_cm hcore)⟩
    · right
      refine Unlisted.congr ?_ hcore
      exact unlisted_of_computed srt fun r hr => hret.stored_members hr

-- =========================================================== one event

theorem ContractInv.stored (hinv : ContractInv srt hashString cache P w) :
    ∃ stored, w.cluster.objects .distributedCache cache.key = some stored
      ∧ stored.1.metadata.deleting = false ∧ SameCell cache stored.1
      ∧ Specified P stored.1.body.spec := by
  obtain ⟨spec, hspec, htenant, hspecified⟩ := hinv.spec
  obtain ⟨stored, hstored, hlive, rfl⟩ := live_eq_some hspec
  exact ⟨stored, hstored, hlive, ⟨stored.2, htenant⟩, hspecified⟩

theorem ContractInv.reconcile (hinv : ContractInv srt hashString cache P w)
    (hclock : w.clock ≤ now) :
    ContractInv srt hashString cache P
      (w.step srt hashString cache (.reconcile now)) := by
  obtain ⟨stored, hstored, hlive, hcell, -⟩ := hinv.stored
  have hafter : AfterReconcile srt now cache w.cluster
      ((CacheOperator.reconcile srt now cache.key).run api
        w.cluster).2 :=
    (afterReconcile_stored hstored hlive).sameCell hcell.symm
  obtain ⟨members, hkept⟩ := hafter.ring
  refine ⟨?_, hinv.ring.record hkept, hinv.synced, hafter.mine hinv.mine,
    fun i hr hi => Int.le_trans (hinv.polled i hr hi) hclock, ?_⟩
  · obtain ⟨spec, hspec, h⟩ := hinv.spec
    exact ⟨spec, hafter.live.trans hspec, h⟩
  rcases hinv.marks with hf | hmarks
  · exact Or.inl (hafter.foreign hf)
  by_cases hf : Foreign cache
      (w.cluster.storedOr .statefulSet (statefulSetKey cache))
  · exact Or.inl (hafter.foreign hf)
  right
  intro q hq hns raw hraw
  have hout : ∀ r, storedRing cache
      ((CacheOperator.reconcile srt now cache.key).run api
        w.cluster).2 = some r → q.name ∉ r.members := by
    rcases hafter.through hinv.mine hf with ⟨hpods, hring⟩ | hun
    · rw [hring]
      exact (hmarks q (hpods ▸ hq) hns raw hraw).1
    · exact hun q hq hns (by rw [hraw]; rfl)
  rcases hafter.pods q hq with hold | hnew
  · obtain ⟨-, t, ht, hraw', hclients⟩ := hmarks q hold hns raw hraw
    exact ⟨hout, t, Int.le_trans ht hclock, hraw', hclients⟩
  · -- the drain starts now, after every poll so far
    rw [hraw] at hnew
    refine ⟨hout, now, Int.le_refl _, Option.some.inj hnew, ?_⟩
    intro i hr hring _
    exact Int.le_trans (hinv.polled i hr hring) hclock

theorem ContractInv.change (hinv : ContractInv srt hashString cache P w)
    (he : (ContractEvent.change s).Possible cache P w) :
    ContractInv srt hashString cache P
      (w.step srt hashString cache (.change s)) := by
  obtain ⟨hchurn, hsts, spec, hspec, hspecified⟩ := he
  -- the ring that stays is the one of the cache in its cell
  have hring : s.objects .configMap (ringKey cache)
      = w.cluster.objects .configMap (ringKey cache) := by
    obtain ⟨old, hold, htenant, -⟩ := hinv.spec
    obtain ⟨stored, hstored, -, rfl⟩ := live_eq_some hold
    have hcell : SameCell cache stored.1 := ⟨stored.2, htenant⟩
    rw [← hcell.ringKey]
    exact hchurn.ring stored hstored
  refine ⟨⟨spec, hspec, ?_, hspecified⟩, hinv.ring.churn hring,
    hinv.synced, ?_, hinv.polled, ?_⟩
  · obtain ⟨old, hold, htenant⟩ := hchurn.spec spec hspec
    obtain ⟨old', hold', htenant', -⟩ := hinv.spec
    rw [hold] at hold'
    cases hold'
    exact htenant.trans htenant'
  · show ¬Foreign cache (s.storedOr _ _)
    rw [storedOr_congr hring]
    exact hinv.mine
  · show Foreign cache (s.storedOr _ _) ∨ _
    rw [storedOr_congr (hsts _)]
    rcases hinv.marks with hf | hmarks
    · exact Or.inl hf
    right
    intro q hq hns raw hraw
    -- the annotation was there before, on the pod of the same name
    obtain ⟨p, hp, hkey, hpraw⟩ := hchurn.marks q hq raw hraw
    have hname : p.name = q.name := congrArg NamespacedName.name hkey
    have hpns : p.metadata.ns = q.metadata.ns :=
      congrArg NamespacedName.ns hkey
    obtain ⟨hout, hgone⟩ := hmarks p hp (hpns.trans hns) raw hpraw
    rw [hname] at hout hgone
    refine ⟨?_, hgone⟩
    rw [show storedRing cache (w.step srt hashString cache
      (.change s)).cluster = storedRing cache w.cluster from
        storedRing_congr hring]
    exact hout

/-- The clock may move on. -/
theorem ContractInv.tick (hinv : ContractInv srt hashString cache P w)
    (hclock : w.clock ≤ now) :
    ContractInv srt hashString cache P { w with clock := now } := by
  refine ⟨hinv.spec, hinv.ring, hinv.synced, hinv.mine,
    fun i hr hi => Int.le_trans (hinv.polled i hr hi) hclock, ?_⟩
  rcases hinv.marks with hf | hmarks
  · exact Or.inl hf
  right
  intro q hq hns raw hraw
  obtain ⟨hout, t, ht, h⟩ := hmarks q hq hns raw hraw
  exact ⟨hout, t, Int.le_trans ht hclock, h⟩

/-- A client that has just polled has exactly the stored ring. -/
theorem Gone.polled {name raw : String} (hgone : Gone cache w name raw)
    (hclock : w.clock ≤ now) {i : Nat} {c : Client} {r : Ring}
    (hr : storedRing cache w.cluster = some r)
    (hc : c.ring = some (buildRing srt hashString r)) :
    Gone cache
      { toRingWorld := w.toRingWorld.polled i c
        clock := now
        polledAt := Function.update w.polledAt i now } name raw := by
  obtain ⟨hout, t, ht, hraw, hclients⟩ := hgone
  refine ⟨hout, t, Int.le_trans ht hclock, hraw, ?_⟩
  intro j hr' hj hmem
  unfold RingWorld.polled at hj
  dsimp only at hj ⊢
  by_cases hji : j = i
  · rw [hji, Function.update_self, hc] at hj
    cases hj
    exact absurd (mem_positions_buildRing.mp hmem) (hout r hr)
  · rw [Function.update_of_ne hji] at hj ⊢
    exact hclients j hr' hj hmem

theorem ContractInv.poll (hinv : ContractInv srt hashString cache P w)
    (hlen : w.published.length ≤ 2 ^ 64) (hclock : w.clock ≤ now)
    (i : Nat) (fs : List Fault) :
    ContractInv srt hashString cache P
      (w.step srt hashString cache (.poll now i fs)) := by
  have hring := hinv.ring.poll hlen (hinv.synced.recognises i) fs
  have hsync : AllSynced
      (w.toRingWorld.step srt hashString cache (.poll i fs)) :=
    hinv.synced.step hinv.ring.key trivial
  unfold ContractWorld.step
  dsimp only
  rcases w.toRingWorld.poll_cases fs (hinv.ring.key i) with
    ⟨hno, hw⟩ | ⟨hyes, r, hr, hw⟩
  · rw [hno, hw]
    exact hinv.tick hclock
  · rw [hw] at hring hsync ⊢
    rw [if_pos hyes]
    have hloaded := hinv.ring.poll_exact hlen (hinv.synced.recognises i) hr
    refine ⟨hinv.spec, hring, hsync, hinv.mine, ?_, ?_⟩
    · intro j hr' hj
      unfold RingWorld.polled at hj
      dsimp only at hj ⊢
      by_cases hji : j = i
      · rw [hji, Function.update_self]
        exact Int.le_refl _
      · rw [Function.update_of_ne hji] at hj ⊢
        exact Int.le_trans (hinv.polled j hr' hj) hclock
    · rcases hinv.marks with hf | hmarks
      · exact Or.inl hf
      · right
        intro q hq hns raw hraw
        exact (hmarks q hq hns raw hraw).polled hclock hr hloaded

-- ============================================================ whole runs

theorem ContractWorld.Begins.inv (h : w.Begins cache P) :
    ContractInv srt hashString cache P w := by
  refine ⟨⟨_, live_of_stored h.stored h.live, rfl, h.specified⟩,
    h.fresh.inv, ?_, ?_, ?_, Or.inr ?_⟩
  · intro i hr hring
    rw [h.fresh.unloaded i] at hring
    cases hring
  · rw [storedOr_of_none h.fresh.absent]
    exact not_foreign_fresh _
  · intro i hr hring
    rw [h.fresh.unloaded i] at hring
    cases hring
  · intro q hq _ raw hraw
    rw [h.unmarked q hq] at hraw
    cases hraw

/-- Publications are only ever added. -/
theorem ContractWorld.published_le (e : ContractEvent) :
    w.published.length
      ≤ (w.step srt hashString cache e).published.length := by
  cases e with
  | reconcile now => exact recordRing_length_le _ _ _
  | change s => exact Nat.le_refl _
  | poll now i fs =>
      have hpoll : (RingEvent.poll i fs).Undisturbed cache
        w.toRingWorld := trivial
      exact published_length_le hpoll

/-- The invariant holds until the versions have gone all the way
round. -/
theorem contractInv_of_run (hbegins : w.Begins cache P)
    (hrun : Run (ContractWorld.step srt hashString cache)
      (fun w e => e.Possible cache P w) w w')
    (hlen : w'.published.length ≤ 2 ^ 64) :
    ContractInv srt hashString cache P w' := by
  refine hrun.invariant (I := fun w => w.published.length ≤ 2 ^ 64 →
    ContractInv srt hashString cache P w) ?_ ?_ hlen
  · intro w e ih he hlen'
    have hlen := Nat.le_trans (w.published_le e) hlen'
    have hinv := ih hlen
    cases e with
    | reconcile now => exact hinv.reconcile he.1
    | change s => exact hinv.change he
    | poll now i fs => exact hinv.poll hlen he.1 i fs
  · intro _
    exact hbegins.inv

-- ====================================================== the scale-down

/-- The Reconcile that took the cluster from `s` to `s'` lowered the
StatefulSet's replicas from `c` to `d`. -/
structure LoweredReplicas (cache : DistributedCache) (s s' : Cluster)
    (c d : Int32) : Prop where
  before : storedReplicas cache s = some c
  after : storedReplicas cache s' = some d
  lt : d < c

theorem LoweredReplicas.changed {c d : Int32}
    (h : LoweredReplicas cache s s' c d) :
    s'.objects .statefulSet (statefulSetKey cache)
      ≠ s.objects .statefulSet (statefulSetKey cache) := by
  intro hsame
  have hafter := h.after
  unfold storedReplicas at hafter
  rw [hsame] at hafter
  have heq := Option.some.inj (hafter.symm.trans h.before)
  exact Int32.lt_irrefl (heq ▸ h.lt)

/-- A Reconcile that lowers the replicas was permitted to. -/
theorem LoweredReplicas.permitted {key : NamespacedName}
    {stored : {o : DistributedCache // o.key = key}}
    (hstored : s.objects .distributedCache key = some stored)
    (hlive : stored.1.metadata.deleting = false)
    (hcm : ¬Foreign stored.1 (s.storedOr .configMap (ringKey stored.1)))
    {c d : Int32} (h : LoweredReplicas stored.1 s
      ((reconcile srt now key).run api s).2 c d) :
    ¬Foreign stored.1 (s.storedOr .statefulSet (statefulSetKey stored.1))
      ∧ stored.1.body.spec.replicas = some d ∧ Permits now stored.1 s := by
  have heffect := reconcile_effect srt now hstored hlive []
  rw [(Prog.exec_nil api (reconcile srt now key) s).1] at heffect
  have hsts : ¬Foreign stored.1
      (s.storedOr .statefulSet (statefulSetKey stored.1)) := by
    rcases heffect.sts with hsame | ⟨hnf, -⟩
    · exact absurd hsame h.changed
    · exact hnf
  refine ⟨hsts, ?_⟩
  rcases reconcile_through srt now hstored hlive hcm hsts with
    hcore | ⟨b, ring, s1, hcore, -, hsettled⟩
  · exact absurd (core_sts hcore) h.changed
  · obtain ⟨o, ho, hc⟩ := Option.bind_eq_some_iff.mp h.before
    have hd := h.after
    unfold storedReplicas at hd
    rw [core_sts hcore] at hd
    have hheld := hsettled.replicas.symm.trans hd
    rw [storedOr_of_some ho, hc] at hheld
    obtain ⟨hb, hspec⟩ := heldReplicas_lt hheld h.lt
    exact ⟨hspec, hsettled.permitted.mp hb⟩

/-- A drain of the grace period has begun before every poll that is at
most `P` old. -/
theorem polled_after_drain {t polled : Time} {g : Int32}
    (hage : seconds g ≤ now.sub (Time.ofUnix t.unix))
    (hgrace : P + second ≤ seconds g)
    (hrecent : now.nanos - polled.nanos ≤ P) : ¬polled ≤ t := by
  obtain ⟨hlo, hhi⟩ := seconds_range g
  have hage' := (Time.le_sub_iff hlo hhi).mp hage
  obtain ⟨-, hfraction⟩ := Time.nanos_ofUnix_unix t
  rw [Time.le_def]
  omega

end

/-- The drain contract, for as long as a ring version has not come back:
when a Reconcile lowers the replicas from `c` to `d`, no client has a pod
between the two in its ring. -/
theorem terminated_pods_are_unloaded (srt : SliceSort)
    (hashString : String → UInt32) (cache : DistributedCache) (P : Int)
    (w₀ w : ContractWorld) (hbegins : w₀.Begins cache P)
    (hrun : Run (ContractWorld.step srt hashString cache)
      (fun w e => e.Possible cache P w) w₀ w)
    (hlen : w.published.length ≤ 2 ^ 64) (now : Time)
    (hnow : (ContractEvent.reconcile now).Possible cache P w)
    (c d : Int32)
    (hlow : LoweredReplicas cache w.cluster
      (w.step srt hashString cache (.reconcile now)).cluster c d)
    (p : Pod) (hp : p ∈ cachePods cache w.cluster)
    (i : Int) (hlo : d.toInt ≤ i) (hhi : i < c.toInt)
    (hname : p.name = podName cache i)
    (j : Nat) (hr : HashRing) (hring : (w.clients j).ring = some hr) :
    p.name ∉ hr.positions := by
  intro hmem
  have hinv := contractInv_of_run hbegins hrun hlen
  obtain ⟨stored, hstored, hlive, hcell, hspecified⟩ := hinv.stored
  have hlow' : LoweredReplicas stored.1 w.cluster
      (w.step srt hashString cache (.reconcile now)).cluster c d := by
    refine ⟨?_, ?_, hlow.lt⟩
    · rw [hcell.storedReplicas]
      exact hlow.before
    · rw [hcell.storedReplicas]
      exact hlow.after
  have hmine := hinv.mine
  rw [← hcell.foreign, ← hcell.ringKey] at hmine
  obtain ⟨hsts, hd, hpermits⟩ := hlow'.permitted hstored hlive hmine
  rw [hcell.foreign, hcell.statefulSetKey] at hsts
  -- the pod is drained: its annotation lies the grace period back
  obtain ⟨raw, ts, hraw, hts, hage⟩ := hpermits p
    (by rw [hcell.cachePods]; exact hp)
    (doomed_of_between hlow'.before hd hlo hhi
      (by rw [hcell.podName]; exact hname))
  rcases hinv.marks with hf | hmarks
  · exact hsts hf
  · obtain ⟨-, t, -, rfl, hclients⟩ :=
      hmarks p (mem_cachePods hp) (cachePods_ns hp) raw hraw
    rw [decimal, String.toList_ofList, Decimal.parseInt64_format] at hts
    cases hts
    exact polled_after_drain hage hspecified.grace (hnow.2 j hr hring)
      (hclients j hr hring hmem)

-- ==================================================== a small cluster

section

variable {srt : SliceSort} {hashString : String → UInt32}
  {cache : DistributedCache} {P : Int} {w w' : ContractWorld}
  {now t : Time} {s s' : Cluster} {spec : DistributedCacheSpec}

theorem live_setReplicas {key : NamespacedName} {n : Int32}
    (h : s.live key = some spec) :
    (setReplicas key n s).live key
      = some { spec with replicas := some n } := by
  obtain ⟨⟨o, rfl⟩, hstored, hlive, rfl⟩ := live_eq_some h
  unfold setReplicas
  rw [hstored]
  exact live_of_stored (Cluster.put_objects_self _) hlive

/-- An edit of the replicas is part of a run. -/
theorem possible_setReplicas {n : Int32}
    (hlive : w.cluster.live cache.key = some spec)
    (hspec : Specified P spec) (hn : 1 ≤ n) :
    (ContractEvent.change (setReplicas cache.key n w.cluster)).Possible
      cache P w := by
  refine ⟨churn_setReplicas _ _ _, fun k => ?_, _, live_setReplicas hlive,
    ⟨n, rfl, hn⟩, hspec.grace⟩
  unfold setReplicas
  split
  · rfl
  · exact Cluster.put_objects_of_ne (by simp)

/-- A poll that goes through loads the stored ring. -/
theorem ContractWorld.step_poll {i : Nat} {r : Ring}
    (hkey : (w.clients i).ringConfigMap = ringKey cache)
    (hr : storedRing cache w.cluster = some r) :
    w.step srt hashString cache (.poll now i [])
      = { toRingWorld := w.toRingWorld.polled i
            ((w.clients i).load srt hashString r)
          clock := now
          polledAt := Function.update w.polledAt i now } := by
  unfold ContractWorld.step
  dsimp only
  rw [RingWorld.step_poll hkey hr, pollOnce_exec srt hashString hkey hr]
  rfl

/-- Client 0 is `c` and has polled at `t`; no other has a ring. -/
structure FirstClient (c : Client) (t : Time) (w : ContractWorld) :
    Prop where
  first : w.clients 0 = c
  others : ∀ i, i ≠ 0 → (w.clients i).ring = none
  polled : w.polledAt 0 = t

theorem FirstClient.upToDate {c : Client} (h : FirstClient c t w)
    (ht : now.nanos - t.nanos ≤ P) : w.UpToDate P now := by
  intro i hr hring
  by_cases hi : i = 0
  · rw [hi, h.polled]
    exact ht
  · rw [h.others i hi] at hring
    cases hring

theorem FirstClient.poll {c : Client} {r : Ring} (h : FirstClient c t w)
    (hkey : c.ringConfigMap = ringKey cache)
    (hr : storedRing cache w.cluster = some r) :
    FirstClient (c.load srt hashString r) now
        (w.step srt hashString cache (.poll now 0 []))
      ∧ (w.step srt hashString cache (.poll now 0 [])).cluster = w.cluster
      ∧ (w.step srt hashString cache (.poll now 0 [])).published
        = w.published := by
  rw [← h.first] at hkey
  rw [ContractWorld.step_poll hkey hr, ← h.first]
  refine ⟨⟨?_, fun i hi => ?_, ?_⟩, rfl, rfl⟩
  · exact RingWorld.polled_clients ..
  · unfold RingWorld.polled
    dsimp only
    rw [Function.update_of_ne hi]
    exact h.others i hi
  · dsimp only
    rw [Function.update_self]

end

/-- A change of the pods that keeps the annotations is part of a run. -/
theorem possible_pods {cache : DistributedCache} {P : Int}
    {w : ContractWorld} {spec : DistributedCacheSpec} {ps : PodSet}
    (hlive : w.cluster.live cache.key = some spec)
    (hspec : Specified P spec)
    (hmarks : ∀ q ∈ ps.items, ∀ raw,
      q.metadata.annotations.get drainAnnotation = some raw →
      ∃ p ∈ w.cluster.pods.items, p.key = q.key
        ∧ p.metadata.annotations.get drainAnnotation = some raw) :
    (ContractEvent.change { w.cluster with pods := ps }).Possible cache P
      w :=
  ⟨⟨fun _ _ => rfl, fun spec h => ⟨spec, h, rfl⟩, hmarks⟩, fun _ => rfl,
    spec, hlive, hspec⟩

/-- The small cluster as a Reconcile finds it: the spec asks for `n`
replicas and the StatefulSet has two, the first pod is `ready` or not,
and the second pod has been drained `since` some second or not. -/
structure OrdersState (n : Int32) (ready : Bool) (since : Option Int64)
    (r : Option Ring) (s : Cluster) : Prop where
  held : ∃ stored : {o : DistributedCache // o.key = ordersKey},
    Held s stored ∧ stored.1.body.spec = (ordersCache n).body.spec
  unclaimed : Unclaimed (ordersCache 2) s
  replicas : storedReplicas (ordersCache 2) s = some 2
  pods : s.pods = ordersPods (ready, none) (true, since)
  ring : storedRing (ordersCache 2) s = r

/-- The members when neither pod is drained. -/
def ordersMembers (ready : Bool) : List String :=
  if ready then ["orders-cache-0", "orders-cache-1"] else ["orders-cache-1"]

section

variable {n m : Int32} {ready : Bool} {since : Option Int64}
  {r : Option Ring} {s : Cluster} {now : Time}

theorem OrdersState.start : OrdersState 2 true none none
    (ordersCluster 2 2 (ordersPods (true, none) (true, none))) where
  held := ⟨⟨ordersCache 2, rfl⟩, ⟨rfl, rfl, by decide⟩, rfl⟩
  unclaimed := ordersCluster_unclaimed 2 2 _
  replicas := rfl
  pods := rfl
  ring := rfl

/-- The user asks for another number of replicas. -/
theorem OrdersState.setReplicas (h : OrdersState n ready since r s) :
    OrdersState m ready since r (setReplicas ordersKey m s) := by
  obtain ⟨⟨o, ho⟩, hheld, hspec⟩ := h.held
  have hset : CacheOperator.setReplicas ordersKey m s
      = s.put (s.stamp (withReplicas o m)) := by
    unfold CacheOperator.setReplicas
    rw [hheld.stored]
  have hsame : Cluster.SameBut [.distributedCache] s
      (s.put (s.stamp (withReplicas o m))) := by
    intro k hk
    funext key
    apply Cluster.put_objects_of_ne
    intro heq
    injection heq with heq
    exact hk (by rw [← heq]; exact List.mem_singleton_self _)
  rw [hset]
  refine ⟨⟨⟨s.stamp (withReplicas o m), ho⟩, ⟨?_, hheld.live,
    hheld.finalizer⟩, ?_⟩, h.unclaimed.sameBut hsame, ?_, h.pods, ?_⟩
  · exact Cluster.put_objects_key (s.stamp (withReplicas o m)) ho
  · show { o.body.spec with replicas := some m } = _
    rw [hspec]
    rfl
  · unfold storedReplicas
    rw [hsame _ (by decide)]
    exact h.replicas
  · rw [storedRing_congr (congrFun (hsame _ (by decide)) _)]
    exact h.ring

/-- Pods change their readiness, or are annotated. -/
theorem OrdersState.withPods (h : OrdersState n ready since r s)
    (ready' : Bool) (since' : Option Int64) :
    OrdersState n ready' since' r
      { s with pods := ordersPods (ready', none) (true, since') } := by
  obtain ⟨stored, hheld, hspec⟩ := h.held
  exact ⟨⟨stored, ⟨hheld.stored, hheld.live, hheld.finalizer⟩, hspec⟩,
    h.unclaimed.sameBut fun _ _ => rfl, h.replicas, rfl, h.ring⟩

/-- What a Reconcile of the small cluster does. -/
theorem OrdersState.reconcile (h : OrdersState n ready since r s)
    (now : Time) :
    ∃ (stored : {o : DistributedCache // o.key = ordersKey}) (b : Bool)
      (ring : Ring), SameCell (ordersCache 2) stored.1
        ∧ stored.1.body.spec = (ordersCache n).body.spec
        ∧ storedReplicas stored.1 s = some 2
        ∧ Reconciled .insertionSort now stored s b ring
          ((reconcile .insertionSort now ordersKey).run api s).2 := by
  obtain ⟨stored, hheld, hspec⟩ := h.held
  have hcell : SameCell (ordersCache 2) stored.1 :=
    ⟨stored.2, by rw [hspec]; rfl⟩
  obtain ⟨res, b, ring, s', hrun, hrec⟩ :=
    reconcile_run_ok hheld (h.unclaimed.sameCell hcell)
  refine ⟨stored, b, ring, hcell, hspec, ?_, ?_⟩
  · rw [hcell.storedReplicas]
    exact h.replicas
  · rw [hrun]
    exact hrec

/-- With the replicas it asks for, the spec dooms no pod. -/
theorem not_doomed_of_replicas {cache : DistributedCache} {c : Int32}
    (hc : storedReplicas cache s = some c)
    (hspec : cache.body.spec.replicas = some c) (p : Pod) :
    ¬Doomed cache s p := by
  intro hd
  obtain ⟨sts, hsts, hmem⟩ := hd
  obtain ⟨o, ho, hc⟩ := Option.bind_eq_some_iff.mp hc
  rw [hsts] at ho
  cases ho
  have hdesired : desiredReplicas cache = c := by
    unfold desiredReplicas
    rw [hspec]
    rfl
  rw [hdesired, hc, Option.getD_some, doomedNames_of_le Int32.le_rfl] at hmem
  cases hmem

/-- With two replicas asked for, a Reconcile only publishes. -/
theorem OrdersState.publishes (h : OrdersState 2 ready none r s)
    (now : Time) :
    OrdersState 2 ready none
      (some (desiredRing (ordersMembers ready) (r.getD ⟨0, []⟩)))
      ((CacheOperator.reconcile .insertionSort now ordersKey).run api
        s).2 := by
  obtain ⟨stored, b, ring, hcell, hspec, hreplicas, hrec⟩ :=
    h.reconcile now
  have hb : b = true := by
    refine hrec.permitted.mpr fun p _ hd => absurd hd ?_
    exact not_doomed_of_replicas hreplicas (by rw [hspec]; rfl) p
  subst hb
  have hpods := (hrec.returned.permitted rfl).2
  generalize ((CacheOperator.reconcile .insertionSort now ordersKey).run api
    s).2 = s' at hrec hpods ⊢
  have hmembers : computeMembers .insertionSort (cachePods stored.1 s')
      = ordersMembers ready := by
    rw [hcell.cachePods, cachePods_congr hpods]
    unfold cachePods Cluster.podsIn
    rw [h.pods]
    cases ready with
    | true => decide +kernel
    | false => decide +kernel
  have hring : ring = desiredRing (ordersMembers ready)
      (r.getD ⟨0, []⟩) := by
    rw [hrec.returned.eq, hmembers, currentRing_eq, hcell.storedRing, h.ring]
  obtain ⟨stored', hheld', hspec'⟩ := hrec.held
  refine ⟨⟨stored', hheld', hspec'.trans hspec⟩,
    hrec.unclaimed.sameCell hcell.symm, ?_, hpods.trans h.pods, ?_⟩
  · rw [← hcell.storedReplicas, hrec.replicas, heldReplicas_true, hspec]
    rfl
  · rw [← hcell.storedRing, ← hring]
    refine hrec.returned.stored_of_member (m := "orders-cache-1") ?_
    rw [hring, desiredRing_members]
    cases ready with
    | true => decide
    | false => decide

/-- Once a ring is stored, the ring returned is stored. -/
theorem OwnedReturned.stored_of_stored {srt : SliceSort}
    {cache : DistributedCache} {s' : Cluster} {b : Bool} {ring r : Ring}
    (h : OwnedReturned srt now cache s s' b ring)
    (hr : storedRing cache s = some r) :
    storedRing cache s' = some ring := by
  rcases h.published with ⟨-, hstored⟩ | ⟨hskip, hsame⟩
  · exact hstored
  · rw [storedRing_congr hsame, hr, (skipsWrite_iff.mp hskip).1,
      currentRing_eq, hr, Option.getD_some]

/-- The second pod is there. -/
theorem OrdersState.listed (h : OrdersState n ready since r s) :
    ordersPod 1 true since ∈ cachePods (ordersCache 2) s := by
  have hselected :
      ((ordersPod 1 true none).metadata.ns == targetNamespace (ordersCache 2)
        && matchesLabels (podLabels (ordersCache 2))
          (ordersPod 1 true none)) = true := by
    decide
  refine List.mem_filter.mpr ⟨?_, hselected⟩
  rw [h.pods]
  exact List.mem_cons_of_mem _ List.mem_cons_self

/-- A doomed pod without annotation has one after the Reconcile, with the
present second. -/
theorem OwnedReturned.annotated {srt : SliceSort}
    {cache : DistributedCache} {s' : Cluster} {b : Bool} {ring : Ring}
    {p : Pod} (h : OwnedReturned srt now cache s s' b ring)
    (hkeys : s'.pods.items.map Pod.key = s.pods.items.map Pod.key)
    (hp : p ∈ cachePods cache s) (hd : Doomed cache s p)
    (hnone : p.metadata.annotations.get drainAnnotation = none) :
    ∃ q ∈ s'.pods.items, q.key = p.key
      ∧ q.metadata.annotations.get drainAnnotation
        = some (decimal now.unix) := by
  have hitem : p ∈ s.pods.items := mem_cachePods hp
  have hkey : p.key ∈ s'.pods.items.map Pod.key := by
    rw [hkeys]
    exact List.mem_map_of_mem hitem
  obtain ⟨q, hq, hqkey⟩ := List.mem_map.mp hkey
  refine ⟨q, hq, hqkey, ?_⟩
  rcases h.pods.fresh q hq with hold | ⟨-, hnew⟩
  · -- a pod that was there before would not be marked
    obtain rfl := pod_unique hold hitem hqkey
    have hmark := h.marked _ (cachePods_of_mem hp hq) hd
    rw [hnone] at hmark
    cases hmark
  · exact hnew

/-- With one replica asked for, the second pod is to go. -/
theorem OrdersState.second_doomed
    {stored : {o : DistributedCache // o.key = ordersKey}}
    (hcell : SameCell (ordersCache 2) stored.1)
    (hspec : stored.1.body.spec = (ordersCache 1).body.spec)
    (hreplicas : storedReplicas stored.1 s = some 2) :
    Doomed stored.1 s (ordersPod 1 true none) := by
  refine doomed_of_between (i := 1) hreplicas (by rw [hspec]; rfl)
    (by decide) (by decide) ?_
  rw [hcell.podName]
  rfl

/-- With one replica asked for and the first pod not ready, nobody is left
for the ring. -/
theorem OrdersState.nobody_left {s' : Cluster} {b : Bool} {ring : Ring}
    {stored : {o : DistributedCache // o.key = ordersKey}}
    (h : OrdersState 1 false none r s)
    (hdoomed : Doomed stored.1 s (ordersPod 1 true none))
    (hret : OwnedReturned .insertionSort now stored.1 s s' b ring) :
    computeMembers .insertionSort (cachePods stored.1 s') = [] := by
  refine computeMembers_eq_nil.mpr (hret.candidates.mpr fun p hp => ?_)
  have hp' := mem_cachePods hp.1
  rw [h.pods] at hp'
  rcases List.mem_cons.mp hp' with rfl | hp'
  · decide
  · rw [List.mem_singleton.mp hp'] at hp
    exact absurd hdoomed hp.2

/-- With one replica asked for, a Reconcile starts the drain of the
second pod and publishes the ring without it. -/
theorem OrdersState.drains {r : Ring}
    (h : OrdersState 1 ready none (some r) s) {s' : Cluster}
    (hs' : s' = ((CacheOperator.reconcile .insertionSort (Time.ofUnix 100)
      ordersKey).run api s).2) :
    (∃ q ∈ s'.pods.items, q.key = (ordersPod 1 true none).key
        ∧ q.metadata.annotations.get drainAnnotation = some (decimal 100))
      ∧ ∃ r', OrdersState 1 ready (some 100) (some r')
          { s' with pods := ordersPods (ready, none) (true, some 100) }
        ∧ (ready = false → r.members ≠ [] → r' = ⟨r.version + 1, []⟩) := by
  obtain ⟨stored, b, ring, hcell, hspec, hreplicas, hrec⟩ :=
    h.reconcile (Time.ofUnix 100)
  have hkeys : s'.pods.items.map Pod.key = s.pods.items.map Pod.key := by
    rw [hs']
    exact run_podKeys _ s
  rw [← hs'] at hrec
  have hdoomed : Doomed stored.1 s (ordersPod 1 true none) :=
    second_doomed hcell hspec hreplicas
  have hlisted : ordersPod 1 true none ∈ cachePods stored.1 s := by
    rw [hcell.cachePods]
    exact h.listed
  have hb : b = false := by
    refine Bool.eq_false_iff.mpr fun hb => ?_
    obtain ⟨raw, -, hraw, -⟩ := hrec.permitted.mp hb _ hlisted hdoomed
    cases hraw
  subst hb
  refine ⟨hrec.returned.annotated hkeys hlisted hdoomed rfl, ring, ?_, ?_⟩
  · obtain ⟨stored', hheld', hspec'⟩ := hrec.held
    refine ⟨⟨stored', ⟨hheld'.stored, hheld'.live, hheld'.finalizer⟩,
      hspec'.trans hspec⟩, ?_, ?_, rfl, ?_⟩
    · exact (hrec.unclaimed.sameCell hcell.symm).sameBut fun _ _ => rfl
    · obtain ⟨sts, hsts, hc⟩ := Option.bind_eq_some_iff.mp hreplicas
      have hheld := hrec.replicas
      rw [storedOr_of_some hsts, hc, hspec, hcell.storedReplicas] at hheld
      exact hheld
    · have hring := hrec.returned.stored_of_stored
        ((hcell.storedRing s).trans h.ring)
      rw [hcell.storedRing] at hring
      exact hring
  · intro hready hmembers
    subst hready
    rw [hrec.returned.eq, h.nobody_left hdoomed hrec.returned, currentRing_eq,
      hcell.storedRing, h.ring, Option.getD_some]
    refine Ring.ext ?_ (desiredRing_members _ _)
    rw [desiredRing_version, if_neg (Ne.symm hmembers)]

/-- Thirty seconds later the second pod is terminated. -/
theorem OrdersState.terminates (h : OrdersState 1 ready (some 100) r s) :
    storedReplicas (ordersCache 2)
      ((CacheOperator.reconcile .insertionSort (Time.ofUnix 130)
        ordersKey).run api s).2 = some 1 := by
  obtain ⟨stored, b, ring, hcell, hspec, hreplicas, hrec⟩ :=
    h.reconcile (Time.ofUnix 130)
  have hgrace : grace stored.1 = grace (ordersCache 1) := by
    unfold grace
    rw [hspec]
  have hb : b = true := by
    refine hrec.permitted.mpr fun p hp hd => ?_
    have hp' := mem_cachePods hp
    rw [h.pods] at hp'
    rcases List.mem_cons.mp hp' with rfl | hp'
    · refine absurd ?_ (ne_podName_of_doomed hd (i := 0) ?_)
      · rw [hcell.podName]
        rfl
      · unfold desiredReplicas
        rw [hspec]
        decide
    · rw [List.mem_singleton.mp hp', hgrace]
      decide
  rw [← hcell.storedReplicas, hrec.replicas, hb, heldReplicas_true, hspec]
  rfl

theorem OrdersState.live (h : OrdersState n ready since r s) :
    s.live ordersKey = some (ordersCache n).body.spec := by
  obtain ⟨stored, hheld, hspec⟩ := h.held
  rw [live_of_stored hheld.stored hheld.live, hspec]

theorem ordersPods_marks {raw : String} {q : Pod}
    (hq : q ∈ (ordersPods (ready, none) (true, since)).items)
    (hraw : q.metadata.annotations.get drainAnnotation = some raw) :
    q = ordersPod 1 true since := by
  rcases List.mem_cons.mp hq with rfl | hq
  · cases hraw
  · exact List.mem_singleton.mp hq

end

/-- The small cluster before its first Reconcile, at second 100. -/
def ordersContract : ContractWorld :=
  { ordersFresh with
    clock := Time.ofUnix 100
    polledAt := fun _ => Time.ofUnix 100 }

/-- One event of the small cluster. -/
def ordersStep : ContractWorld → ContractEvent → ContractWorld :=
  ContractWorld.step .insertionSort (fun _ => 0) (ordersCache 2)

/-- The clients poll every 29 seconds, and the grace period is 30. -/
def OrdersPossible (w : ContractWorld) (e : ContractEvent) : Prop :=
  e.Possible (ordersCache 2) (29 * second) w

theorem ordersContract_begins :
    ordersContract.Begins (ordersCache 2) (29 * second) where
  fresh := ordersFresh_fresh
  stored := rfl
  live := rfl
  specified := ⟨⟨2, rfl, by decide⟩, by decide⟩
  unmarked := by
    show ∀ q ∈ (ordersPods (true, none) (true, none)).items, _
    decide

/-- A client that has loaded both pods at version 1. -/
def ordersLoaded : Client :=
  { ordersFresh.clients 0 with
    ring := some (buildRing .insertionSort (fun _ => 0)
      ⟨1, ["orders-cache-0", "orders-cache-1"]⟩) }

/-- The small cluster and its one client `c`, which has polled at `t`,
with `count` publications so far. -/
structure OrdersWorld (n : Int32) (ready : Bool) (since : Option Int64)
    (r : Option Ring) (c : Client) (t : Time) (count : Nat)
    (w : ContractWorld) : Prop where
  state : OrdersState n ready since r w.cluster
  client : FirstClient c t w
  clock : w.clock = t
  count : w.published.length = count

section

variable {n m : Int32} {ready : Bool} {since : Option Int64}
  {r : Option Ring} {c : Client} {t now : Time} {count : Nat}
  {w : ContractWorld}

theorem OrdersWorld.possible
    (h : OrdersWorld n ready since r c t count w) (hle : t ≤ now)
    (hP : now.nanos - t.nanos ≤ 29 * second) :
    w.clock ≤ now ∧ w.UpToDate (29 * second) now := by
  refine ⟨?_, h.client.upToDate hP⟩
  rw [h.clock]
  exact hle

theorem specified_orders (hn : 1 ≤ n) :
    Specified (29 * second) (ordersCache n).body.spec where
  replicas := ⟨n, rfl, hn⟩
  grace := by
    show 29 * second + second ≤ seconds 30
    decide

/-- A Reconcile that only publishes. -/
theorem OrdersWorld.publishes (h : OrdersWorld 2 ready none r c t count w)
    (hnew : r ≠ some (desiredRing (ordersMembers ready)
      (r.getD ⟨0, []⟩))) :
    OrdersPossible w (.reconcile t)
      ∧ OrdersWorld 2 ready none (some (desiredRing (ordersMembers ready)
          (r.getD ⟨0, []⟩))) c t (count + 1)
          (ordersStep w (.reconcile t)) := by
  refine ⟨h.possible (Int.le_refl _) (by simp [second]), ?_⟩
  have hstate := h.state.publishes t
  refine ⟨hstate, ⟨h.client.first, h.client.others, h.client.polled⟩, rfl,
    ?_⟩
  have hne : storedRing (ordersCache 2) w.cluster
      ≠ some (desiredRing (ordersMembers ready) (r.getD ⟨0, []⟩)) := by
    rw [h.state.ring]
    exact hnew
  show (recordRing (ordersCache 2) w.cluster ((reconcile .insertionSort t
    ordersKey).run api w.cluster).2 w.published).length = _
  rw [recordRing_of_ne w.published hstate.ring hne, List.length_cons,
    h.count]

/-- The user asks for another number of replicas. -/
theorem OrdersWorld.setReplicas
    (h : OrdersWorld n ready since r c t count w) (hn : 1 ≤ n)
    (hm : 1 ≤ m) :
    OrdersPossible w (.change (setReplicas ordersKey m w.cluster))
      ∧ OrdersWorld m ready since r c t count
        (ordersStep w (.change (setReplicas ordersKey m w.cluster))) :=
  ⟨possible_setReplicas h.state.live (specified_orders hn) hm,
    h.state.setReplicas,
    ⟨h.client.first, h.client.others, h.client.polled⟩, h.clock, h.count⟩

/-- The first pod becomes ready or stops being so. -/
theorem OrdersWorld.toggles (h : OrdersWorld 2 ready none r c t count w)
    (ready' : Bool) :
    OrdersPossible w (.change { w.cluster with
          pods := ordersPods (ready', none) (true, none) })
      ∧ OrdersWorld 2 ready' none r c t count
        (ordersStep w (.change { w.cluster with
          pods := ordersPods (ready', none) (true, none) })) := by
  refine ⟨possible_pods h.state.live (specified_orders (by decide)) ?_,
    h.state.withPods ready' none,
    ⟨h.client.first, h.client.others, h.client.polled⟩, h.clock, h.count⟩
  intro q hq raw hraw
  rw [ordersPods_marks hq hraw] at hraw
  cases hraw

/-- The drain of the second pod starts: the Reconcile, and then nothing
but its annotation on the pods. -/
theorem OrdersWorld.drains {r : Ring}
    (hrun : Run ordersStep OrdersPossible ordersContract w)
    (h : OrdersWorld 1 ready none (some r) c (Time.ofUnix 100) count w) :
    ∃ w' r', Run ordersStep OrdersPossible ordersContract w'
      ∧ OrdersWorld 1 ready (some 100) (some r') c (Time.ofUnix 100)
        w'.published.length w'
      ∧ w'.published.length ≤ count + 1
      ∧ (ready = false → r.members ≠ [] → r' = ⟨r.version + 1, []⟩
        ∧ w'.published.length = count + 1) := by
  obtain ⟨hmark, r', hstate, hempty⟩ := h.state.drains rfl
  have hpossible : OrdersPossible w (.reconcile (Time.ofUnix 100)) :=
    h.possible (Int.le_refl _) (by decide)
  refine ⟨ordersStep (ordersStep w (.reconcile (Time.ofUnix 100)))
    (.change { (ordersStep w (.reconcile (Time.ofUnix 100))).cluster with
      pods := ordersPods (ready, none) (true, some 100) }), r',
    .snoc (.snoc hrun _ hpossible) _ ?_,
    ⟨hstate, ⟨h.client.first, h.client.others, h.client.polled⟩, rfl, rfl⟩,
    ?_, ?_⟩
  · refine possible_pods hstate.live (specified_orders (by decide)) ?_
    intro q hq raw hraw
    obtain rfl := ordersPods_marks hq hraw
    obtain ⟨p, hp, hpkey, hpmark⟩ := hmark
    refine ⟨p, hp, hpkey, hpmark.trans ?_⟩
    exact hraw
  · rw [← h.count]
    exact recordRing_length_le_succ _ _ _
  · intro hready hmembers
    have hr' := hempty hready hmembers
    refine ⟨hr', ?_⟩
    have hne : storedRing (ordersCache 2) w.cluster ≠ some r' := by
      rw [h.state.ring, hr']
      intro heq
      injection heq with heq
      exact hmembers (by rw [heq])
    have hring : storedRing (ordersCache 2)
        (ordersStep w (.reconcile (Time.ofUnix 100))).cluster = some r' :=
      hstate.ring
    show (recordRing (ordersCache 2) w.cluster
      (ordersStep w (.reconcile (Time.ofUnix 100))).cluster
      w.published).length = _
    rw [recordRing_of_ne w.published hring hne, List.length_cons, h.count]

/-- The client polls the stored ring. -/
theorem OrdersWorld.polls {r : Ring}
    (h : OrdersWorld n ready since (some r) c t count w)
    (hkey : c.ringConfigMap = ringKey (ordersCache 2)) (hle : t ≤ now)
    (hP : now.nanos - t.nanos ≤ 29 * second) :
    OrdersPossible w (.poll now 0 [])
      ∧ OrdersWorld n ready since (some r)
        (c.load .insertionSort (fun _ => 0) r) now count
        (ordersStep w (.poll now 0 [])) := by
  have hstep : FirstClient (c.load .insertionSort (fun _ => 0) r) now
        (ordersStep w (.poll now 0 []))
      ∧ (ordersStep w (.poll now 0 [])).cluster = w.cluster
      ∧ (ordersStep w (.poll now 0 [])).published = w.published :=
    h.client.poll hkey h.state.ring
  obtain ⟨hclient, hcluster, hpublished⟩ := hstep
  refine ⟨h.possible hle hP, ?_, hclient, rfl, ?_⟩
  · rw [hcluster]
    exact h.state
  · rw [hpublished]
    exact h.count

end

/-- The first Reconcile and the first poll. -/
theorem ordersContract_loaded :
    ∃ w, Run ordersStep OrdersPossible ordersContract w
      ∧ OrdersWorld 2 true none (some ⟨1, ordersMembers true⟩) ordersLoaded
        (Time.ofUnix 100) 1 w := by
  have hstart : OrdersWorld 2 true none none (ordersFresh.clients 0)
      (Time.ofUnix 100) 0 ordersContract :=
    ⟨.start, ⟨rfl, fun _ _ => rfl, rfl⟩, rfl, rfl⟩
  obtain ⟨hreconcile, hpublished⟩ := hstart.publishes (by decide)
  obtain ⟨hpoll, hloaded⟩ := hpublished.polls rfl (Int.le_refl _) (by decide)
  exact ⟨_, .snoc (.snoc .nil _ hreconcile) _ hpoll, hloaded⟩

/-- The first pod becomes ready and unready in turn, and every time the
operator publishes: any number of versions goes by between two polls. -/
theorem ordersContract_spin (k : Nat) :
    ∃ w, Run ordersStep OrdersPossible ordersContract w
      ∧ OrdersWorld 2 (k % 2 == 0) none
        (some ⟨1 + Int64.ofNat k, ordersMembers (k % 2 == 0)⟩) ordersLoaded
        (Time.ofUnix 100) (k + 1) w := by
  induction k with
  | zero => exact ordersContract_loaded
  | succ k ih =>
      obtain ⟨w, hrun, hw⟩ := ih
      have hparity : ((k + 1) % 2 == 0) = !(k % 2 == 0) := by
        rcases Nat.mod_two_eq_zero_or_one k with h | h
        · rw [h, show (k + 1) % 2 = 1 by omega]
          rfl
        · rw [h, show (k + 1) % 2 = 0 by omega]
          rfl
      have hversion : (1 + Int64.ofNat (k + 1) : Int64)
          = 1 + Int64.ofNat k + 1 := by
        rw [Int64.ofNat_add, ← Int64.add_assoc]
        rfl
      rw [hparity, hversion]
      generalize (k % 2 == 0) = ready at hw
      generalize (1 + Int64.ofNat k : Int64) = v at hw
      have hother : ordersMembers (!ready) ≠ ordersMembers ready := by
        cases ready with
        | true => decide
        | false => decide
      have hring : desiredRing (ordersMembers !ready)
          ((some (⟨v, ordersMembers ready⟩ : Ring)).getD ⟨0, []⟩)
          = ⟨v + 1, ordersMembers !ready⟩ := by
        refine Ring.ext ?_ (desiredRing_members _ _)
        rw [Option.getD_some, desiredRing_version, if_neg hother]
      obtain ⟨htoggle, hw1⟩ := hw.toggles (!ready)
      obtain ⟨hreconcile, hw2⟩ := hw1.publishes (by
        rw [hring]
        intro heq
        injection heq with heq
        injection heq with _ heq
        exact hother heq.symm)
      rw [hring] at hw2
      exact ⟨_, .snoc (.snoc hrun _ htoggle) _ hreconcile, hw2⟩

/-- After 2^64 publications the version comes back to the one the client
has: it polls a second before the Reconcile that terminates the second
pod, and keeps that pod. -/
theorem wrapped_version_keeps_pod :
    ordersContract.Begins (ordersCache 2) (29 * second)
      ∧ ∃ w, Run (ContractWorld.step .insertionSort (fun _ => 0)
            (ordersCache 2))
          (fun w e => e.Possible (ordersCache 2) (29 * second) w)
          ordersContract w
        ∧ w.published.length = 2 ^ 64 + 1
        ∧ (ContractEvent.reconcile (Time.ofUnix 130)).Possible
          (ordersCache 2) (29 * second) w
        ∧ LoweredReplicas (ordersCache 2) w.cluster
          (w.step .insertionSort (fun _ => 0) (ordersCache 2)
            (.reconcile (Time.ofUnix 130))).cluster 2 1
        ∧ ∃ p ∈ cachePods (ordersCache 2) w.cluster,
          p.name = podName (ordersCache 2) 1
            ∧ ∃ hr, (w.clients 0).ring = some hr
              ∧ p.name ∈ hr.positions := by
  refine ⟨ordersContract_begins, ?_⟩
  obtain ⟨w0, hrun0, h0⟩ := ordersContract_spin (2 ^ 64 - 1)
  rw [show ((2 ^ 64 - 1) % 2 == 0) = false by decide,
    show (1 + Int64.ofNat (2 ^ 64 - 1) : Int64) = 0 by decide,
    show 2 ^ 64 - 1 + 1 = 2 ^ 64 by decide] at h0
  obtain ⟨hset, h1⟩ := h0.setReplicas (m := 1) (by decide) (by decide)
  obtain ⟨w2, r, hrun2, h2, -, hdrained⟩ := h1.drains (.snoc hrun0 _ hset)
  obtain ⟨rfl, hcount⟩ := hdrained rfl (by decide)
  rw [hcount] at h2
  obtain ⟨hpoll, h3⟩ := h2.polls rfl
    (show Time.ofUnix 100 ≤ Time.ofUnix 129 by decide) (by decide)
  have hsame : ordersLoaded.load .insertionSort (fun _ => 0) ⟨0 + 1, []⟩
      = ordersLoaded := Client.load_same rfl rfl
  rw [hsame] at h3
  refine ⟨_, .snoc hrun2 _ hpoll, h3.count,
    h3.possible (by decide) (by decide),
    ⟨h3.state.replicas, h3.state.terminates, by decide⟩,
    ordersPod 1 true (some 100), ?_, rfl,
    buildRing .insertionSort (fun _ => 0)
      ⟨1, ["orders-cache-0", "orders-cache-1"]⟩, ?_, ?_⟩
  · exact h3.state.listed
  · rw [h3.client.first]
    rfl
  · exact mem_positions_buildRing.mpr (by decide)

/-- With two publications, the client that has polled since the drain has
no such pod. -/
theorem terminated_pods_are_unloaded_orders :
    ∃ w, Run (ContractWorld.step .insertionSort (fun _ => 0)
          (ordersCache 2))
        (fun w e => e.Possible (ordersCache 2) (29 * second) w)
        ordersContract w
      ∧ LoweredReplicas (ordersCache 2) w.cluster
        (w.step .insertionSort (fun _ => 0) (ordersCache 2)
          (.reconcile (Time.ofUnix 130))).cluster 2 1
      ∧ ∃ p ∈ cachePods (ordersCache 2) w.cluster,
        p.name = podName (ordersCache 2) 1
          ∧ ∃ hr, (w.clients 0).ring = some hr
            ∧ p.name ∉ hr.positions := by
  obtain ⟨w0, hrun0, h0⟩ := ordersContract_loaded
  obtain ⟨hset, h1⟩ := h0.setReplicas (m := 1) (by decide) (by decide)
  obtain ⟨w2, r, hrun2, h2, hcount, -⟩ := h1.drains (.snoc hrun0 _ hset)
  obtain ⟨hpoll, h3⟩ := h2.polls rfl
    (show Time.ofUnix 100 ≤ Time.ofUnix 110 by decide) (by decide)
  obtain ⟨hr, hring, -⟩ :=
    @Client.load_version .insertionSort (fun _ => 0) ordersLoaded r
  rw [← h3.client.first] at hring
  have hlow : LoweredReplicas (ordersCache 2)
      (ordersStep w2 (.poll (Time.ofUnix 110) 0 [])).cluster
      (ordersStep (ordersStep w2 (.poll (Time.ofUnix 110) 0 []))
        (.reconcile (Time.ofUnix 130))).cluster 2 1 :=
    ⟨h3.state.replicas, h3.state.terminates, by decide⟩
  refine ⟨_, .snoc hrun2 _ hpoll, hlow, ordersPod 1 true (some 100),
    h3.state.listed, rfl, hr, hring, ?_⟩
  refine terminated_pods_are_unloaded .insertionSort (fun _ => 0)
    (ordersCache 2) (29 * second) ordersContract _ ordersContract_begins
    (.snoc hrun2 _ hpoll) ?_ (Time.ofUnix 130)
    (h3.possible (by decide) (by decide)) 2 1 hlow _ h3.state.listed 1
    (by decide) (by decide) rfl 0 hr hring
  have hlen : (ordersStep w2 (.poll (Time.ofUnix 110) 0 [])).published.length
      ≤ 1 + 1 := by
    rw [h3.count]
    exact hcount
  exact hlen.trans (by decide)

end CacheOperator
