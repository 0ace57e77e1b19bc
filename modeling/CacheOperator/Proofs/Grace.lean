/-
How long a drain takes.

The grace period runs from the second that the annotation names, which
is up to a second before the instant at which it was written. So a drain
may be over a fraction of a second early (`grace_kept_iff`).

It is over at the next Reconcile after the grace period, if every pod it
waits for carries an annotation by then that can be read (`Readable`) and
is not ahead of the clock (`NotAhead`). The scale-down sees to that: it
rewrites what it cannot read, so two Reconciles are enough. The deletion
leaves an annotation that it cannot read as it is, and waits for ever.
-/
import CacheOperator.Proofs.Cells
import CacheOperator.Proofs.Undisturbed

namespace CacheOperator

open Lib

-- ================================================= the end of the wait

/-- The check of either loop takes the pod for drained. -/
def Accepts (now : Time) (cache : DistributedCache) (p : Pod) : Prop :=
  drainScaleDownLoop now cache [p.name] [p] true = .ret true
    ∨ reconcileDeletionLoop now cache [p] true = .ret true

section

variable {now t t' : Time} {cache : DistributedCache} {p q : Pod}
  {s s' : Cluster}

theorem accepts_iff : Accepts now cache p ↔ Drained now (grace cache) p := by
  constructor
  · intro h
    unfold Accepts drainScaleDownLoop reconcileDeletionLoop at h
    simp only [List.mem_singleton, not_true_eq_false, if_false] at h
    cases hraw : p.metadata.annotations.get drainAnnotation with
    | none =>
      rw [hraw] at h
      rcases h with h | h
      · cases h
      · cases h
    | some raw =>
      rw [hraw] at h
      dsimp only at h
      cases hts : Decimal.parseInt64 raw.toList with
      | none =>
        rw [hts] at h
        rcases h with h | h
        · cases h
        · cases h
      | some ts =>
        rw [hts] at h
        refine ⟨raw, ts, hraw, hts, ?_⟩
        by_contra hage
        rw [not_le] at hage
        simp only [hage, if_true] at h
        rcases h with h | h
        · cases h
        · cases h
  · intro h
    refine Or.inl (drainScaleDownLoop_of_drained ?_ true)
    intro p' hp' _
    rw [List.mem_singleton.mp hp']
    exact h

theorem parse_decimal_unix (t : Time) :
    Decimal.parseInt64 (decimal t.unix).toList = some t.unix := by
  rw [decimal, String.toList_ofList, Decimal.parseInt64_format]

/-- A pod annotated at `t` is drained once the grace period has passed
since the start of the second of `t`. -/
theorem drained_annotate_iff : Drained now (grace cache) (annotate t p)
    ↔ grace cache ≤ now.nanos - t.sec.toInt * second := by
  obtain ⟨hlo, hhi⟩ :=
    seconds_range cache.body.spec.drain.gracePeriodSeconds
  have hnanos : (Time.ofUnix t.unix).nanos = t.sec.toInt * second := by
    rw [Time.ofUnix_unix]
    simp [Time.nanos]
  rw [← hnanos]
  constructor
  · intro h
    obtain ⟨raw, ts, hraw, hts, hage⟩ := h
    rw [get_annotate] at hraw
    cases hraw
    rw [parse_decimal_unix] at hts
    cases hts
    exact (Time.le_sub_iff hlo hhi).mp hage
  · intro h
    exact ⟨_, _, get_annotate, parse_decimal_unix t,
      (Time.le_sub_iff hlo hhi).mpr h⟩

end

/-- The grace period of a pod annotated at `t₁` is never cut short if and
only if `t₁` is the start of a second, or there is no grace period, or
its end is later than any instant. -/
theorem grace_kept_iff (cache : DistributedCache) (p : Pod) (t₁ : Time)
    (hgrace : 0 ≤ cache.body.spec.drain.gracePeriodSeconds.toInt) :
    (∀ t₂ : Time, t₁ ≤ t₂ → Accepts t₂ cache (annotate t₁ p) →
        grace cache ≤ t₂.nanos - t₁.nanos)
      ↔ t₁.nsec.val = 0
        ∨ cache.body.spec.drain.gracePeriodSeconds.toInt = 0
        ∨ 2 ^ 63 ≤ t₁.sec.toInt
          + cache.body.spec.drain.gracePeriodSeconds.toInt := by
  have hbound := cache.body.spec.drain.gracePeriodSeconds.toInt_lt
  simp only [accepts_iff, drained_annotate_iff, Time.le_def]
  generalize hg : cache.body.spec.drain.gracePeriodSeconds.toInt = g
    at hgrace hbound ⊢
  have hgrace' : grace cache = g * second := by
    rw [← hg]
    rfl
  rw [hgrace']
  have hfraction := t₁.nsec.isLt
  constructor
  · -- otherwise the drain is over at the start of a second
    intro h
    by_contra hno
    simp only [not_or, not_le] at hno
    obtain ⟨hnsec, hg0, hrange⟩ := hno
    have hsec := t₁.sec.le_toInt
    have hsum : (t₁.sec + Int64.ofInt g).toInt = t₁.sec.toInt + g := by
      rw [Int64.toInt_add, Int64.toInt_ofInt,
        Int.bmod_eq_of_le (n := g) (by simp; omega) (by simp; omega)]
      exact Int.bmod_eq_of_le (by simp; omega) (by simp; omega)
    have hearly := h ⟨t₁.sec + Int64.ofInt g, 0⟩
    simp only [Time.nanos, hsum, second, Fin.val_zero] at hearly
    omega
  · intro h t₂ hle hage
    have hlast := t₂.sec.toInt_lt
    have hfraction₂ := t₂.nsec.isLt
    simp only [Time.nanos, second] at hle hage ⊢
    omega

theorem grace_kept_iff_orders :
    (∀ t₂ : Time, Time.ofUnix 100 ≤ t₂ →
        Accepts t₂ (ordersCache 1)
          (annotate (Time.ofUnix 100) (ordersPod 1 true none)) →
        grace (ordersCache 1) ≤ t₂.nanos - (Time.ofUnix 100).nanos)
      ↔ (Time.ofUnix 100).nsec.val = 0
        ∨ (ordersCache 1).body.spec.drain.gracePeriodSeconds.toInt = 0
        ∨ 2 ^ 63 ≤ (Time.ofUnix 100).sec.toInt
          + (ordersCache 1).body.spec.drain.gracePeriodSeconds.toInt :=
  grace_kept_iff (ordersCache 1) (ordersPod 1 true none) (Time.ofUnix 100)
    (by decide)

/-- Nine tenths into second 100. -/
def lateInSecond100 : Time :=
  ⟨(Time.ofUnix 100).sec, 900000000, by decide⟩

/-- Of a grace period of 30 seconds, 29.1 seconds are kept. -/
theorem grace_is_cut_short :
    drainScaleDownLoop (Time.ofUnix 130) (ordersCache 1)
        ["orders-cache-1"]
        [annotate lateInSecond100 (ordersPod 1 true none)] true = .ret true
      ∧ reconcileDeletionLoop (Time.ofUnix 130) (ordersCache 1)
        [annotate lateInSecond100 (ordersPod 1 true none)] true = .ret true
      ∧ lateInSecond100 ≤ Time.ofUnix 130
      ∧ (Time.ofUnix 130).nanos - lateInSecond100.nanos = 29100000000
      ∧ grace (ordersCache 1) = 30000000000 := by
  have hdrained : Drained (Time.ofUnix 130) (grace (ordersCache 1))
      (annotate lateInSecond100 (ordersPod 1 true none)) := by
    decide
  refine ⟨drainScaleDownLoop_of_drained (fun p hp _ => ?_) true,
    reconcileDeletionLoop_of_drained (fun p hp => ?_) true, by decide,
    by decide, by decide⟩
  · rw [List.mem_singleton.mp hp]
    exact hdrained
  · rw [List.mem_singleton.mp hp]
    exact hdrained

-- ================================================= what can be read

/-- The pod carries an annotation that can be read. -/
def Readable (p : Pod) : Prop :=
  ∃ raw ts, p.metadata.annotations.get drainAnnotation = some raw
    ∧ Decimal.parseInt64 raw.toList = some ts

/-- An annotation that can be read is not ahead of `t`. -/
def NotAhead (t : Time) (p : Pod) : Prop :=
  ∀ raw ts, p.metadata.annotations.get drainAnnotation = some raw →
    Decimal.parseInt64 raw.toList = some ts → Time.ofUnix ts ≤ t

/-- A pod that was not told to drain has no start. -/
theorem notAhead_of_untold {t : Time} {p : Pod}
    (h : p.metadata.annotations.get drainAnnotation = none) :
    NotAhead t p := by
  intro raw ts hraw
  rw [h] at hraw
  cases hraw

/-- Whatever pod has this key can be read. -/
def Legible (key : NamespacedName) (s : Cluster) : Prop :=
  ∀ q ∈ s.pods.items, q.key = key → Readable q

section

variable {srt : SliceSort} {now t t' : Time} {cache : DistributedCache}
  {key : NamespacedName} {p q : Pod} {D : Pod → Prop} {s s' : Cluster}
  {doomed : List String}

/-- A fresh annotation is of the present second. -/
theorem fresh_readable
    (h : q.metadata.annotations.get drainAnnotation
      = some (decimal t.unix)) : Readable q ∧ NotAhead t q := by
  refine ⟨⟨_, _, h, parse_decimal_unix t⟩, fun raw ts hraw hts => ?_⟩
  rw [h] at hraw
  cases hraw
  rw [parse_decimal_unix] at hts
  cases hts
  exact (Time.nanos_ofUnix_unix t).1

/-- Once the grace period has passed, the drain of a pod that was read at
`t` is over. -/
theorem drained_later (hread : Readable p) (hahead : NotAhead t p)
    (hlater : grace cache ≤ t'.nanos - t.nanos) :
    Drained t' (grace cache) p := by
  obtain ⟨raw, ts, hraw, hts⟩ := hread
  obtain ⟨hlo, hhi⟩ :=
    seconds_range cache.body.spec.drain.gracePeriodSeconds
  have hle := hahead raw ts hraw hts
  rw [Time.le_def] at hle
  exact ⟨raw, ts, hraw, hts, (Time.le_sub_iff hlo hhi).mpr (by
    show grace cache ≤ _
    omega)⟩

theorem Legible.annotates (hm : Legible key s)
    (h : Annotates now D s s') : Legible key s' := by
  intro q hq hkey
  rcases h.pods q hq with hq | ⟨-, hq⟩
  · exact hm q hq hkey
  · exact (fresh_readable hq).1

theorem Fresh.legible (h : Fresh now key s) : Legible key s :=
  fun q hq hkey => (fresh_readable (h q hq hkey)).1

/-- A listed pod is the only one with its key. -/
theorem legible_of_listed (hp : p ∈ cachePods cache s)
    (hread : Readable p) : Legible p.key s := by
  intro q hq hkey
  rw [pod_unique hq (mem_cachePods hp) hkey]
  exact hread

-- ===================================================== the scale-down

/-- The scale-down loop leaves only annotations that can be read on the
pods it looks at. -/
theorem drainScaleDownLoop_legible (ps : List Pod) (b : Bool)
    (hps : ∀ p ∈ ps, Readable p → Legible p.key s) :
    (drainScaleDownLoop now cache doomed ps b).Returns api s fun _ s' =>
      Annotates now (fun q => q.name ∈ doomed) s s'
        ∧ ∀ p ∈ ps, p.name ∈ doomed → Legible p.key s' := by
  induction ps generalizing b s with
  | nil => exact .ret ⟨.refl, by simp⟩
  | cons p ps ih =>
      -- the rest of the loop, from the state the first pod leaves
      have hrest : ∀ b₁ s₁,
          Annotates now (fun q => q.name ∈ doomed) s s₁ →
          (p.name ∈ doomed → Legible p.key s₁) →
          (drainScaleDownLoop now cache doomed ps b₁).Returns api s₁
            fun _ s' => Annotates now (fun q => q.name ∈ doomed) s s'
              ∧ ∀ q ∈ p :: ps, q.name ∈ doomed → Legible q.key s' := by
        intro b₁ s₁ h hm
        refine (ih b₁ fun q hq hread =>
          (hps q (List.mem_cons_of_mem p hq) hread).annotates h).imp ?_
        intro _ s' ⟨h', hall⟩
        refine ⟨h.trans h', fun q hq hd => ?_⟩
        rcases List.mem_cons.mp hq with rfl | hq
        · exact (hm hd).annotates h'
        · exact hall q hq hd
      refine drainScaleDownLoop_turn (fun _ _ _ _ _ _ _ => trivial)
        (by simp) (by simp) ?_ ?_ ?_
      · intro hd
        exact hrest b s .refl fun h => absurd h hd
      · intro hd raw ts hraw hts
        exact hrest _ s .refl fun _ =>
          hps p List.mem_cons_self ⟨raw, ts, hraw, hts⟩
      · intro hd s' h hfresh
        exact hrest false s' h fun _ => hfresh.legible

/-- After the drain phase every doomed pod can be read. -/
theorem drainScaleDown_legible :
    (drainScaleDown now cache).Returns api s fun _ s' =>
      ∀ q ∈ cachePods cache s', Doomed cache s q → Readable q := by
  refine drainScaleDown_rule (by simp) (by simp) (fun _ _ => trivial)
    (fun hnone _ _ q _ hq => absurd hq (hnone q)) fun doomed hdoomed => ?_
  refine Prog.Sat.bind_only (listPods_sat fun _ _ => trivial)
    (by simp) (by simp) ?_
  refine Prog.Returns.imp (drainScaleDownLoop_legible _ true
    fun p hp hread => legible_of_listed hp hread) ?_
  intro _ s' hend q hq hd
  obtain ⟨h, hall⟩ := hend
  rcases h.pods q (mem_cachePods hq) with hold | ⟨-, hfresh⟩
  · exact hall q (cachePods_of_mem hq hold)
      ((hdoomed q).mp hd) q (mem_cachePods hq) rfl
  · exact (fresh_readable hfresh).1

/-- The later phases leave the pods alone. -/
theorem reconcileOwned_legible :
    (reconcileOwned srt now cache).Returns api s fun _ s' =>
      ∀ q ∈ cachePods cache s', Doomed cache s q → Readable q := by
  unfold reconcileOwned
  refine (orDegrade_returns reconcileCell_returns).bind ?_
  intro _ s1 ⟨_, hsame1, _⟩
  refine (orDegrade_returns reconcileServiceTwice_returns).bind ?_
  intro _ s2 ⟨_, hsame2, _⟩
  have hsts : s2.objects .statefulSet (statefulSetKey cache)
      = s.objects .statefulSet (statefulSetKey cache) := by
    rw [hsame2 _ (by decide), hsame1 _ (by decide)]
  refine (orDegrade_returns drainScaleDown_legible).bind ?_
  intro b s3 hlegible
  refine (orDegrade_returns (reconcileObject_returns (by simp)
    keeps_mutateOwned)).bind ?_
  intro _ s4 hsettles
  obtain ⟨-, hpods4⟩ := Settles.sameBut keeps_mutateOwned hsettles
  refine (orDegrade_returns reconcileRing_returns).bind ?_
  intro ring s5 ⟨_, _, hpods5⟩
  refine Prog.Returns.ret fun q hq hd => ?_
  rw [cachePods_congr (hpods5.trans hpods4)] at hq
  exact hlegible q hq ((doomed_congr hsts q).mpr hd)

/-- After a Reconcile to its end every pod that it found doomed can be
read. -/
theorem reconcile_legible
    {stored : {o : DistributedCache // o.key = key}} (hheld : Held s stored)
    {r : ReconcileResult}
    (hrun : (reconcile srt now key).run api s = (.ok r, s')) :
    ∀ q ∈ cachePods stored.1 s', Doomed stored.1 s q → Readable q := by
  rw [reconcile_run_live hheld.stored hheld.live hheld.finalizer] at hrun
  have hlive : (reconcileLive srt now stored.1).Returns api s fun _ s' =>
      ∀ q ∈ cachePods stored.1 s', Doomed stored.1 s q → Readable q := by
    unfold reconcileLive
    refine reconcileOwned_legible.bind ?_
    intro ⟨b, ring⟩ s1 hs1
    refine finish_returns.imp ?_
    intro _ s2 ⟨_, hs2, _⟩
    have hcore := core_serve stored.1
      (.updateStatus (observed now ring stored.1)) s1
      (peripheral_updateStatus _)
    rw [hs2, cachePods_congr (core_pods hcore)]
    exact hs1
  exact hlive.run hrun

/-- What the first of two Reconciles leaves: the StatefulSet is where it
should be, or it is held and all pods that are waited for will be drained
at the second one. -/
theorem first_of_two {c d : Int32}
    {stored : {o : DistributedCache // o.key = key}} {b : Bool}
    {ring : Ring} (hrec : Reconciled srt t stored s b ring s')
    (hlegible : ∀ q ∈ cachePods stored.1 s', Doomed stored.1 s q →
      Readable q)
    (hc : storedReplicas stored.1 s = some c)
    (hd : stored.1.body.spec.replicas = some d) (hlt : d < c)
    (hahead : ∀ p ∈ cachePods stored.1 s, NotAhead t p)
    (hlater : grace stored.1 ≤ t'.nanos - t.nanos) :
    storedReplicas stored.1 s' = some d
      ∨ storedReplicas stored.1 s' = some c ∧ Permits t' stored.1 s' := by
  obtain ⟨sts, hsts, hsc⟩ := Option.bind_eq_some_iff.mp hc
  have hreplicas := hrec.replicas
  rw [storedOr_of_some hsts, hsc, hd] at hreplicas
  cases b with
  | true => exact Or.inl hreplicas
  | false =>
      have hheld : storedReplicas stored.1 s' = some c := by
        rw [hreplicas]
        exact if_pos hlt
      refine Or.inr ⟨hheld, fun p hp hdoomed => ?_⟩
      obtain ⟨sts', hsts', hmem⟩ := hdoomed
      have hsc' : sts'.1.body.replicas = some c := by
        unfold storedReplicas at hheld
        rw [hsts'] at hheld
        exact hheld
      -- it was doomed before, by the same replicas
      have hbefore : Doomed stored.1 s p := by
        refine ⟨sts, hsts, ?_⟩
        rw [hsc, ← hsc']
        exact hmem
      refine drained_later (hlegible p hp hbefore) ?_ hlater
      rcases hrec.returned.pods.fresh p (mem_cachePods hp) with
        hold | ⟨-, hfresh⟩
      · exact hahead p (cachePods_of_mem hp hold)
      · exact (fresh_readable hfresh).2

/-- Whether a scale-down is permitted is a matter of the spec. -/
theorem permits_sameCell {cache' : DistributedCache}
    (hcell : SameCell cache cache')
    (hspec : cache'.body.spec = cache.body.spec) :
    Permits now cache' s ↔ Permits now cache s := by
  have hnames : podName cache' = podName cache := funext hcell.podName
  unfold Permits Doomed doomedNames desiredReplicas grace
  rw [hcell.cachePods, hcell.statefulSetKey, hnames, hspec]

/-- With the replicas that are asked for nothing is held. -/
theorem heldReplicas_self (b : Bool) (d : Int32) :
    heldReplicas b (some d) (some d) = some d := by
  cases b with
  | true => rfl
  | false => exact if_neg Int32.lt_irrefl

/-- A pod that is annotated stays so. -/
theorem PodsAnnotated.marked (h : PodsAnnotated now cache s s')
    (hq : q ∈ cachePods cache s')
    (hall : ∀ p ∈ cachePods cache s, p.name = q.name →
      (p.metadata.annotations.get drainAnnotation).isSome) :
    (q.metadata.annotations.get drainAnnotation).isSome := by
  rcases h.fresh q (mem_cachePods hq) with hold | ⟨-, hfresh⟩
  · exact hall q (cachePods_of_mem hq hold) rfl
  · rw [hfresh]
    rfl

/-- A name that only annotated pods have is not published. -/
theorem OwnedReturned.not_member {b : Bool} {ring r : Ring} {name : String}
    (h : OwnedReturned srt now cache s s' b ring)
    (hall : ∀ q ∈ cachePods cache s', q.name = name →
      (q.metadata.annotations.get drainAnnotation).isSome)
    (hr : storedRing cache s' = some r) : name ∉ r.members := by
  intro hmem
  rw [h.stored_members hr] at hmem
  obtain ⟨q, hq, ord, hentry⟩ := mem_computeMembers.mp hmem
  obtain ⟨-, hnone, -, -, -, hname⟩ := ringEntry_eq_some.mp hentry
  have hsome := hall q hq hname
  rw [hnone] at hsome
  cases hsome

end

/-- The scale-down is over after two Reconciles, if the second is later
than the first by the grace period and nothing they write is somebody
else's: the StatefulSet has the desired replicas, and after both
Reconciles the ring has none of the pods that go. -/
theorem scale_down_completes (srt : SliceSort) (key : NamespacedName)
    (s : Cluster) (stored : {o : DistributedCache // o.key = key})
    (hheld : Held s stored) (hun : Unclaimed stored.1 s) (c d : Int32)
    (hc : storedReplicas stored.1 s = some c)
    (hd : stored.1.body.spec.replicas = some d) (hlt : d < c)
    (t t' : Time)
    (hahead : ∀ p ∈ cachePods stored.1 s, NotAhead t p)
    (hlater : grace stored.1 ≤ t'.nanos - t.nanos) (s₁ s₂ : Cluster)
    (hs₁ : s₁ = ((reconcile srt t key).run api s).2)
    (hs₂ : s₂ = ((reconcile srt t' key).run api s₁).2) :
    storedReplicas stored.1 s₂ = some d
      ∧ ∀ i : Int, d.toInt ≤ i → i < c.toInt →
        ∀ r, storedRing stored.1 s₁ = some r
            ∨ storedRing stored.1 s₂ = some r →
          podName stored.1 i ∉ r.members := by
  obtain ⟨r₁, b₁, ring₁, s₁', hrun₁, hrec₁⟩ : ∃ r b ring s',
      (reconcile srt t key).run api s = (.ok r, s')
        ∧ Reconciled srt t stored s b ring s' := reconcile_run_ok hheld hun
  obtain rfl : s₁ = s₁' := by
    rw [hs₁, hrun₁]
  obtain ⟨stored', hheld', hspec⟩ := hrec₁.held
  have hcell : SameCell stored.1 stored'.1 := sameCell_of_spec (by rw [hspec])
  obtain ⟨r₂, b₂, ring₂, s₂', hrun₂, hrec₂⟩ : ∃ r b ring s',
      (reconcile srt t' key).run api s₁ = (.ok r, s')
        ∧ Reconciled srt t' stored' s₁ b ring s' :=
    reconcile_run_ok hheld' (hrec₁.unclaimed.sameCell hcell)
  obtain rfl : s₂ = s₂' := by
    rw [hs₂, hrun₂]
  constructor
  · have hreplicas := hrec₂.replicas
    rw [hcell.storedReplicas, storedOr_replicas, hcell.storedReplicas, hspec,
      hd] at hreplicas
    rw [hreplicas]
    rcases first_of_two hrec₁ (reconcile_legible hheld hrun₁) hc hd hlt
      hahead hlater with hdone | ⟨hwaits, hperm⟩
    · rw [hdone]
      exact heldReplicas_self b₂ d
    · rw [hrec₂.permitted.mpr ((permits_sameCell hcell hspec).mpr hperm)]
      exact heldReplicas_true _ _
  · intro i hlo hhi r hr
    -- the first Reconcile leaves every such pod annotated
    have hmarked : ∀ q ∈ cachePods stored.1 s₁,
        q.name = podName stored.1 i →
        (q.metadata.annotations.get drainAnnotation).isSome :=
      fun q hq hname => hrec₁.returned.marked q hq
        (doomed_of_between hc hd hlo hhi hname)
    rcases hr with hr | hr
    · exact hrec₁.returned.not_member hmarked hr
    · rw [← hcell.storedRing] at hr
      refine hrec₂.returned.not_member (fun q hq hname => ?_) hr
      refine hrec₂.returned.pods.marked hq fun p hp hpq => ?_
      rw [hcell.cachePods] at hp
      exact hmarked p hp (hpq.trans hname)

/-- The cluster after a Reconcile at second 100. -/
def ordersOnce (s : Cluster) : Cluster :=
  ((reconcile .insertionSort (Time.ofUnix 100) ordersKey).run api s).2

/-- And after another one, 30 seconds later. -/
def ordersTwice (s : Cluster) : Cluster :=
  ((reconcile .insertionSort (Time.ofUnix 130) ordersKey).run api
    (ordersOnce s)).2

/-- The user goes from two pods to one. -/
theorem scale_down_completes_orders :
    storedReplicas (ordersCache 1) (ordersTwice (ordersCluster 1 2
        (ordersPods (true, none) (true, none)))) = some 1
      ∧ ∀ i : Int, (1 : Int32).toInt ≤ i → i < (2 : Int32).toInt →
        ∀ r, storedRing (ordersCache 1) (ordersOnce (ordersCluster 1 2
              (ordersPods (true, none) (true, none)))) = some r
            ∨ storedRing (ordersCache 1) (ordersTwice (ordersCluster 1 2
              (ordersPods (true, none) (true, none)))) = some r →
          podName (ordersCache 1) i ∉ r.members := by
  refine scale_down_completes .insertionSort ordersKey
    (ordersCluster 1 2 (ordersPods (true, none) (true, none)))
    ⟨ordersCache 1, rfl⟩ ⟨rfl, rfl, by decide⟩
    (ordersCluster_unclaimed 1 2 _) 2 1 rfl rfl (by decide)
    (Time.ofUnix 100) (Time.ofUnix 130) ?_ (by decide) _ _ rfl rfl
  exact fun p hp =>
    notAhead_of_untold (ordersPods_untold p (mem_cachePods hp))

/-- The same cluster, but the StatefulSet is controlled by another
object. -/
def ordersTaken : Cluster :=
  { (Cluster.empty.put (ordersCache 1)).put
      { ordersStatefulSet 2 with metadata :=
        { (ordersStatefulSet 2).metadata with
          controller := some ⟨"Rollout", "orders", "7"⟩ } } with
    pods := ordersPods (true, none) (true, none) }

/-- No Reconcile writes a StatefulSet that is somebody else's. -/
theorem taken_statefulSet_kept {srt : SliceSort} {now : Time}
    {s : Cluster} (cache : DistributedCache)
    (hlive : s.live cache.key = some cache.body.spec)
    (hf : Foreign cache (s.storedOr .statefulSet (statefulSetKey cache))) :
    ((reconcile srt now cache.key).run api s).2.live cache.key
        = some cache.body.spec
      ∧ ((reconcile srt now cache.key).run api s).2.objects .statefulSet
          (statefulSetKey cache)
        = s.objects .statefulSet (statefulSetKey cache) := by
  obtain ⟨stored, hstored, hdel, hspec⟩ := live_eq_some hlive
  have hcell : SameCell cache stored.1 := ⟨stored.2, by rw [hspec]⟩
  have heffect := reconcile_effect srt now hstored hdel []
  have hsame := (reconcile_live srt now cache.key s []).2
  rw [(Prog.exec_nil api (reconcile srt now cache.key) s).1] at heffect hsame
  refine ⟨hsame.trans hlive, ?_⟩
  rcases heffect.sts with hkept | ⟨hnf, -⟩
  · rw [hcell.statefulSetKey] at hkept
    exact hkept
  · rw [hcell.foreign, hcell.statefulSetKey] at hnf
    exact absurd hf hnf

/-- The drain of the second pod is over, but the StatefulSet stays at two
replicas. -/
theorem taken_statefulSet_is_not_scaled :
    @Held ordersKey ordersTaken ⟨ordersCache 1, rfl⟩
      ∧ storedReplicas (ordersCache 1) ordersTaken = some 2
      ∧ (ordersCache 1).body.spec.replicas = some 1
      ∧ (∀ p ∈ cachePods (ordersCache 1) ordersTaken,
        p.metadata.annotations.get drainAnnotation = none)
      ∧ grace (ordersCache 1)
        ≤ (Time.ofUnix 130).nanos - (Time.ofUnix 100).nanos
      ∧ storedReplicas (ordersCache 1) (ordersTwice ordersTaken)
        = some 2 := by
  have hforeign : Foreign (ordersCache 1) (ordersTaken.storedOr
      .statefulSet (statefulSetKey (ordersCache 1))) := by
    decide +kernel
  have honce : (ordersOnce ordersTaken).live ordersKey
        = some (ordersCache 1).body.spec
      ∧ (ordersOnce ordersTaken).objects .statefulSet
          (statefulSetKey (ordersCache 1))
        = ordersTaken.objects .statefulSet
          (statefulSetKey (ordersCache 1)) :=
    taken_statefulSet_kept (ordersCache 1) rfl hforeign
  have htwice : (ordersTwice ordersTaken).live ordersKey
        = some (ordersCache 1).body.spec
      ∧ (ordersTwice ordersTaken).objects .statefulSet
          (statefulSetKey (ordersCache 1))
        = (ordersOnce ordersTaken).objects .statefulSet
          (statefulSetKey (ordersCache 1)) := by
    refine taken_statefulSet_kept (ordersCache 1) honce.1 ?_
    rw [storedOr_congr honce.2]
    exact hforeign
  refine ⟨⟨rfl, rfl, by decide⟩, rfl, rfl, by decide, by decide, ?_⟩
  unfold storedReplicas
  rw [htwice.2, honce.2]
  rfl

-- ======================================================= the deletion

/-- The object is under deletion and still has the finalizer. -/
structure Condemned {key : NamespacedName} (s : Cluster)
    (o : {o : DistributedCache // o.key = key}) : Prop where
  stored : s.objects .distributedCache key = some o
  deleting : o.1.metadata.deleting = true
  finalizer : drainFinalizer ∈ o.1.metadata.finalizers

/-- The finalizer is gone, if not the object. -/
def Released (key : NamespacedName) (s : Cluster) : Prop :=
  ∀ o, s.objects .distributedCache key = some o →
    drainFinalizer ∉ o.1.metadata.finalizers

/-- The call looks for the cell, which is gone or on its way out. -/
def FindsCellGone (cache : DistributedCache) (e : Call) : Prop :=
  e.req = .get .ns ⟨"", targetNamespace cache⟩
    ∧ ∀ ns, e.before.objects .ns ⟨"", targetNamespace cache⟩ = some ns →
      ns.1.metadata.deleting = true

/-- The call is one of those after the drain. -/
def PastDrain (cache : DistributedCache) (key : NamespacedName)
    (e : Call) : Prop :=
  IssuesNamespaceDelete e ∨ FindsCellGone cache e ∨ RemovesFinalizer key e

section

variable {srt : SliceSort} {now t t' : Time} {cache : DistributedCache}
  {key : NamespacedName} {p q : Pod} {s s' : Cluster}
  {stored : {o : DistributedCache // o.key = key}}

/-- The deletion loop annotates what is not annotated, and leaves the
rest. -/
theorem reconcileDeletionLoop_legible (ps : List Pod) (b : Bool)
    (hps : ∀ p ∈ ps,
      (p.metadata.annotations.get drainAnnotation).isSome →
      Legible p.key s) :
    (reconcileDeletionLoop now cache ps b).Returns api s fun _ s' =>
      Annotates now (fun _ => True) s s' ∧ ∀ p ∈ ps, Legible p.key s' := by
  induction ps generalizing b s with
  | nil => exact .ret ⟨.refl, by simp⟩
  | cons p ps ih =>
      have hrest : ∀ b₁ s₁, Annotates now (fun _ => True) s s₁ →
          Legible p.key s₁ →
          (reconcileDeletionLoop now cache ps b₁).Returns api s₁
            fun _ s' => Annotates now (fun _ => True) s s'
              ∧ ∀ q ∈ p :: ps, Legible q.key s' := by
        intro b₁ s₁ h hm
        refine (ih b₁ fun q hq hsome =>
          (hps q (List.mem_cons_of_mem p hq) hsome).annotates h).imp ?_
        intro _ s' ⟨h', hall⟩
        refine ⟨h.trans h', fun q hq => ?_⟩
        rcases List.mem_cons.mp hq with rfl | hq
        · exact hm.annotates h'
        · exact hall q hq
      have hkept : ∀ raw, p.metadata.annotations.get drainAnnotation
          = some raw → Legible p.key s :=
        fun raw hraw => hps p List.mem_cons_self (by rw [hraw]; rfl)
      refine reconcileDeletionLoop_turn (fun _ _ _ _ _ => trivial)
        (by simp) (by simp) ?_ ?_ ?_
      · intro raw ts hraw _
        exact hrest _ s .refl (hkept raw hraw)
      · intro raw hraw _
        exact hrest false s .refl (hkept raw hraw)
      · intro s' h hfresh
        exact hrest false s' h hfresh.legible

theorem reconcile_run_deleting (h : Condemned s stored) :
    (reconcile srt now key).run api s
      = (reconcileDeletion srt now stored.1).run api s := by
  unfold reconcile
  simp only [bind, pure, Prog.bind, request, Prog.run_call]
  rw [serve_get_some h.stored]
  dsimp only
  rw [if_pos h.deleting]

theorem pods_of_silent {r : Request} (h : r.Silent cache) :
    (api.serve r s).2.pods = s.pods := by
  refine serve_pods fun k ht => ?_
  cases r with
  | updatePod p => exact h
  | _ => cases ht

/-- After a Reconcile under deletion every listed pod can be read, if
those that were annotated before could be. -/
theorem reconcileDeletion_readable
    (hfin : drainFinalizer ∈ cache.metadata.finalizers)
    (hread : ∀ p ∈ cachePods cache s,
      (p.metadata.annotations.get drainAnnotation).isSome → Readable p)
    (hahead : ∀ p ∈ cachePods cache s, NotAhead t p) :
    ∀ q ∈ cachePods cache ((reconcileDeletion srt t cache).run api s).2,
      Readable q ∧ NotAhead t q := by
  have hlist : (listPods cache "list pods for deletion drain").run api s
      = (.ok (cachePods cache s), s) := rfl
  obtain ⟨b, hb⟩ := @reconcileDeletionLoop_run t cache s
    (cachePods cache s) true (fun p hp => mem_cachePods hp) nodup_cachePods
  have hloop : (reconcileDeletionLoop t cache (cachePods cache s) true).run
      api s = (.ok b, ((reconcileDeletionLoop t cache (cachePods cache s)
        true).run api s).2) := Prod.ext hb rfl
  obtain ⟨hann, hall⟩ := (reconcileDeletionLoop_legible _ true
    fun p hp hsome => legible_of_listed hp (hread p hp hsome)).run hloop
  generalize ((reconcileDeletionLoop t cache (cachePods cache s) true).run
    api s).2 = s1 at hloop hann hall
  -- after the loop no pod changes
  have hpods : ((reconcileDeletion srt t cache).run api s).2.pods
      = s1.pods := by
    unfold reconcileDeletion
    rw [if_neg (by simpa using hfin), Prog.run_bind, hlist]
    dsimp only
    rw [Prog.run_bind, hloop]
    dsimp only
    refine Prog.run_frame (fun r s h => pods_of_silent h)
      (Prog.Uses.bind (reconcileRing_quiet.mono fun _ h => h.silent).attempt
        fun _ => ?_) s1
    split
    · trivial
    · exact tearDown_silent
  intro q hq
  rw [cachePods_congr hpods] at hq
  rcases hann.pods q (mem_cachePods hq) with hold | ⟨-, hfresh⟩
  · have hq' := cachePods_of_mem hq hold
    exact ⟨hall q hq' q (mem_cachePods hq) rfl, hahead q hq'⟩
  · exact fresh_readable hfresh

/-- The update to an object without the finalizer takes it, unless
another version is stored. -/
theorem serve_update_released (o : DistributedCache) (hkey : o.key = key)
    (h : drainFinalizer ∉ o.metadata.finalizers) :
    Released key (api.serve (.update .distributedCache o) s).2
      ∨ (api.serve (.update .distributedCache o) s).2 = s
        ∧ ∀ old, s.objects .distributedCache key = some old →
          o.metadata.resourceVersion ≠ old.1.metadata.resourceVersion := by
  subst hkey
  show Released o.key (s.serveUpdate o).2 ∨ (s.serveUpdate o).2 = s ∧ _
  unfold Cluster.serveUpdate
  split
  · next hnone =>
    refine Or.inr ⟨rfl, fun old hold => ?_⟩
    rw [hnone] at hold
    cases hold
  next old hkey hold =>
  split
  · next hrv =>
    refine Or.inr ⟨rfl, fun old' hold' => ?_⟩
    rw [hold] at hold'
    cases hold'
    exact hrv
  left
  split
  · intro new hnew
    simp [Cluster.remove] at hnew
  · intro new hnew
    obtain ⟨new', hnew', hcase⟩ :=
      Cluster.write_objects_self hold (admitted_key old o)
    cases hnew'.symm.trans hnew
    rcases hcase with hcase | hcase
    · rw [hcase]
      exact h
    · rw [hcase]
      exact h

theorem not_mem_removeFinalizer (c : DistributedCache) :
    drainFinalizer ∉ (removeFinalizer c).metadata.finalizers := by
  simp [removeFinalizer]

/-- A Reconcile under deletion lets the object go, or leaves it alone. -/
theorem reconcileDeletion_object (h : Condemned s stored) :
    Released key ((reconcileDeletion srt now stored.1).run api s).2
      ∨ Condemned ((reconcileDeletion srt now stored.1).run api s).2
        stored := by
  let kept (s' : Cluster) : Prop := Released key s' ∨ Condemned s' stored
  let harmless (r : Request) : Prop :=
    r = .update .distributedCache (removeFinalizer stored.1)
      ∨ r.SparesKinds [.distributedCache]
  have hserve : ∀ r s, harmless r → kept s → kept (api.serve r s).2 := by
    intro r s hr hs
    rcases hr with rfl | hr
    · rcases serve_update_released (s := s) (removeFinalizer stored.1)
        stored.2 (not_mem_removeFinalizer _) with hreleased | ⟨hsame, -⟩
      · exact Or.inl hreleased
      · show kept (api.serve (.update .distributedCache
          (removeFinalizer stored.1)) s).2
        rw [hsame]
        exact hs
    · have hsame : (api.serve r s).2.objects .distributedCache
          = s.objects .distributedCache :=
        objects_of_sparesKinds hr (by simp) s
      rcases hs with hs | hs
      · left
        unfold Released
        rw [hsame]
        exact hs
      · refine Or.inr ⟨?_, hs.deleting, hs.finalizer⟩
        rw [hsame]
        exact hs.stored
  have huses : (reconcileDeletion srt now stored.1).Uses harmless :=
    reconcileDeletion_uses (fun r hr => Or.inr (hr.sparesKinds (by simp)))
      (Or.inr fun _ _ _ => nofun) (fun p => Or.inr fun _ _ _ => nofun)
      (tearDown_uses (Or.inr fun _ _ _ => nofun)
        (fun _ => Or.inr (by simp [Request.SparesKinds, Request.target]))
        (Or.inl rfl) fun _ _ => Or.inr fun _ _ _ => nofun)
  exact (Prog.Sat.of_uses_keeping (I := kept) hserve huses (Or.inr h)).run

-- ======================================================= what it does

/-- The teardown begins with one of the calls after the drain. -/
theorem tearDown_makes (h : Condemned s stored) :
    (tearDown stored.1).Makes api s (PastDrain stored.1 key) := by
  unfold tearDown
  split
  · refine Prog.Makes.bind_left (Prog.Makes.bind_left (.attempt ?_))
    unfold deleteCellNamespace
    simp only [bind, pure, Prog.bind, request]
    cases hns : s.objects .ns ⟨"", targetNamespace stored.1⟩ with
    | none =>
        refine .first (Or.inr (Or.inl ⟨rfl, fun ns h => ?_⟩))
        rw [hns] at h
        cases h
    | some ns =>
        by_cases hdel : ns.1.metadata.deleting = true
        · refine .first (Or.inr (Or.inl ⟨rfl, fun ns' h => ?_⟩))
          rw [hns] at h
          cases h
          exact hdel
        · refine .later ?_
          rw [serve_get_some hns]
          dsimp only
          rw [if_neg hdel]
          exact .first (Or.inl ⟨_, rfl⟩)
  · unfold releaseCache
    simp only [bind, pure, Prog.bind, request]
    refine .first (Or.inr (Or.inr ⟨stored, h.stored, h.deleting,
      h.finalizer, ?_⟩))
    rcases serve_update_released (s := s) (removeFinalizer stored.1)
      stored.2 (not_mem_removeFinalizer _) with hreleased | ⟨-, hother⟩
    · exact hreleased
    · exact absurd rfl (hother stored h.stored)

/-- With every pod drained, a Reconcile under deletion goes on to the
teardown. -/
theorem reconcile_makes (h : Condemned s stored)
    (hall : AllDrained now stored.1 s) :
    (reconcile srt now key).Makes api s (PastDrain stored.1 key) := by
  have hring : (reconcileRing srt stored.1).attempt.run api s
      = (.ok ((reconcileRing srt stored.1).run api s).1,
        ((reconcileRing srt stored.1).run api s).2) := Prog.run_attempt ..
  have huses : (reconcileRing srt stored.1).Uses
      (Request.SparesKinds [.distributedCache]) :=
    reconcileRing_uses (fun _ _ _ => nofun)
      fun _ hr => hr.sparesKinds (by simp)
  have hkept : ((reconcileRing srt stored.1).run api s).2.objects
      .distributedCache = s.objects .distributedCache :=
    (Prog.Sat.of_uses (fun s : Cluster => s.objects .distributedCache)
      (fun r s hr => objects_of_sparesKinds hr (by simp) s) huses).run
  unfold reconcile
  simp only [bind, pure, Prog.bind, request]
  refine .later ?_
  rw [serve_get_some h.stored]
  dsimp only
  rw [if_pos h.deleting]
  unfold reconcileDeletion
  rw [if_neg (by simpa using h.finalizer)]
  have hlist : (listPods stored.1 "list pods for deletion drain").run api s
      = (.ok (cachePods stored.1 s), s) := rfl
  refine .bind_right hlist ?_
  rw [reconcileDeletionLoop_of_drained hall]
  refine .bind_right rfl (.bind_right hring ?_)
  refine tearDown_makes ⟨?_, h.deleting, h.finalizer⟩
  rw [hkept]
  exact h.stored

-- ====================================================== what stops it

/-- A call of the drain, which leaves the pod `p` alone. -/
def Request.Waits (cache : DistributedCache) (p : Pod) (r : Request) :
    Prop :=
  r.Draining cache ∧ (∀ key, r ≠ .get .ns key)
    ∧ (∀ c, r ≠ .updateStatus c)
    ∧ ∀ q, r = .updatePod q → p.key ≠ q.key

/-- The object and the pod are as before. -/
def Waiting (p : Pod) (s s' : Cluster) : Prop :=
  s'.objects .distributedCache = s.objects .distributedCache
    ∧ p ∈ s'.pods.items

theorem waits_serve {r : Request} (h : r.Waits cache p)
    (hs : Waiting p s s') : Waiting p s (api.serve r s').2 := by
  obtain ⟨hdraining, -, hstatus, hpod⟩ := h
  constructor
  · rw [← hs.1]
    funext key
    exact cache_serve hdraining hstatus
  · by_cases hup : ∃ q, r = .updatePod q
    · obtain ⟨q, rfl⟩ := hup
      exact mem_updatePod hs.2 (hpod q rfl)
    · rw [serve_pods]
      · exact hs.2
      · intro k ht
        cases r with
        | updatePod q => exact hup ⟨q, rfl⟩
        | _ => cases ht

/-- A program that waits stays before the end of the drain. -/
theorem waits_sat {α : Type} {op : Op α} (hop : op.Uses (Request.Waits cache p))
    {s₀ : Cluster} (hs : Waiting p s₀ s) :
    op.Sat api s (fun e => ¬PastDrain cache key e)
      fun _ s' => Waiting p s₀ s' := by
  have hnot : op.Sat api s (fun e => ¬IssuesNamespaceDelete e
      ∧ ¬RemovesFinalizer key e) fun _ _ => True :=
    not_releases_of_uses (hop.mono fun _ h => h.1)
  refine ((hnot.and (.calls hop)).and (Prog.Sat.of_uses_keeping
    (I := Waiting p s₀) (fun r s => waits_serve) hop hs)).imp ?_
    fun _ _ h => h.2
  intro e ⟨⟨⟨hdel, hfin⟩, hwaits⟩, _⟩ hpast
  rcases hpast with h | h | h
  · exact hdel h
  · exact hwaits.2.1 _ h.1
  · exact hfin h

/-- Reads and writes of owned objects wait. -/
theorem waits_of_quiet {r : Request} (h : r.Quiet cache)
    (hget : ∀ key, r ≠ .get .ns key) (hstatus : ∀ c, r ≠ .updateStatus c) :
    r.Waits cache p := by
  refine ⟨Or.inl h, hget, hstatus, ?_⟩
  intro q hq
  subst hq
  cases h

theorem reconcileRing_waits :
    (reconcileRing srt cache).Uses (Request.Waits cache p) := by
  refine reconcileRing_uses (waits_of_quiet ⟨rfl, rfl⟩ (by simp) (by simp))
    fun r hr => waits_of_quiet (hr.quiet (by simp)) ?_ ?_
  · intro k hk
    subst hk
    cases hr
  · intro c hc
    subst hc
    cases hr

/-- The loop writes no annotated pod, so not this one. -/
theorem reconcileDeletionLoop_waits {raw : String}
    (hp : p ∈ cachePods cache s)
    (hraw : p.metadata.annotations.get drainAnnotation = some raw) :
    (reconcileDeletionLoop now cache (cachePods cache s) true).Uses
      (Request.Waits cache p) := by
  refine reconcileDeletionLoop_uses _ true fun q hq hnone => ?_
  refine ⟨Or.inr ⟨_, rfl⟩, by simp, by simp, ?_⟩
  intro q' hq' hkey
  cases hq'
  rw [pod_unique (mem_cachePods hp) (mem_cachePods hq) hkey, hnone] at hraw
  cases hraw

theorem not_drained_of_unreadable {raw : String} {g : Int}
    (hraw : p.metadata.annotations.get drainAnnotation = some raw)
    (hts : Decimal.parseInt64 raw.toList = none) :
    ¬Drained now g p := by
  intro hd
  obtain ⟨raw', ts, hraw', hts', -⟩ := hd
  rw [hraw] at hraw'
  cases hraw'
  rw [hts] at hts'
  cases hts'

/-- A read is not yet past the drain, unless it looks for the cell. -/
theorem not_pastDrain_of_same {e : Call} (hsame : e.after = e.before)
    (hdelete : ¬IssuesNamespaceDelete e)
    (hget : e.req ≠ .get .ns ⟨"", targetNamespace cache⟩) :
    ¬PastDrain cache key e := by
  intro hpast
  rcases hpast with hd | hf | hr
  · exact hdelete hd
  · exact hget hf.1
  · exact not_removesFinalizer_of_same (by rw [hsame]) hr

/-- The deletion drain never ends for a pod whose annotation it cannot
read, and it leaves that pod as it is, whatever fails. -/
theorem reconcile_stuck {raw : String} (h : Condemned s stored)
    (hp : p ∈ cachePods stored.1 s)
    (hraw : p.metadata.annotations.get drainAnnotation = some raw)
    (hts : Decimal.parseInt64 raw.toList = none) :
    (reconcile srt now key).Sat api s
      (fun e => ¬PastDrain stored.1 key e)
      fun _ s' => Waiting p s s' := by
  have hstart : Waiting p s s := ⟨rfl, mem_cachePods hp⟩
  unfold reconcile
  simp only [bind, pure, Prog.bind, request]
  refine Prog.Sat.read rfl hstart
    (fun x b => not_pastDrain_of_same rfl (by simp [IssuesNamespaceDelete])
      (by simp)) ?_ (.fail hstart)
  rw [serve_get_some h.stored]
  dsimp only
  rw [if_pos h.deleting]
  unfold reconcileDeletion
  rw [if_neg (by simpa using h.finalizer)]
  refine Prog.Sat.bind_only (listPods_sat fun _ _ =>
    not_pastDrain_of_same rfl (by simp [IssuesNamespaceDelete]) (by simp))
    hstart (fun _ => hstart) ?_
  refine Prog.Sat.bind (R := fun res s' =>
    res ≠ .ok true ∧ Waiting p s s') ?_ ?_ (fun _ _ h' => h'.2)
    fun _ h' => h'.2
  · refine ((reconcileDeletionLoop_sat _ true).and (waits_sat
      (reconcileDeletionLoop_waits hp hraw) hstart)).imp
      (fun _ he => he.2) ?_
    intro res s' hend
    obtain ⟨⟨-, hall⟩, hwait⟩ := hend
    exact ⟨fun hres => not_drained_of_unreadable hraw hts
      ((hall hres).2 p hp), hwait⟩
  intro allDrained s2 hend
  obtain ⟨hno, hwait⟩ := hend
  refine Prog.Sat.bind (waits_sat reconcileRing_waits.attempt hwait) ?_
    (fun _ _ h' => h') fun _ h' => h'
  intro _ s3 hwait3
  cases allDrained with
  | true => exact absurd rfl hno
  | false => exact .ret hwait3

/-- Later the same pod is still in the way. -/
theorem Condemned.waiting (h : Condemned s stored) (hw : Waiting p s s') :
    Condemned s' stored := by
  refine ⟨?_, h.deleting, h.finalizer⟩
  rw [hw.1]
  exact h.stored

end

/-- The deletion gets past the drain with two Reconciles, the second later
than the first by the grace period, if and only if every annotation on the
listed pods can be read. -/
theorem deletion_drain_completes_iff (srt : SliceSort)
    (key : NamespacedName) (s : Cluster)
    (stored : {o : DistributedCache // o.key = key})
    (h : Condemned s stored) (t t' : Time)
    (hahead : ∀ p ∈ cachePods stored.1 s, NotAhead t p)
    (hlater : grace stored.1 ≤ t'.nanos - t.nanos) (s₁ : Cluster)
    (hs₁ : s₁ = ((reconcile srt t key).run api s).2) :
    Released key s₁
        ∨ (reconcile srt t' key).Makes api s₁ (PastDrain stored.1 key)
      ↔ ∀ p ∈ cachePods stored.1 s, ∀ raw,
        p.metadata.annotations.get drainAnnotation = some raw →
        (Decimal.parseInt64 raw.toList).isSome := by
  constructor
  · intro hdone p hp raw hraw
    by_contra hts
    rw [Option.not_isSome_iff_eq_none] at hts
    have hwait : Waiting p s s₁ := by
      rw [hs₁]
      exact (reconcile_stuck h hp hraw hts).run
    have h₁ := h.waiting hwait
    rcases hdone with hreleased | hmakes
    · exact hreleased stored h₁.stored h₁.finalizer
    · exact (reconcile_stuck h₁ (cachePods_of_mem hp hwait.2) hraw
        hts).not_makes hmakes
  · intro hread
    rw [reconcile_run_deleting h] at hs₁
    have hreadable : ∀ q ∈ cachePods stored.1 s₁,
        Readable q ∧ NotAhead t q := by
      rw [hs₁]
      refine reconcileDeletion_readable h.finalizer
        (fun p hp hsome => ?_) hahead
      obtain ⟨raw, hraw⟩ := Option.isSome_iff_exists.mp hsome
      obtain ⟨ts, hts⟩ :=
        Option.isSome_iff_exists.mp (hread p hp raw hraw)
      exact ⟨raw, ts, hraw, hts⟩
    have hobject : Released key s₁ ∨ Condemned s₁ stored := by
      rw [hs₁]
      exact reconcileDeletion_object h
    rcases hobject with hreleased | h₁
    · exact Or.inl hreleased
    · refine Or.inr (reconcile_makes h₁ fun p hp => ?_)
      obtain ⟨hr, hn⟩ := hreadable p hp
      exact drained_later hr hn hlater

/-- The cache is deleted while a pod of it carries `raw` for an
annotation. -/
def ordersLeaving (raw : String) : Cluster :=
  { Cluster.empty.put (ordersDeleted none) with
    pods := ⟨[{ ordersPod 1 true none with metadata :=
      { (ordersPod 1 true none).metadata with
        annotations := Dict.empty.set drainAnnotation raw } }], by simp⟩ }

theorem ordersLeaving_condemned (raw : String) :
    @Condemned ordersKey (ordersLeaving raw) ⟨ordersDeleted none, rfl⟩ :=
  ⟨rfl, rfl, by decide⟩

/-- The drain of a pod started at second 90; the second Reconcile takes
the finalizer. -/
theorem deletion_drain_completes_orders :
    Released ordersKey (ordersOnce (ordersLeaving "90"))
      ∨ (reconcile .insertionSort (Time.ofUnix 130) ordersKey).Makes api
        (ordersOnce (ordersLeaving "90"))
        (PastDrain (ordersDeleted none) ordersKey) := by
  refine (deletion_drain_completes_iff .insertionSort ordersKey
    (ordersLeaving "90") ⟨ordersDeleted none, rfl⟩
    (ordersLeaving_condemned "90") (Time.ofUnix 100) (Time.ofUnix 130) ?_
    (by decide) _ rfl).mpr ?_
  · intro p hp raw ts hraw hts
    rw [List.mem_singleton.mp (mem_cachePods hp)] at hraw
    cases hraw
    rw [show Decimal.parseInt64 "90".toList = some 90 by decide] at hts
    cases hts
    decide
  · intro p hp raw hraw
    rw [List.mem_singleton.mp (mem_cachePods hp)] at hraw
    cases hraw
    decide

/-- A pod says that it drains "soon". Neither Reconcile gets past the
drain, and the pod still says so. -/
theorem unreadable_drain_is_stuck :
    @Condemned ordersKey (ordersLeaving "soon") ⟨ordersDeleted none, rfl⟩
      ∧ grace (ordersDeleted none)
        ≤ (Time.ofUnix 130).nanos - (Time.ofUnix 100).nanos
      ∧ ¬Released ordersKey (ordersOnce (ordersLeaving "soon"))
      ∧ ¬(reconcile .insertionSort (Time.ofUnix 130) ordersKey).Makes api
        (ordersOnce (ordersLeaving "soon"))
        (PastDrain (ordersDeleted none) ordersKey)
      ∧ ∃ p ∈ (ordersTwice (ordersLeaving "soon")).pods.items,
        p.metadata.annotations.get drainAnnotation = some "soon" := by
  have hcondemned := ordersLeaving_condemned "soon"
  have hts : Decimal.parseInt64 "soon".toList = none := by
    decide
  obtain ⟨p, hp, hraw⟩ : ∃ p ∈ cachePods (ordersDeleted none)
      (ordersLeaving "soon"),
      p.metadata.annotations.get drainAnnotation = some "soon" := by
    decide
  have hwait : Waiting p (ordersLeaving "soon")
      (ordersOnce (ordersLeaving "soon")) :=
    (reconcile_stuck hcondemned hp hraw hts).run
  have hcondemned' := hcondemned.waiting hwait
  have hp' : p ∈ cachePods (ordersDeleted none)
      (ordersOnce (ordersLeaving "soon")) := cachePods_of_mem hp hwait.2
  have hwait' : Waiting p (ordersOnce (ordersLeaving "soon"))
      (ordersTwice (ordersLeaving "soon")) :=
    (reconcile_stuck hcondemned' hp' hraw hts).run
  refine ⟨hcondemned, by decide, ?_, ?_, p, hwait'.2, hraw⟩
  · intro hreleased
    exact hreleased _ hcondemned'.stored hcondemned'.finalizer
  · exact (reconcile_stuck hcondemned' hp' hraw hts).not_makes

end CacheOperator
