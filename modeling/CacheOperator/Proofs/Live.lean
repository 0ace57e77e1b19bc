/-
`Reconcile` of a live object, all phases together.

`OwnedEffect` is what an execution can have done when it ends, wherever
it ends: some doomed pods carry a fresh annotation, the StatefulSet may
have been written once from what was found, and the ring ConfigMap is
untouched or holds the ring that follows the one found. `OwnedCall` is
about the calls on the way: one that lowers the StatefulSet has been
permitted, with the pods and the ring still as they were at the start.
-/
import CacheOperator.Proofs.RingPhase

namespace CacheOperator

open Lib

/-- The call lowers the StatefulSet's replicas from `c` to `d`. -/
def Lowers (cache : DistributedCache) (e : Call) (c d : Int32) : Prop :=
  ∃ o o',
    e.before.objects .statefulSet (statefulSetKey cache) = some o
      ∧ e.after.objects .statefulSet (statefulSetKey cache) = some o'
      ∧ o.1.body.replicas = some c ∧ o'.1.body.replicas = some d ∧ d < c

/-- The replicas of the stored StatefulSet. -/
def storedReplicas (cache : DistributedCache) (s : Cluster) :
    Option Int32 :=
  (s.objects .statefulSet (statefulSetKey cache)).bind
    fun o => o.1.body.replicas

theorem lowers_iff {cache : DistributedCache} {e : Call} {c d : Int32} :
    Lowers cache e c d ↔ storedReplicas cache e.before = some c
      ∧ storedReplicas cache e.after = some d ∧ d < c := by
  unfold Lowers storedReplicas
  constructor
  · rintro ⟨o, o', ho, ho', hc, hd, hlt⟩
    rw [ho, ho']
    exact ⟨hc, hd, hlt⟩
  · rintro ⟨hc, hd, hlt⟩
    obtain ⟨o, ho, hc⟩ := Option.bind_eq_some_iff.mp hc
    obtain ⟨o', ho', hd⟩ := Option.bind_eq_some_iff.mp hd
    exact ⟨o, o', ho, ho', hc, hd, hlt⟩

instance (cache : DistributedCache) (e : Call) (c d : Int32) :
    Decidable (Lowers cache e c d) :=
  decidable_of_iff _ lowers_iff.symm

section

variable {srt : SliceSort} {now : Time} {cache : DistributedCache}
  {s s' s'' : Cluster} {e : Call} {c d : Int32}

theorem not_lowers_of_same
    (h : e.after.objects .statefulSet (statefulSetKey cache)
      = e.before.objects .statefulSet (statefulSetKey cache)) :
    ¬Lowers cache e c d := by
  rintro ⟨o, o', ho, ho', hc, hd, hlt⟩
  rw [h, ho] at ho'
  cases ho'
  rw [hc] at hd
  cases hd
  exact absurd hlt Int32.lt_irrefl

theorem core_sts (h : s'.core cache = s.core cache) :
    s'.objects .statefulSet (statefulSetKey cache)
      = s.objects .statefulSet (statefulSetKey cache) :=
  congrArg Prod.fst h

theorem core_cm (h : s'.core cache = s.core cache) :
    s'.objects .configMap (ringKey cache)
      = s.objects .configMap (ringKey cache) :=
  congrArg (fun x => x.2.1) h

theorem core_pods (h : s'.core cache = s.core cache) : s'.pods = s.pods :=
  congrArg (fun x => x.2.2) h

theorem doomed_congr
    (h : s'.objects .statefulSet (statefulSetKey cache)
      = s.objects .statefulSet (statefulSetKey cache)) (q : Pod) :
    Doomed cache s' q ↔ Doomed cache s q := by
  unfold Doomed
  rw [h]

theorem permits_congr (h : s'.core cache = s.core cache) :
    Permits now cache s' ↔ Permits now cache s := by
  unfold Permits
  rw [cachePods_congr (core_pods h)]
  simp only [doomed_congr (core_sts h)]

-- =============================================== the StatefulSet phase

/-- Without the permission the replicas are never lowered; with it they
become the desired ones. -/
theorem heldReplicas_lt {b : Bool} {desired : Option Int32}
    (h : heldReplicas b desired (some c) = some d) (hlt : d < c) :
    b = true ∧ desired = some d := by
  unfold heldReplicas at h
  cases b with
  | true => exact ⟨rfl, h⟩
  | false =>
      cases desired with
      | none => cases h
      | some d' =>
          dsimp only at h
          by_cases hd : d' < c
          · rw [if_pos hd] at h
            cases h
            exact absurd hlt Int32.lt_irrefl
          · rw [if_neg hd] at h
            cases h
            exact absurd hlt hd

/-- A call of the StatefulSet phase that lowers the replicas is the
phase's own write, with the permission. -/
theorem writesAtMost_lowers {b : Bool}
    (h : WritesAtMost (statefulSetKey cache) (mutateStatefulSet cache b)
      s e) (hl : Lowers cache e c d) :
    e.before = s ∧ b = true ∧ cache.body.spec.replicas = some d := by
  rcases h.2 with hsame | ⟨hb, hw⟩
  · refine absurd hl (not_lowers_of_same ?_)
    rw [hsame]
  · obtain ⟨o, o', ho, ho', hc, hd, hlt⟩ := hl
    obtain ⟨sts, hsts, -, hbody⟩ := writes_stored hw
    rw [ho'] at hsts
    cases hsts
    rw [hb] at ho
    rw [storedOr_of_some ho] at hbody
    rw [hbody] at hd
    dsimp only at hd
    rw [hc] at hd
    exact ⟨hb, heldReplicas_lt hd hlt⟩

/-- The StatefulSet is untouched, or written once from what was found,
which was not somebody else's. -/
def StsWritten (cache : DistributedCache) (s s' : Cluster) : Prop :=
  s'.objects .statefulSet (statefulSetKey cache)
      = s.objects .statefulSet (statefulSetKey cache)
    ∨ ¬Foreign cache (s.storedOr .statefulSet (statefulSetKey cache))
      ∧ ∃ o b, s'.objects .statefulSet (statefulSetKey cache) = some o
        ∧ ¬Foreign cache o.1
        ∧ o.1.body.replicas = heldReplicas b cache.body.spec.replicas
          (s.storedOr .statefulSet (statefulSetKey cache)).body.replicas

theorem storedOr_congr {k : Kind} {key : NamespacedName}
    (h : s'.objects k key = s.objects k key) :
    s'.storedOr k key = s.storedOr k key := by
  unfold Cluster.storedOr
  rw [h]

theorem StsWritten.of_writes {b : Bool}
    (h : Writes (statefulSetKey cache) (mutateStatefulSet cache b) s s') :
    StsWritten cache s s' := by
  obtain ⟨o, ho, hnf, hbody⟩ := writes_stored h
  obtain ⟨o', hmut, -⟩ := h
  obtain ⟨-, -, -, -, -, hold⟩ := mutateOwned_ok hmut
  exact Or.inr ⟨hold, o, b, ho, hnf, by rw [hbody]⟩

/-- The pods between the two numbers of replicas are doomed. -/
theorem doomed_of_between {p : Pod} {i : Int}
    (hc : storedReplicas cache s = some c)
    (hd : cache.body.spec.replicas = some d) (hlo : d.toInt ≤ i)
    (hhi : i < c.toInt) (hname : p.name = podName cache i) :
    Doomed cache s p := by
  obtain ⟨o, ho, hc⟩ := Option.bind_eq_some_iff.mp hc
  refine ⟨o, ho, mem_doomedNames.mpr ⟨i, ?_, ?_, hname.symm⟩⟩
  · unfold desiredReplicas
    rw [hd]
    exact hlo
  · rw [hc]
    exact hhi

/-- What is about to go was doomed at the start. -/
theorem doomed_of_lowers {p : Pod} {i : Int} (hl : Lowers cache e c d)
    (hcore : e.before.core cache = s.core cache)
    (hd : cache.body.spec.replicas = some d) (hlo : d.toInt ≤ i)
    (hhi : i < c.toInt) (hname : p.name = podName cache i) :
    Doomed cache s p := by
  refine doomed_of_between ?_ hd hlo hhi hname
  have hc := (lowers_iff.mp hl).1
  unfold storedReplicas at hc ⊢
  rw [← core_sts hcore]
  exact hc

-- ==================================================== status reports

/-- A phase with its status report: the report changes nothing that
matters here. -/
theorem orDegrade_sat {α : Type} {reason : Reason} {text : String}
    {p : Op α} {E : Call → Prop} {R Q : Result GoError α → Cluster → Prop}
    (hp : p.Sat api s E R) (hok : ∀ a s1, R (.ok a) s1 → Q (.ok a) s1)
    (hcrash : ∀ s1, R .crashed s1 → Q .crashed s1)
    (hcall : ∀ x s1 s2 c y b, R (.error x) s1 →
      s2.core cache = s1.core cache →
      E ⟨.updateStatus c, y, s1, s2, b⟩)
    (herror : ∀ x y s1 s2, R (.error x) s1 →
      s2.core cache = s1.core cache → Q (.error y) s2)
    (hcrash' : ∀ x s1, R (.error x) s1 → Q .crashed s1) :
    (orDegrade now cache reason text p).Sat api s E Q := by
  refine Prog.Sat.bind (hp.attempt (Q := fun res s1 => match res with
      | .ok (.ok a) => R (.ok a) s1
      | .ok (.error x) => R (.error x) s1
      | .error _ => False
      | .crashed => R .crashed s1)
    (fun _ _ h => h) (fun _ _ h => h) (fun _ h => h)) ?_
    (fun _ _ h => h.elim) hcrash
  intro x s1 h
  cases x with
  | ok a => exact .ret (hok a s1 h)
  | error x =>
      simp only [bind, Prog.bind, request]
      have hcore : (api.serve (.updateStatus
          (markDegraded now cache reason x)) s1).2.core cache
          = s1.core cache :=
        core_serve cache _ s1 (peripheral_updateStatus _)
      exact Prog.Sat.call (hcrash' x s1 h)
        ⟨hcall x _ _ _ _ _ h hcore, .fail (herror x _ _ _ h hcore)⟩
        ⟨hcall x _ _ _ _ _ h rfl, .fail (herror x _ _ _ h rfl)⟩
        ⟨hcall x _ _ _ _ _ h hcore, .fail (herror x _ _ _ h hcore)⟩

-- ========================================================= the phases

/-- A call that lowers the replicas was permitted, with everything still
as it was at the start. -/
def OwnedCall (now : Time) (cache : DistributedCache) (s : Cluster)
    (e : Call) : Prop :=
  ∀ c d, Lowers cache e c d → cache.body.spec.replicas = some d
    ∧ e.before.core cache = s.core cache ∧ Permits now cache s

/-- The pods are as before, but for fresh annotations on doomed ones. -/
structure PodsAnnotated (now : Time) (cache : DistributedCache)
    (s s' : Cluster) : Prop where
  fresh : ∀ q ∈ s'.pods.items, q ∈ s.pods.items ∨ Doomed cache s q
    ∧ q.metadata.annotations.get drainAnnotation = some (decimal now.unix)
  kept : ∀ q ∈ s.pods.items, q ∈ s'.pods.items ∨ Doomed cache s q

/-- Every doomed pod carries an annotation by now. -/
def DoomedMarked (cache : DistributedCache) (s s' : Cluster) : Prop :=
  ∀ q ∈ cachePods cache s', Doomed cache s q →
    (q.metadata.annotations.get drainAnnotation).isSome

/-- What the phases have done to `s` when they end in `s'`. -/
structure OwnedEffect (srt : SliceSort) (now : Time)
    (cache : DistributedCache) (s s' : Cluster) : Prop where
  pods : PodsAnnotated now cache s s'
  sts : StsWritten cache s s'
  cm : s'.objects .configMap (ringKey cache)
      = s.objects .configMap (ringKey cache)
    ∨ storedRing cache s'
        = some (desiredRing (computeMembers srt (cachePods cache s'))
          (currentRing (ringConfigMap cache s)))
      ∧ ∃ cm, s'.objects .configMap (ringKey cache) = some cm
        ∧ ¬Foreign cache cm.1

/-- What the result of the phases says. -/
structure OwnedReturned (srt : SliceSort) (now : Time)
    (cache : DistributedCache) (s s' : Cluster) (b : Bool) (ring : Ring) :
    Prop extends OwnedEffect srt now cache s s' where
  eq : ring = desiredRing (computeMembers srt (cachePods cache s'))
    (currentRing (ringConfigMap cache s))
  published : skipsWrite ring (ringConfigMap cache s) = false
      ∧ storedRing cache s' = some ring
    ∨ skipsWrite ring (ringConfigMap cache s) = true
      ∧ s'.objects .configMap (ringKey cache)
        = s.objects .configMap (ringKey cache)
  marked : DoomedMarked cache s s'
  permitted : b = true → Permits now cache s ∧ s'.pods = s.pods

def OwnedEnd (srt : SliceSort) (now : Time) (cache : DistributedCache)
    (s : Cluster) : Result GoError (Bool × Ring) → Cluster → Prop
  | .ok (b, ring), s' => OwnedReturned srt now cache s s' b ring
  | .error _, s' => OwnedEffect srt now cache s s'
  | .crashed, s' => OwnedEffect srt now cache s s'

theorem PodsAnnotated.congr (h : PodsAnnotated now cache s s')
    (hpods : s''.pods = s'.pods) : PodsAnnotated now cache s s'' := by
  obtain ⟨hfresh, hkept⟩ := h
  rw [← hpods] at hfresh hkept
  exact ⟨hfresh, hkept⟩

theorem DoomedMarked.congr (h : DoomedMarked cache s s')
    (hpods : s''.pods = s'.pods) : DoomedMarked cache s s'' := by
  unfold DoomedMarked
  rw [cachePods_congr hpods]
  exact h

theorem StsWritten.congr (h : StsWritten cache s s')
    (hsts : s''.objects .statefulSet (statefulSetKey cache)
      = s'.objects .statefulSet (statefulSetKey cache)) :
    StsWritten cache s s'' := by
  unfold StsWritten
  rw [hsts]
  exact h

theorem storedRing_congr
    (h : s'.objects .configMap (ringKey cache)
      = s.objects .configMap (ringKey cache)) :
    storedRing cache s' = storedRing cache s := by
  unfold storedRing
  rw [ringConfigMap_congr h]

theorem OwnedEffect.refl (s : Cluster) : OwnedEffect srt now cache s s :=
  ⟨⟨fun _ hq => Or.inl hq, fun _ hq => Or.inl hq⟩, Or.inl rfl, Or.inl rfl⟩

theorem OwnedEffect.congr (h : OwnedEffect srt now cache s s')
    (hcore : s''.core cache = s'.core cache) :
    OwnedEffect srt now cache s s'' where
  pods := h.pods.congr (core_pods hcore)
  sts := h.sts.congr (core_sts hcore)
  cm := by
    rw [core_cm hcore, storedRing_congr (core_cm hcore),
      cachePods_congr (core_pods hcore)]
    exact h.cm

/-- A phase that writes nothing of `core`. -/
theorem peripheral_sat {α : Type} {reason : Reason} {text : String}
    {p : Op α} {s1 : Cluster} (hp : p.Uses Request.Peripheral)
    (hs1 : s1.core cache = s.core cache) :
    (orDegrade now cache reason text p).Sat api s1 (OwnedCall now cache s)
      fun _ s2 => s2.core cache = s.core cache := by
  refine (Prog.Sat.of_uses (Cluster.core cache) (core_serve cache)
    (orDegrade_uses hp fun c _ => peripheral_updateStatus c)).imp ?_ ?_
  · rintro e ⟨-, hb, ha⟩ c d hl
    exact absurd hl (not_lowers_of_same (core_sts (ha.trans hb.symm)))
  · intro r s2 h
    exact h.trans hs1

/-- The state after the drain. -/
structure AfterDrain (now : Time) (cache : DistributedCache)
    (s s1 : Cluster) : Prop where
  pods : PodsAnnotated now cache s s1
  sts : s1.objects .statefulSet (statefulSetKey cache)
    = s.objects .statefulSet (statefulSetKey cache)
  cm : s1.objects .configMap (ringKey cache)
    = s.objects .configMap (ringKey cache)

theorem AfterDrain.effect (h : AfterDrain now cache s s') :
    OwnedEffect srt now cache s s' :=
  ⟨h.pods, Or.inl h.sts, Or.inl h.cm⟩

theorem drain_phase {reason : Reason} {text : String} {s1 : Cluster}
    (hs1 : s1.core cache = s.core cache) :
    (orDegrade now cache reason text (drainScaleDown now cache)).Sat api
      s1 (OwnedCall now cache s)
      fun res s2 => AfterDrain now cache s s2
        ∧ (∀ b, res = .ok b → DoomedMarked cache s s2)
        ∧ (res = .ok true → s2.core cache = s.core cache
          ∧ Permits now cache s) := by
  -- the guarantee of the drain, read from the start of the reconcile
  have hafter : ∀ s2, Annotates now (Doomed cache s1) s1 s2 →
      AfterDrain now cache s s2 := by
    intro s2 h
    have hd : ∀ q, Doomed cache s1 q → Doomed cache s q :=
      fun q => (doomed_congr (core_sts hs1) q).mp
    refine ⟨⟨fun q hq => ?_, fun q hq => ?_⟩, ?_, ?_⟩
    · rcases h.pods q hq with hq | ⟨hq', hq⟩
      · rw [core_pods hs1] at hq
        exact Or.inl hq
      · exact Or.inr ⟨hd q hq', hq⟩
    · rw [← core_pods hs1] at hq
      rcases h.kept q hq with hq | hq
      · exact Or.inl hq
      · exact Or.inr (hd q hq)
    · rw [h.objects]
      exact core_sts hs1
    · rw [h.objects]
      exact core_cm hs1
  refine orDegrade_sat (drainScaleDown_sat.imp ?_ fun _ _ h => h) ?_ ?_ ?_
    ?_ ?_
  · intro e he c d hl
    refine absurd hl (not_lowers_of_same ?_)
    rw [he.2, he.1]
  · intro b s2 h
    refine ⟨hafter s2 h.annotates, fun _ _ q hq hd => ?_, fun hb => ?_⟩
    · exact h.marked b rfl q hq ((doomed_congr (core_sts hs1) q).mpr hd)
    · obtain ⟨rfl, hp⟩ := h.permitted hb
      exact ⟨hs1, (permits_congr hs1).mp hp⟩
  · exact fun s2 h => ⟨hafter s2 h.annotates, nofun, nofun⟩
  · intro x s2 s3 cr y b _ hcore c d hl
    exact absurd hl (not_lowers_of_same (core_sts hcore))
  · intro x y s2 s3 h hcore
    have h' := hafter s2 h.annotates
    exact ⟨⟨h'.pods.congr (core_pods hcore),
      (core_sts hcore).trans h'.sts, (core_cm hcore).trans h'.cm⟩,
      nofun, nofun⟩
  · exact fun x s2 h => ⟨hafter s2 h.annotates, nofun, nofun⟩

/-- The state after the StatefulSet phase. -/
structure AfterSts (now : Time) (cache : DistributedCache) (b : Bool)
    (s s1 : Cluster) : Prop where
  pods : PodsAnnotated now cache s s1
  sts : StsWritten cache s s1
  cm : s1.objects .configMap (ringKey cache)
    = s.objects .configMap (ringKey cache)
  marked : DoomedMarked cache s s1
  permitted : b = true → Permits now cache s ∧ s1.pods = s.pods

theorem AfterSts.effect {b : Bool} (h : AfterSts now cache b s s') :
    OwnedEffect srt now cache s s' :=
  ⟨h.pods, h.sts, Or.inl h.cm⟩

theorem AfterSts.congr {b : Bool} (h : AfterSts now cache b s s')
    (hcore : s''.core cache = s'.core cache) :
    AfterSts now cache b s s'' :=
  ⟨h.pods.congr (core_pods hcore), h.sts.congr (core_sts hcore),
    (core_cm hcore).trans h.cm, h.marked.congr (core_pods hcore),
    fun hb => ⟨(h.permitted hb).1,
      (core_pods hcore).trans (h.permitted hb).2⟩⟩

theorem sts_phase {reason : Reason} {text : String} {s1 : Cluster}
    {b : Bool} (h : AfterDrain now cache s s1)
    (hmarked : DoomedMarked cache s s1)
    (hperm : b = true → s1.core cache = s.core cache
      ∧ Permits now cache s) :
    (orDegrade now cache reason text (reconcileStatefulSet cache b)).Sat
      api s1 (OwnedCall now cache s)
      fun _ s2 => AfterSts now cache b s s2 := by
  have hpods : b = true → Permits now cache s ∧ s1.pods = s.pods :=
    fun hb => ⟨(hperm hb).2, core_pods (hperm hb).1⟩
  -- the phase ends where it started or with one write
  have hsame : AfterSts now cache b s s1 :=
    ⟨h.pods, Or.inl h.sts, h.cm, hmarked, hpods⟩
  have hwrites : ∀ s2, Writes (statefulSetKey cache)
      (mutateStatefulSet cache b) s1 s2 → AfterSts now cache b s s2 := by
    intro s2 hw
    obtain ⟨hp, hothers⟩ := writes_frame keeps_mutateOwned hw
    refine ⟨h.pods.congr hp, ?_, ?_, hmarked.congr hp, fun hb => ?_⟩
    · rcases StsWritten.of_writes hw with hs | ⟨hnf, o, b', ho, hnf', hr⟩
      · exact Or.inl (hs.trans h.sts)
      · rw [storedOr_congr h.sts] at hnf hr
        exact Or.inr ⟨hnf, o, b', ho, hnf', hr⟩
    · exact (hothers _ _ (by simp)).trans h.cm
    · exact ⟨(hpods hb).1, hp.trans (hpods hb).2⟩
  have hends : ∀ s2, s2 = s1 ∨ Writes (statefulSetKey cache)
      (mutateStatefulSet cache b) s1 s2 → AfterSts now cache b s s2 := by
    rintro s2 (rfl | hw)
    · exact hsame
    · exact hwrites s2 hw
  refine orDegrade_sat ((reconcileObject_sat (by simp)
    keeps_mutateOwned).imp ?_ fun _ _ h => h) ?_ ?_ ?_ ?_ ?_
  · intro e he c d hl
    obtain ⟨hb, rfl, hd⟩ := writesAtMost_lowers he hl
    rw [hb]
    exact ⟨hd, hperm rfl⟩
  · rintro u s2 (⟨rfl, -⟩ | hw)
    · exact hsame
    · exact hwrites s2 hw
  · exact fun s2 hs2 => hends s2 hs2
  · rintro x s2 s3 cr y b' - hcore c d hl
    exact absurd hl (not_lowers_of_same (core_sts hcore))
  · intro x y s2 s3 hs2 hcore
    exact (hends s2 hs2).congr hcore
  · exact fun x s2 hs2 => hends s2 hs2

theorem ring_phase {reason : Reason} {text : String} {s1 : Cluster}
    {b : Bool} (h : AfterSts now cache b s s1) :
    (orDegrade now cache reason text (reconcileRing srt cache)).Sat api
      s1 (OwnedCall now cache s)
      fun res s2 => OwnedEffect srt now cache s s2
        ∧ ∀ ring, res = .ok ring →
          OwnedReturned srt now cache s s2 b ring := by
  -- the ring that follows is the same seen from the start
  have hnext : ∀ s2, s2.pods = s1.pods → nextRing srt cache s1
      = desiredRing (computeMembers srt (cachePods cache s2))
        (currentRing (ringConfigMap cache s)) := by
    intro s2 hpods
    unfold nextRing
    rw [cachePods_congr hpods, ringConfigMap_congr h.cm]
  have hsts : ∀ s2, RingWritten srt cache s1 s2 →
      s2.objects .statefulSet (statefulSetKey cache)
        = s1.objects .statefulSet (statefulSetKey cache) :=
    fun s2 hw => hw.others _ _ (by simp)
  have heffect : ∀ s2, RingWritten srt cache s1 s2 →
      OwnedEffect srt now cache s s2 := by
    intro s2 hw
    refine ⟨h.pods.congr hw.pods, h.sts.congr (hsts s2 hw), ?_⟩
    rcases hw.configMap with rfl | ⟨hr, hcm⟩
    · exact Or.inl h.cm
    · rw [hnext s2 hw.pods] at hr
      exact Or.inr ⟨hr, hcm⟩
  refine orDegrade_sat (reconcileRing_sat.imp ?_ fun _ _ h => h) ?_ ?_ ?_
    ?_ ?_
  · rintro e ⟨hb, ha⟩ c d hl
    refine absurd hl (not_lowers_of_same ?_)
    rw [hsts _ ha, hsts _ hb]
  · rintro ring s2 hr
    have hw : RingWritten srt cache s1 s2 := hr.toRingWritten
    refine ⟨heffect s2 hw, ?_⟩
    intro ring' hring
    cases hring
    refine ⟨heffect s2 hw, ?_, ?_, h.marked.congr hw.pods, fun hb => ?_⟩
    · rw [← hnext s2 hw.pods]
      exact hr.eq
    · have hp := hr.published
      rw [ringConfigMap_congr h.cm] at hp
      rcases hp with hp | ⟨hskip, rfl⟩
      · exact Or.inl hp
      · exact Or.inr ⟨hskip, h.cm⟩
    · exact ⟨(h.permitted hb).1, hw.pods.trans (h.permitted hb).2⟩
  · exact fun s2 hw => ⟨heffect s2 hw, by simp⟩
  · rintro x s2 s3 cr y b' - hcore c d hl
    exact absurd hl (not_lowers_of_same (core_sts hcore))
  · exact fun x y s2 s3 hw hcore => ⟨(heffect s2 hw).congr hcore, by simp⟩
  · exact fun x s2 hw => ⟨heffect s2 hw, by simp⟩

/-- All phases, whatever fails. -/
theorem reconcileOwned_sat :
    (reconcileOwned srt now cache).Sat api s (OwnedCall now cache s)
      (OwnedEnd srt now cache s) := by
  have hstart : ∀ s1, s1.core cache = s.core cache →
      OwnedEffect srt now cache s s1 :=
    fun s1 h => OwnedEffect.congr (.refl s) h
  unfold reconcileOwned
  refine Prog.Sat.bind (peripheral_sat reconcileCell_peripheral rfl) ?_
    (fun _ s1 h => hstart s1 h) (fun s1 h => hstart s1 h)
  intro _ s1 h1
  refine Prog.Sat.bind (peripheral_sat reconcileServiceTwice_peripheral h1)
    ?_ (fun _ s2 h => hstart s2 h) (fun s2 h => hstart s2 h)
  intro _ s2 h2
  refine Prog.Sat.bind (drain_phase h2) ?_ (fun _ s3 h => h.1.effect)
    (fun s3 h => h.1.effect)
  rintro b s3 ⟨h3, hmarked, hperm⟩
  refine Prog.Sat.bind (sts_phase h3 (hmarked b rfl)
    fun hb => hperm (by rw [hb])) ?_
    (fun _ s4 h => h.effect) (fun s4 h => h.effect)
  intro _ s4 h4
  refine Prog.Sat.bind (ring_phase h4) ?_ (fun _ s5 h => h.1)
    (fun s5 h => h.1)
  rintro ring s5 ⟨-, h5⟩
  exact .ret (h5 ring rfl)

-- =================================================== undisturbed runs

/-- The undisturbed `Reconcile` of a live object is the run of its
phases. -/
theorem reconcile_run_live {key : NamespacedName}
    {stored : {o : DistributedCache // o.key = key}}
    (hstored : s.objects .distributedCache key = some stored)
    (hlive : stored.1.metadata.deleting = false)
    (hfin : drainFinalizer ∈ stored.1.metadata.finalizers) :
    (reconcile srt now key).run api s
      = (reconcileLive srt now stored.1).run api s := by
  unfold reconcile
  simp only [bind, pure, Prog.bind, request, Prog.run_call]
  rw [serve_get_some hstored]
  dsimp only
  rw [if_neg (by rw [hlive]; simp), if_neg (by simpa using hfin)]

/-- A `Reconcile` of a live object that ends without error has run all
phases and stored the status. -/
theorem reconcileLive_run_ok {r : ReconcileResult}
    (h : (reconcileLive srt now cache).run api s = (.ok r, s')) :
    ∃ b ring s1,
      (reconcileOwned srt now cache).run api s = (.ok (b, ring), s1)
        ∧ OwnedReturned srt now cache s s1 b ring
        ∧ s' = (api.serve (.updateStatus (observed now ring cache)) s1).2
        ∧ ∃ x, (api.serve (.updateStatus (observed now ring cache)) s1).1
          = .ok x := by
  have hend : OwnedEnd srt now cache s
      (.ofExcept ((reconcileOwned srt now cache).run api s).1)
      ((reconcileOwned srt now cache).run api s).2 :=
    reconcileOwned_sat.run
  unfold reconcileLive at h
  rw [Prog.run_bind] at h
  cases hown : (reconcileOwned srt now cache).run api s with
  | mk res s1 =>
      rw [hown] at h hend
      cases res with
      | error e => cases h
      | ok x =>
          obtain ⟨b, ring⟩ := x
          refine ⟨b, ring, s1, rfl, hend, ?_⟩
          dsimp only at h
          unfold finish at h
          simp only [bind, pure, Prog.bind, request, Prog.run_call] at h
          cases hsv : (api.serve (.updateStatus
              (observed now ring cache)) s1).1 with
          | error e =>
              rw [hsv] at h
              cases h
          | ok x =>
              rw [hsv] at h
              refine ⟨?_, x, rfl⟩
              have hs := congrArg Prod.snd h
              dsimp only at hs
              rw [← hs]
              split
              · rfl
              split
              · rfl
              · rfl

end

end CacheOperator
