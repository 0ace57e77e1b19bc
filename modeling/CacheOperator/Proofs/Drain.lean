/-
The two drain loops.

A pod is drained when its annotation is a number of seconds that lies at
least the grace period back (`Drained`). The scale-down loop answers
`true` only when every listed pod it looks at is drained, and then it
has made no call at all; otherwise the pods it could not accept are
annotated with the present second, and nothing else changes
(`Annotates`). The deletion loop does the same over all listed pods, but
leaves an annotation that it cannot read as it is.

What one turn of either loop can do is said once
(`drainScaleDownLoop_turn`, `reconcileDeletionLoop_turn`), and what
`drainScaleDown` does around its loop as well (`drainScaleDown_rule`).

`Permits` is the permission to scale down in terms of the cluster:
every pod that the scale-down would remove is drained.
-/
import CacheOperator.Proofs.Phases

namespace CacheOperator

open Lib

/-- The pod's annotation lies at least the grace period back. -/
def Drained (now : Time) (g : Int) (p : Pod) : Prop :=
  ∃ raw ts, p.metadata.annotations.get drainAnnotation = some raw
    ∧ Decimal.parseInt64 raw.toList = some ts
    ∧ g ≤ now.sub (Time.ofUnix ts)

instance (now : Time) (g : Int) (p : Pod) : Decidable (Drained now g p) :=
  decidable_of_iff
    (∃ raw ∈ p.metadata.annotations.get drainAnnotation,
      ∃ ts ∈ Decimal.parseInt64 raw.toList, g ≤ now.sub (Time.ofUnix ts))
    (by
      unfold Drained
      constructor
      · intro h
        obtain ⟨raw, hraw, ts, hts, hage⟩ := h
        exact ⟨raw, ts, hraw, hts, hage⟩
      · intro h
        obtain ⟨raw, ts, hraw, hts, hage⟩ := h
        exact ⟨raw, hraw, ts, hts, hage⟩)

/-- The pods of the cache, as the operator lists them. -/
def cachePods (cache : DistributedCache) (s : Cluster) : List Pod :=
  s.podsIn (targetNamespace cache) (podLabels cache)

-- =================================================== the doomed names

theorem mem_doomedNames {cache : DistributedCache} {d c : Int32}
    {name : String} :
    name ∈ doomedNames cache d c ↔
      ∃ i : Int, d.toInt ≤ i ∧ i < c.toInt ∧ podName cache i = name := by
  unfold doomedNames doomedOrdinals
  simp only [List.map_map, List.mem_map, List.mem_range,
    Function.comp_apply]
  constructor
  · rintro ⟨j, hj, rfl⟩
    exact ⟨d.toInt + j, by omega, by omega, rfl⟩
  · rintro ⟨i, hlo, hhi, rfl⟩
    refine ⟨(i - d.toInt).toNat, by omega, ?_⟩
    congr 1
    omega

theorem doomedNames_of_le {cache : DistributedCache} {d c : Int32}
    (h : c ≤ d) : doomedNames cache d c = [] := by
  have hle : c.toInt ≤ d.toInt := Int32.le_iff_toInt_le.mp h
  unfold doomedNames doomedOrdinals
  rw [show (c.toInt - d.toInt).toNat = 0 from by omega]
  rfl

-- ===================================================== the pod list

theorem find?_of_mem {ps : PodSet} {p : Pod} (hp : p ∈ ps.items) :
    ps.find? p.key = some p := by
  obtain ⟨items, hnodup⟩ := ps
  unfold PodSet.find?
  induction items with
  | nil => cases hp
  | cons q items ih =>
      rw [List.map_cons, List.nodup_cons] at hnodup
      rw [List.find?_cons]
      rcases List.mem_cons.mp hp with rfl | hp
      · simp
      · have hne : q.key ≠ p.key := by
          intro h
          exact hnodup.1 (h ▸ List.mem_map_of_mem hp)
        rw [show decide (q.key = p.key) = false from decide_eq_false hne]
        exact ih hnodup.2 hp

section

variable {cache : DistributedCache} {s s' : Cluster}

theorem nodup_cachePods : ((cachePods cache s).map Pod.key).Nodup :=
  s.pods.nodup.sublist (List.filter_sublist.map Pod.key)

theorem mem_cachePods {p : Pod} (hp : p ∈ cachePods cache s) :
    p ∈ s.pods.items :=
  (List.mem_filter.mp hp).1

/-- Whether a pod is one of the cache's is a matter of the pod. -/
theorem cachePods_of_mem {p : Pod} (hp : p ∈ cachePods cache s)
    (hmem : p ∈ s'.pods.items) : p ∈ cachePods cache s' :=
  List.mem_filter.mpr ⟨hmem, (List.mem_filter.mp hp).2⟩

end

-- ==================================================== the annotations

/-- All that happened is that some pods, each of them in `D`, were
annotated with the second of `now`. -/
structure Annotates (now : Time) (D : Pod → Prop) (s s' : Cluster) :
    Prop where
  objects : s'.objects = s.objects
  pods : ∀ q ∈ s'.pods.items, q ∈ s.pods.items
    ∨ D q ∧ q.metadata.annotations.get drainAnnotation
        = some (decimal now.unix)
  kept : ∀ q ∈ s.pods.items, q ∈ s'.pods.items ∨ D q

/-- Whatever pod has this key carries the annotation. -/
def Marked (key : NamespacedName) (s : Cluster) : Prop :=
  ∀ q ∈ s.pods.items, q.key = key →
    (q.metadata.annotations.get drainAnnotation).isSome

/-- Whatever pod has this key is annotated with the second of `now`. -/
def Fresh (now : Time) (key : NamespacedName) (s : Cluster) : Prop :=
  ∀ q ∈ s.pods.items, q.key = key →
    q.metadata.annotations.get drainAnnotation = some (decimal now.unix)

section

variable {now : Time} {D : Pod → Prop} {s s' s'' : Cluster} {p : Pod}

theorem Annotates.refl : Annotates now D s s :=
  ⟨rfl, fun _ hq => Or.inl hq, fun _ hq => Or.inl hq⟩

theorem Annotates.trans (h : Annotates now D s s')
    (h' : Annotates now D s' s'') : Annotates now D s s'' := by
  refine ⟨h'.objects.trans h.objects, fun q hq => ?_, fun q hq => ?_⟩
  · rcases h'.pods q hq with hq | hq
    · exact h.pods q hq
    · exact Or.inr hq
  · rcases h.kept q hq with hq | hq
    · exact h'.kept q hq
    · exact Or.inr hq

theorem Annotates.mono {D' : Pod → Prop} (hD : ∀ q, D q → D' q)
    (h : Annotates now D s s') : Annotates now D' s s' := by
  refine ⟨h.objects, fun q hq => ?_, fun q hq => ?_⟩
  · rcases h.pods q hq with hq | ⟨hd, hq⟩
    · exact Or.inl hq
    · exact Or.inr ⟨hD q hd, hq⟩
  · rcases h.kept q hq with hq | hq
    · exact Or.inl hq
    · exact Or.inr (hD q hq)

theorem Marked.annotates {key : NamespacedName} (hm : Marked key s)
    (h : Annotates now D s s') : Marked key s' := by
  intro q hq hkey
  rcases h.pods q hq with hq | ⟨-, hq⟩
  · exact hm q hq hkey
  · rw [hq]
    rfl

theorem Fresh.marked {key : NamespacedName} (h : Fresh now key s) :
    Marked key s := by
  intro q hq hkey
  rw [h q hq hkey]
  rfl

theorem get_annotate :
    (annotate now p).metadata.annotations.get drainAnnotation
      = some (decimal now.unix) := by
  unfold annotate
  exact Dict.get_set_self _ _ _

/-- The update of an annotated pod annotates that pod. -/
theorem annotates_updatePod
    (hD : ∀ q : Pod, q.name = p.name → D q) :
    Annotates now D s (api.serve (.updatePod (annotate now p)) s).2 := by
  show Annotates now D s (s.serveUpdatePod (annotate now p)).2
  unfold Cluster.serveUpdatePod
  split
  · exact .refl
  split
  · exact .refl
  split
  · exact .refl
  · refine ⟨rfl, fun q hq => ?_, fun q hq => ?_⟩
    · obtain ⟨q', hq', rfl⟩ := List.mem_map.mp hq
      split
      · exact Or.inr ⟨hD _ rfl, get_annotate⟩
      · exact Or.inl hq'
    · by_cases hkey : q.key = p.key
      · exact Or.inr (hD q (congrArg NamespacedName.name hkey))
      · exact Or.inl (List.mem_map.mpr ⟨q, hq, if_neg hkey⟩)

/-- When the server accepts the update, whatever pod has this key carries
the present second. -/
theorem fresh_updatePod {x : Pod}
    (h : (api.serve (.updatePod (annotate now p)) s).1 = .ok x) :
    Fresh now p.key (api.serve (.updatePod (annotate now p)) s).2 := by
  change (s.serveUpdatePod (annotate now p)).1 = .ok x at h
  show ∀ q ∈ (s.serveUpdatePod (annotate now p)).2.pods.items, _
  unfold Cluster.serveUpdatePod at h ⊢
  split
  · next hnone =>
    rw [hnone] at h
    cases h
  · next old hold =>
    rw [hold] at h
    dsimp only at h
    by_cases hrv : (annotate now p).metadata.resourceVersion
        ≠ old.metadata.resourceVersion
    · rw [if_pos hrv] at h
      cases h
    · rw [if_neg hrv]
      by_cases hsame : annotate now p = old
      · -- nothing to write: the stored pod is the annotated one
        rw [if_pos hsame]
        intro q hq hkey
        have hq' := find?_of_mem hq
        rw [hkey] at hq'
        rw [show (annotate now p).key = p.key from rfl, hq'] at hold
        cases hold
        rw [← hsame]
        exact get_annotate
      · rw [if_neg hsame]
        intro q hq hkey
        obtain ⟨q', hq', rfl⟩ := List.mem_map.mp hq
        split
        · exact get_annotate
        · next hk =>
          rw [if_neg hk] at hkey
          exact absurd hkey hk

/-- Every call of a drain loop leaves the objects alone. -/
def SameObjects (s : Cluster) (e : Call) : Prop :=
  e.before.objects = s.objects ∧ e.after.objects = s.objects

/-- A call that annotates a pod, in a program that an error ends. -/
theorem sat_annotate {E : Call → Prop}
    {cont : Except GoError Pod → Op Bool} {e : GoError → GoError}
    {Q : Result GoError Bool → Cluster → Prop}
    (hD : ∀ q : Pod, q.name = p.name → D q)
    (herr : ∀ x, cont (.error x) = .fail (e x))
    (hE : ∀ r x s₁ b, Annotates now D s s₁ → E ⟨r, x, s, s₁, b⟩)
    (hcrash : Q .crashed s)
    (hfail : ∀ x s', Annotates now D s s' → Q (.error x) s')
    (hok : ∀ x s', Annotates now D s s' → Fresh now p.key s' →
      (cont (.ok x)).Sat api s' E Q) :
    (Prog.call (S := Api) (.updatePod (annotate now p)) cont).Sat api s
      E Q := by
  have hann : Annotates now D s
      (api.serve (.updatePod (annotate now p)) s).2 :=
    annotates_updatePod hD
  refine Prog.Sat.call hcrash ?_ ?_ ?_
  · refine ⟨hE _ _ _ _ hann, ?_⟩
    cases hsv : (api.serve (.updatePod (annotate now p)) s).1 with
    | error x =>
        rw [herr]
        exact .fail (hfail _ _ hann)
    | ok x => exact hok x _ hann (fresh_updatePod hsv)
  · refine ⟨hE _ _ _ _ .refl, ?_⟩
    show (cont (.error errRefused)).Sat _ _ _ _
    rw [herr]
    exact .fail (hfail _ _ .refl)
  · refine ⟨hE _ _ _ _ hann, ?_⟩
    show (cont (.error errRefused)).Sat _ _ _ _
    rw [herr]
    exact .fail (hfail _ _ hann)

end

-- ================================================ the scale-down loop

section

variable {now : Time} {cache : DistributedCache} {doomed : List String}
  {s : Cluster}

/-- When every pod it looks at is drained, the loop makes no call and
keeps its answer. -/
theorem drainScaleDownLoop_of_drained {ps : List Pod}
    (h : ∀ p ∈ ps, p.name ∈ doomed → Drained now (grace cache) p)
    (b : Bool) : drainScaleDownLoop now cache doomed ps b = .ret b := by
  induction ps with
  | nil => rfl
  | cons p ps ih =>
      have ih' := ih fun q hq => h q (List.mem_cons_of_mem p hq)
      unfold drainScaleDownLoop
      by_cases hd : p.name ∈ doomed
      · obtain ⟨raw, ts, hraw, hts, hage⟩ := h p List.mem_cons_self hd
        simp only [hd, not_true_eq_false, if_false, hraw, hts,
          not_lt.mpr hage]
        exact ih'
      · simp only [hd, not_false_eq_true, if_true]
        exact ih'

/-- One turn of the scale-down loop: the pod is not looked at, or its
annotation is read, or the pod is annotated now. -/
theorem drainScaleDownLoop_turn {p : Pod} {ps : List Pod} {b : Bool}
    {E : Call → Prop} {Q : Result GoError Bool → Cluster → Prop}
    (hE : ∀ r x s₁ s₂ b, Annotates now (fun q => q.name ∈ doomed) s s₁ →
      Annotates now (fun q => q.name ∈ doomed) s s₂ → E ⟨r, x, s₁, s₂, b⟩)
    (hcrash : ∀ s', Annotates now (fun q => q.name ∈ doomed) s s' →
      Q .crashed s')
    (hfail : ∀ e s', Annotates now (fun q => q.name ∈ doomed) s s' →
      Q (.error e) s')
    (hskip : p.name ∉ doomed →
      (drainScaleDownLoop now cache doomed ps b).Sat api s E Q)
    (hread : p.name ∈ doomed → ∀ raw ts,
      p.metadata.annotations.get drainAnnotation = some raw →
      Decimal.parseInt64 raw.toList = some ts →
      (drainScaleDownLoop now cache doomed ps
        (if now.sub (Time.ofUnix ts) < grace cache then false
          else b)).Sat api s E Q)
    (hfresh : p.name ∈ doomed → ∀ s',
      Annotates now (fun q => q.name ∈ doomed) s s' → Fresh now p.key s' →
      (drainScaleDownLoop now cache doomed ps false).Sat api s' E Q) :
    (drainScaleDownLoop now cache doomed (p :: ps) b).Sat api s E Q := by
  unfold drainScaleDownLoop
  by_cases hd : p.name ∈ doomed
  · simp only [hd, not_true_eq_false, if_false]
    have hD : ∀ q : Pod, q.name = p.name → q.name ∈ doomed := by
      intro q hq
      rw [hq]
      exact hd
    have hcall : ∀ r x s₁ b, Annotates now (fun q => q.name ∈ doomed) s s₁ →
        E ⟨r, x, s, s₁, b⟩ := fun r x s₁ b h => hE r x s s₁ b .refl h
    cases hraw : p.metadata.annotations.get drainAnnotation with
    | none =>
        simp only [bind, Prog.bind, request]
        refine sat_annotate hD (fun x => rfl) hcall (hcrash s .refl) hfail ?_
        intro x s' h hm
        -- the event changes nothing, and nothing depends on it
        exact Prog.Sat.read rfl (hcrash s' h) (fun _ _ => hE _ _ _ _ _ h h)
          (hfresh hd s' h hm) (hfresh hd s' h hm)
    | some raw =>
        dsimp only
        cases hts : Decimal.parseInt64 raw.toList with
        | none =>
            simp only [bind, Prog.bind, request]
            exact sat_annotate hD (fun x => rfl) hcall (hcrash s .refl) hfail
              fun x => hfresh hd
        | some ts => exact hread hd raw ts hraw hts
  · simp only [hd, not_false_eq_true, if_true]
    exact hskip hd

/-- How the loop over `ps` started in `s` ends, whatever fails: it has
only annotated pods it looks at; if it ends with an answer, all of them
are annotated, and the answer is `true` only when they are all drained
and nothing was changed. -/
structure LoopEnd (now : Time) (cache : DistributedCache)
    (doomed : List String) (ps : List Pod) (b : Bool) (s : Cluster)
    (res : Result GoError Bool) (s' : Cluster) : Prop where
  annotates : Annotates now (fun q => q.name ∈ doomed) s s'
  marked : ∀ b', res = .ok b' → ∀ p ∈ ps, p.name ∈ doomed →
    Marked p.key s'
  drained : res = .ok true → s' = s ∧ b = true ∧
    ∀ p ∈ ps, p.name ∈ doomed → Drained now (grace cache) p

theorem LoopEnd.of_fail {ps : List Pod} {b : Bool} {s' : Cluster}
    {e : GoError}
    (h : Annotates now (fun q => q.name ∈ doomed) s s') :
    LoopEnd now cache doomed ps b s (.error e) s' :=
  ⟨h, nofun, nofun⟩

theorem LoopEnd.of_crash {ps : List Pod} {b : Bool} {s' : Cluster}
    (h : Annotates now (fun q => q.name ∈ doomed) s s') :
    LoopEnd now cache doomed ps b s .crashed s' :=
  ⟨h, nofun, nofun⟩

/-- The end of the rest of the loop is the end of the loop, when the
first pod is annotated, or not looked at, and the answer takes it into
account. -/
theorem LoopEnd.cons {p : Pod} {ps : List Pod} {b b₁ : Bool}
    {s₁ s' : Cluster} {res : Result GoError Bool}
    (h : Annotates now (fun q => q.name ∈ doomed) s s₁)
    (hrest : LoopEnd now cache doomed ps b₁ s₁ res s')
    (hm : p.name ∈ doomed → Marked p.key s₁)
    (hb : b₁ = true → s₁ = s ∧ b = true
      ∧ (p.name ∈ doomed → Drained now (grace cache) p)) :
    LoopEnd now cache doomed (p :: ps) b s res s' := by
  refine ⟨h.trans hrest.annotates, fun b' hres q hq hd => ?_, fun hres => ?_⟩
  · rcases List.mem_cons.mp hq with rfl | hq
    · exact (hm hd).annotates hrest.annotates
    · exact hrest.marked b' hres q hq hd
  · obtain ⟨hs', hb₁, hps⟩ := hrest.drained hres
    obtain ⟨hs₁, hb, hp⟩ := hb hb₁
    refine ⟨hs'.trans hs₁, hb, fun q hq hd => ?_⟩
    rcases List.mem_cons.mp hq with rfl | hq
    · exact hp hd
    · exact hps q hq hd

theorem drainScaleDownLoop_sat (ps : List Pod) (b : Bool)
    (hps : ∀ p ∈ ps, (p.metadata.annotations.get drainAnnotation).isSome →
      Marked p.key s) :
    (drainScaleDownLoop now cache doomed ps b).Sat api s (SameObjects s)
      (LoopEnd now cache doomed ps b s) := by
  induction ps generalizing b s with
  | nil =>
      refine .ret ⟨.refl, fun _ _ => by simp, fun h => ?_⟩
      cases h
      exact ⟨rfl, rfl, by simp⟩
  | cons p ps ih =>
      -- the rest of the loop, from the state the first pod leaves
      have hrest : ∀ b₁ s₁,
          Annotates now (fun q => q.name ∈ doomed) s s₁ →
          (p.name ∈ doomed → Marked p.key s₁) →
          (b₁ = true → s₁ = s ∧ b = true
            ∧ (p.name ∈ doomed → Drained now (grace cache) p)) →
          (drainScaleDownLoop now cache doomed ps b₁).Sat api s₁
            (SameObjects s) (LoopEnd now cache doomed (p :: ps) b s) := by
        intro b₁ s₁ h hm hb
        have hps₁ : ∀ q ∈ ps,
            (q.metadata.annotations.get drainAnnotation).isSome →
            Marked q.key s₁ :=
          fun q hq hsome =>
            (hps q (List.mem_cons_of_mem p hq) hsome).annotates h
        refine (ih b₁ hps₁).imp ?_ fun res s' hend => hend.cons h hm hb
        intro e he
        exact ⟨he.1.trans h.objects, he.2.trans h.objects⟩
      refine drainScaleDownLoop_turn
        (fun _ _ _ _ _ h₁ h₂ => ⟨h₁.objects, h₂.objects⟩)
        (fun _ h => .of_crash h) (fun _ _ h => .of_fail h) ?_ ?_ ?_
      · intro hd
        exact hrest b s .refl (fun h => absurd h hd) fun hb =>
          ⟨rfl, hb, fun h => absurd h hd⟩
      · intro hd raw ts hraw hts
        have hm : Marked p.key s :=
          hps p List.mem_cons_self (by rw [hraw]; rfl)
        refine hrest _ s .refl (fun _ => hm) fun hb => ?_
        by_cases hage : now.sub (Time.ofUnix ts) < grace cache
        · rw [if_pos hage] at hb
          cases hb
        · rw [if_neg hage] at hb
          exact ⟨rfl, hb, fun _ => ⟨raw, ts, hraw, hts, not_lt.mp hage⟩⟩
      · intro hd s' h hfresh
        exact hrest false s' h (fun _ => hfresh.marked) (by simp)

-- ================================================= the deletion loop

theorem reconcileDeletionLoop_of_drained {ps : List Pod}
    (h : ∀ p ∈ ps, Drained now (grace cache) p) (b : Bool) :
    reconcileDeletionLoop now cache ps b = .ret b := by
  induction ps with
  | nil => rfl
  | cons p ps ih =>
      obtain ⟨raw, ts, hraw, hts, hage⟩ := h p List.mem_cons_self
      unfold reconcileDeletionLoop
      simp only [hraw, hts, not_lt.mpr hage, if_false]
      exact ih fun q hq => h q (List.mem_cons_of_mem p hq)

/-- One turn of the deletion loop: the annotation is read, or cannot be,
or the pod is annotated now. -/
theorem reconcileDeletionLoop_turn {p : Pod} {ps : List Pod} {b : Bool}
    {E : Call → Prop} {Q : Result GoError Bool → Cluster → Prop}
    (hE : ∀ r x s₁ b, Annotates now (fun _ => True) s s₁ →
      E ⟨r, x, s, s₁, b⟩)
    (hcrash : Q .crashed s)
    (hfail : ∀ e s', Annotates now (fun _ => True) s s' → Q (.error e) s')
    (hread : ∀ raw ts,
      p.metadata.annotations.get drainAnnotation = some raw →
      Decimal.parseInt64 raw.toList = some ts →
      (reconcileDeletionLoop now cache ps
        (if now.sub (Time.ofUnix ts) < grace cache then false
          else b)).Sat api s E Q)
    (hunread : ∀ raw,
      p.metadata.annotations.get drainAnnotation = some raw →
      Decimal.parseInt64 raw.toList = none →
      (reconcileDeletionLoop now cache ps false).Sat api s E Q)
    (hfresh : ∀ s', Annotates now (fun _ => True) s s' →
      Fresh now p.key s' →
      (reconcileDeletionLoop now cache ps false).Sat api s' E Q) :
    (reconcileDeletionLoop now cache (p :: ps) b).Sat api s E Q := by
  unfold reconcileDeletionLoop
  cases hraw : p.metadata.annotations.get drainAnnotation with
  | none =>
      simp only [bind, Prog.bind, request]
      exact sat_annotate (fun _ _ => trivial) (fun x => rfl) hE hcrash hfail
        fun x => hfresh
  | some raw =>
      dsimp only
      cases hts : Decimal.parseInt64 raw.toList with
      | none => exact hunread raw hraw hts
      | some ts => exact hread raw ts hraw hts

/-- The deletion loop answers `true` only when every listed pod is
drained. -/
theorem reconcileDeletionLoop_sat (ps : List Pod) (b : Bool) :
    (reconcileDeletionLoop now cache ps b).Sat api s (SameObjects s)
      fun res s' => Annotates now (fun _ => True) s s'
        ∧ (res = .ok true → b = true ∧
          ∀ p ∈ ps, Drained now (grace cache) p) := by
  induction ps generalizing b s with
  | nil =>
      refine .ret ⟨.refl, fun h => ?_⟩
      cases h
      exact ⟨rfl, by simp⟩
  | cons p ps ih =>
      have hrest : ∀ b₁ s₁, Annotates now (fun _ => True) s s₁ →
          (b₁ = true → b = true ∧ Drained now (grace cache) p) →
          (reconcileDeletionLoop now cache ps b₁).Sat api s₁
            (SameObjects s) fun res s' =>
              Annotates now (fun _ => True) s s'
                ∧ (res = .ok true → b = true ∧
                  ∀ q ∈ p :: ps, Drained now (grace cache) q) := by
        intro b₁ s₁ h hb
        refine (ih (s := s₁) b₁).imp ?_ ?_
        · intro e he
          exact ⟨he.1.trans h.objects, he.2.trans h.objects⟩
        · intro res s' hend
          refine ⟨h.trans hend.1, fun hok => ?_⟩
          obtain ⟨hb₁, hps⟩ := hend.2 hok
          refine ⟨(hb hb₁).1, fun q hq => ?_⟩
          rcases List.mem_cons.mp hq with rfl | hq
          · exact (hb hb₁).2
          · exact hps q hq
      refine reconcileDeletionLoop_turn (fun _ _ _ _ h => ⟨rfl, h.objects⟩)
        ⟨.refl, by simp⟩ (fun _ _ h => ⟨h, by simp⟩) ?_ ?_ ?_
      · intro raw ts hraw hts
        refine hrest _ s .refl fun hb => ?_
        by_cases hage : now.sub (Time.ofUnix ts) < grace cache
        · rw [if_pos hage] at hb
          cases hb
        · rw [if_neg hage] at hb
          exact ⟨hb, raw, ts, hraw, hts, not_lt.mp hage⟩
      · intro raw _ _
        exact hrest false s .refl (by simp)
      · intro s' h _
        exact hrest false s' h (by simp)

end

-- ====================================================== the permission

section

variable {now : Time} {cache : DistributedCache} {s : Cluster}

/-- The pod would be removed by scaling the stored StatefulSet down. -/
def Doomed (cache : DistributedCache) (s : Cluster) (q : Pod) : Prop :=
  ∃ sts, s.objects .statefulSet (statefulSetKey cache) = some sts
    ∧ q.name ∈ doomedNames cache (desiredReplicas cache)
        (sts.1.body.replicas.getD 0)

theorem doomed_iff
    {sts : {o : Object .statefulSet // o.key = statefulSetKey cache}}
    (hsts : s.objects .statefulSet (statefulSetKey cache) = some sts)
    (q : Pod) : Doomed cache s q ↔
      q.name ∈ doomedNames cache (desiredReplicas cache)
        (sts.1.body.replicas.getD 0) := by
  constructor
  · intro hq
    obtain ⟨sts', h, hq⟩ := hq
    rw [hsts] at h
    cases h
    exact hq
  · exact fun hq => ⟨sts, hsts, hq⟩

/-- Every listed pod that scaling down would remove is drained. -/
def Permits (now : Time) (cache : DistributedCache) (s : Cluster) : Prop :=
  ∀ p ∈ cachePods cache s, Doomed cache s p →
    Drained now (grace cache) p

/-- The listing changes nothing and returns the pods of the cache. -/
theorem listPods_sat {what : String} {E : Call → Prop}
    (hE : ∀ x b, E ⟨.listPods (targetNamespace cache) (podLabels cache), x,
      s, s, b⟩) :
    (listPods cache what).Sat api s E fun res s' =>
      s' = s ∧ ∀ ps, res = .ok ps → ps = cachePods cache s := by
  unfold listPods
  simp only [bind, pure, Prog.bind, request]
  refine Prog.Sat.read rfl ⟨rfl, by simp⟩ hE (.ret ⟨rfl, ?_⟩)
    (.fail ⟨rfl, by simp⟩)
  intro ps hps
  cases hps
  rfl

/-- How `drainScaleDown` started in `s` ends: it has only annotated
doomed pods; if it ends with an answer, all of them are annotated; and it
permits the scale-down only when `Permits` says so, having changed
nothing. -/
structure DrainEnd (now : Time) (cache : DistributedCache) (s : Cluster)
    (res : Result GoError Bool) (s' : Cluster) : Prop where
  annotates : Annotates now (Doomed cache s) s s'
  marked : ∀ b, res = .ok b → ∀ q ∈ cachePods cache s', Doomed cache s q →
    (q.metadata.annotations.get drainAnnotation).isSome
  permitted : res = .ok true → s' = s ∧ Permits now cache s

/-- With nothing doomed the drain is over at once. -/
theorem DrainEnd.of_none (h : ∀ q, ¬Doomed cache s q) :
    DrainEnd now cache s (.ok true) s :=
  ⟨.refl, fun _ _ q _ hd => absurd hd (h q),
    fun _ => ⟨rfl, fun p _ hd => absurd hd (h p)⟩⟩

theorem DrainEnd.of_fail (e : GoError) :
    DrainEnd now cache s (.error e) s :=
  ⟨.refl, nofun, nofun⟩

theorem DrainEnd.of_crash : DrainEnd now cache s .crashed s :=
  ⟨.refl, nofun, nofun⟩

/-- The end of the loop is the end of the drain. -/
theorem DrainEnd.of_loop {doomed : List String} {b : Bool}
    {res : Result GoError Bool} {s' : Cluster}
    (hdoomed : ∀ q : Pod, Doomed cache s q ↔ q.name ∈ doomed)
    (h : LoopEnd now cache doomed (cachePods cache s) b s res s') :
    DrainEnd now cache s res s' := by
  refine ⟨h.annotates.mono fun q hq => (hdoomed q).mpr hq, ?_, ?_⟩
  · intro b' hres q hq hd
    rcases h.annotates.pods q (mem_cachePods hq) with hmem | ⟨-, hann⟩
    · exact h.marked b' hres q (cachePods_of_mem hq hmem)
        ((hdoomed q).mp hd) q (mem_cachePods hq) rfl
    · rw [hann]
      rfl
  · intro hres
    obtain ⟨hs', -, hps⟩ := h.drained hres
    exact ⟨hs', fun p hp hd => hps p hp ((hdoomed p).mp hd)⟩

/-- A listed pod is the only one with its key. -/
theorem marked_of_listed {p : Pod} (hp : p ∈ cachePods cache s)
    (hsome : (p.metadata.annotations.get drainAnnotation).isSome) :
    Marked p.key s := by
  intro q hq hkey
  have hfind := find?_of_mem hq
  rw [hkey, find?_of_mem (mem_cachePods hp)] at hfind
  cases hfind
  exact hsome

/-- The loop over the pods as they are listed. -/
theorem drainListed_sat {what : String} {doomed : List String} :
    (listPods cache what >>= fun ps =>
      drainScaleDownLoop now cache doomed ps true).Sat api s (SameObjects s)
      (LoopEnd now cache doomed (cachePods cache s) true s) := by
  refine Prog.Sat.bind_only (listPods_sat fun _ _ => ⟨rfl, rfl⟩)
    (.of_crash .refl) (fun _ => .of_fail .refl) ?_
  exact drainScaleDownLoop_sat _ _
    fun p hp hsome => marked_of_listed hp hsome

/-- What `drainScaleDown` goes on with, once it was told about the
StatefulSet. -/
def drainFound (now : Time) (cache : DistributedCache) :
    Reply (.get .statefulSet (statefulSetKey cache)) → Op Bool
  | .error e =>
      if e.isNotFound then .ret true else .fail (e.wrap "get StatefulSet")
  | .ok sts =>
      if sts.1.body.replicas.getD 0 ≤ desiredReplicas cache then .ret true
      else listPods cache "list pods" >>= fun ps =>
        drainScaleDownLoop now cache (doomedNames cache
          (desiredReplicas cache) (sts.1.body.replicas.getD 0)) ps true

theorem drainScaleDown_eq :
    drainScaleDown now cache
      = Prog.call (S := Api) (.get .statefulSet (statefulSetKey cache))
        (drainFound now cache) := by
  unfold drainScaleDown
  rw [request_bind]
  congr 1
  funext x
  cases x with
  | error e => rfl
  | ok sts => rfl

/-- It is done when nothing is doomed, and drains the doomed pods
otherwise. -/
theorem drainFound_cases (now : Time) (cache : DistributedCache)
    (s : Cluster) :
    (∀ q, ¬Doomed cache s q)
        ∧ drainFound now cache (api.serve
          (.get .statefulSet (statefulSetKey cache)) s).1 = .ret true
      ∨ ∃ doomed : List String, (∀ q, Doomed cache s q ↔ q.name ∈ doomed)
        ∧ drainFound now cache (api.serve
          (.get .statefulSet (statefulSetKey cache)) s).1
          = (listPods cache "list pods" >>= fun ps =>
            drainScaleDownLoop now cache doomed ps true) := by
  cases hsts : s.objects .statefulSet (statefulSetKey cache) with
  | none =>
      refine Or.inl ⟨fun q hq => ?_, by rw [serve_get_none hsts]; rfl⟩
      obtain ⟨sts, h, -⟩ := hq
      rw [hsts] at h
      cases h
  | some sts =>
      rw [serve_get_some hsts]
      unfold drainFound
      dsimp only
      by_cases hle : sts.1.body.replicas.getD 0 ≤ desiredReplicas cache
      · refine Or.inl ⟨fun q hq => ?_, if_pos hle⟩
        rw [doomed_iff hsts, doomedNames_of_le hle] at hq
        cases hq
      · exact Or.inr ⟨_, doomed_iff hsts, if_neg hle⟩

/-- The rule for `drainScaleDown`. -/
theorem drainScaleDown_rule {E : Call → Prop}
    {Q : Result GoError Bool → Cluster → Prop} (hcrash : Q .crashed s)
    (hfail : ∀ e, Q (.error e) s)
    (hE : ∀ x b, E ⟨.get .statefulSet (statefulSetKey cache), x, s, s, b⟩)
    (hnone : (∀ q, ¬Doomed cache s q) → Q (.ok true) s)
    (hsome : ∀ doomed : List String,
      (∀ q, Doomed cache s q ↔ q.name ∈ doomed) →
      (listPods cache "list pods" >>= fun ps =>
        drainScaleDownLoop now cache doomed ps true).Sat api s E Q) :
    (drainScaleDown now cache).Sat api s E Q := by
  rw [drainScaleDown_eq]
  refine Prog.Sat.read rfl hcrash hE ?_ (.fail (hfail _))
  rcases drainFound_cases now cache s with ⟨hq, heq⟩ | ⟨doomed, hq, heq⟩
  · rw [heq]
    exact .ret (hnone hq)
  · rw [heq]
    exact hsome doomed hq

theorem drainScaleDown_sat :
    (drainScaleDown now cache).Sat api s (SameObjects s)
      (DrainEnd now cache s) := by
  refine drainScaleDown_rule .of_crash .of_fail (fun _ _ => ⟨rfl, rfl⟩)
    .of_none fun doomed hdoomed => ?_
  exact drainListed_sat.imp (fun _ he => he)
    fun res s' h => .of_loop hdoomed h

/-- With the permission given by the state, the drain only reads and
agrees. -/
theorem drainScaleDown_of_permits {E : Call → Prop}
    (h : Permits now cache s)
    (hget : ∀ x b, E ⟨.get .statefulSet (statefulSetKey cache), x, s, s, b⟩)
    (hlist : ∀ x b, E ⟨.listPods (targetNamespace cache) (podLabels cache),
      x, s, s, b⟩) :
    (drainScaleDown now cache).Sat api s E fun res s' =>
      s' = s ∧ ∀ b, res = .ok b → b = true := by
  have hyes : s = s ∧ ∀ b, Result.ok (ε := GoError) true = .ok b →
      b = true := by
    refine ⟨rfl, fun b hb => ?_⟩
    cases hb
    rfl
  refine drainScaleDown_rule ⟨rfl, by simp⟩ (fun _ => ⟨rfl, by simp⟩)
    hget (fun _ => hyes) fun doomed hdoomed => ?_
  refine Prog.Sat.bind_only (listPods_sat hlist)
    ⟨rfl, by simp⟩ (fun _ => ⟨rfl, by simp⟩) ?_
  rw [drainScaleDownLoop_of_drained
    fun p hp hd => h p hp ((hdoomed p).mpr hd)]
  exact .ret hyes

end

-- ==================================================== undisturbed runs

section

variable {now : Time} {cache : DistributedCache} {s : Cluster}

/-- The update of a pod leaves the others alone. -/
theorem mem_updatePod {p q : Pod} (hq : q ∈ s.pods.items)
    (hne : q.key ≠ p.key) :
    q ∈ (api.serve (.updatePod p) s).2.pods.items := by
  show q ∈ (s.serveUpdatePod p).2.pods.items
  unfold Cluster.serveUpdatePod
  split
  · exact hq
  split
  · exact hq
  split
  · exact hq
  · exact List.mem_map.mpr ⟨q, hq, if_neg hne⟩

/-- The update of the first of some listed pods goes through, and the
rest of them is still there afterwards. -/
theorem updatePod_first {p : Pod} {ps : List Pod}
    (hps : ∀ q ∈ p :: ps, q ∈ s.pods.items)
    (hnodup : ((p :: ps).map Pod.key).Nodup) :
    (∃ p', (api.serve (.updatePod (annotate now p)) s).1 = .ok p')
      ∧ ∀ q ∈ ps, q
        ∈ (api.serve (.updatePod (annotate now p)) s).2.pods.items := by
  rw [List.map_cons, List.nodup_cons] at hnodup
  constructor
  · have hfind : s.pods.find? (annotate now p).key = some p :=
      find?_of_mem (hps p List.mem_cons_self)
    show ∃ p', (s.serveUpdatePod (annotate now p)).1 = .ok p'
    unfold Cluster.serveUpdatePod
    rw [hfind]
    dsimp only
    rw [if_neg (by simp [annotate])]
    split
    · exact ⟨p, rfl⟩
    · exact ⟨_, rfl⟩
  · intro q hq
    refine mem_updatePod (hps q (List.mem_cons_of_mem p hq)) fun h => ?_
    apply hnodup.1
    rw [show p.key = q.key from h.symm]
    exact List.mem_map_of_mem hq

/-- Undisturbed, the loop over listed pods ends without an error. -/
theorem drainScaleDownLoop_run {doomed : List String} (ps : List Pod)
    (b : Bool) (hps : ∀ p ∈ ps, p ∈ s.pods.items)
    (hnodup : (ps.map Pod.key).Nodup) :
    ∃ b', ((drainScaleDownLoop now cache doomed ps b).run api s).1
      = .ok b' := by
  induction ps generalizing b s with
  | nil => exact ⟨b, rfl⟩
  | cons p ps ih =>
      have hrest : ∀ q ∈ ps, q ∈ s.pods.items :=
        fun q hq => hps q (List.mem_cons_of_mem p hq)
      have hnodup' : (ps.map Pod.key).Nodup := hnodup.of_cons
      obtain ⟨⟨p', hsv⟩, hrest'⟩ := @updatePod_first now s p ps hps hnodup
      unfold drainScaleDownLoop
      by_cases hd : p.name ∈ doomed
      · simp only [hd, not_true_eq_false, if_false]
        split
        · simp only [bind, Prog.bind, request, Prog.run_call]
          rw [hsv]
          exact ih false hrest' hnodup'
        · split
          · simp only [bind, Prog.bind, request, Prog.run_call]
            rw [hsv]
            exact ih false hrest' hnodup'
          · exact ih _ hrest hnodup'
      · simp only [hd, not_false_eq_true, if_true]
        exact ih b hrest hnodup'

theorem reconcileDeletionLoop_run (ps : List Pod) (b : Bool)
    (hps : ∀ p ∈ ps, p ∈ s.pods.items) (hnodup : (ps.map Pod.key).Nodup) :
    ∃ b', ((reconcileDeletionLoop now cache ps b).run api s).1
      = .ok b' := by
  induction ps generalizing b s with
  | nil => exact ⟨b, rfl⟩
  | cons p ps ih =>
      have hrest : ∀ q ∈ ps, q ∈ s.pods.items :=
        fun q hq => hps q (List.mem_cons_of_mem p hq)
      obtain ⟨⟨p', hsv⟩, hrest'⟩ := @updatePod_first now s p ps hps hnodup
      unfold reconcileDeletionLoop
      split
      · simp only [bind, Prog.bind, request, Prog.run_call]
        rw [hsv]
        exact ih false hrest' hnodup.of_cons
      · split
        · exact ih false hrest hnodup.of_cons
        · exact ih _ hrest hnodup.of_cons

/-- Undisturbed, `drainScaleDown` ends without an error. -/
theorem drainScaleDown_run :
    ∃ b, ((drainScaleDown now cache).run api s).1 = .ok b := by
  rw [drainScaleDown_eq, Prog.run_call]
  show ∃ b, ((drainFound now cache (api.serve (.get .statefulSet
    (statefulSetKey cache)) s).1).run api s).1 = .ok b
  rcases drainFound_cases now cache s with ⟨-, heq⟩ | ⟨doomed, -, heq⟩
  · rw [heq]
    exact ⟨true, rfl⟩
  · rw [heq]
    exact drainScaleDownLoop_run _ _ (fun p hp => mem_cachePods hp)
      nodup_cachePods

end

end CacheOperator
