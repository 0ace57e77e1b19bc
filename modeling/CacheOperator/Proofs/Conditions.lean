/-
The status over time.

A status is written back as a whole from an object that was read some
time ago, by one of several Reconciles. A turn can only store it while
the object is still the one that was read, so in every interleaving

- the report is about the generation that is stored, never an older or a
  newer one (`Renewed.generation`, `StatusStep.report`), and the ring in
  it is one that the `Reconcile` has computed from what it saw;
- a condition keeps its transition time until its status changes and gets
  the clock of the `Reconcile` then (`transitionTime`);
- no condition is taken away and no type comes twice (`TypesGrow`).

Whatever the others do, as long as they leave statuses that are not
ahead of their objects, there never are any (`SoundStatus`).
-/
import CacheOperator.Proofs.Provenance
import CacheOperator.Proofs.Status

namespace CacheOperator

open Lib

-- ======================================================= one condition

/-- The transition time of a condition that is set to `status`. -/
def transitionTime (now : Time) (old : Option Condition)
    (status : ConditionStatus) : Option Int64 :=
  match old with
  | some c =>
      if c.status = status then c.lastTransitionTime else some now.unix
  | none => some now.unix

/-- The condition was set at `now`, for an object of this generation. -/
structure Renewed (now : Time) (generation : Int64)
    (old : Option Condition) (new : Condition) : Prop where
  generation : new.observedGeneration = generation
  transition : new.lastTransitionTime = transitionTime now old new.status

/-- No type goes away, and none comes twice. -/
structure TypesGrow (cs cs' : List Condition) : Prop where
  kept : cs.map Condition.type <+: cs'.map Condition.type
  distinct : (cs.map Condition.type).Nodup →
    (cs'.map Condition.type).Nodup

section

variable {now : Time} {cs cs' cs'' : List Condition} {new : Condition}
  {cache : DistributedCache} {type : ConditionType}
  {status : ConditionStatus} {reason : Reason} {message : String}
  {ring : Ring}

theorem TypesGrow.refl (cs : List Condition) : TypesGrow cs cs :=
  ⟨List.prefix_refl _, fun h => h⟩

theorem TypesGrow.trans (h : TypesGrow cs cs') (h' : TypesGrow cs' cs'') :
    TypesGrow cs cs'' :=
  ⟨h.kept.trans h'.kept, fun hd => h'.distinct (h.distinct hd)⟩

theorem types_setStatusCondition :
    (setStatusCondition now new cs).map Condition.type
      = if new.type ∈ cs.map Condition.type then cs.map Condition.type
        else cs.map Condition.type ++ [new.type] := by
  induction cs with
  | nil => rfl
  | cons c cs ih =>
      unfold setStatusCondition
      by_cases hc : c.type = new.type
      · have hmem : new.type ∈ (c :: cs).map Condition.type := by
          simp [hc]
        rw [if_pos hmem]
        simp [hc]
      · rw [if_neg hc, List.map_cons, ih]
        have hne : new.type ≠ c.type := fun h => hc h.symm
        by_cases hmem : new.type ∈ cs.map Condition.type
        · rw [if_pos hmem, if_pos (by simp [hmem])]
          rfl
        · rw [if_neg hmem, if_neg (by simp [hne, hmem])]
          rfl

theorem typesGrow_setStatusCondition :
    TypesGrow cs (setStatusCondition now new cs) := by
  constructor
  · rw [types_setStatusCondition]
    split
    · exact List.prefix_refl _
    · exact List.prefix_append _ _
  · intro hd
    rw [types_setStatusCondition]
    split
    · exact hd
    · next hmem =>
      rw [List.nodup_append]
      refine ⟨hd, List.nodup_singleton _, ?_⟩
      intro t ht t' ht' heq
      rw [List.mem_singleton.mp ht'] at heq
      exact hmem (heq ▸ ht)

/-- What is found after a condition was set. -/
theorem find_setStatusCondition (new : Condition) :
    findStatusCondition new.type (setStatusCondition now new cs)
      = some { new with
          lastTransitionTime := transitionTime now
            (findStatusCondition new.type cs) new.status } := by
  induction cs with
  | nil => simp [setStatusCondition, findStatusCondition, transitionTime]
  | cons c cs ih =>
      by_cases hc : c.type = new.type
      · simp [setStatusCondition, findStatusCondition, transitionTime, hc]
      · unfold setStatusCondition
        rw [if_neg hc]
        simp only [findStatusCondition] at ih ⊢
        rw [List.find?_cons_of_neg (by simpa using hc),
          List.find?_cons_of_neg (by simpa using hc), ih]

theorem renewed_setCondition {old : Option Condition}
    (hold : conditionOf type cache = old) :
    ∃ c, conditionOf type (setCondition now cache type status reason
        message) = some c
      ∧ Renewed now cache.metadata.generation old c := by
  subst hold
  unfold conditionOf setCondition
  let new : Condition :=
    { type, status, reason, message, lastTransitionTime := none
      observedGeneration := cache.metadata.generation }
  exact ⟨_, find_setStatusCondition new, rfl, rfl⟩

-- ========================================================= the reports

theorem setAvailable_sets (now : Time) (ring : Ring)
    (cache : DistributedCache) : ∃ status reason message,
      setAvailable now ring cache
        = setCondition now cache .available status reason message := by
  unfold setAvailable
  dsimp only
  split
  · exact ⟨_, _, _, rfl⟩
  split
  · exact ⟨_, _, _, rfl⟩
  split
  · exact ⟨_, _, _, rfl⟩
  · exact ⟨_, _, _, rfl⟩

theorem setProgressing_sets (now : Time) (ring : Ring)
    (cache : DistributedCache) : ∃ status reason message,
      setProgressing now ring cache
        = setCondition now cache .progressing status reason message := by
  unfold setProgressing
  dsimp only
  split
  · exact ⟨_, _, _, rfl⟩
  · exact ⟨_, _, _, rfl⟩

theorem setTenantIsolated_sets (now : Time) (cache : DistributedCache) :
    ∃ status reason message, setTenantIsolated now cache
      = setCondition now cache .tenantIsolated status reason message := by
  unfold setTenantIsolated
  split
  · exact ⟨_, _, _, rfl⟩
  · exact ⟨_, _, _, rfl⟩

/-- A finished `Reconcile` sets the four conditions, each once. -/
theorem observed_sets (now : Time) (ring : Ring)
    (cache : DistributedCache) :
    ∃ base s₁ r₁ m₁ s₂ r₂ m₂ s₃ r₃ m₃,
      base.metadata.generation = cache.metadata.generation
      ∧ base.body.status.conditions = cache.body.status.conditions
      ∧ observed now ring cache = setCondition now (setCondition now
        (setCondition now (setCondition now base .available s₁ r₁ m₁)
          .progressing s₂ r₂ m₂)
        .degraded .no .reconciled "No degraded conditions observed.")
        .tenantIsolated s₃ r₃ m₃ := by
  unfold observed setObservedConditions
  generalize hbase : ({ cache with body := _ } : DistributedCache) = base
  obtain ⟨s₁, r₁, m₁, h₁⟩ := setAvailable_sets now ring base
  rw [h₁]
  obtain ⟨s₂, r₂, m₂, h₂⟩ := setProgressing_sets now ring
    (setCondition now base .available s₁ r₁ m₁)
  rw [h₂]
  obtain ⟨s₃, r₃, m₃, h₃⟩ := setTenantIsolated_sets now (setCondition now
    (setCondition now (setCondition now base .available s₁ r₁ m₁)
      .progressing s₂ r₂ m₂)
    .degraded .no .reconciled "No degraded conditions observed.")
  rw [h₃]
  refine ⟨base, s₁, r₁, m₁, s₂, r₂, m₂, s₃, r₃, m₃, ?_, ?_, rfl⟩
  · rw [← hbase]
  · rw [← hbase]

theorem renewed_observed :
    ∃ c, conditionOf type (observed now ring cache) = some c
      ∧ Renewed now cache.metadata.generation (conditionOf type cache)
        c := by
  obtain ⟨base, s₁, r₁, m₁, s₂, r₂, m₂, s₃, r₃, m₃, hgen, hold, hsets⟩ :=
    observed_sets now ring cache
  have hold' : conditionOf type base = conditionOf type cache := by
    unfold conditionOf
    rw [hold]
  -- the settings of the other types pass this one by
  have hne : ∀ {c : DistributedCache} {type' : ConditionType} {s r m},
      type' ≠ type → conditionOf type (setCondition now c type' s r m)
        = conditionOf type c :=
    fun h => conditionOf_setCondition_ne h
  rw [hsets, ← hgen, ← hold']
  cases type with
  | available =>
      rw [hne (by simp), hne (by simp), hne (by simp)]
      exact renewed_setCondition rfl
  | progressing =>
      rw [hne (by simp), hne (by simp)]
      exact renewed_setCondition (hne (by simp))
  | degraded =>
      rw [hne (by simp)]
      refine renewed_setCondition ?_
      rw [hne (by simp), hne (by simp)]
  | tenantIsolated =>
      refine renewed_setCondition ?_
      rw [hne (by simp), hne (by simp), hne (by simp)]

theorem typesGrow_observed :
    TypesGrow cache.body.status.conditions
      (observed now ring cache).body.status.conditions := by
  obtain ⟨base, s₁, r₁, m₁, s₂, r₂, m₂, s₃, r₃, m₃, -, hold, hsets⟩ :=
    observed_sets now ring cache
  rw [hsets, ← hold]
  exact ((typesGrow_setStatusCondition.trans
    typesGrow_setStatusCondition).trans
    typesGrow_setStatusCondition).trans typesGrow_setStatusCondition

theorem observed_generation :
    (observed now ring cache).body.status.observedGeneration
      = cache.metadata.generation := by
  unfold observed
  obtain ⟨cs, hcs⟩ := setObservedConditions_with now ring
    { cache with body := { cache.body with status :=
      { cache.body.status with
        ring := ⟨ring.version, ring.members, ringConfigMapName cache⟩
        readyReplicas := readyCount ring
        observedGeneration := cache.metadata.generation } } }
  rw [hcs]
  rfl

end

-- ============================================================= one turn

/-- What a turn can make of the status of the object it finds. -/
structure StatusStep (srt : SliceSort) (now : Time)
    (w : Timeline Cluster) (old new : DistributedCache) : Prop where
  types : TypesGrow old.body.status.conditions
    new.body.status.conditions
  conditions : ∀ type, conditionOf type new = conditionOf type old
    ∨ ∃ c, conditionOf type new = some c
      ∧ Renewed now old.metadata.generation (conditionOf type old) c
  report :
    (new.body.status.observedGeneration
        = old.body.status.observedGeneration
      ∧ new.body.status.readyReplicas = old.body.status.readyReplicas
      ∧ new.body.status.ring = old.body.status.ring)
    ∨ (new.body.status.observedGeneration = old.metadata.generation
      ∧ ∃ ring, RingSeen srt w old ring
        ∧ new.body.status.readyReplicas = readyCount ring
        ∧ new.body.status.ring
          = ⟨ring.version, ring.members, ringConfigMapName old⟩)

/-- The status is about no generation that is not there yet. -/
structure SoundStatus (cache : DistributedCache) : Prop where
  distinct : (cache.body.status.conditions.map Condition.type).Nodup
  generation : cache.body.status.observedGeneration
    ≤ cache.metadata.generation
  conditions : ∀ type c, conditionOf type cache = some c →
    c.observedGeneration ≤ cache.metadata.generation

/-- All statuses are sound. -/
def Cluster.SoundStatuses (s : Cluster) : Prop :=
  ∀ key o, s.objects .distributedCache key = some o → SoundStatus o.1

section

variable {srt : SliceSort} {now : Time} {key : NamespacedName}
  {w : Timeline Cluster} {s s' : Cluster}
  {cache c old new : DistributedCache}

theorem StatusStep.of_eq (h : new.body.status = old.body.status) :
    StatusStep srt now w old new := by
  refine ⟨?_, fun type => Or.inl ?_, Or.inl ?_⟩
  · rw [h]
    exact .refl _
  · unfold conditionOf
    rw [h]
  · rw [h]
    exact ⟨rfl, rfl, rfl⟩

/-- A report, stored with the object it is about. -/
theorem ReportOf.statusStep (h : ReportOf now cache (RingSeen srt w cache) c)
    (hnew : new.body.status = c.body.status) :
    StatusStep srt now w cache new := by
  have hof : ∀ type, conditionOf type new = conditionOf type c := by
    intro type
    unfold conditionOf
    rw [hnew]
  cases h with
  | degraded reason e =>
      refine ⟨?_, fun type => ?_, Or.inl ?_⟩
      · rw [hnew]
        exact typesGrow_setStatusCondition
      · rw [hof]
        by_cases htype : ConditionType.degraded = type
        · subst htype
          exact Or.inr (renewed_setCondition rfl)
        · exact Or.inl (conditionOf_setCondition_ne htype)
      · rw [hnew]
        exact ⟨rfl, rfl, rfl⟩
  | observed ring hring =>
      refine ⟨?_, fun type => ?_, Or.inr ⟨?_, ring, hring, ?_⟩⟩
      · rw [hnew]
        exact typesGrow_observed
      · rw [hof]
        exact Or.inr renewed_observed
      · rw [hnew]
        exact observed_generation
      · obtain ⟨-, hringStatus, hready⟩ := observed_status now ring cache
        rw [hnew]
        exact ⟨hready, hringStatus⟩

/-- What a turn does to the status of its cache. -/
theorem OperatorStep.statusStep (h : OperatorStep srt now key w s')
    {old new : {o : DistributedCache // o.key = key}}
    (hold : w.now.objects .distributedCache key = some old)
    (hnew : s'.objects .distributedCache key = some new) :
    StatusStep srt now w old.1 new.1 := by
  -- the cache is written, from the object that is stored
  have hput : ∀ (cache o : DistributedCache) (hkey : cache.key = key),
      w.now.objects .distributedCache key = some ⟨cache, hkey⟩ →
      s' = w.now.put (w.now.stamp o) → o.key = key →
      old.1 = cache ∧ new.1.body = o.body := by
    intro cache o hkey hstored hs' ho
    rw [hs', Cluster.put_objects_key (w.now.stamp o) ho] at hnew
    rw [hstored] at hold
    cases hnew
    cases hold
    exact ⟨rfl, rfl⟩
  -- something else is written
  have hsame : s'.objects .distributedCache key
      = w.now.objects .distributedCache key →
      StatusStep srt now w old.1 new.1 := by
    intro heq
    rw [heq, hold] at hnew
    cases hnew
    exact .of_eq rfl
  have hother : ∀ {k : Kind} (o : Object k), k ≠ .distributedCache →
      s' = w.now.put o → StatusStep srt now w old.1 new.1 := by
    intro k o hk hs'
    apply hsame
    rw [hs']
    exact Cluster.put_objects_of_kind o hk
  cases h with
  | kept => exact hsame rfl
  | held cache hkey hstored hlive =>
      obtain ⟨ho, hn⟩ := hput cache _ hkey hstored rfl hkey
      refine .of_eq ?_
      rw [ho, hn]
      rfl
  | released cache hkey hstored hdel =>
      obtain ⟨ho, hn⟩ := hput cache _ hkey hstored rfl hkey
      refine .of_eq ?_
      rw [ho, hn]
      rfl
  | gone cache hkey hstored hdel hlast =>
      rw [Cluster.remove_objects_self] at hnew
      cases hnew
  | reported cache c hkey hstored hc =>
      obtain ⟨ho, hn⟩ := hput cache _ hkey hstored rfl hkey
      rw [ho]
      refine hc.statusStep ?_
      rw [hn]
      rfl
  | created cache o honce hheld hshape hkey hnone ho =>
      exact hother _ hshape.owned.ne_cache rfl
  | updated cache o old' honce hheld hshape hkey hold' ho =>
      exact hother _ hshape.owned.ne_cache rfl
  | annotated cache p honce hheld hp hns hlabels hstart => exact hsame rfl
  | torn cache old' honce hheld hdel hcross hold' =>
      exact hother _ (by simp) rfl

theorem SoundStatus.step (h : SoundStatus old)
    (hstep : StatusStep srt now w old new)
    (hgen : new.metadata.generation = old.metadata.generation) :
    SoundStatus new := by
  refine ⟨hstep.types.distinct h.distinct, ?_, ?_⟩
  · rw [hgen]
    rcases hstep.report with ⟨hsame, -⟩ | ⟨hnow, -⟩
    · rw [hsame]
      exact h.generation
    · rw [hnow]
      exact Int64.le_refl _
  · intro type c hc
    rw [hgen]
    rcases hstep.conditions type with hsame | ⟨c', hc', hrenewed⟩
    · rw [hsame] at hc
      exact h.conditions type c hc
    · rw [hc'] at hc
      cases hc
      rw [hrenewed.generation]
      exact Int64.le_refl _

theorem Cluster.SoundStatuses.step (h : w.now.SoundStatuses)
    (hs : OperatorStep srt now key w s') : s'.SoundStatuses := by
  intro key' new hnew
  by_cases hkey : key' = key
  · subst hkey
    obtain ⟨old, hold, huser⟩ := hs.userKept hnew
    refine (h key' old hold).step (hs.statusStep hold hnew) ?_
    rw [huser.metadata]
  · rw [hs.cacheKept.2 key' hkey] at hnew
    exact h key' new hnew

end

/-- In every interleaving of Reconciles with anything that leaves sound
statuses, all statuses are sound, and a turn changes the status of its
cache by a report about the object that is stored: the conditions it sets
are for its generation and moved in time with their status, and no other
part of the status changes but together with the generation. It leaves
the other caches alone, their statuses included. -/
theorem statuses_follow_the_object (srt : SliceSort) (nows : Nat → Time)
    (keys : Nat → NamespacedName) {s : Cluster} (hs : s.Stamped)
    (hsound : s.SoundStatuses)
    {c : Crew Api (Timeline Cluster) GoError ReconcileResult}
    (hrun : OperatorRun (fun s s' => s.Moves s' ∧ s'.SoundStatuses)
      (operatorCrew srt nows keys s) c) (i : Nat) (x : Recall) :
    (operatorTurn c i x).state.now.SoundStatuses
      ∧ (∀ old new,
        c.state.now.objects .distributedCache (keys i) = some old →
        (operatorTurn c i x).state.now.objects .distributedCache (keys i)
          = some new → StatusStep srt (nows i) c.state old.1 new.1)
      ∧ ∀ key, key ≠ keys i →
        (operatorTurn c i x).state.now.objects .distributedCache key
          = c.state.now.objects .distributedCache key := by
  have hinformed := operator_informed (Φ := Cluster.SoundStatuses)
    (fun _ _ _ hw hstep => hw.present.2.step hstep)
    (fun _ _ _ _ he => ⟨he.2, he.1⟩) hs hsound hrun
  have hstep := turn_step hinformed i x
  exact ⟨hinformed.state.present.2.step hstep,
    fun old new hold hnew => hstep.statusStep hold hnew,
    hstep.cacheKept.2⟩

theorem readyCluster_sound : readyCluster.SoundStatuses := by
  intro key o ho
  by_cases hkey : key = ⟨"shop", "orders"⟩
  · subst hkey
    have hstored : readyCluster.objects .distributedCache
        ⟨"shop", "orders"⟩ = some ⟨Cluster.empty.stamp
          (addFinalizer (shopCache "tiny-cache:1")), rfl⟩ := by
      decide +kernel
    rw [hstored] at ho
    cases ho
    refine ⟨by decide, by decide, ?_⟩
    intro type c hc
    cases hc
  · have hne : Target.object .distributedCache (Cluster.empty.stamp
        (addFinalizer (shopCache "tiny-cache:1"))).key
        ≠ .object .distributedCache key := by
      intro heq
      injection heq with _ heq
      exact hkey heq.symm
    have hnone : readyCluster.objects .distributedCache key = none :=
      Cluster.put_objects_of_ne (s := Cluster.empty) hne
    rw [hnone] at ho
    cases ho

/-- The `Reconcile` is about to report. -/
def reportingCrew : Crew Api (Timeline Cluster) GoError ReconcileResult :=
  operatorTurn readyCrew 0 .served

theorem statuses_follow_the_object_ready :
    ((operatorTurn reportingCrew 0 .served).state.now.objects
        .distributedCache ⟨"shop", "orders"⟩).map (fun o =>
          o.1.body.status.conditions.map Condition.lastTransitionTime)
      = some [some 100, some 100, some 100, some 100]
      ∧ (operatorTurn reportingCrew 0 .served).state.now.SoundStatuses := by
  refine ⟨by decide +kernel, ?_⟩
  exact (statuses_follow_the_object .insertionSort
    (fun _ => Time.ofUnix 100) (fun _ => ⟨"shop", "orders"⟩)
    readyCluster_stamped readyCluster_sound (operatorRun_served _ _ 0 13)
    0 .served).1

end CacheOperator
