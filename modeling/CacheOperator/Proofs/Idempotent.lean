/-
A second Reconcile changes nothing.

The first one has settled the owned objects (`Settled`), so every phase
of the second finds its object standing and writes nothing. Its status is
the one that is stored: the conditions are computed from the same ring and
spec, and a condition whose status does not change keeps its transition
time, whatever the clock says.
-/
import CacheOperator.Proofs.Settled
import CacheOperator.Proofs.Status

namespace CacheOperator

open Lib

-- ========================================================== the status

/-- Setting the condition that is there changes nothing. -/
theorem setStatusCondition_eq_self {now : Time} {new : Condition}
    {t : Option Int64} {cs : List Condition}
    (h : findStatusCondition new.type cs
      = some { new with lastTransitionTime := t }) :
    setStatusCondition now new cs = cs := by
  induction cs with
  | nil => cases h
  | cons c cs ih =>
    unfold setStatusCondition
    by_cases hc : c.type = new.type
    · rw [if_pos hc]
      have hhead : c = { new with lastTransitionTime := t } := by
        simpa [findStatusCondition, hc] using h
      rw [hhead, if_pos rfl]
    · rw [if_neg hc]
      congr 1
      apply ih
      simpa [findStatusCondition, hc] using h

section
variable {now now' : Time} {ring : Ring} {c c' : DistributedCache}
  {type : ConditionType} {status : ConditionStatus} {reason : Reason}
  {message : String}

/-- A condition that was set on `c` and is the one `c'` has is not set
again. -/
theorem setCondition_eq_self
    (hgen : c'.metadata.generation = c.metadata.generation)
    (h : conditionOf type c'
      = conditionOf type (setCondition now c type status reason message)) :
    setCondition now' c' type status reason message = c' := by
  obtain ⟨t, ht⟩ := find_setStatusCondition_self now
    { type, status, reason, message, lastTransitionTime := none
      observedGeneration := c.metadata.generation }
    c.body.status.conditions
  have hfound : findStatusCondition type c'.body.status.conditions = _ :=
    h.trans ht
  unfold setCondition
  dsimp only
  rw [hgen, setStatusCondition_eq_self hfound]

theorem desiredReplicas_congr (h : c'.body.spec = c.body.spec) :
    desiredReplicas c' = desiredReplicas c := by
  unfold desiredReplicas
  rw [h]

theorem setAvailable_eq_self (hspec : c'.body.spec = c.body.spec)
    (hgen : c'.metadata.generation = c.metadata.generation)
    (h : conditionOf .available c'
      = conditionOf .available (setAvailable now ring c)) :
    setAvailable now' ring c' = c' := by
  unfold setAvailable at h ⊢
  dsimp only at h ⊢
  rw [desiredReplicas_congr hspec]
  split_ifs at h ⊢ <;> exact setCondition_eq_self hgen h

theorem setProgressing_eq_self (hspec : c'.body.spec = c.body.spec)
    (hgen : c'.metadata.generation = c.metadata.generation)
    (h : conditionOf .progressing c'
      = conditionOf .progressing (setProgressing now ring c)) :
    setProgressing now' ring c' = c' := by
  unfold setProgressing at h ⊢
  dsimp only at h ⊢
  rw [desiredReplicas_congr hspec]
  split_ifs at h ⊢ <;> exact setCondition_eq_self hgen h

theorem setTenantIsolated_eq_self (hspec : c'.body.spec = c.body.spec)
    (hgen : c'.metadata.generation = c.metadata.generation)
    (htarget : targetNamespace c' = targetNamespace c)
    (h : conditionOf .tenantIsolated c'
      = conditionOf .tenantIsolated (setTenantIsolated now c)) :
    setTenantIsolated now' c' = c' := by
  unfold setTenantIsolated at h ⊢
  rw [isolated_congr hspec, htarget]
  split_ifs at h ⊢ <;> exact setCondition_eq_self hgen h

/-- The object differs from `c` in what no verdict depends on. -/
structure SameSubject (c c' : DistributedCache) : Prop where
  spec : c'.body.spec = c.body.spec
  key : c'.key = c.key
  generation : c'.metadata.generation = c.metadata.generation

theorem SameSubject.targetNamespace (h : SameSubject c c') :
    targetNamespace c' = targetNamespace c := by
  have hns : c'.ns = c.ns := congrArg NamespacedName.ns h.key
  have hname : c'.name = c.name := congrArg NamespacedName.name h.key
  unfold CacheOperator.targetNamespace
  rw [isolated_congr h.spec, hns, hname]

theorem SameSubject.withConditions (h : SameSubject c c')
    (cs : List Condition) : SameSubject (withConditions c cs) c' :=
  ⟨h.spec, h.key, h.generation⟩

theorem setObservedConditions_eq_self (hsame : SameSubject c c')
    (h : ∀ type, conditionOf type c'
      = conditionOf type (setObservedConditions now ring c)) :
    setObservedConditions now' ring c' = c' := by
  unfold setObservedConditions at h
  have havailable : setAvailable now' ring c' = c' := by
    have hfound : conditionOf .available c'
        = conditionOf .available (setAvailable now ring c) := by
      rw [h, conditionOf_setTenantIsolated (by simp),
        conditionOf_setCondition_ne (by simp),
        conditionOf_setProgressing (by simp)]
    exact setAvailable_eq_self hsame.spec hsame.generation hfound
  have hprogressing : setProgressing now' ring c' = c' := by
    obtain ⟨cs, hcs⟩ := setAvailable_with now ring c
    rw [hcs] at h
    have hsame' := hsame.withConditions cs
    have hfound : conditionOf .progressing c' = conditionOf .progressing
        (setProgressing now ring (withConditions c cs)) := by
      rw [h, conditionOf_setTenantIsolated (by simp),
        conditionOf_setCondition_ne (by simp)]
    exact setProgressing_eq_self hsame'.spec hsame'.generation hfound
  have hdegraded : setCondition now' c' .degraded .no .reconciled
      "No degraded conditions observed." = c' := by
    obtain ⟨cs, hcs⟩ := setAvailable_with now ring c
    obtain ⟨cs', hcs'⟩ := setProgressing_with now ring (withConditions c cs)
    rw [hcs, hcs'] at h
    have hsame' := (hsame.withConditions cs).withConditions cs'
    apply setCondition_eq_self hsame'.generation
    rw [h, conditionOf_setTenantIsolated (by simp)]
  unfold setObservedConditions
  rw [havailable, hprogressing, hdegraded]
  obtain ⟨cs, hcs⟩ := beforeTenant_with now ring c
  rw [hcs] at h
  have hsame' := hsame.withConditions cs
  exact setTenantIsolated_eq_self hsame'.spec hsame'.generation
    hsame'.targetNamespace (h _)

/-- The object as it is once the status was stored. -/
def restated (c : DistributedCache) (resourceVersion : Nat)
    (created : Bool) (status : DistributedCacheStatus) : DistributedCache :=
  { metadata := { c.metadata with resourceVersion, created }
    body := { c.body with status } }

/-- What is reported besides the conditions. -/
def counted (ring : Ring) (c : DistributedCache) : DistributedCache :=
  { c with body :=
      { c.body with status :=
          { c.body.status with
            ring := ⟨ring.version, ring.members, ringConfigMapName c⟩
            readyReplicas := readyCount ring
            observedGeneration := c.metadata.generation } } }

/-- Observing the same ring again gives the stored status. -/
theorem observed_restated (n : Nat) (b : Bool) :
    observed now' ring (restated c n b (observed now ring c).body.status)
      = restated c n b (observed now ring c).body.status := by
  obtain ⟨cs, hcs⟩ := setObservedConditions_with now ring (counted ring c)
  have hobserved : observed now ring c
      = withConditions (counted ring c) cs := hcs
  rw [hobserved]
  have hsame : SameSubject (counted ring c)
      (restated c n b (withConditions (counted ring c) cs).body.status) :=
    ⟨rfl, rfl, rfl⟩
  have hconditions : ∀ type, conditionOf type
      (restated c n b (withConditions (counted ring c) cs).body.status)
        = conditionOf type
          (setObservedConditions now ring (counted ring c)) := by
    intro type
    rw [hcs]
    rfl
  exact setObservedConditions_eq_self hsame hconditions

end

-- ====================================================== the second run

section
variable {k : Kind} {key : NamespacedName}
  {mutate : Object k → Except GoError (Object k)} {s s' : Cluster}
  {srt : SliceSort} {now : Time} {cache : DistributedCache} {ring : Ring}

/-- An object that stands is read and left alone. -/
theorem createOrUpdate_run_stands (h : Stands k key mutate s) :
    (createOrUpdate k key mutate).run api s = (.ok .none, s) := by
  obtain ⟨o, ho, hm⟩ := h
  have hcall : callMutate key mutate o.1 = .ok o.1 := by
    unfold callMutate
    rw [hm]
    exact if_pos o.2
  unfold createOrUpdate
  simp only [bind, pure, Prog.bind, request, Prog.run_call]
  rw [serve_get_some ho]
  dsimp only
  rw [hcall]
  dsimp only
  rw [if_pos rfl]
  rfl

theorem reconcileObject_run_stands {what reason : String}
    {message : OperationResult → String} (h : Stands k key mutate s) :
    (reconcileObject k key what mutate cache reason message).run api s
      = (.ok (), s) := by
  unfold reconcileObject
  rw [Prog.run_bind, Prog.run_attempt, createOrUpdate_run_stands h]
  rfl

theorem wrapping_run {α : Type} {text : String} {p : Op α} {a : α}
    (h : p.run api s = (.ok a, s')) :
    (wrapping text p).run api s = (.ok a, s') := by
  unfold wrapping
  rw [Prog.run_bind, Prog.run_attempt, h]
  rfl

theorem orDegrade_run {α : Type} {reason : Reason} {text : String}
    {p : Op α} {a : α} (h : p.run api s = (.ok a, s')) :
    (orDegrade now cache reason text p).run api s = (.ok a, s') := by
  unfold orDegrade
  rw [Prog.run_bind, Prog.run_attempt, h]
  rfl

theorem reconcileCell_run_stands
    (h : isolated cache = true → CellStands cache s) :
    (reconcileCell cache).run api s = (.ok (), s) := by
  unfold reconcileCell
  by_cases hiso : isolated cache = true
  · obtain ⟨hcell, hquota, hpolicy⟩ := h hiso
    have hcell' : (reconcileCellNamespace cache).run api s = (.ok (), s) :=
      reconcileObject_run_stands hcell
    have hquota' : (reconcileResourceQuota cache).run api s = (.ok (), s) :=
      reconcileObject_run_stands hquota
    have hpolicy' : (reconcileNetworkPolicy cache).run api s = (.ok (), s) :=
      reconcileObject_run_stands hpolicy
    rw [if_neg (by simp [hiso]), Prog.run_bind, wrapping_run hcell']
    dsimp only
    rw [Prog.run_bind, wrapping_run hquota']
    exact wrapping_run hpolicy'
  · rw [if_pos (by simpa using hiso)]
    rfl

theorem reconcileServiceTwice_run_stands
    (h : Stands .service ⟨targetNamespace cache, cache.name⟩
      (mutateService cache) s) :
    (reconcileServiceTwice cache).run api s = (.ok (), s) := by
  unfold reconcileServiceTwice
  have hservice : (reconcileService cache).run api s = (.ok (), s) :=
    reconcileObject_run_stands h
  rw [Prog.run_bind, Prog.run_attempt, hservice]
  rfl

/-- A StatefulSet that stands has the replicas asked for, so there is
nothing to drain. -/
theorem drainScaleDown_run_stands
    (h : Stands .statefulSet (statefulSetKey cache)
      (mutateStatefulSet cache true) s) :
    (drainScaleDown now cache).run api s = (.ok true, s) := by
  obtain ⟨sts, hsts, hm⟩ := h
  have hreplicas : sts.1.body.replicas = cache.body.spec.replicas := by
    rw [(mutateOwned_ok hm).1]
    rfl
  unfold drainScaleDown
  simp only [bind, pure, Prog.bind, request, Prog.run_call]
  rw [serve_get_some hsts]
  dsimp only
  have hle : cache.body.spec.replicas.getD 0 ≤ desiredReplicas cache :=
    Int32.le_refl _
  rw [hreplicas, if_pos hle]
  rfl

theorem getRingConfigMap_run :
    (getRingConfigMap cache).run api s
      = (.ok (ringConfigMap cache s), s) := by
  unfold getRingConfigMap ringConfigMap
  simp only [bind, pure, Prog.bind, request, Prog.run_call]
  cases hcm : s.objects .configMap (ringKey cache) with
  | none =>
    rw [serve_get_none hcm]
    rfl
  | some cm =>
    rw [serve_get_some hcm]
    rfl

theorem reconcileRing_run_stands (h : RingStands srt cache ring s) :
    (reconcileRing srt cache).run api s = (.ok ring, s) := by
  obtain ⟨hnext, hskip⟩ := h
  have hlist : (listPods cache "list pods").run api s
      = (.ok (cachePods cache s), s) := rfl
  unfold reconcileRing
  rw [Prog.run_bind, hlist]
  dsimp only
  rw [Prog.run_bind, getRingConfigMap_run]
  dsimp only
  have hdesired : desiredRing (computeMembers srt (cachePods cache s))
      (currentRing (ringConfigMap cache s)) = ring := hnext
  rw [hdesired, if_pos hskip]
  rfl

/-- A status that is there is not written. -/
theorem serve_updateStatus_same
    {stored : {o : DistributedCache // o.key = key}}
    (hstored : s.objects .distributedCache key = some stored) :
    api.serve (.updateStatus stored.1) s = (.ok stored.1, s) := by
  obtain ⟨c, rfl⟩ := stored
  show s.serveUpdateStatus c = _
  unfold Cluster.serveUpdateStatus
  rw [hstored]
  simp [Cluster.write]

/-- A Reconcile that finds everything standing, the status included,
changes nothing. -/
theorem reconcileLive_run_stands
    {stored : {o : DistributedCache // o.key = key}}
    (hstored : s.objects .distributedCache key = some stored)
    (hcell : isolated stored.1 = true → CellStands stored.1 s)
    (hservice : Stands .service ⟨targetNamespace stored.1, stored.1.name⟩
      (mutateService stored.1) s)
    (hsts : Stands .statefulSet (statefulSetKey stored.1)
      (mutateStatefulSet stored.1 true) s)
    (hring : RingStands srt stored.1 ring s)
    (hstatus : observed now ring stored.1 = stored.1) :
    (reconcileLive srt now stored.1).run api s
      = (.ok (comeBack true stored.1), s) := by
  have hfinish : (finish now stored.1 true ring).run api s
      = (.ok (comeBack true stored.1), s) := by
    unfold finish comeBack
    simp only [bind, pure, Prog.bind, request, Prog.run_call]
    rw [hstatus, serve_updateStatus_same hstored]
    dsimp only
    split_ifs <;> rfl
  have howned : (reconcileOwned srt now stored.1).run api s
      = (.ok (true, ring), s) := by
    unfold reconcileOwned
    rw [Prog.run_bind, orDegrade_run (reconcileCell_run_stands hcell)]
    dsimp only
    rw [Prog.run_bind,
      orDegrade_run (reconcileServiceTwice_run_stands hservice)]
    dsimp only
    rw [Prog.run_bind, orDegrade_run (drainScaleDown_run_stands hsts)]
    dsimp only
    have hset : (reconcileStatefulSet stored.1 true).run api s
        = (.ok (), s) := reconcileObject_run_stands hsts
    rw [Prog.run_bind, orDegrade_run hset]
    dsimp only
    rw [Prog.run_bind, orDegrade_run (reconcileRing_run_stands hring)]
    rfl
  unfold reconcileLive
  rw [Prog.run_bind, howned]
  exact hfinish

/-- Another status does not matter to the owned objects. -/
theorem CellStands.restated {n : Nat} {b : Bool}
    {status : DistributedCacheStatus} (h : CellStands cache s) :
    CellStands (restated cache n b status) s :=
  ⟨h.cell, h.quota, h.policy⟩

theorem RingStands.restated {n : Nat} {b : Bool}
    {status : DistributedCacheStatus} (h : RingStands srt cache ring s) :
    RingStands srt (restated cache n b status) ring s :=
  ⟨h.eq, h.skips⟩

/-- What is stored after a status update that succeeded. -/
theorem stored_after_status {w x : DistributedCache}
    {stored : {o : DistributedCache // o.key = key}}
    (hstored : s.objects .distributedCache key = some stored)
    (hkey : w.key = key) (hok : (api.serve (.updateStatus w) s).1 = .ok x) :
    ∃ new n b, (api.serve (.updateStatus w) s).2.objects .distributedCache
        key = some new
      ∧ new.1 = restated stored.1 n b w.body.status := by
  obtain ⟨new, hnew, hstatus⟩ := serve_updateStatus_ok hkey hok
  rcases serve_updateStatus s w key with hsame | ⟨old, new', hold, hnew', h⟩
  · rw [hnew, hstored] at hsame
    cases hsame
    refine ⟨stored, stored.1.metadata.resourceVersion,
      stored.1.metadata.created, hnew, ?_⟩
    rw [← hstatus]
    rfl
  · rw [hstored] at hold
    cases hold
    rcases h with h | h
    · exact ⟨new', _, _, hnew', h⟩
    · exact ⟨new', _, _, hnew', h⟩

end

end CacheOperator
