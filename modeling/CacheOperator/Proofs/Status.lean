/-
What the written statuses say.

A Reconcile writes one status at most, at its end: the observed one, with
all four conditions of this very Reconcile, or the status it read with
`Degraded` set. The observed one is true. The other one still carries
what earlier Reconciles reported, `Available` and `TenantIsolated`
included, under the generation they saw, and the object may still have
it.

`Degrading` says of a program of phases when it writes and when it fails;
`degrading_orDegrade` is the step from phase to phase.
-/
import CacheOperator.Proofs.Release

namespace CacheOperator

open Lib

-- ====================================================== the conditions

/-- `meta.FindStatusCondition`. -/
def findStatusCondition (type : ConditionType) (cs : List Condition) :
    Option Condition :=
  cs.find? fun c => c.type = type

/-- The condition in the object's status. -/
def conditionOf (type : ConditionType) (cache : DistributedCache) :
    Option Condition :=
  findStatusCondition type cache.body.status.conditions

/-- The condition is True for the generation the object has. -/
def Reports (type : ConditionType) (cache : DistributedCache) : Prop :=
  ∃ c, conditionOf type cache = some c ∧ c.status = .yes
    ∧ c.observedGeneration = cache.metadata.generation

instance (type : ConditionType) (cache : DistributedCache) :
    Decidable (Reports type cache) :=
  decidable_of_iff
    (((conditionOf type cache).any fun c =>
      c.status = .yes ∧ c.observedGeneration = cache.metadata.generation)
        = true)
    (by simp [Reports, Option.any_eq_true])

section
variable {now : Time} {cache : DistributedCache}

theorem find_setStatusCondition_self (now : Time) (new : Condition)
    (cs : List Condition) :
    ∃ t, findStatusCondition new.type (setStatusCondition now new cs)
      = some { new with lastTransitionTime := t } := by
  induction cs with
  | nil => exact ⟨some now.unix, by simp [setStatusCondition,
      findStatusCondition]⟩
  | cons c cs ih =>
    by_cases h : c.type = new.type
    · exact ⟨_, by simp [setStatusCondition, findStatusCondition, h]; rfl⟩
    · obtain ⟨t, ht⟩ := ih
      refine ⟨t, ?_⟩
      rw [← ht]
      simp [setStatusCondition, findStatusCondition, h]

theorem find_setStatusCondition_ne {type : ConditionType}
    {new : Condition} (h : new.type ≠ type) (cs : List Condition) :
    findStatusCondition type (setStatusCondition now new cs)
      = findStatusCondition type cs := by
  induction cs with
  | nil => simp [setStatusCondition, findStatusCondition, h]
  | cons c cs ih =>
    by_cases hc : c.type = new.type
    · have hne : c.type ≠ type := by rw [hc]; exact h
      simp [setStatusCondition, findStatusCondition, hc, h]
    · simp only [setStatusCondition, if_neg hc]
      by_cases ht : c.type = type
      · simp [findStatusCondition, ht]
      · simp only [findStatusCondition] at ih ⊢
        rw [List.find?_cons_of_neg (by simpa using ht),
          List.find?_cons_of_neg (by simpa using ht), ih]

/-- The object with other conditions. -/
def withConditions (cache : DistributedCache) (cs : List Condition) :
    DistributedCache :=
  { cache with body :=
      { cache.body with status :=
          { cache.body.status with conditions := cs } } }

theorem isolated_congr {c c' : DistributedCache}
    (h : c'.body.spec = c.body.spec) : isolated c' = isolated c := by
  unfold isolated
  rw [h]

-- The conditions are all that each of the status functions changes.

theorem setAvailable_with (now : Time) (ring : Ring)
    (cache : DistributedCache) :
    ∃ cs, setAvailable now ring cache = withConditions cache cs := by
  unfold setAvailable
  dsimp only
  split_ifs <;> exact ⟨_, rfl⟩

theorem setProgressing_with (now : Time) (ring : Ring)
    (cache : DistributedCache) :
    ∃ cs, setProgressing now ring cache = withConditions cache cs := by
  unfold setProgressing
  dsimp only
  split_ifs <;> exact ⟨_, rfl⟩

theorem setTenantIsolated_with (now : Time) (cache : DistributedCache) :
    ∃ cs, setTenantIsolated now cache = withConditions cache cs := by
  unfold setTenantIsolated
  split_ifs <;> exact ⟨_, rfl⟩

/-- The object as the verdict on the tenant finds it. -/
theorem beforeTenant_with (now : Time) (ring : Ring)
    (cache : DistributedCache) :
    ∃ cs, setCondition now
        (setProgressing now ring (setAvailable now ring cache))
        .degraded .no .reconciled "No degraded conditions observed."
      = withConditions cache cs := by
  obtain ⟨cs, hcs⟩ := setAvailable_with now ring cache
  obtain ⟨cs', hcs'⟩ := setProgressing_with now ring (withConditions cache cs)
  rw [hcs, hcs']
  exact ⟨_, rfl⟩

theorem setObservedConditions_with (now : Time) (ring : Ring)
    (cache : DistributedCache) :
    ∃ cs, setObservedConditions now ring cache
      = withConditions cache cs := by
  obtain ⟨cs, hcs⟩ := beforeTenant_with now ring cache
  obtain ⟨cs', hcs'⟩ := setTenantIsolated_with now (withConditions cache cs)
  unfold setObservedConditions
  rw [hcs, hcs']
  exact ⟨_, rfl⟩

variable {ring : Ring} {type type' : ConditionType}
  {status : ConditionStatus} {reason : Reason} {message : String}

-- Each of them leaves the conditions of the other types alone.

theorem conditionOf_setCondition_ne (h : type' ≠ type) :
    conditionOf type (setCondition now cache type' status reason message)
      = conditionOf type cache :=
  find_setStatusCondition_ne h _

theorem conditionOf_setProgressing (h : type ≠ .progressing) :
    conditionOf type (setProgressing now ring cache)
      = conditionOf type cache := by
  unfold setProgressing
  dsimp only
  split_ifs <;> exact conditionOf_setCondition_ne (Ne.symm h)

theorem conditionOf_setTenantIsolated (h : type ≠ .tenantIsolated) :
    conditionOf type (setTenantIsolated now cache)
      = conditionOf type cache := by
  unfold setTenantIsolated
  split_ifs <;> exact conditionOf_setCondition_ne (Ne.symm h)

-- ====================================================== the reports

theorem reports_congr {c c' : DistributedCache}
    (h : conditionOf type c' = conditionOf type c)
    (hgen : c'.metadata.generation = c.metadata.generation) :
    Reports type c' ↔ Reports type c := by
  unfold Reports
  rw [h, hgen]

theorem reports_setCondition_self :
    Reports type (setCondition now cache type status reason message)
      ↔ status = .yes := by
  unfold Reports conditionOf setCondition
  dsimp only
  obtain ⟨t, ht⟩ := find_setStatusCondition_self now
    { type, status, reason, message, lastTransitionTime := none
      observedGeneration := cache.metadata.generation }
    cache.body.status.conditions
  rw [ht]
  simp

theorem reports_markDegraded {e : GoError} (h : type ≠ .degraded) :
    Reports type (markDegraded now cache reason e) ↔ Reports type cache :=
  reports_congr (conditionOf_setCondition_ne (Ne.symm h)) rfl

/-- The count as an `int32` is never more than the count. -/
theorem readyCount_le (ring : Ring) :
    (readyCount ring).toInt ≤ ring.members.length := by
  unfold readyCount
  rw [Int32.toInt_ofNat', Int.bmod_def]
  rw [show Int32.size = 4294967296 from rfl]
  split <;> omega

theorem reports_setAvailable
    (h : Reports .available (setAvailable now ring cache)) :
    (desiredReplicas cache).toInt ≤ ring.members.length := by
  unfold setAvailable at h
  dsimp only at h
  split at h
  · exact absurd (reports_setCondition_self.mp h) (by simp)
  · split at h
    · exact absurd (reports_setCondition_self.mp h) (by simp)
    · rename_i hlt
      have hle := readyCount_le ring
      rw [Int32.lt_iff_toInt_lt] at hlt
      omega

theorem reports_setTenantIsolated
    (h : Reports .tenantIsolated (setTenantIsolated now cache)) :
    isolated cache = true := by
  unfold setTenantIsolated at h
  split at h
  · assumption
  · exact absurd (reports_setCondition_self.mp h) (by simp)

/-- The observed status reports isolation of isolated caches only. -/
theorem reports_observed_isolated
    (h : Reports .tenantIsolated (setObservedConditions now ring cache)) :
    isolated cache = true := by
  have htenant := reports_setTenantIsolated h
  obtain ⟨cs, hcs⟩ := beforeTenant_with now ring cache
  rw [hcs] at htenant
  exact htenant

/-- The observed status reports enough members only where they are. -/
theorem reports_observed_available
    (h : Reports .available (setObservedConditions now ring cache)) :
    (desiredReplicas cache).toInt ≤ ring.members.length := by
  have hcondition : conditionOf .available
      (setObservedConditions now ring cache)
        = conditionOf .available (setAvailable now ring cache) := by
    unfold setObservedConditions
    rw [conditionOf_setTenantIsolated (by simp),
      conditionOf_setCondition_ne (by simp),
      conditionOf_setProgressing (by simp)]
  refine reports_setAvailable ((reports_congr hcondition ?_).mp h)
  obtain ⟨cs, hcs⟩ := setObservedConditions_with now ring cache
  obtain ⟨cs', hcs'⟩ := setAvailable_with now ring cache
  rw [hcs, hcs']
  rfl

end

-- ================================================= phases and failures

/-- The call is no write of a status. -/
def Request.SparesStatus : Request → Prop
  | .updateStatus _ => False
  | _ => True

/-- An execution writes a status only to report its failure, and reports
every failure. -/
structure Degrading {α : Type} (now : Time) (cache : DistributedCache)
    (o : Outcome Api Cluster GoError α) : Prop where
  writes : ∀ e ∈ o.trace, ∀ w, e.req = .updateStatus w →
    (∃ reason err, w = markDegraded now cache reason err)
      ∧ ∃ err, o.result = .error err
  reports : ∀ err, o.result = .error err →
    ∃ e ∈ o.trace, ∃ reason err,
      e.req = .updateStatus (markDegraded now cache reason err)

section
variable {α β : Type} {now : Time} {cache : DistributedCache}
  {reason : Reason} {text : String} {p : Op α}

/-- The report of a failure: the operator crashes before it, or the call
is made and the failure passed on. -/
theorem report_exec (w : DistributedCache) (err : GoError)
    (fs : List Fault) (s : Cluster) :
    ((do let _ ← request (.updateStatus w); .fail err : Op α).exec api fs s
        = ⟨.crashed, s, fs.tail, []⟩)
      ∨ ∃ e : Call, e.req = .updateStatus w
        ∧ (do let _ ← request (.updateStatus w); .fail err : Op α).exec api
            fs s = ⟨.error err, e.after, fs.tail, [e]⟩ := by
  obtain hc | ⟨x, s', failed, -, -, -, hc⟩ := Prog.exec_call_cases api
    (.updateStatus w) (fun _ => (Prog.fail err : Op α)) fs s
  · exact Or.inl hc
  · exact Or.inr ⟨⟨.updateStatus w, x, s, s', failed⟩, rfl, hc⟩

/-- How a phase ends: as it would without the report; crashed before the
report; or failed, with the report as its last call. -/
theorem orDegrade_exec (now : Time) (cache : DistributedCache)
    (reason : Reason) (text : String) (p : Op α) (fs : List Fault)
    (s : Cluster) :
    ((∀ err, (p.exec api fs s).result ≠ .error err)
        ∧ (orDegrade now cache reason text p).exec api fs s
          = p.exec api fs s)
      ∨ (((orDegrade now cache reason text p).exec api fs s).result
          = .crashed
        ∧ ((orDegrade now cache reason text p).exec api fs s).trace
          = (p.exec api fs s).trace)
      ∨ ∃ err e, e.req = .updateStatus (markDegraded now cache reason err)
        ∧ ((orDegrade now cache reason text p).exec api fs s).result
          = .error (err.wrap text)
        ∧ ((orDegrade now cache reason text p).exec api fs s).trace
          = (p.exec api fs s).trace ++ [e] := by
  unfold orDegrade
  cases hres : (p.exec api fs s).result with
  | ok a =>
    left
    refine ⟨by simp, ?_⟩
    rw [Prog.exec_attempt_bind api p _ fs s (x := .ok a) hres]
    simp [Prog.pure_eq, Prog.exec, ← hres]
  | crashed =>
    left
    refine ⟨by simp, ?_⟩
    rw [Prog.exec_bind, Prog.exec_attempt]
    simp only [Outcome.andThen, hres]
    rw [← hres]
  | error err =>
    right
    rw [Prog.exec_attempt_bind api p _ fs s (x := .error err) hres]
    dsimp only
    obtain hc | ⟨e, hreq, hc⟩ := report_exec (α := α)
      (markDegraded now cache reason err) (err.wrap text)
      (p.exec api fs s).faults (p.exec api fs s).state
    · left
      rw [hc]
      exact ⟨rfl, List.append_nil _⟩
    · right
      rw [hc]
      exact ⟨err, e, hreq, rfl, rfl⟩

/-- One phase more before an execution that degrades. -/
theorem degrading_orDegrade {f : α → Op β}
    (hp : p.Uses Request.SparesStatus)
    (hf : ∀ a fs s, Degrading now cache ((f a).exec api fs s))
    (fs : List Fault) (s : Cluster) :
    Degrading now cache
      ((orDegrade now cache reason text p >>= f).exec api fs s) := by
  have hspare : ∀ e ∈ (p.exec api fs s).trace, ∀ w,
      e.req ≠ .updateStatus w := by
    intro e he w hw
    have hspares := hp.trace he
    rw [hw] at hspares
    exact hspares
  rw [Prog.exec_bind]
  unfold Outcome.andThen
  obtain ⟨hne, heq⟩ | ⟨hres, htr⟩ | ⟨err, e, hreq, hres, htr⟩ :=
    orDegrade_exec now cache reason text p fs s
  · rw [heq]
    cases hres : (p.exec api fs s).result with
    | error err => exact absurd hres (hne err)
    | crashed => exact ⟨fun e he w hw => absurd hw (hspare e he w), by simp⟩
    | ok a =>
      obtain ⟨hwrites, hreports⟩ :=
        hf a (p.exec api fs s).faults (p.exec api fs s).state
      constructor
      · intro e he w hw
        rcases List.mem_append.mp he with he | he
        · exact absurd hw (hspare e he w)
        · exact hwrites e he w hw
      · intro err herr
        obtain ⟨e, he, hreq⟩ := hreports err herr
        exact ⟨e, List.mem_append_right _ he, hreq⟩
  · rw [hres, htr]
    exact ⟨fun e he w hw => absurd hw (hspare e he w), by simp⟩
  · rw [hres, htr]
    constructor
    · intro e' he w hw
      rcases List.mem_append.mp he with he | he
      · exact absurd hw (hspare e' he w)
      · rw [List.mem_singleton.mp he, hreq] at hw
        exact ⟨⟨reason, err, (Request.updateStatus.inj hw).symm⟩, _, rfl⟩
    · intro _ _
      exact ⟨e, by simp, reason, err, hreq⟩

end

section
variable {srt : SliceSort} {now : Time} {cache : DistributedCache}

theorem Request.OfObject.sparesStatus {k : Kind} {key : NamespacedName}
    {r : Request} (h : r.OfObject cache k key) : r.SparesStatus := by
  cases h <;> trivial

theorem reconcileRing_sparesStatus :
    (reconcileRing srt cache).Uses Request.SparesStatus :=
  reconcileRing_uses trivial fun _ h => h.sparesStatus

theorem degrading_reconcileOwned (fs : List Fault) (s : Cluster) :
    Degrading now cache ((reconcileOwned srt now cache).exec api fs s) := by
  refine degrading_orDegrade
    (reconcileCell_uses fun _ _ _ _ _ _ h => h.sparesStatus) ?_ fs s
  intro _
  refine degrading_orDegrade
    (reconcileServiceTwice_uses fun _ h => h.sparesStatus) ?_
  intro _
  refine degrading_orDegrade (drainScaleDown_uses trivial trivial
    (fun _ => trivial) fun _ _ => trivial) ?_
  intro doomedComplete
  refine degrading_orDegrade
    (reconcileObject_uses fun _ h => h.sparesStatus) ?_
  intro _
  refine degrading_orDegrade reconcileRing_sparesStatus ?_
  intro ring fs s
  exact ⟨by simp [Prog.pure_eq, Prog.exec], by simp [Prog.pure_eq, Prog.exec]⟩

theorem finish_writes {b : Bool} {ring : Ring} {fs : List Fault}
    {s : Cluster} {e : Call}
    (he : e ∈ ((finish now cache b ring).exec api fs s).trace) :
    e.req = .updateStatus (observed now ring cache) := by
  have huses : (finish now cache b ring).Uses
      fun r : Request => r = .updateStatus (observed now ring cache) := by
    refine ⟨rfl, fun x => ?_⟩
    cases x with
    | error e => trivial
    | ok c =>
      dsimp only
      repeat' split
      all_goals trivial
  exact huses.trace he

end

-- ========================================================== Reconcile

/-- A Reconcile gets as far as the owned objects of `cache`. -/
structure WorksOn (key : NamespacedName) (fs : List Fault) (s : Cluster)
    (cache : DistributedCache) : Prop where
  served : fs.headD .none = .none
  stored : ∃ h, s.objects .distributedCache key = some ⟨cache, h⟩
  live : cache.metadata.deleting = false
  held : drainFinalizer ∈ cache.metadata.finalizers

/-- What a written status may say: the tenant is isolated if that is asked
for and this Reconcile got through the cell, and the cache is available if
this Reconcile got through the ring and that has the members. -/
structure Truthful (srt : SliceSort) (now : Time) (key : NamespacedName)
    (fs : List Fault) (s : Cluster) (w : DistributedCache) : Prop where
  tenantIsolated : Reports .tenantIsolated w →
    isolated w = true
      ∧ ∃ cache, WorksOn key fs s cache
        ∧ ((reconcileCell cache).exec api fs.tail s).result = .ok ()
  available : Reports .available w →
    ∃ cache doomedComplete ring, WorksOn key fs s cache
      ∧ ((reconcileOwned srt now cache).exec api fs.tail s).result
        = .ok (doomedComplete, ring)
      ∧ (desiredReplicas w).toInt ≤ ring.members.length

section
variable {srt : SliceSort} {now : Time} {key : NamespacedName}
  {fs : List Fault} {s : Cluster} {cache : DistributedCache}

theorem WorksOn.exec (h : WorksOn key fs s cache) (srt : SliceSort)
    (now : Time) :
    ∃ e : Call, e.req = .get .distributedCache key
      ∧ (reconcile srt now key).exec api fs s
        = ((reconcileLive srt now cache).exec api fs.tail s).after e := by
  obtain ⟨hkey, hstored⟩ := h.stored
  refine ⟨⟨.get .distributedCache key, .ok ⟨cache, hkey⟩, s, s, false⟩,
    rfl, ?_⟩
  unfold reconcile
  simp only [bind, pure, Prog.bind, request, Prog.exec, h.served]
  rw [serve_get_some hstored]
  dsimp only
  rw [if_neg (by rw [h.live]; simp), if_neg (by simpa using h.held)]

theorem reconcileDeletion_sparesStatus :
    (reconcileDeletion srt now cache).Uses Request.SparesStatus :=
  reconcileDeletion_uses (fun _ h => h.sparesStatus) trivial
    (fun _ => trivial)
    (tearDown_uses trivial (fun _ => trivial) trivial fun _ _ => trivial)

/-- A Reconcile that does not get as far writes no status. -/
theorem sparesStatus_of_not_worksOn (h : ∀ cache, ¬WorksOn key fs s cache)
    {e : Call} (he : e ∈ ((reconcile srt now key).exec api fs s).trace) :
    e.req.SparesStatus := by
  unfold reconcile at he
  simp only [bind, pure, Prog.bind, request, Prog.exec] at he
  cases hfault : fs.headD .none with
  | crash =>
    rw [hfault] at he
    exact absurd he (by simp)
  | refused =>
    rw [hfault] at he
    rw [List.mem_singleton.mp he]
    trivial
  | lost =>
    rw [hfault] at he
    rw [List.mem_singleton.mp he]
    trivial
  | none =>
    rw [hfault] at he
    cases hstored : s.objects .distributedCache key with
    | none =>
      simp only [serve_get_none hstored] at he
      rw [List.mem_singleton.mp he]
      trivial
    | some stored =>
      simp only [serve_get_some hstored] at he
      rcases List.mem_cons.mp he with rfl | he
      · trivial
      · split at he
        · exact reconcileDeletion_sparesStatus.trace he
        · next hlive =>
          split at he
          · exact (holdCache_uses (P := Request.SparesStatus) trivial).trace
              he
          · next hheld =>
            exact absurd ⟨hfault, ⟨stored.2, hstored⟩, by simpa using hlive,
              by simpa using hheld⟩ (h stored.1)

theorem WorksOn.unique {cache' : DistributedCache}
    (h : WorksOn key fs s cache) (h' : WorksOn key fs s cache') :
    cache' = cache := by
  obtain ⟨_, h⟩ := h.stored
  obtain ⟨_, h'⟩ := h'.stored
  rw [h] at h'
  cases h'
  rfl

/-- A phase that lets the next one run is a phase that succeeded. -/
theorem phase_of_bind {α β : Type} {reason : Reason} {text : String}
    {p : Op α} {f : α → Op β} {b : β}
    (h : ((orDegrade now cache reason text p >>= f).exec api fs s).result
      = .ok b) :
    ∃ a, (p.exec api fs s).result = .ok a := by
  obtain ⟨a, ha, -, -⟩ | ⟨-, hne, -, -⟩ := Prog.exec_bind_cases api
    (orDegrade now cache reason text p) f fs s
  · obtain ⟨-, heq⟩ | ⟨hres, -⟩ | ⟨err, e, -, hres, -⟩ :=
      orDegrade_exec now cache reason text p fs s
    · exact ⟨a, heq ▸ ha⟩
    · rw [hres] at ha
      cases ha
    · rw [hres] at ha
      cases ha
  · exact absurd h (hne b)

/-- The status of a failure says what was read; it may if nothing in that
claims more than this Reconcile did. -/
theorem truthful_markDegraded {reason : Reason} {err err' : GoError}
    (hworks : WorksOn key fs s cache)
    (herr : ((reconcileOwned srt now cache).exec api fs.tail s).result
      = .error err') :
    Truthful srt now key fs s (markDegraded now cache reason err)
      ↔ ¬Reports .available cache
        ∧ (Reports .tenantIsolated cache →
          isolated cache = true
            ∧ ((reconcileCell cache).exec api fs.tail s).result
              = .ok ()) := by
  have havailable : Reports .available (markDegraded now cache reason err)
      ↔ Reports .available cache := reports_markDegraded (by simp)
  have htenant : Reports .tenantIsolated
      (markDegraded now cache reason err)
        ↔ Reports .tenantIsolated cache := reports_markDegraded (by simp)
  constructor
  · intro h
    constructor
    · intro hreport
      obtain ⟨cache', b, ring, hworks', hok, -⟩ :=
        h.available (havailable.mpr hreport)
      rw [hworks.unique hworks', herr] at hok
      cases hok
    · intro hreport
      obtain ⟨hiso, cache', hworks', hcell⟩ :=
        h.tenantIsolated (htenant.mpr hreport)
      rw [hworks.unique hworks'] at hcell
      exact ⟨hiso, hcell⟩
  · intro ⟨hno, hcell⟩
    constructor
    · intro hreport
      obtain ⟨hiso, hdone⟩ := hcell (htenant.mp hreport)
      exact ⟨hiso, cache, hworks, hdone⟩
    · intro hreport
      exact absurd (havailable.mp hreport) hno

/-- The status of a success is true. -/
theorem truthful_observed {b : Bool} {ring : Ring}
    (hworks : WorksOn key fs s cache)
    (hok : ((reconcileOwned srt now cache).exec api fs.tail s).result
      = .ok (b, ring)) :
    Truthful srt now key fs s (observed now ring cache) := by
  have hspec : (observed now ring cache).body.spec = cache.body.spec := by
    obtain ⟨cs, hcs⟩ := setObservedConditions_with now ring _
    unfold observed
    rw [hcs]
    rfl
  constructor
  · intro hreport
    unfold observed at hreport
    have hiso := reports_observed_isolated hreport
    obtain ⟨u, hcell⟩ := phase_of_bind hok
    exact ⟨(isolated_congr hspec).trans hiso, cache, hworks, hcell⟩
  · intro hreport
    unfold observed at hreport
    have hmembers := reports_observed_available hreport
    refine ⟨cache, b, ring, hworks, hok, ?_⟩
    unfold desiredReplicas
    rw [hspec]
    exact hmembers

end

/-- Every status a Reconcile writes is true, whatever was there before and
whatever fails, if and only if it does not fail in one of its phases after
it read a status that reports the cache available, or the tenant isolated
though that is not asked for or it is the cell that failed. -/
theorem statuses_truthful_iff (srt : SliceSort) (now : Time)
    (key : NamespacedName) (fs : List Fault) (s : Cluster) :
    (∀ e ∈ ((reconcile srt now key).exec api fs s).trace, ∀ w,
        e.req = .updateStatus w → Truthful srt now key fs s w)
      ↔ ∀ cache, WorksOn key fs s cache → ∀ err,
        ((reconcileOwned srt now cache).exec api fs.tail s).result
          = .error err →
        ¬Reports .available cache
          ∧ (Reports .tenantIsolated cache →
            isolated cache = true
              ∧ ((reconcileCell cache).exec api fs.tail s).result
                = .ok ()) := by
  constructor
  · intro h cache hworks err herr
    obtain ⟨e₀, -, hexec⟩ := hworks.exec srt now
    obtain ⟨e, he, reason, err', hreq⟩ :=
      (degrading_reconcileOwned fs.tail s).reports err herr
    apply (truthful_markDegraded hworks herr).mp
    apply h e _ _ hreq
    rw [hexec]
    apply List.mem_cons_of_mem
    exact (Prog.mem_trace_bind api).mpr (Or.inl he)
  · intro h e he w hw
    by_cases hworks : ∃ cache, WorksOn key fs s cache
    · obtain ⟨cache, hworks⟩ := hworks
      obtain ⟨e₀, hget, hexec⟩ := hworks.exec srt now
      rw [hexec] at he
      rcases List.mem_cons.mp he with rfl | he
      · rw [hget] at hw
        cases hw
      · rcases (Prog.mem_trace_bind api).mp he with he | ⟨⟨b, ring⟩, hok, he⟩
        · obtain ⟨⟨reason, err', rfl⟩, err, herr⟩ :=
            (degrading_reconcileOwned fs.tail s).writes e he w hw
          exact (truthful_markDegraded hworks herr).mpr
            (h cache hworks err herr)
        · have hreq := finish_writes he
          rw [hw] at hreq
          rw [Request.updateStatus.inj hreq]
          exact truthful_observed hworks hok
    · have hspares :=
        sparesStatus_of_not_worksOn (not_exists.mp hworks) he
      rw [hw] at hspares
      exact hspares.elim

-- ==================================================== a small cluster

/-- The status a call writes. -/
def Request.written : Request → Option DistributedCache
  | .updateStatus w => some w
  | _ => none

theorem Request.eq_of_written {r : Request} {w : DistributedCache}
    (h : r.written = some w) : r = .updateStatus w := by
  cases r with
  | updateStatus c => exact congrArg _ (Option.some.inj h)
  | _ => cases h

/-- The cache of the documentation, in a cell of its own. -/
def ordersTenant (replicas : Int32) : DistributedCache :=
  { ordersCache replicas with body :=
      { (ordersCache replicas).body with spec :=
          { (ordersCache replicas).body.spec with
            tenant := some ⟨true⟩ } } }

/-- A ready pod in the cell. -/
def ordersCellPod (ordinal : Int) : Pod :=
  { ordersPod ordinal true none with metadata :=
      { (ordersPod ordinal true none).metadata with
        ns := "cache-orders-cache" } }

/-- The isolated cache of one replica, and its pod. -/
def ordersCell : Cluster :=
  { Cluster.empty.put (ordersTenant 1) with
    pods := ⟨[ordersCellPod 0], List.nodup_singleton _⟩ }

/-- The cluster after a first Reconcile. -/
def ordersCellReady : Cluster :=
  ((reconcile .insertionSort (Time.ofUnix 100) ordersKey).exec api []
    ordersCell).state

theorem ordersCell_fails {cache : DistributedCache}
    (hworks : WorksOn ordersKey [.none, .refused] ordersCellReady cache) :
    ((reconcileCell cache).exec api [.refused] ordersCellReady).result
      ≠ .ok () := by
  have hall : (ordersCellReady.objects .distributedCache ordersKey).all
      (fun (stored : {o : DistributedCache // o.key = ordersKey}) =>
        decide (((reconcileCell stored.1).exec api [.refused]
          ordersCellReady).result ≠ .ok ())) = true := by
    decide +kernel
  obtain ⟨hkey, hstored⟩ := hworks.stored
  rw [hstored] at hall
  exact of_decide_eq_true hall

/-- The first Reconcile reports the cache available and isolated. In the
second one the first call of `reconcileCell` is refused; the status that
reports this failure still says both, for the generation of the object. -/
theorem stale_conditions_survive :
    ((reconcile .insertionSort (Time.ofUnix 100) ordersKey).exec api []
        ordersCell).result = .ok ⟨false, 10 * second⟩
      ∧ ∃ e ∈ ((reconcile .insertionSort (Time.ofUnix 110) ordersKey).exec
          api [.none, .refused] ordersCellReady).trace,
        ∃ w, e.req = .updateStatus w
          ∧ Reports .tenantIsolated w ∧ Reports .available w
          ∧ ¬Truthful .insertionSort (Time.ofUnix 110) ordersKey
            [.none, .refused] ordersCellReady w := by
  have hstale : ∃ e ∈ ((reconcile .insertionSort (Time.ofUnix 110)
      ordersKey).exec api [.none, .refused] ordersCellReady).trace,
      e.req.written.any (fun w => decide (Reports .tenantIsolated w
        ∧ Reports .available w)) = true := by
    decide +kernel
  refine ⟨by decide +kernel, ?_⟩
  obtain ⟨e, he, hany⟩ := hstale
  obtain ⟨w, hw, hreports⟩ := (Option.any_eq_true _ _).mp hany
  obtain ⟨hisolated, havailable⟩ := of_decide_eq_true hreports
  refine ⟨e, he, w, Request.eq_of_written hw, hisolated, havailable, ?_⟩
  intro htruthful
  obtain ⟨-, cache, hworks, hcell⟩ := htruthful.tenantIsolated hisolated
  exact ordersCell_fails hworks hcell

end CacheOperator
