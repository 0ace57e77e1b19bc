/-
The calls of each phase.

Which calls a piece of the operator can make does not depend on what it
is answered, so it is said once here, for every property `P` of calls:
a phase `Uses P` when `P` holds of the few calls in its text. A
sub-reconciler reads, creates or updates one object and records events
(`Request.OfObject`); the objects are six for each cache (`Owned`). What
a status report says comes first: it is about the cache it was made for.
-/
import CacheOperator.Lib.Sat
import CacheOperator.Model.Reconcile

namespace CacheOperator

open Lib

/-- The calls of the sub-reconciler of one object. -/
inductive Request.OfObject (cache : DistributedCache) (k : Kind)
    (key : NamespacedName) : Request → Prop where
  | get : OfObject cache k key (.get k key)
  | create (o : Object k) (h : o.key = key) :
      OfObject cache k key (.create k o)
  | update (o : Object k) (h : o.key = key) :
      OfObject cache k key (.update k o)
  | event (reason text : String) :
      OfObject cache k key (.event cache.ns reason text)

/-- The objects a cache has. -/
inductive Owned (cache : DistributedCache) : Kind → NamespacedName → Prop
    where
  | cell : Owned cache .ns ⟨"", targetNamespace cache⟩
  | quota : Owned cache .resourceQuota ⟨targetNamespace cache, "cell-quota"⟩
  | policy :
      Owned cache .networkPolicy ⟨targetNamespace cache, "cell-isolation"⟩
  | service : Owned cache .service ⟨targetNamespace cache, cache.name⟩
  | statefulSet : Owned cache .statefulSet (statefulSetKey cache)
  | ring : Owned cache .configMap (ringKey cache)

theorem Owned.ne_cache {cache : DistributedCache} {k : Kind}
    {key : NamespacedName} (h : Owned cache k key) :
    k ≠ .distributedCache := by
  cases h <;> simp

-- ========================================================= the status

/-- The conditions are all that changes. -/
def SameReport (c c' : DistributedCache) : Prop :=
  c'.metadata = c.metadata
    ∧ c'.body.status.ring = c.body.status.ring
    ∧ c'.body.status.readyReplicas = c.body.status.readyReplicas

theorem setAvailable_report (now : Time) (ring : Ring)
    (cr : DistributedCache) :
    SameReport cr (setAvailable now ring cr) := by
  unfold setAvailable
  dsimp only
  split
  · exact ⟨rfl, rfl, rfl⟩
  split
  · exact ⟨rfl, rfl, rfl⟩
  split
  · exact ⟨rfl, rfl, rfl⟩
  · exact ⟨rfl, rfl, rfl⟩

theorem setProgressing_report (now : Time) (ring : Ring)
    (cr : DistributedCache) :
    SameReport cr (setProgressing now ring cr) := by
  unfold setProgressing
  dsimp only
  split
  · exact ⟨rfl, rfl, rfl⟩
  · exact ⟨rfl, rfl, rfl⟩

theorem setTenantIsolated_report (now : Time) (cr : DistributedCache) :
    SameReport cr (setTenantIsolated now cr) := by
  unfold setTenantIsolated
  split
  · exact ⟨rfl, rfl, rfl⟩
  · exact ⟨rfl, rfl, rfl⟩

theorem setObservedConditions_report (now : Time) (ring : Ring)
    (cr : DistributedCache) :
    SameReport cr (setObservedConditions now ring cr) := by
  unfold setObservedConditions
  obtain ⟨h1, h1', h1''⟩ := setTenantIsolated_report now
    (setCondition now
      (setProgressing now ring (setAvailable now ring cr))
      .degraded .no .reconciled "No degraded conditions observed.")
  obtain ⟨h2, h2', h2''⟩ := setProgressing_report now ring
    (setAvailable now ring cr)
  obtain ⟨h3, h3', h3''⟩ := setAvailable_report now ring cr
  exact ⟨h1.trans (h2.trans h3), h1'.trans (h2'.trans h3'),
    h1''.trans (h2''.trans h3'')⟩

theorem observed_metadata (now : Time) (ring : Ring)
    (cache : DistributedCache) :
    (observed now ring cache).metadata = cache.metadata :=
  (setObservedConditions_report now ring _).1

/-- The status a finished `Reconcile` stores reports the ring. -/
theorem observed_status (now : Time) (ring : Ring)
    (cache : DistributedCache) :
    (observed now ring cache).key = cache.key
      ∧ (observed now ring cache).body.status.ring
        = ⟨ring.version, ring.members, ringConfigMapName cache⟩
      ∧ (observed now ring cache).body.status.readyReplicas
        = readyCount ring :=
  ⟨congrArg ObjectMeta.key (observed_metadata now ring cache),
    (setObservedConditions_report now ring _).2⟩

-- =================================================== sub-reconcilers

section

variable {k : Kind} {key : NamespacedName} {cache : DistributedCache}
  {mutate : Object k → Except GoError (Object k)} {P : Request → Prop}

/-- What the callback made has the key it was called for. -/
theorem callMutate_ok {o o' : Object k}
    (h : callMutate key mutate o = .ok o') :
    mutate o = .ok o' ∧ o'.key = key := by
  unfold callMutate at h
  cases hm : mutate o with
  | error e =>
      rw [hm] at h
      cases h
  | ok o₁ =>
      rw [hm] at h
      dsimp only at h
      by_cases hk : o₁.key = key
      · rw [if_pos hk] at h
        cases h
        exact ⟨rfl, hk⟩
      · rw [if_neg hk] at h
        cases h

theorem createOrUpdate_uses :
    (createOrUpdate k key mutate).Uses (Request.OfObject cache k key) := by
  unfold createOrUpdate
  simp only [bind, pure, Prog.bind, request]
  refine ⟨.get, fun x => ?_⟩
  cases x with
  | error e =>
      dsimp only
      split
      · split
        · trivial
        · next o ho =>
          refine ⟨.create o (callMutate_ok ho).2, fun y => ?_⟩
          cases y <;> trivial
      · trivial
  | ok old =>
      dsimp only
      split
      · trivial
      · next o ho =>
        split
        · trivial
        · refine ⟨.update o (callMutate_ok ho).2, fun y => ?_⟩
          cases y <;> trivial

theorem reconcileObject_uses {what reason : String}
    {message : OperationResult → String}
    (h : ∀ r, Request.OfObject cache k key r → P r) :
    (reconcileObject k key what mutate cache reason message).Uses P := by
  have hcu : (createOrUpdate k key mutate).Uses P :=
    createOrUpdate_uses.mono h
  refine Prog.Uses.bind hcu.attempt fun x => ?_
  cases x with
  | error e => trivial
  | ok op =>
      cases op with
      | none => trivial
      | created => exact ⟨h _ (.event _ _), fun _ => trivial⟩
      | updated => exact ⟨h _ (.event _ _), fun _ => trivial⟩

theorem wrapping_uses {α : Type} {text : String} {p : Op α}
    (hp : p.Uses P) : (wrapping text p).Uses P := by
  refine Prog.Uses.bind hp.attempt fun x => ?_
  cases x <;> trivial

end

-- ========================================================= the phases

section

variable {srt : SliceSort} {now : Time} {cache : DistributedCache}
  {P : Request → Prop}

theorem reconcileCell_uses
    (hobj : ∀ k key r, Owned cache k key → k ≠ .statefulSet →
      k ≠ .configMap → r.OfObject cache k key → P r) :
    (reconcileCell cache).Uses P := by
  unfold reconcileCell
  split
  · trivial
  · refine Prog.Uses.bind (wrapping_uses ?_) fun _ =>
      Prog.Uses.bind (wrapping_uses ?_) fun _ => wrapping_uses ?_
    · exact reconcileObject_uses (hobj _ _ · .cell (by simp) (by simp))
    · exact reconcileObject_uses (hobj _ _ · .quota (by simp) (by simp))
    · exact reconcileObject_uses (hobj _ _ · .policy (by simp) (by simp))

theorem reconcileServiceTwice_uses
    (hobj : ∀ r, r.OfObject cache .service
      ⟨targetNamespace cache, cache.name⟩ → P r) :
    (reconcileServiceTwice cache).Uses P := by
  have hsvc : (reconcileService cache).Uses P := reconcileObject_uses hobj
  refine Prog.Uses.bind hsvc.attempt fun x => ?_
  cases x with
  | ok a => trivial
  | error e => exact hsvc

theorem listPods_uses {what : String}
    (hlist : P (.listPods (targetNamespace cache) (podLabels cache))) :
    (listPods cache what).Uses P := by
  refine ⟨hlist, fun x => ?_⟩
  cases x <;> trivial

/-- The drain updates pods of the list it is given. -/
theorem drainScaleDownLoop_uses {doomed : List String} (ps : List Pod)
    (b : Bool) (hpod : ∀ p ∈ ps, P (.updatePod (annotate now p)))
    (hevent : ∀ reason text, P (.event cache.ns reason text)) :
    (drainScaleDownLoop now cache doomed ps b).Uses P := by
  induction ps generalizing b with
  | nil => trivial
  | cons p ps ih =>
      have hp := hpod p List.mem_cons_self
      have ih := fun b => ih b fun q hq => hpod q (List.mem_cons_of_mem p hq)
      unfold drainScaleDownLoop
      split
      · exact ih b
      · split
        · refine ⟨hp, fun x => ?_⟩
          cases x with
          | error e => trivial
          | ok q => exact ⟨hevent _ _, fun _ => ih false⟩
        · split
          · refine ⟨hp, fun x => ?_⟩
            cases x with
            | error e => trivial
            | ok q => exact ih false
          · exact ih _

theorem drainScaleDown_uses
    (hget : P (.get .statefulSet (statefulSetKey cache)))
    (hlist : P (.listPods (targetNamespace cache) (podLabels cache)))
    (hpod : ∀ p, P (.updatePod p))
    (hevent : ∀ reason text, P (.event cache.ns reason text)) :
    (drainScaleDown now cache).Uses P := by
  refine ⟨hget, fun x => ?_⟩
  cases x with
  | error e =>
      show Prog.Uses _ (if _ then _ else _)
      split <;> trivial
  | ok sts =>
      show Prog.Uses _ (if _ then _ else _)
      split
      · trivial
      · exact Prog.Uses.bind (listPods_uses hlist) fun ps =>
          drainScaleDownLoop_uses ps true (fun p _ => hpod _) hevent

theorem reconcileRing_uses
    (hlist : P (.listPods (targetNamespace cache) (podLabels cache)))
    (hcm : ∀ r, r.OfObject cache .configMap (ringKey cache) → P r) :
    (reconcileRing srt cache).Uses P := by
  refine Prog.Uses.bind (listPods_uses hlist) fun ps =>
    Prog.Uses.bind ⟨hcm _ .get, fun x => ?_⟩ fun cm => ?_
  · cases x with
    | error e =>
        show Prog.Uses _ (if _ then _ else _)
        split <;> trivial
    | ok cm => trivial
  · dsimp only
    split
    · trivial
    · exact Prog.Uses.bind (reconcileObject_uses hcm) fun _ => trivial

/-- A status report of a failure adds one call. -/
theorem orDegrade_uses {α : Type} {reason : Reason} {text : String}
    {p : Op α} (hp : p.Uses P)
    (hstatus : ∀ c, c.key = cache.key → P (.updateStatus c)) :
    (orDegrade now cache reason text p).Uses P := by
  refine Prog.Uses.bind hp.attempt fun x => ?_
  cases x with
  | ok a => trivial
  | error e => exact ⟨hstatus _ rfl, fun _ => trivial⟩

theorem finish_uses {b : Bool} {ring : Ring}
    (hstatus : ∀ c, c.key = cache.key → P (.updateStatus c)) :
    (finish now cache b ring).Uses P := by
  refine ⟨hstatus _ (observed_status now ring cache).1, fun x => ?_⟩
  cases x with
  | error e => trivial
  | ok c =>
      show Prog.Uses _ (if _ then _ else _)
      split
      · trivial
      split
      · trivial
      · trivial

/-- The phases of a live object, all together, where the calls of the
cell and of the drain are known. -/
theorem reconcileLive_uses_of (hcell : (reconcileCell cache).Uses P)
    (hdrain : (drainScaleDown now cache).Uses P)
    (hobj : ∀ k key r, Owned cache k key → k ≠ .ns →
      r.OfObject cache k key → P r)
    (hlist : P (.listPods (targetNamespace cache) (podLabels cache)))
    (hstatus : ∀ c, c.key = cache.key → P (.updateStatus c)) :
    (reconcileLive srt now cache).Uses P := by
  refine Prog.Uses.bind ?_ fun x => finish_uses hstatus
  refine Prog.Uses.bind (orDegrade_uses hcell hstatus) fun _ => ?_
  refine Prog.Uses.bind (orDegrade_uses (reconcileServiceTwice_uses
    (hobj _ _ · .service (by simp))) hstatus) fun _ => ?_
  refine Prog.Uses.bind (orDegrade_uses hdrain hstatus) fun b => ?_
  refine Prog.Uses.bind (orDegrade_uses (reconcileObject_uses
    (hobj _ _ · .statefulSet (by simp))) hstatus) fun _ => ?_
  exact Prog.Uses.bind (orDegrade_uses (reconcileRing_uses hlist
    (hobj _ _ · .ring (by simp))) hstatus) fun _ => trivial

theorem reconcileLive_uses
    (hobj : ∀ k key r, Owned cache k key → r.OfObject cache k key → P r)
    (hlist : P (.listPods (targetNamespace cache) (podLabels cache)))
    (hpod : ∀ p, P (.updatePod p))
    (hstatus : ∀ c, c.key = cache.key → P (.updateStatus c)) :
    (reconcileLive srt now cache).Uses P :=
  reconcileLive_uses_of
    (reconcileCell_uses fun k key r h _ _ => hobj k key r h)
    (drainScaleDown_uses (hobj _ _ _ .statefulSet .get) hlist hpod
      fun reason text => hobj _ _ _ .cell (.event reason text))
    (fun k key r h _ => hobj k key r h) hlist hstatus

-- ======================================================= the deletion

/-- The deletion loop only updates pods without an annotation. -/
theorem reconcileDeletionLoop_uses (ps : List Pod) (b : Bool)
    (hpod : ∀ p ∈ ps, p.metadata.annotations.get drainAnnotation = none →
      P (.updatePod (annotate now p))) :
    (reconcileDeletionLoop now cache ps b).Uses P := by
  induction ps generalizing b with
  | nil => trivial
  | cons p ps ih =>
      have ih := fun b => ih b fun q hq => hpod q (List.mem_cons_of_mem p hq)
      unfold reconcileDeletionLoop
      split
      · next hnone =>
        refine ⟨hpod p List.mem_cons_self hnone, fun x => ?_⟩
        cases x with
        | error e => trivial
        | ok q => exact ih false
      · split
        · exact ih false
        · exact ih _

theorem releaseCache_uses
    (hrelease : P (.update .distributedCache (removeFinalizer cache)))
    (hevent : ∀ reason text, P (.event cache.ns reason text)) :
    (releaseCache cache).Uses P := by
  refine ⟨hrelease, fun x => ?_⟩
  cases x with
  | error e => trivial
  | ok c => exact ⟨hevent _ _, fun _ => trivial⟩

theorem deleteCellNamespace_uses
    (hget : P (.get .ns ⟨"", targetNamespace cache⟩))
    (hdelete : P (.deleteNamespace (targetNamespace cache)))
    (hevent : ∀ reason text, P (.event cache.ns reason text)) :
    (deleteCellNamespace cache).Uses P := by
  refine ⟨hget, fun x => ?_⟩
  cases x with
  | error e =>
      show Prog.Uses _ (if _ then _ else _)
      split <;> trivial
  | ok ns =>
      show Prog.Uses _ (if _ then _ else _)
      split
      · trivial
      · refine ⟨hdelete, fun y => ?_⟩
        cases y with
        | error e =>
            show Prog.Uses _ (if _ then _ else _)
            split <;> trivial
        | ok u => exact ⟨hevent _ _, fun _ => trivial⟩

theorem tearDown_uses
    (hget : P (.get .ns ⟨"", targetNamespace cache⟩))
    (hdelete : isCrossNamespaceChild cache = true →
      P (.deleteNamespace (targetNamespace cache)))
    (hrelease : P (.update .distributedCache (removeFinalizer cache)))
    (hevent : ∀ reason text, P (.event cache.ns reason text)) :
    (tearDown cache).Uses P := by
  unfold tearDown
  split
  · next hcross =>
    refine Prog.Uses.bind (wrapping_uses (deleteCellNamespace_uses hget
      (hdelete hcross) hevent)) fun done => ?_
    split
    · trivial
    · exact releaseCache_uses hrelease hevent
  · exact releaseCache_uses hrelease hevent

/-- Pods are only told to drain. -/
theorem reconcileDeletion_uses_told
    (hcm : ∀ r, r.OfObject cache .configMap (ringKey cache) → P r)
    (hlist : P (.listPods (targetNamespace cache) (podLabels cache)))
    (hpod : ∀ p, P (.updatePod (annotate now p)))
    (htear : (tearDown cache).Uses P) :
    (reconcileDeletion srt now cache).Uses P := by
  unfold reconcileDeletion
  split
  · trivial
  · refine Prog.Uses.bind (listPods_uses hlist) fun ps => ?_
    refine Prog.Uses.bind (reconcileDeletionLoop_uses ps true
      fun p _ _ => hpod _) fun b => ?_
    refine Prog.Uses.bind (reconcileRing_uses hlist hcm).attempt
      fun x => ?_
    split
    · trivial
    · exact htear

theorem reconcileDeletion_uses
    (hcm : ∀ r, r.OfObject cache .configMap (ringKey cache) → P r)
    (hlist : P (.listPods (targetNamespace cache) (podLabels cache)))
    (hpod : ∀ p, P (.updatePod p)) (htear : (tearDown cache).Uses P) :
    (reconcileDeletion srt now cache).Uses P :=
  reconcileDeletion_uses_told hcm hlist (fun _ => hpod _) htear

theorem holdCache_uses
    (h : P (.update .distributedCache (addFinalizer cache))) :
    (holdCache cache).Uses P := by
  refine ⟨h, fun x => ?_⟩
  cases x <;> trivial

end

end CacheOperator
