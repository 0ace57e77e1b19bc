/-
The reconciler: `internal/controller/distributedcache_controller.go` from
`reconcileRing` on, and `Reconcile` itself.

`now` is the clock as one `Reconcile` reads it, `srt` the sort of the Go
library. The two drain loops keep their own bodies: only the scale-down
drain skips pods and rewrites an annotation it cannot read.
-/
import CacheOperator.Model.Controller

namespace CacheOperator

open Lib

-- =========================================================== the ring

def ringConfigMapName (cache : DistributedCache) : String :=
  cache.name ++ "-ring"

def ringKey (cache : DistributedCache) : NamespacedName :=
  ⟨targetNamespace cache, ringConfigMapName cache⟩

/-- The ring a ConfigMap's data holds, if it holds one that parses. -/
def payload (data : Dict String String) : Option Ring :=
  (data.get ringConfigMapKey).bind unmarshalRing

/-- The data of the ConfigMap that was read; none of it when there is no
such object. -/
def dataOf (cm : Option (Object .configMap)) : Dict String String :=
  match cm with
  | some cm => cm.body.data
  | none => .empty

/-- The ring the operator goes on from. -/
def currentRing (cm : Option (Object .configMap)) : Ring :=
  (payload (dataOf cm)).getD ⟨0, []⟩

/-- The ring to publish: the version moves with the members. -/
def desiredRing (members : List String) (current : Ring) : Ring :=
  if Ring.membersEqual ⟨0, members⟩ current then ⟨current.version, members⟩
  else ⟨current.version + 1, members⟩

/-- The write of the ConfigMap is skipped. -/
def skipsWrite (desired : Ring) (cm : Option (Object .configMap)) : Bool :=
  desired.equal (currentRing cm) && decide (0 < (dataOf cm).size)

def mutateRingConfigMap (cache : DistributedCache) (desired : Ring) :
    Object .configMap → Except GoError (Object .configMap) :=
  mutateOwned cache "ring" fun cm =>
    { data := cm.body.data.set ringConfigMapKey (marshalRing desired) }

/-- Write the ring and record it. -/
def publishRing (cache : DistributedCache) (desired : Ring) : Op Unit :=
  reconcileObject .configMap (ringKey cache) "ring ConfigMap"
    (mutateRingConfigMap cache desired) cache "RingPublished"
    fun op => "Ring " ++ targetNamespace cache ++ "/"
      ++ ringConfigMapName cache ++ " " ++ op.text ++ " (version="
      ++ decimal desired.version ++ ", members=["
      ++ " ".intercalate desired.members ++ "])"

/-- The first read of the ring ConfigMap. -/
def getRingConfigMap (cache : DistributedCache) :
    Op (Option (Object .configMap)) := do
  match ← request (.get .configMap (ringKey cache)) with
  | .error e =>
      if e.isNotFound then pure none
      else .fail (e.wrap "get ring ConfigMap")
  | .ok ⟨cm, _⟩ => pure (some cm)

/-- The pods of the cache. -/
def listPods (cache : DistributedCache) (what : String) : Op (List Pod) := do
  match ← request (.listPods (targetNamespace cache) (podLabels cache)) with
  | .error e => .fail (e.wrap what)
  | .ok pods => pure pods

def reconcileRing (srt : SliceSort) (cache : DistributedCache) :
    Op Ring := do
  let pods ← listPods cache "list pods"
  let cm ← getRingConfigMap cache
  let desired := desiredRing (computeMembers srt pods) (currentRing cm)
  if skipsWrite desired cm then pure desired
  else do
    publishRing cache desired
    pure desired

-- =============================================== the scale-down drain

/-- The name of the pod with ordinal `i`. -/
def podName (cache : DistributedCache) (i : Int) : String :=
  cache.name ++ "-" ++ String.ofList (Decimal.format i)

/-- The ordinals a scale-down from `current` to `desired` removes. -/
def doomedOrdinals (desired current : Int32) : List Int :=
  (List.range (current.toInt - desired.toInt).toNat).map fun (j : Nat) =>
    desired.toInt + j

def doomedNames (cache : DistributedCache) (desired current : Int32) :
    List String :=
  (doomedOrdinals desired current).map (podName cache)

/-- The pod with its drain clock started. -/
def annotate (now : Time) (p : Pod) : Pod :=
  { p with metadata :=
      { p.metadata with
        annotations := p.metadata.annotations.set drainAnnotation
          (decimal now.unix) } }

/-- `Duration.String()` of a whole number of seconds. -/
def durationText (secs : Int) : String :=
  let text (n : Nat) : String := String.ofList (Decimal.format n)
  let n := secs.natAbs
  (if secs < 0 then "-" else "")
    ++ (if n < 3600 then "" else text (n / 3600) ++ "h")
    ++ (if n < 60 then "" else text (n / 60 % 60) ++ "m")
    ++ text (n % 60) ++ "s"

/-- The grace period of the cache. -/
def grace (cache : DistributedCache) : Int :=
  seconds cache.body.spec.drain.gracePeriodSeconds

/-- The loop of `drainScaleDown` over the listed pods. -/
def drainScaleDownLoop (now : Time) (cache : DistributedCache)
    (doomed : List String) : List Pod → Bool → Op Bool
  | [], allReady => pure allReady
  | p :: ps, allReady =>
      if p.name ∉ doomed then
        drainScaleDownLoop now cache doomed ps allReady
      else
        match p.metadata.annotations.get drainAnnotation with
        | none => do
            match ← request (.updatePod (annotate now p)) with
            | .error e => .fail (e.wrap ("annotate pod " ++ p.name))
            | .ok _ =>
                request (.event cache.ns "DrainStarted"
                  ("Pod " ++ p.name ++ " marked for drain (grace="
                    ++ durationText
                      cache.body.spec.drain.gracePeriodSeconds.toInt
                    ++ ")"))
                drainScaleDownLoop now cache doomed ps false
        | some raw =>
            match Decimal.parseInt64 raw.toList with
            | none => do
                match ← request (.updatePod (annotate now p)) with
                | .error e =>
                    .fail (e.wrap ("rewrite drain annotation on " ++ p.name))
                | .ok _ => drainScaleDownLoop now cache doomed ps false
            | some ts =>
                drainScaleDownLoop now cache doomed ps
                  (if now.sub (Time.ofUnix ts) < grace cache then false
                    else allReady)

/-- Start or check the drain of the pods a scale-down would remove;
`true` is the permission to scale down. -/
def drainScaleDown (now : Time) (cache : DistributedCache) : Op Bool := do
  match ← request (.get .statefulSet (statefulSetKey cache)) with
  | .error e =>
      if e.isNotFound then pure true
      else .fail (e.wrap "get StatefulSet")
  | .ok ⟨sts, _⟩ =>
      let currentReplicas := sts.body.replicas.getD 0
      if currentReplicas ≤ desiredReplicas cache then pure true
      else do
        let pods ← listPods cache "list pods"
        drainScaleDownLoop now cache
          (doomedNames cache (desiredReplicas cache) currentReplicas)
          pods true

-- ======================================================= the deletion

/-- `ctrl.Result`. -/
structure ReconcileResult where
  requeue : Bool := false
  requeueAfter : Int := 0
deriving DecidableEq

/-- The loop of `reconcileDeletion` over the listed pods. -/
def reconcileDeletionLoop (now : Time) (cache : DistributedCache) :
    List Pod → Bool → Op Bool
  | [], allDrained => pure allDrained
  | p :: ps, allDrained =>
      match p.metadata.annotations.get drainAnnotation with
      | none => do
          match ← request (.updatePod (annotate now p)) with
          | .error e => .fail (e.wrap ("annotate " ++ p.name))
          | .ok _ => reconcileDeletionLoop now cache ps false
      | some raw =>
          match Decimal.parseInt64 raw.toList with
          | none => reconcileDeletionLoop now cache ps false
          | some ts =>
              reconcileDeletionLoop now cache ps
                (if now.sub (Time.ofUnix ts) < grace cache then false
                  else allDrained)

/-- Tear the cell down; `true` when it is gone. -/
def deleteCellNamespace (cache : DistributedCache) : Op Bool := do
  match ← request (.get .ns ⟨"", targetNamespace cache⟩) with
  | .error e =>
      if e.isNotFound then pure true
      else .fail (e.wrap "get cell namespace")
  | .ok ⟨ns, _⟩ =>
      if ns.metadata.deleting then pure false
      else
        match ← request (.deleteNamespace (targetNamespace cache)) with
        | .error e =>
            if e.isNotFound then pure true
            else .fail (e.wrap "delete cell namespace")
        | .ok _ =>
            request (.event cache.ns "CellTearingDown"
              ("Cell namespace " ++ targetNamespace cache
                ++ " deletion issued; cascading to children."))
            pure false

/-- `controllerutil.RemoveFinalizer`. -/
def removeFinalizer (cache : DistributedCache) : DistributedCache :=
  { cache with metadata :=
      { cache.metadata with
        finalizers :=
          cache.metadata.finalizers.filter fun f => f != drainFinalizer } }

/-- Let the object go. -/
def releaseCache (cache : DistributedCache) : Op ReconcileResult := do
  match ← request (.update .distributedCache (removeFinalizer cache)) with
  | .error e => .fail (e.wrap "remove finalizer")
  | .ok _ =>
      request (.event cache.ns "DrainComplete"
        "All pods drained; cell torn down; finalizer removed.")
      pure {}

/-- The cell, then the object. -/
def tearDown (cache : DistributedCache) : Op ReconcileResult :=
  if isCrossNamespaceChild cache then do
    let done ← wrapping "delete cell namespace" (deleteCellNamespace cache)
    if !done then pure { requeueAfter := 2 * second }
    else releaseCache cache
  else releaseCache cache

def reconcileDeletion (srt : SliceSort) (now : Time)
    (cache : DistributedCache) : Op ReconcileResult :=
  if drainFinalizer ∉ cache.metadata.finalizers then pure {}
  else do
    let pods ← listPods cache "list pods for deletion drain"
    let allDrained ← reconcileDeletionLoop now cache pods true
    -- the error of the republication is only logged
    let _ ← (reconcileRing srt cache).attempt
    if !allDrained then pure { requeueAfter := 2 * second }
    else tearDown cache

-- ========================================================= the status

/-- `meta.SetStatusCondition`: the transition time moves with the
status. -/
def setStatusCondition (now : Time) (new : Condition) :
    List Condition → List Condition
  | [] => [{ new with lastTransitionTime := some now.unix }]
  | c :: cs =>
      if c.type = new.type then
        { new with
          lastTransitionTime :=
            if c.status = new.status then c.lastTransitionTime
            else some now.unix } :: cs
      else c :: setStatusCondition now new cs

def setCondition (now : Time) (cache : DistributedCache)
    (type : ConditionType) (status : ConditionStatus) (reason : Reason)
    (message : String) : DistributedCache :=
  let new : Condition :=
    { type, status, reason, message, lastTransitionTime := none
      observedGeneration := cache.metadata.generation }
  { cache with body :=
      { cache.body with status :=
          { cache.body.status with
            conditions :=
              setStatusCondition now new cache.body.status.conditions } } }

def markDegraded (now : Time) (cache : DistributedCache) (reason : Reason)
    (e : GoError) : DistributedCache :=
  setCondition now cache .degraded .yes reason e.message

/-- `int32(len(ring.Members))`. -/
def readyCount (ring : Ring) : Int32 := Int32.ofNat ring.members.length

def setAvailable (now : Time) (ring : Ring) (cache : DistributedCache) :
    DistributedCache :=
  let desired := desiredReplicas cache
  let ready := readyCount ring
  let counts := decimal ready.toInt64 ++ "/" ++ decimal desired.toInt64
  if ready = 0 then
    setCondition now cache .available .no .noReadyPods
      "No cache pods are Ready."
  else if ready < desired then
    setCondition now cache .available .no .insufficientReplicas
      (counts ++ " replicas Ready.")
  else if ring.version = 0 then
    setCondition now cache .available .no .ringNotPublished
      "Ring ConfigMap has not been published yet."
  else
    setCondition now cache .available .yes .reconciled
      (counts ++ " replicas Ready; ring version " ++ decimal ring.version
        ++ ".")

def setProgressing (now : Time) (ring : Ring) (cache : DistributedCache) :
    DistributedCache :=
  let desired := desiredReplicas cache
  let ready := readyCount ring
  if ready ≠ desired then
    setCondition now cache .progressing .yes .replicasConverging
      ("Working toward " ++ decimal desired.toInt64
        ++ " replicas (currently " ++ decimal ready.toInt64 ++ " Ready).")
  else setCondition now cache .progressing .no .reconciled "Steady state."

def setTenantIsolated (now : Time) (cache : DistributedCache) :
    DistributedCache :=
  if isolated cache then
    setCondition now cache .tenantIsolated .yes .reconciled
      ("Cell namespace " ++ targetNamespace cache
        ++ " with quota and NetworkPolicy active.")
  else
    setCondition now cache .tenantIsolated .no .notRequested
      "spec.tenant.isolate is unset or false."

def setObservedConditions (now : Time) (ring : Ring)
    (cache : DistributedCache) : DistributedCache :=
  setTenantIsolated now
    (setCondition now
      (setProgressing now ring (setAvailable now ring cache))
      .degraded .no .reconciled "No degraded conditions observed.")

/-- The status a reconcile that got this far reports. -/
def observed (now : Time) (ring : Ring) (cache : DistributedCache) :
    DistributedCache :=
  setObservedConditions now ring
    { cache with body :=
        { cache.body with status :=
            { cache.body.status with
              ring := ⟨ring.version, ring.members, ringConfigMapName cache⟩
              readyReplicas := readyCount ring
              observedGeneration := cache.metadata.generation } } }

-- ========================================================== Reconcile

/-- `controllerutil.AddFinalizer`, for an object without it. -/
def addFinalizer (cache : DistributedCache) : DistributedCache :=
  { cache with metadata :=
      { cache.metadata with
        finalizers := cache.metadata.finalizers ++ [drainFinalizer] } }

/-- Put the finalizer on the object and come back. -/
def holdCache (cache : DistributedCache) : Op ReconcileResult := do
  match ← request (.update .distributedCache (addFinalizer cache)) with
  | .error e => .fail (e.wrap "add finalizer")
  | .ok _ => pure { requeue := true }

/-- Run a step; report its failure in the status and pass it on. -/
def orDegrade {α : Type} (now : Time) (cache : DistributedCache)
    (reason : Reason) (text : String) (p : Op α) : Op α := do
  match ← p.attempt with
  | .ok a => pure a
  | .error e =>
      let _ ← request (.updateStatus (markDegraded now cache reason e))
      .fail (e.wrap text)

/-- The Service is tried twice. -/
def reconcileServiceTwice (cache : DistributedCache) : Op Unit := do
  match ← (reconcileService cache).attempt with
  | .ok _ => pure ()
  | .error _ => reconcileService cache

/-- Report and say when to come back. -/
def finish (now : Time) (cache : DistributedCache) (doomedComplete : Bool)
    (ring : Ring) : Op ReconcileResult := do
  match ← request (.updateStatus (observed now ring cache)) with
  | .error e => .fail (e.wrap "update status")
  | .ok _ =>
      if !doomedComplete then pure { requeueAfter := 2 * second }
      else if isCrossNamespaceChild cache then
        pure { requeueAfter := 10 * second }
      else pure {}

/-- The phases of `Reconcile` over the owned objects: the permission to
scale down and the ring. -/
def reconcileOwned (srt : SliceSort) (now : Time)
    (cache : DistributedCache) : Op (Bool × Ring) := do
  orDegrade now cache .cellReconcileFailed "reconcile cell"
    (reconcileCell cache)
  orDegrade now cache .serviceReconcileFailed "reconcile service"
    (reconcileServiceTwice cache)
  let doomedComplete ←
    orDegrade now cache .statefulSetReconcileFailed "drain scale-down"
      (drainScaleDown now cache)
  orDegrade now cache .statefulSetReconcileFailed "reconcile statefulset"
    (reconcileStatefulSet cache doomedComplete)
  let ring ←
    orDegrade now cache .ringReconcileFailed "reconcile ring"
      (reconcileRing srt cache)
  pure (doomedComplete, ring)

/-- `Reconcile` of an object that holds the finalizer and is not being
deleted. -/
def reconcileLive (srt : SliceSort) (now : Time)
    (cache : DistributedCache) : Op ReconcileResult := do
  let (doomedComplete, ring) ← reconcileOwned srt now cache
  finish now cache doomedComplete ring

/-- `Reconcile`. -/
def reconcile (srt : SliceSort) (now : Time) (key : NamespacedName) :
    Op ReconcileResult := do
  match ← request (.get .distributedCache key) with
  | .error e =>
      if e.isNotFound then pure {}
      else .fail (e.wrap "get DistributedCache")
  | .ok ⟨cache, _⟩ =>
      if cache.metadata.deleting then reconcileDeletion srt now cache
      else if drainFinalizer ∉ cache.metadata.finalizers then
        holdCache cache
      else reconcileLive srt now cache

end CacheOperator
