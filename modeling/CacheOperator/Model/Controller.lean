/-
The parts of `internal/controller/distributedcache_controller.go` that
keep owned objects in shape: the cell, the Service and the StatefulSet.

Each is a program over the API. Errors are wrapped with the source's
texts; log lines are left out, events are calls. `createOrUpdate` and
`setControllerReference` follow what controller-runtime documents: read,
let the callback set the desired fields, create what is missing, write
what changed; and refuse to take over an object that another controller
owns.
-/
import CacheOperator.Model.Cluster
import CacheOperator.Model.Ring

namespace CacheOperator

open Lib

-- ========================================================== constants

def labelName : String := "app.kubernetes.io/name"
def labelInstance : String := "app.kubernetes.io/instance"
def labelManagedBy : String := "app.kubernetes.io/managed-by"
def labelComponent : String := "app.kubernetes.io/component"
def labelCellOf : String := "cache.sk1.services.com/cell-of"
def appName : String := "distributed-cache"
def managedByValue : String := "distributed-cache-operator"

def cachePort : Int32 := 8080

def cellNamespacePrefix : String := "cache-"
def drainFinalizer : String := "cache.sk1.services.com/drain"

def ringConfigMapKey : String := "ring.json"

-- ============================================================ helpers

/-- `cache.Spec.Tenant != nil && cache.Spec.Tenant.Isolate`. -/
def isolated (cache : DistributedCache) : Bool :=
  match cache.body.spec.tenant with
  | some t => t.isolate
  | none => false

/-- The namespace where the cache's owned objects live. -/
def targetNamespace (cache : DistributedCache) : String :=
  if isolated cache then cellNamespacePrefix ++ cache.name else cache.ns

/-- The owned objects live in another namespace than the cache. -/
def isCrossNamespaceChild (cache : DistributedCache) : Bool :=
  targetNamespace cache != cache.ns

def podLabels (cache : DistributedCache) : Dict String String :=
  (Dict.empty.set labelName appName).set labelInstance cache.name

/-- The four recommended labels of an owned object. -/
def ownedLabels (cache : DistributedCache) (component : String)
    (labels : Dict String String) : Dict String String :=
  (((labels.set labelName appName).set labelInstance cache.name).set
    labelManagedBy managedByValue).set labelComponent component

def setLabels {k : Kind} (cache : DistributedCache) (component : String)
    (o : Object k) : Object k :=
  { o with metadata :=
      { o.metadata with
        labels := ownedLabels cache component o.metadata.labels } }

/-- The group and kind in the owner references the operator writes. -/
def cacheKind : String := "cache.sk1.services.com/DistributedCache"

/-- The kind alone. -/
def OwnerReference.kindName (ref : OwnerReference) : String :=
  String.ofList (ref.kind.toList.reverse.takeWhile (· ≠ '/')).reverse

/-- `controllerutil.SetControllerReference`. -/
def setControllerReference {k : Kind} (cache : DistributedCache)
    (o : Object k) : Except GoError (Object k) :=
  let ref : OwnerReference := ⟨cacheKind, cache.name, cache.metadata.uid⟩
  let owned : Object k :=
    { o with metadata := { o.metadata with controller := some ref } }
  match o.metadata.controller with
  | none => .ok owned
  | some old =>
      if old.kind = ref.kind ∧ old.name = ref.name then .ok owned
      else .error ⟨.other, "Object " ++ o.ns ++ "/" ++ o.name
        ++ " is already owned by another " ++ old.kindName
        ++ " controller " ++ old.name⟩

/-- Cross-namespace owner references are forbidden by the API server. -/
def setControllerReferenceIfSameNamespace {k : Kind}
    (cache : DistributedCache) (o : Object k) :
    Except GoError (Object k) :=
  if isCrossNamespaceChild cache then .ok o
  else setControllerReference cache o

/-- What the callbacks of the namespaced objects do: set the labels and
the body, then the owner. -/
def mutateOwned {k : Kind} (cache : DistributedCache) (component : String)
    (body : Object k → k.Body) (o : Object k) :
    Except GoError (Object k) :=
  setControllerReferenceIfSameNamespace cache
    { setLabels cache component o with body := body o }

/-- What `CreateOrUpdate` did. -/
inductive OperationResult where
  | none
  | created
  | updated
deriving DecidableEq

def OperationResult.text : OperationResult → String
  | .none => "unchanged"
  | .created => "created"
  | .updated => "updated"

/-- Call the callback and check that it kept the key. -/
def callMutate {k : Kind} (key : NamespacedName)
    (mutate : Object k → Except GoError (Object k)) (o : Object k) :
    Except GoError (Object k) :=
  match mutate o with
  | .error e => .error e
  | .ok o =>
      if o.key = key then .ok o
      else .error ⟨.other,
        "MutateFn cannot mutate object name and/or object namespace"⟩

/-- A new object with nothing but its key. -/
def fresh (k : Kind) (key : NamespacedName) : Object k :=
  { metadata := { ns := key.ns, name := key.name }, body := k.zero }

/-- `controllerutil.CreateOrUpdate`. -/
def createOrUpdate (k : Kind) (key : NamespacedName)
    (mutate : Object k → Except GoError (Object k)) :
    Op OperationResult := do
  match ← request (.get k key) with
  | .error e =>
      if e.isNotFound then
        match callMutate key mutate (fresh k key) with
        | .error e => .fail e
        | .ok o =>
            match ← request (.create k o) with
            | .error e => .fail e
            | .ok _ => pure .created
      else .fail e
  | .ok ⟨existing, _⟩ =>
      match callMutate key mutate existing with
      | .error e => .fail e
      | .ok o =>
          if o = existing then pure .none
          else
            match ← request (.update k o) with
            | .error e => .fail e
            | .ok _ => pure .updated

/-- `CreateOrUpdate` as every sub-reconciler uses it: wrap the error,
record an event when something was written. -/
def reconcileObject (k : Kind) (key : NamespacedName) (what : String)
    (mutate : Object k → Except GoError (Object k))
    (cache : DistributedCache) (reason : String)
    (message : OperationResult → String) : Op Unit := do
  match ← (createOrUpdate k key mutate).attempt with
  | .error e => .fail (e.wrap ("CreateOrUpdate " ++ what))
  | .ok .none => pure ()
  | .ok op => request (.event cache.ns reason (message op))

-- =========================================================== the cell

def mutateCellNamespace (cache : DistributedCache) (o : Object .ns) :
    Except GoError (Object .ns) :=
  let o := setLabels cache "cell" o
  .ok { o with metadata :=
    { o.metadata with
      labels := o.metadata.labels.set labelCellOf
        (cache.ns ++ "." ++ cache.name) } }

def reconcileCellNamespace (cache : DistributedCache) : Op Unit :=
  reconcileObject .ns ⟨"", targetNamespace cache⟩ "Namespace"
    (mutateCellNamespace cache) cache "CellNamespaceReconciled"
    fun op => "Cell Namespace " ++ targetNamespace cache ++ " " ++ op.text

/-- `spec.replicas`, zero when unset. -/
def desiredReplicas (cache : DistributedCache) : Int32 :=
  cache.body.spec.replicas.getD 0

/-- The hard memory limit: the pods' memory and a quarter more. -/
def quotaMemory (cache : DistributedCache) : Quantity :=
  let totalMem := cache.body.spec.memoryPerPod.value
    * (desiredReplicas cache).toInt64
  ⟨totalMem + totalMem / 4⟩

/-- The hard pod count: one more for a rolling update. -/
def podCap (cache : DistributedCache) : Int32 := desiredReplicas cache + 1

def mutateResourceQuota (cache : DistributedCache) :
    Object .resourceQuota → Except GoError (Object .resourceQuota) :=
  mutateOwned cache "cell" fun _ =>
    { hard := ((Dict.empty.set .pods ⟨(podCap cache).toInt64⟩).set
        .limitsMemory (quotaMemory cache)).set
        .requestsMemory (quotaMemory cache) }

/-- A 64-bit integer in decimal. -/
def decimal (n : Int64) : String := String.ofList (Decimal.format n.toInt)

/-- Factors of 1024 are taken out, and the last unit is kept. -/
def inUnits : List String → String → Int64 → Int64 × String
  | [], unit, n => (n, unit)
  | larger :: units, unit, n =>
      if 1024 ≤ n ∧ n % 1024 = 0 then inUnits units larger (n / 1024)
      else (n, unit)

/-- `Quantity.String`, for a quantity in the binary format: below 1024 the
decimal one is used. -/
def Quantity.text (q : Quantity) : String :=
  if q.value = 1000 then "1k"
  else if q.value = -1000 then "-1k"
  else
    let (n, unit) := inUnits ["Ki", "Mi", "Gi", "Ti", "Pi", "Ei"] ""
      (if q.value < 0 then -q.value else q.value)
    decimal (if q.value < 0 then -n else n) ++ unit

def reconcileResourceQuota (cache : DistributedCache) : Op Unit :=
  reconcileObject .resourceQuota ⟨targetNamespace cache, "cell-quota"⟩
    "ResourceQuota" (mutateResourceQuota cache) cache "QuotaReconciled"
    fun op => "ResourceQuota " ++ targetNamespace cache ++ "/cell-quota "
      ++ op.text ++ " (memory=" ++ (quotaMemory cache).text ++ ")"

def mutateNetworkPolicy (cache : DistributedCache) :
    Object .networkPolicy → Except GoError (Object .networkPolicy) :=
  mutateOwned cache "cell" fun _ =>
    { podSelector := .empty
      policyTypes := [.ingress]
      ingress := [{ peers := [{ podSelector := .empty }] }] }

def reconcileNetworkPolicy (cache : DistributedCache) : Op Unit :=
  reconcileObject .networkPolicy ⟨targetNamespace cache, "cell-isolation"⟩
    "NetworkPolicy" (mutateNetworkPolicy cache) cache
    "NetworkPolicyReconciled"
    fun op => "NetworkPolicy " ++ targetNamespace cache
      ++ "/cell-isolation " ++ op.text

/-- Run a step and wrap its error. -/
def wrapping {α : Type} (text : String) (p : Op α) : Op α := do
  match ← p.attempt with
  | .error e => .fail (e.wrap text)
  | .ok a => pure a

/-- The cell: its namespace first, then what lives in it. -/
def reconcileCell (cache : DistributedCache) : Op Unit :=
  if !isolated cache then pure ()
  else do
    wrapping "namespace" (reconcileCellNamespace cache)
    wrapping "resourcequota" (reconcileResourceQuota cache)
    wrapping "networkpolicy" (reconcileNetworkPolicy cache)

-- ======================================================== the Service

def mutateService (cache : DistributedCache) :
    Object .service → Except GoError (Object .service) :=
  mutateOwned cache "cache" fun _ =>
    { clusterIP := "None"
      selector := podLabels cache
      ports := [{ name := "http", port := cachePort,
                  targetPort := cachePort, protocol := .tcp }]
      publishNotReadyAddresses := false }

def reconcileService (cache : DistributedCache) : Op Unit :=
  reconcileObject .service ⟨targetNamespace cache, cache.name⟩ "Service"
    (mutateService cache) cache "ServiceReconciled"
    fun op => "Headless Service " ++ targetNamespace cache ++ "/"
      ++ cache.name ++ " " ++ op.text

-- ==================================================== the StatefulSet

/-- The replica count to write: the desired one, or the current one while
a scale-down is on hold. -/
def heldReplicas (canScaleDown : Bool) (desired current : Option Int32) :
    Option Int32 :=
  match canScaleDown, desired, current with
  | false, some d, some c => if d < c then some c else some d
  | _, desired, _ => desired

def probe (path : String) (periodSeconds timeoutSeconds : Int32) : Probe :=
  { path, port := cachePort, periodSeconds, timeoutSeconds
    failureThreshold := 3 }

def cacheContainer (cache : DistributedCache) : Container where
  name := "cache"
  image := cache.body.spec.image
  ports := [{ name := "http", containerPort := cachePort, protocol := .tcp }]
  requests := Dict.empty.set .memory cache.body.spec.memoryPerPod
  limits := Dict.empty.set .memory cache.body.spec.memoryPerPod
  readinessProbe := some (probe "/readyz" 2 1)
  livenessProbe := some (probe "/healthz" 10 2)

def mutateStatefulSet (cache : DistributedCache) (canScaleDown : Bool) :
    Object .statefulSet → Except GoError (Object .statefulSet) :=
  mutateOwned cache "cache" fun sts =>
    let isNew := !sts.metadata.created
    { replicas := heldReplicas canScaleDown cache.body.spec.replicas
        sts.body.replicas
      -- these three are immutable once the object exists
      serviceName := if isNew then cache.name else sts.body.serviceName
      selector :=
        if isNew then some (podLabels cache) else sts.body.selector
      podManagementPolicy :=
        if isNew then .parallel else sts.body.podManagementPolicy
      templateLabels := podLabels cache
      terminationGracePeriodSeconds :=
        some (cache.body.spec.drain.gracePeriodSeconds.toInt64 + 10)
      containers := [cacheContainer cache] }

def statefulSetKey (cache : DistributedCache) : NamespacedName :=
  ⟨targetNamespace cache, cache.name⟩

def reconcileStatefulSet (cache : DistributedCache) (canScaleDown : Bool) :
    Op Unit :=
  reconcileObject .statefulSet (statefulSetKey cache) "StatefulSet"
    (mutateStatefulSet cache canScaleDown) cache "StatefulSetReconciled"
    fun op => "StatefulSet " ++ targetNamespace cache ++ "/" ++ cache.name
      ++ " " ++ op.text

end CacheOperator
