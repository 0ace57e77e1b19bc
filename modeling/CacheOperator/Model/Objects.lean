/-
The objects the operator reads and writes.

`DistributedCache` follows `api/v1alpha1/distributedcache_types.go`; the
Kubernetes objects hold the fields the operator sets or reads and no
others. All of them but pods are one type, `Object k`, indexed by their
kind: metadata and a body. Pods are only ever listed and annotated, so
they have a type of their own.

Of the timestamps in the metadata only presence is read
(`CreationTimestamp.IsZero()`, `DeletionTimestamp.IsZero()`), and only
presence is kept: `created` and `deleting`. A memory quantity is its
`Value()`; how it was written down is not read.
-/
import CacheOperator.Lib.Clock
import CacheOperator.Lib.Dict

namespace CacheOperator

open Lib

-- =========================================================== metadata

/-- `types.NamespacedName`; the key of an object. -/
structure NamespacedName where
  ns : String
  name : String
deriving DecidableEq

/-- The owner reference marked as controller. -/
structure OwnerReference where
  /-- The group and the kind, with a slash between them. -/
  kind : String
  name : String
  uid : String
deriving DecidableEq

/-- `metav1.ObjectMeta`. -/
structure ObjectMeta where
  ns : String
  name : String
  uid : String := ""
  resourceVersion : Nat := 0
  generation : Int64 := 0
  created : Bool := false
  deleting : Bool := false
  labels : Dict String String := .empty
  annotations : Dict String String := .empty
  finalizers : List String := []
  controller : Option OwnerReference := none
deriving DecidableEq

def ObjectMeta.key (m : ObjectMeta) : NamespacedName := ⟨m.ns, m.name⟩

-- ========================================== the DistributedCache types

/-- `resource.Quantity`, as far as it is read. -/
structure Quantity where
  value : Int64
deriving DecidableEq

structure DrainSpec where
  gracePeriodSeconds : Int32
deriving DecidableEq

structure TenantSpec where
  isolate : Bool
deriving DecidableEq

structure DistributedCacheSpec where
  replicas : Option Int32
  image : String
  memoryPerPod : Quantity
  drain : DrainSpec
  tenant : Option TenantSpec
deriving DecidableEq

/-- The condition types the reconciler reports. -/
inductive ConditionType where
  | available
  | progressing
  | degraded
  | tenantIsolated
deriving DecidableEq

/-- The condition reasons, part of the API contract. -/
inductive Reason where
  | reconciled
  | noReadyPods
  | insufficientReplicas
  | ringNotPublished
  | replicasConverging
  | notRequested
  | cellReconcileFailed
  | serviceReconcileFailed
  | statefulSetReconcileFailed
  | ringReconcileFailed
deriving DecidableEq

/-- `True`, `False` or `Unknown`, of a pod's or the cache's condition. -/
inductive ConditionStatus where
  | yes
  | no
  | unknown
deriving DecidableEq

/-- `metav1.Condition`; its transition time is stored in whole
seconds. -/
structure Condition where
  type : ConditionType
  status : ConditionStatus
  observedGeneration : Int64
  lastTransitionTime : Option Int64
  reason : Reason
  message : String
deriving DecidableEq

structure RingStatus where
  version : Int64
  members : List String
  configMapName : String
deriving DecidableEq

structure DistributedCacheStatus where
  conditions : List Condition
  observedGeneration : Int64
  readyReplicas : Int32
  ring : RingStatus
deriving DecidableEq

structure DistributedCacheBody where
  spec : DistributedCacheSpec
  status : DistributedCacheStatus
deriving DecidableEq

-- ================================================== the owned objects

inductive ResourceName where
  | pods
  | memory
  | limitsMemory
  | requestsMemory
deriving DecidableEq

abbrev ResourceList := Dict ResourceName Quantity

structure ResourceQuotaBody where
  hard : ResourceList
deriving DecidableEq

inductive PolicyType where
  | ingress
  | egress
deriving DecidableEq

/-- A peer of a network policy rule that selects pods by label. -/
structure NetworkPolicyPeer where
  podSelector : Dict String String
deriving DecidableEq

structure NetworkPolicyIngressRule where
  peers : List NetworkPolicyPeer
deriving DecidableEq

structure NetworkPolicyBody where
  podSelector : Dict String String
  policyTypes : List PolicyType
  ingress : List NetworkPolicyIngressRule
deriving DecidableEq

inductive Protocol where
  | tcp
  | udp
deriving DecidableEq

structure ServicePort where
  name : String
  port : Int32
  targetPort : Int32
  protocol : Protocol
deriving DecidableEq

structure ServiceBody where
  clusterIP : String
  selector : Dict String String
  ports : List ServicePort
  publishNotReadyAddresses : Bool
deriving DecidableEq

structure ContainerPort where
  name : String
  containerPort : Int32
  protocol : Protocol
deriving DecidableEq

/-- An HTTP probe. -/
structure Probe where
  path : String
  port : Int32
  periodSeconds : Int32
  timeoutSeconds : Int32
  failureThreshold : Int32
deriving DecidableEq

structure Container where
  name : String
  image : String
  ports : List ContainerPort
  requests : ResourceList
  limits : ResourceList
  readinessProbe : Option Probe
  livenessProbe : Option Probe
deriving DecidableEq

inductive PodManagementPolicy where
  | orderedReady
  | parallel
deriving DecidableEq

structure StatefulSetBody where
  replicas : Option Int32
  serviceName : String
  selector : Option (Dict String String)
  podManagementPolicy : PodManagementPolicy
  templateLabels : Dict String String
  terminationGracePeriodSeconds : Option Int64
  containers : List Container
deriving DecidableEq

structure ConfigMapBody where
  data : Dict String String
deriving DecidableEq

-- ============================================================ objects

/-- The kinds of objects that are read and written by key. -/
inductive Kind where
  | distributedCache
  | ns
  | resourceQuota
  | networkPolicy
  | service
  | statefulSet
  | configMap
deriving DecidableEq

/-- What an object of the kind holds besides its metadata. -/
abbrev Kind.Body : Kind → Type
  | .distributedCache => DistributedCacheBody
  | .ns => Unit
  | .resourceQuota => ResourceQuotaBody
  | .networkPolicy => NetworkPolicyBody
  | .service => ServiceBody
  | .statefulSet => StatefulSetBody
  | .configMap => ConfigMapBody

instance (k : Kind) : DecidableEq k.Body :=
  match k with
  | .distributedCache => inferInstanceAs (DecidableEq DistributedCacheBody)
  | .ns => inferInstanceAs (DecidableEq Unit)
  | .resourceQuota => inferInstanceAs (DecidableEq ResourceQuotaBody)
  | .networkPolicy => inferInstanceAs (DecidableEq NetworkPolicyBody)
  | .service => inferInstanceAs (DecidableEq ServiceBody)
  | .statefulSet => inferInstanceAs (DecidableEq StatefulSetBody)
  | .configMap => inferInstanceAs (DecidableEq ConfigMapBody)

/-- The zero value of a body. -/
def Kind.zero : (k : Kind) → k.Body
  | .distributedCache =>
      { spec :=
          { replicas := none, image := "", memoryPerPod := ⟨0⟩,
            drain := ⟨0⟩, tenant := none }
        status :=
          { conditions := [], observedGeneration := 0, readyReplicas := 0,
            ring := { version := 0, members := [], configMapName := "" } } }
  | .ns => ()
  | .resourceQuota => { hard := .empty }
  | .networkPolicy => { podSelector := .empty, policyTypes := [], ingress := [] }
  | .service =>
      { clusterIP := "", selector := .empty, ports := [],
        publishNotReadyAddresses := false }
  | .statefulSet =>
      { replicas := none, serviceName := "", selector := none,
        podManagementPolicy := .orderedReady, templateLabels := .empty,
        terminationGracePeriodSeconds := none, containers := [] }
  | .configMap => { data := .empty }

/-- An object of kind `k`. -/
structure Object (k : Kind) where
  metadata : ObjectMeta
  body : k.Body
deriving DecidableEq

namespace Object

variable {k : Kind}

def key (o : Object k) : NamespacedName := o.metadata.key

def name (o : Object k) : String := o.metadata.name

def ns (o : Object k) : String := o.metadata.ns

end Object

abbrev DistributedCache := Object .distributedCache

-- =============================================================== pods

inductive PodPhase where
  | pending
  | running
  | succeeded
  | failed
  | unknown
deriving DecidableEq

inductive PodConditionType where
  | ready
  | other (name : String)
deriving DecidableEq

structure PodCondition where
  type : PodConditionType
  status : ConditionStatus
deriving DecidableEq

/-- `corev1.Pod`. -/
structure Pod where
  metadata : ObjectMeta
  phase : PodPhase
  conditions : List PodCondition
deriving DecidableEq

namespace Pod

def key (p : Pod) : NamespacedName := p.metadata.key

def name (p : Pod) : String := p.metadata.name

end Pod

end CacheOperator
