/-
How a spec is stored: `api/v1alpha1/distributedcache_types.go` as JSON,
and the schema of the CRD
(`config/crd/bases/cache.sk1.services.com_distributedcaches.yaml`).

Three descriptions of one format. The decoder fills a Go struct, so an
absent field is a zero value. The encoder leaves out what its `omitempty`
tag says is empty: a nil pointer, a zero number, a false, but never a
struct, so `drain` is always written. The API server fills in the
defaults of the schema in the objects that are there. Text is compared
as it is (the Kubernetes decoder does not fold case), and a stored
object has each key once.

How a quantity is written is the library's business: a `QuantityFormat`
is any that reads back what it wrote.
-/
import CacheOperator.Model.Reconcile

namespace CacheOperator

open Lib

/-- `resource.Quantity` as JSON. -/
structure QuantityFormat where
  unmarshal : Json.Value → Option Quantity
  marshal : Quantity → Json.Value
  unmarshal_marshal : ∀ q, unmarshal (marshal q) = some q

namespace SpecJson

/-- The value of a key of an object. -/
def field (key : String) : Json.Value → Option Json.Value
  | .obj fields => (fields.find? fun f => f.1 = key.toList).map Prod.snd
  | _ => none

-- =========================================================== decoding

/-- An `int32`. -/
def decodeInt32 : Json.Value → Option Int32
  | .num lit =>
      (Decimal.parse lit).bind fun n =>
        if -2 ^ 31 ≤ n ∧ n < 2 ^ 31 then some (Int32.ofInt n) else none
  | _ => none

def decodeString : Json.Value → Option String
  | .str s => some (String.ofList s)
  | _ => none

def decodeBool : Json.Value → Option Bool
  | .bool b => some b
  | _ => none

/-- Decode a field into a variable that holds `zero`. -/
def decodeOr {α : Type} (zero : α) (decode : Json.Value → Option α) :
    Option Json.Value → Option α
  | none => some zero
  | some .null => some zero
  | some v => decode v

def decodeDrain : Json.Value → Option DrainSpec
  | .obj fields =>
      (decodeOr 0 decodeInt32
        (field "gracePeriodSeconds" (.obj fields))).map DrainSpec.mk
  | _ => none

def decodeTenant : Json.Value → Option (Option TenantSpec)
  | .obj fields =>
      (decodeOr false decodeBool (field "isolate" (.obj fields))).map
        fun isolate => some ⟨isolate⟩
  | _ => none

variable (format : QuantityFormat)

/-- A quantity unmarshals itself, a null included. -/
def decodeQuantity : Option Json.Value → Option Quantity
  | none => some ⟨0⟩
  | some v => format.unmarshal v

/-- `json.Unmarshal` into a `DistributedCacheSpec`. -/
def decodeSpec (v : Json.Value) : Option DistributedCacheSpec := do
  let replicas ← decodeOr none (fun v => (decodeInt32 v).map some)
    (field "replicas" v)
  let image ← decodeOr "" decodeString (field "image" v)
  let memoryPerPod ← decodeQuantity format (field "memoryPerPod" v)
  let drain ← decodeOr ⟨0⟩ decodeDrain (field "drain" v)
  let tenant ← decodeOr none decodeTenant (field "tenant" v)
  some { replicas, image, memoryPerPod, drain, tenant }

-- =========================================================== encoding

def encodeInt32 (n : Int32) : Json.Value := .num (Decimal.format n.toInt)

/-- A field that is left out when it is empty. -/
def omitEmpty (key : String) (isEmpty : Bool) (v : Json.Value) :
    List (List Char × Json.Value) :=
  if isEmpty then [] else [(key.toList, v)]

def encodeDrain (d : DrainSpec) : Json.Value :=
  .obj (omitEmpty "gracePeriodSeconds" (d.gracePeriodSeconds = 0)
    (encodeInt32 d.gracePeriodSeconds))

def encodeTenant (t : TenantSpec) : Json.Value :=
  .obj (omitEmpty "isolate" (!t.isolate) (.bool t.isolate))

/-- `json.Marshal` of a `DistributedCacheSpec`. -/
def encodeSpec (spec : DistributedCacheSpec) : Json.Value :=
  .obj
    (omitEmpty "replicas" spec.replicas.isNone
        (encodeInt32 (spec.replicas.getD 0))
      ++ [("image".toList, .str spec.image.toList),
        ("memoryPerPod".toList, format.marshal spec.memoryPerPod),
        -- a struct is never empty
        ("drain".toList, encodeDrain spec.drain)]
      ++ omitEmpty "tenant" spec.tenant.isNone
        (encodeTenant (spec.tenant.getD ⟨false⟩)))

-- ========================================================= the schema

/-- A default: set where the object has no such key. -/
def setDefault (key : String) (default : Json.Value) :
    Json.Value → Json.Value
  | .obj fields =>
      if (field key (.obj fields)).isSome then .obj fields
      else .obj (fields ++ [(key.toList, default)])
  | v => v

/-- Go on below a key. -/
def below (key : String) (f : Json.Value → Json.Value) :
    Json.Value → Json.Value
  | .obj fields =>
      .obj (fields.map fun e => if e.1 = key.toList then (e.1, f e.2) else e)
  | v => v

/-- The defaults of the CRD. -/
def applyDefaults (v : Json.Value) : Json.Value :=
  setDefault "replicas" (encodeInt32 3)
    (below "drain" (setDefault "gracePeriodSeconds" (encodeInt32 30)) v)

/-- What the CRD admits, with its defaults in place. -/
structure Admitted (v : Json.Value) : Prop where
  replicas : ∃ n : Int, field "replicas" v = some (.num (Decimal.format n))
    ∧ 1 ≤ n
  image : ∃ s, field "image" v = some (.str s) ∧ s ≠ []
  memoryPerPod : (∃ lit, field "memoryPerPod" v = some (.num lit))
    ∨ ∃ s, field "memoryPerPod" v = some (.str s)
  drain : ∀ d, field "drain" v = some d →
    ∃ n : Int, field "gracePeriodSeconds" d = some (.num (Decimal.format n))
      ∧ 0 ≤ n ∧ n ≤ 3600
  tenant : ∀ t, field "tenant" v = some t →
    (∃ fields, t = .obj fields)
      ∧ ∀ b, field "isolate" t = some b → ∃ isolate, b = .bool isolate

/-- What the operator reads once an object it has written is stored. -/
def reread (cache : DistributedCache) : Option DistributedCacheSpec :=
  decodeSpec format (applyDefaults (encodeSpec format cache.body.spec))

end SpecJson

end CacheOperator
