/-
What a write of the whole object does to the spec.

Writing a spec and reading it back changes two things only
(`reread_eq`): replicas that were not set become the default, and so does
a grace period of zero, because the encoder leaves the zero out of an
object that is always written. Stored specs have replicas, so what is
left is the grace period, whether it was stored as zero or there was no
`drain` at all.
-/
import CacheOperator.Model.SpecJson

namespace CacheOperator

open Lib SpecJson

/-- The spec as it is after a write. -/
def DistributedCacheSpec.rewritten (spec : DistributedCacheSpec) :
    DistributedCacheSpec :=
  { spec with
    replicas := some (spec.replicas.getD 3)
    drain :=
      if spec.drain.gracePeriodSeconds = 0 then ⟨30⟩ else spec.drain }

/-- Nothing changes in a spec with replicas and a grace period. -/
theorem DistributedCacheSpec.rewritten_eq_self {spec : DistributedCacheSpec}
    (hreplicas : spec.replicas.isSome)
    (hgrace : spec.drain.gracePeriodSeconds ≠ 0) :
    spec.rewritten = spec := by
  obtain ⟨n, hn⟩ := Option.isSome_iff_exists.mp hreplicas
  unfold DistributedCacheSpec.rewritten
  rw [if_neg hgrace, hn, Option.getD_some, ← hn]

/-- The spec says itself what a write would fill in. -/
structure DistributedCacheSpec.Lasting (spec : DistributedCacheSpec) :
    Prop where
  replicas : spec.replicas.isSome
  grace : spec.drain.gracePeriodSeconds ≠ 0

theorem DistributedCacheSpec.Lasting.rewritten
    {spec : DistributedCacheSpec} (h : spec.Lasting) :
    spec.rewritten = spec :=
  rewritten_eq_self h.replicas h.grace

/-- A write never shortens the grace period. -/
theorem DistributedCacheSpec.grace_le_rewritten
    (spec : DistributedCacheSpec) :
    seconds spec.drain.gracePeriodSeconds
      ≤ seconds spec.rewritten.drain.gracePeriodSeconds := by
  unfold DistributedCacheSpec.rewritten
  dsimp only
  split
  · next hzero =>
    rw [hzero]
    decide
  · exact Int.le_refl _

namespace SpecJson

theorem decodeInt32_encodeInt32 (n : Int32) :
    decodeInt32 (encodeInt32 n) = some n := by
  have hlo := n.le_toInt
  have hhi := n.toInt_lt
  simp only [decodeInt32, encodeInt32, Decimal.parse_format,
    Option.bind_some]
  rw [if_pos ⟨hlo, hhi⟩, Int32.ofInt_toInt]

theorem field_cons (key : String) (e : List Char × Json.Value)
    (fields : List (List Char × Json.Value)) :
    field key (.obj (e :: fields))
      = if e.1 = key.toList then some e.2 else field key (.obj fields) := by
  by_cases h : e.1 = key.toList <;> simp [field, h]

theorem field_head (key : String) (v : Json.Value)
    (fields : List (List Char × Json.Value)) :
    field key (.obj ((key.toList, v) :: fields)) = some v := by
  simp [field]

theorem field_nil (key : String) : field key (.obj []) = none := rfl

theorem field_cons_ne {key other : String} {v : Json.Value}
    {fields : List (List Char × Json.Value)}
    (h : other.toList ≠ key.toList) :
    field key (.obj ((other.toList, v) :: fields))
      = field key (.obj fields) := by
  rw [field_cons, if_neg h]

theorem field_append (key : String)
    (xs ys : List (List Char × Json.Value)) :
    field key (.obj (xs ++ ys))
      = (field key (.obj xs)).or (field key (.obj ys)) := by
  simp only [field, List.find?_append, Option.map_or]

theorem decodeOr_of_decode {α : Type} (zero : α)
    {decode : Json.Value → Option α} {v : Json.Value} {a : α}
    (hnull : decode .null = none) (h : decode v = some a) :
    decodeOr zero decode (some v) = some a := by
  cases v with
  | null => rw [hnull] at h; exact absurd h (by simp)
  | _ => exact h

theorem decodeOr_encodeInt32 (zero n : Int32) :
    decodeOr zero decodeInt32 (some (encodeInt32 n)) = some n :=
  decodeOr_of_decode zero rfl (decodeInt32_encodeInt32 n)

theorem omitEmpty_of_empty {key : String} {isEmpty : Bool} {v : Json.Value}
    (h : isEmpty = true) : omitEmpty key isEmpty v = [] :=
  if_pos h

theorem omitEmpty_of_not_empty {key : String} {isEmpty : Bool}
    {v : Json.Value} (h : isEmpty = false) :
    omitEmpty key isEmpty v = [(key.toList, v)] :=
  if_neg (by simp [h])

theorem field_omitEmpty_ne {key other : String} {isEmpty : Bool}
    {v : Json.Value} (h : other.toList ≠ key.toList) :
    field key (.obj (omitEmpty other isEmpty v)) = none := by
  cases isEmpty with
  | true => rw [omitEmpty_of_empty rfl, field_nil]
  | false => rw [omitEmpty_of_not_empty rfl, field_cons_ne h, field_nil]

/-- A pointer is left out when it is nil. -/
theorem field_omitEmpty_isNone {α : Type} (key : String) (x : Option α)
    (zero : α) (encode : α → Json.Value) :
    field key (.obj (omitEmpty key x.isNone (encode (x.getD zero))))
      = x.map encode := by
  cases x with
  | none =>
    rw [omitEmpty_of_empty Option.isNone_none, field_nil, Option.map_none]
  | some a =>
    rw [omitEmpty_of_not_empty Option.isNone_some, field_head,
      Option.getD_some, Option.map_some]

/-- The defaults leave the other fields alone. -/
theorem field_setDefault_ne {key other : String} (default v : Json.Value)
    (h : key.toList ≠ other.toList) :
    field other (setDefault key default v) = field other v := by
  cases v with
  | obj fields =>
    simp only [setDefault]
    split
    · rfl
    · simp [field, List.find?_append, h]
  | _ => rfl

theorem field_setDefault (key : String) (default : Json.Value)
    (fields : List (List Char × Json.Value)) :
    field key (setDefault key default (.obj fields))
      = some ((field key (.obj fields)).getD default) := by
  simp only [setDefault]
  cases h : field key (.obj fields) with
  | some v => rw [if_pos (by simp), h, Option.getD_some]
  | none =>
    rw [if_neg (by simp), Option.getD_none]
    simp only [field, Option.map_eq_none_iff] at h
    simp [field, List.find?_append, h]

theorem field_below (key other : String) (f : Json.Value → Json.Value)
    (v : Json.Value) :
    field other (below key f v)
      = (field other v).map
          (if other.toList = key.toList then f else id) := by
  cases v with
  | obj fields =>
    induction fields with
    | nil => rfl
    | cons e fields ih =>
      simp only [below, List.map_cons] at ih ⊢
      rw [field_cons, field_cons, ih]
      by_cases hk : e.1 = key.toList <;> by_cases ho : e.1 = other.toList
      · simp [← hk, ← ho]
      · simp [← hk, ho]
      · simp [hk, ← ho]
      · simp [hk, ho]
  | _ => rfl

theorem exists_setDefault (key : String) (default : Json.Value)
    (fields : List (List Char × Json.Value)) :
    ∃ filled, setDefault key default (.obj fields) = .obj filled := by
  simp only [setDefault]
  split
  · exact ⟨fields, rfl⟩
  · exact ⟨_, rfl⟩

/-- The grace period is read back, a zero as the default. -/
theorem decodeDrain_default (n : Int32) (d : DrainSpec) :
    decodeDrain (setDefault "gracePeriodSeconds" (encodeInt32 n)
        (encodeDrain d))
      = some (if d.gracePeriodSeconds = 0 then ⟨n⟩ else d) := by
  obtain ⟨fields, hfields⟩ : ∃ fields, encodeDrain d = .obj fields :=
    ⟨_, rfl⟩
  obtain ⟨filled, hfilled⟩ :=
    exists_setDefault "gracePeriodSeconds" (encodeInt32 n) fields
  have hfield :=
    field_setDefault "gracePeriodSeconds" (encodeInt32 n) fields
  rw [hfields, hfilled, decodeDrain, ← hfilled, hfield, ← hfields]
  unfold encodeDrain
  by_cases h : d.gracePeriodSeconds = 0
  · rw [if_pos h, omitEmpty_of_empty (by simpa using h), field_nil,
      Option.getD_none, decodeOr_encodeInt32, Option.map_some]
  · rw [if_neg h, omitEmpty_of_not_empty (by simpa using h), field_head,
      Option.getD_some, decodeOr_encodeInt32, Option.map_some]

/-- Whether the tenant is isolated is read back: a false is the zero. -/
theorem decodeTenant_encodeTenant (t : TenantSpec) :
    decodeTenant (encodeTenant t) = some (some t) := by
  obtain ⟨isolate⟩ := t
  cases isolate <;> rfl

-- ======================================================== the whole spec

variable (format : QuantityFormat) (spec : DistributedCacheSpec)

theorem field_encodeSpec_replicas :
    field "replicas" (encodeSpec format spec)
      = spec.replicas.map encodeInt32 := by
  unfold encodeSpec
  rw [field_append, field_append, field_omitEmpty_isNone,
    field_cons_ne (by decide), field_cons_ne (by decide),
    field_cons_ne (by decide), field_nil, field_omitEmpty_ne (by decide),
    Option.or_none, Option.or_none]

theorem field_encodeSpec_image :
    field "image" (encodeSpec format spec)
      = some (.str spec.image.toList) := by
  unfold encodeSpec
  rw [field_append, field_append, field_omitEmpty_ne (by decide),
    field_head, Option.none_or, Option.some_or]

theorem field_encodeSpec_memoryPerPod :
    field "memoryPerPod" (encodeSpec format spec)
      = some (format.marshal spec.memoryPerPod) := by
  unfold encodeSpec
  rw [field_append, field_append, field_omitEmpty_ne (by decide),
    field_cons_ne (by decide), field_head, Option.none_or, Option.some_or]

theorem field_encodeSpec_drain :
    field "drain" (encodeSpec format spec)
      = some (encodeDrain spec.drain) := by
  unfold encodeSpec
  rw [field_append, field_append, field_omitEmpty_ne (by decide),
    field_cons_ne (by decide), field_cons_ne (by decide), field_head,
    Option.none_or, Option.some_or]

theorem field_encodeSpec_tenant :
    field "tenant" (encodeSpec format spec)
      = spec.tenant.map encodeTenant := by
  unfold encodeSpec
  rw [field_append, field_append, field_omitEmpty_isNone,
    field_cons_ne (by decide), field_cons_ne (by decide),
    field_cons_ne (by decide), field_nil, field_omitEmpty_ne (by decide),
    Option.none_or, Option.none_or]

/-- A field that has no default is stored as it was written. -/
theorem field_applyDefaults {key : String} (v : Json.Value)
    (hreplicas : "replicas".toList ≠ key.toList)
    (hdrain : key.toList ≠ "drain".toList) :
    field key (applyDefaults v) = field key v := by
  unfold applyDefaults
  rw [field_setDefault_ne _ _ hreplicas, field_below, if_neg hdrain,
    Option.map_id_apply]

theorem field_applyDefaults_replicas :
    field "replicas" (applyDefaults (encodeSpec format spec))
      = some (encodeInt32 (spec.replicas.getD 3)) := by
  have hbelow : ∀ f, ∃ fields,
      below "drain" f (encodeSpec format spec) = .obj fields :=
    fun f => ⟨_, rfl⟩
  unfold applyDefaults
  obtain ⟨fields, hfields⟩ :=
    hbelow (setDefault "gracePeriodSeconds" (encodeInt32 30))
  rw [hfields, field_setDefault, ← hfields, field_below,
    if_neg (by decide), Option.map_id_apply, field_encodeSpec_replicas]
  cases spec.replicas <;> rfl

theorem field_applyDefaults_drain :
    field "drain" (applyDefaults (encodeSpec format spec))
      = some (setDefault "gracePeriodSeconds" (encodeInt32 30)
          (encodeDrain spec.drain)) := by
  unfold applyDefaults
  rw [field_setDefault_ne _ _ (by decide), field_below,
    field_encodeSpec_drain, if_pos rfl, Option.map_some]

theorem reread_eq (cache : DistributedCache) :
    reread format cache = some cache.body.spec.rewritten := by
  have htenant : decodeOr none decodeTenant
      (field "tenant" (applyDefaults (encodeSpec format cache.body.spec)))
        = some cache.body.spec.tenant := by
    rw [field_applyDefaults _ (by decide) (by decide),
      field_encodeSpec_tenant]
    cases cache.body.spec.tenant with
    | none => rfl
    | some t =>
      exact decodeOr_of_decode none rfl (decodeTenant_encodeTenant t)
  have hreplicas : decodeOr none (fun v => (decodeInt32 v).map some)
      (field "replicas" (applyDefaults (encodeSpec format cache.body.spec)))
        = some (some (cache.body.spec.replicas.getD 3)) := by
    rw [field_applyDefaults_replicas]
    apply decodeOr_of_decode none rfl
    rw [decodeInt32_encodeInt32, Option.map_some]
  unfold reread decodeSpec
  rw [hreplicas, htenant, field_applyDefaults_drain,
    field_applyDefaults _ (by decide) (by decide), field_encodeSpec_image,
    field_applyDefaults _ (by decide) (by decide),
    field_encodeSpec_memoryPerPod,
    decodeOr_of_decode _ rfl (decodeDrain_default 30 _), decodeQuantity,
    format.unmarshal_marshal]
  simp [decodeOr, decodeString, DistributedCacheSpec.rewritten]

/-- What lasts is read as it was written. -/
theorem reread_of_lasting {cache : DistributedCache}
    (h : cache.body.spec.Lasting) :
    reread format cache = some cache.body.spec := by
  rw [reread_eq, h.rewritten]

/-- A spec that the CRD admits has replicas when it is read. -/
theorem Admitted.replicas_isSome {stored : Json.Value}
    {read : DistributedCacheSpec} (hadmitted : Admitted stored)
    (hread : decodeSpec format stored = some read) :
    read.replicas.isSome := by
  obtain ⟨n, hfield, -⟩ := hadmitted.replicas
  unfold decodeSpec at hread
  rw [hfield] at hread
  cases hn : decodeInt32 (.num (Decimal.format n)) with
  | none => simp [decodeOr, hn] at hread
  | some m =>
    simp only [decodeOr, hn, Option.map_some, Option.bind_eq_bind,
      Option.bind_some, Option.bind_eq_some_iff] at hread
    obtain ⟨image, -, memoryPerPod, -, drain, -, tenant, -, hspec⟩ := hread
    rw [← Option.some.inj hspec]
    rfl

end SpecJson

/-- The write that adds the finalizer, and the write that removes it,
leave a stored spec as it was read if and only if its grace period is not
zero, as it also is where there is no `drain`. -/
theorem finalizer_write_keeps_spec_iff (format : QuantityFormat)
    {stored : Json.Value} {cache : DistributedCache}
    (hadmitted : Admitted stored)
    (hread : decodeSpec format stored = some cache.body.spec) :
    (reread format (addFinalizer cache) = decodeSpec format stored
        ∧ reread format (removeFinalizer cache) = decodeSpec format stored)
      ↔ cache.body.spec.drain.gracePeriodSeconds ≠ 0 := by
  have hreplicas := hadmitted.replicas_isSome format hread
  rw [reread_eq, reread_eq, hread]
  constructor
  · intro ⟨hadd, _⟩ hzero
    have hdrain := congrArg DistributedCacheSpec.drain (Option.some.inj hadd)
    simp only [addFinalizer, DistributedCacheSpec.rewritten, hzero,
      if_true] at hdrain
    rw [← hdrain] at hzero
    exact absurd hzero (by decide)
  · intro hgrace
    have hkeep := DistributedCacheSpec.rewritten_eq_self hreplicas hgrace
    exact ⟨congrArg some hkeep, congrArg some hkeep⟩

/-- Quantities as plain numbers of bytes. -/
def bytesFormat : QuantityFormat where
  unmarshal
    | .num lit => (Decimal.parse lit).map fun n => ⟨Int64.ofInt n⟩
    | _ => none
  marshal q := .num (Decimal.format q.value.toInt)
  unmarshal_marshal q := by
    simp only [Decimal.parse_format, Option.map_some, Int64.ofInt_toInt]

/-- A stored spec of three pods, with what is below `drain` if that is
there at all. -/
def ordersStored (drain : List (List Char × Json.Value)) : Json.Value :=
  .obj ([("replicas".toList, .num ['3']),
    ("image".toList, .str "tiny-cache".toList),
    ("memoryPerPod".toList, .num ['6', '4'])] ++ drain)

def ordersStoredDrain (grace : Int) : List (List Char × Json.Value) :=
  [("drain".toList,
    .obj [("gracePeriodSeconds".toList, .num (Decimal.format grace))])]

/-- The object of a stored spec. -/
def ordersRead (grace : Int32) : DistributedCache :=
  { metadata := { ns := "shop", name := "orders" }
    body :=
      { spec := ⟨some 3, "tiny-cache", ⟨64⟩, ⟨grace⟩, none⟩
        status := Kind.distributedCache.zero.status } }

theorem field_ordersStored {key : String}
    (drain : List (List Char × Json.Value))
    (hreplicas : "replicas".toList ≠ key.toList)
    (himage : "image".toList ≠ key.toList)
    (hmemory : "memoryPerPod".toList ≠ key.toList) :
    field key (ordersStored drain) = field key (.obj drain) := by
  unfold ordersStored
  rw [field_append, field_cons_ne hreplicas, field_cons_ne himage,
    field_cons_ne hmemory, field_nil, Option.none_or]

theorem ordersStored_admitted_absent : Admitted (ordersStored []) where
  replicas := ⟨3, by rfl, by decide⟩
  image := ⟨_, by rfl, by decide⟩
  memoryPerPod := .inl ⟨_, by rfl⟩
  drain d h := by
    rw [field_ordersStored _ (by decide) (by decide) (by decide)] at h
    exact absurd h (by simp [field_nil])
  tenant t h := by
    rw [field_ordersStored _ (by decide) (by decide) (by decide)] at h
    exact absurd h (by simp [field_nil])

theorem ordersStored_admitted (grace : Int) (hlo : 0 ≤ grace)
    (hhi : grace ≤ 3600) :
    Admitted (ordersStored (ordersStoredDrain grace)) where
  replicas := ⟨3, by rfl, by decide⟩
  image := ⟨_, by rfl, by decide⟩
  memoryPerPod := .inl ⟨_, by rfl⟩
  drain d h := by
    have hd : d = .obj [("gracePeriodSeconds".toList,
        .num (Decimal.format grace))] := by
      rw [← Option.some.inj h]
    exact ⟨grace, by rw [hd, field_head], hlo, hhi⟩
  tenant t h := by
    rw [field_ordersStored _ (by decide) (by decide) (by decide),
      ordersStoredDrain, field_cons_ne (by decide)] at h
    exact absurd h (by simp [field_nil])

/-- Without a `drain`, and with one whose grace period is zero, the object
is read with a grace period of zero and is read with thirty seconds once
the finalizer was written. -/
theorem zero_grace_becomes_default :
    (Admitted (ordersStored [])
      ∧ decodeSpec bytesFormat (ordersStored [])
          = some (ordersRead 0).body.spec)
    ∧ (Admitted (ordersStored (ordersStoredDrain 0))
      ∧ decodeSpec bytesFormat (ordersStored (ordersStoredDrain 0))
          = some (ordersRead 0).body.spec)
    ∧ reread bytesFormat (addFinalizer (ordersRead 0))
        = some (ordersRead 30).body.spec
    ∧ reread bytesFormat (removeFinalizer (ordersRead 0))
        = some (ordersRead 30).body.spec :=
  ⟨⟨ordersStored_admitted_absent, by decide +kernel⟩,
    ⟨ordersStored_admitted 0 (by decide) (by decide), by decide +kernel⟩,
    by decide +kernel, by decide +kernel⟩

theorem finalizer_write_keeps_spec_orders :
    (reread bytesFormat (addFinalizer (ordersRead 15))
        = decodeSpec bytesFormat (ordersStored (ordersStoredDrain 15))
      ∧ reread bytesFormat (removeFinalizer (ordersRead 15))
        = decodeSpec bytesFormat (ordersStored (ordersStoredDrain 15)))
      ↔ (ordersRead 15).body.spec.drain.gracePeriodSeconds ≠ 0 :=
  finalizer_write_keeps_spec_iff bytesFormat
    (ordersStored_admitted 15 (by decide) (by decide)) (by decide +kernel)

end CacheOperator
