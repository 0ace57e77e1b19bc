/-
The ring: `internal/controller/ring.go` and its JSON form.

`computeMembers` is the filter over the listed pods followed by a sort on
the ordinal; the sort is any that keeps the contract of `sort.Slice`. An
absent member list and an empty one behave alike everywhere (`len`,
`range`, the decoder's result), so members are a list.

`unmarshalRing` is `json.Unmarshal` into the two-field struct: keys match
field names up to case folding, later fields override earlier ones,
`null` leaves a number alone and empties a slice, any other type is an
error, and an element that is `null` keeps what the slice's array holds
at that place from an earlier occurrence of the field.
-/
import CacheOperator.Lib.JsonRoundTrip
import CacheOperator.Lib.SliceSort
import CacheOperator.Model.Objects

namespace CacheOperator

open Lib

/-- The annotation that marks a pod as draining. -/
def drainAnnotation : String := "cache.sk1.services.com/draining-since"

/-- The published view of the cache's membership. -/
@[ext]
structure Ring where
  version : Int64
  members : List String
deriving DecidableEq

namespace Ring

/-- Same membership, ignoring the version. -/
def membersEqual (r other : Ring) : Bool :=
  r.members.length == other.members.length
    && (List.range r.members.length).all fun i =>
      r.members[i]? == other.members[i]?

/-- Same membership at the same version. -/
def equal (r other : Ring) : Bool :=
  r.version == other.version
    && (r.members.length == other.members.length
      && (List.range r.members.length).all fun i =>
        r.members[i]? == other.members[i]?)

theorem membersEqual_iff {r other : Ring} :
    r.membersEqual other = true ↔ r.members = other.members := by
  simp only [membersEqual, Bool.and_eq_true, beq_iff_eq, List.all_eq_true,
    List.mem_range]
  constructor
  · rintro ⟨hlen, hall⟩
    refine List.ext_getElem? fun i => ?_
    by_cases hi : i < r.members.length
    · exact hall i hi
    · rw [List.getElem?_eq_none (by omega), List.getElem?_eq_none (by omega)]
  · intro h
    simp [h]

theorem equal_iff {r other : Ring} : r.equal other = true ↔ r = other := by
  have hm := @membersEqual_iff r other
  rw [equal, Bool.and_eq_true, beq_iff_eq]
  rw [membersEqual] at hm
  rw [hm]
  constructor
  · rintro ⟨hv, hms⟩
    cases r
    cases other
    simp_all
  · rintro rfl
    exact ⟨rfl, rfl⟩

end Ring

-- ======================================================== the members

/-- The pod's `PodReady` condition, the first one, is `True`. -/
def isPodReady (p : Pod) : Bool :=
  match p.conditions.find? fun c => c.type = .ready with
  | some c => c.status == .yes
  | none => false

/-- What follows the last dash of a name. -/
def afterLastDash : List Char → Option (List Char)
  | [] => none
  | c :: t =>
      match afterLastDash t with
      | some s => some s
      | none => if c = '-' then some t else none

/-- The trailing integer of a StatefulSet pod name. -/
def podOrdinal (name : String) : Option Int :=
  match afterLastDash name.toList with
  | none => none
  | some [] => none
  | some ds => (Decimal.parseInt64 ds).map Int64.toInt

/-- One turn of the loop in `computeMembers`: the pod's name and ordinal,
unless it is skipped. -/
def ringEntry (p : Pod) : Option (String × Int) :=
  if p.metadata.deleting then none
  else if (p.metadata.annotations.get drainAnnotation).isSome then none
  else if p.phase ≠ .running then none
  else if !isPodReady p then none
  else (podOrdinal p.name).map fun ord => (p.name, ord)

/-- The names of the pods that should be in the ring, by ordinal. -/
def computeMembers (srt : SliceSort) (pods : List Pod) : List String :=
  (srt.sort (byKey Prod.snd) (pods.filterMap ringEntry)).map Prod.fst

theorem mem_computeMembers {srt : SliceSort} {pods : List Pod}
    {name : String} :
    name ∈ computeMembers srt pods ↔
      ∃ p ∈ pods, ∃ ord, ringEntry p = some (name, ord) := by
  simp only [computeMembers, List.mem_map, srt.mem_sort,
    List.mem_filterMap]
  constructor
  · rintro ⟨⟨n, ord⟩, ⟨p, hp, he⟩, rfl⟩
    exact ⟨p, hp, ord, he⟩
  · rintro ⟨p, hp, ord, he⟩
    exact ⟨(name, ord), ⟨p, hp, he⟩, rfl⟩

/-- There is nobody to publish when every pod is skipped. -/
theorem computeMembers_eq_nil {srt : SliceSort} {pods : List Pod} :
    computeMembers srt pods = [] ↔ ∀ p ∈ pods, ringEntry p = none := by
  rw [List.eq_nil_iff_forall_not_mem]
  constructor
  · intro h p hp
    cases he : ringEntry p with
    | none => rfl
    | some x =>
        exact absurd (mem_computeMembers.mpr ⟨p, hp, x.2, he⟩) (h x.1)
  · intro h name hname
    obtain ⟨p, hp, ord, he⟩ := mem_computeMembers.mp hname
    rw [h p hp] at he
    cases he

/-- An annotated pod is skipped, whatever the annotation says. -/
theorem ringEntry_of_marked {p : Pod}
    (h : (p.metadata.annotations.get drainAnnotation).isSome) :
    ringEntry p = none := by
  unfold ringEntry
  by_cases hdel : p.metadata.deleting = true
  · rw [if_pos hdel]
  · rw [if_neg hdel, if_pos h]

/-- What the loop keeps: the name of a live, undrained, running and ready
pod with an ordinal. -/
theorem ringEntry_eq_some {p : Pod} {name : String} {ord : Int} :
    ringEntry p = some (name, ord) ↔
      p.metadata.deleting = false
        ∧ p.metadata.annotations.get drainAnnotation = none
        ∧ p.phase = .running ∧ isPodReady p = true
        ∧ podOrdinal p.name = some ord ∧ p.name = name := by
  unfold ringEntry
  split
  · next h => simp [h]
  next h1 =>
  split
  · next h => simp [Option.ne_none_iff_isSome.mpr h]
  next h2 =>
  split
  · next h => simp [h]
  next h3 =>
  split
  · next h => simp_all
  next h4 =>
  have hann : p.metadata.annotations.get drainAnnotation = none := by
    simpa using h2
  simp only [Option.map_eq_some_iff, Prod.mk.injEq]
  constructor
  · rintro ⟨a, ha, rfl, rfl⟩
    exact ⟨by simpa using h1, hann, by simpa using h3, by simpa using h4,
      ha, rfl⟩
  · rintro ⟨-, -, -, -, ho, rfl⟩
    exact ⟨ord, ho, rfl, rfl⟩

-- ========================================================== ring.json

/-- `json.Marshal(ring)`. -/
def marshalRing (r : Ring) : String :=
  String.ofList (Json.print (.obj
    [("version".toList, .num (Decimal.format r.version.toInt)),
      ("members".toList, .arr (r.members.map fun m => .str m.toList))]))

/-- `c` and the lower-case letter `f` are equal up to case folding. -/
def foldsTo (f c : Char) : Bool :=
  c.toLower == f || (f == 's' && c.toNat == 0x17F)
    || (f == 'k' && c.toNat == 0x212A)

/-- A key names the field. -/
def isField (field key : List Char) : Bool :=
  field.length == key.length && (field.zip key).all fun p => foldsTo p.1 p.2

/-- The struct while it is being filled: the slice with the array behind
it. -/
structure Decoding where
  version : Int64
  backing : List String
  length : Nat

def decodeElement (old : String) : Json.Value → Option String
  | .str s => some (String.ofList s)
  | .null => some old
  | _ => none

/-- Decode the elements over what the array holds. -/
def decodeElements : List Json.Value → List String → Option (List String)
  | [], _ => some []
  | x :: xs, olds =>
      (decodeElement (olds.headD "") x).bind fun y =>
        (decodeElements xs olds.tail).map fun ys => y :: ys

def decodeMembers (d : Decoding) : Json.Value → Option Decoding
  | .null => some { d with backing := [], length := 0 }
  | .arr [] => some { d with backing := [], length := 0 }
  | .arr xs =>
      (decodeElements xs d.backing).map fun ys =>
        { d with backing := ys ++ d.backing.drop xs.length
                 length := xs.length }
  | _ => none

def decodeVersion (d : Decoding) : Json.Value → Option Decoding
  | .null => some d
  | .num lit =>
      (Decimal.parseInt64 lit).map fun v => { d with version := v }
  | _ => none

def decodeField (d : Decoding) (f : List Char × Json.Value) :
    Option Decoding :=
  if isField "version".toList f.1 then decodeVersion d f.2
  else if isField "members".toList f.1 then decodeMembers d f.2
  else some d

def decodeRing : Json.Value → Option Ring
  | .null => some ⟨0, []⟩
  | .obj fs =>
      (fs.foldlM decodeField ⟨0, [], 0⟩).map fun d =>
        ⟨d.version, d.backing.take d.length⟩
  | _ => none

/-- `json.Unmarshal` into a `Ring`; `none` is an error. -/
def unmarshalRing (s : String) : Option Ring :=
  (Json.parse s.toList).bind decodeRing

theorem decodeElements_str (ms : List String) :
    decodeElements (ms.map fun m => .str m.toList) [] = some ms := by
  induction ms with
  | nil => rfl
  | cons m ms ih =>
      rw [List.map_cons, decodeElements, List.tail_nil, ih]
      simp [decodeElement]

theorem fitsAll_str (d : Nat) (ms : List String) :
    Json.FitsAll d (ms.map fun m => .str m.toList) := by
  induction ms with
  | nil => rw [List.map_nil, Json.FitsAll]; trivial
  | cons m ms ih =>
      rw [List.map_cons, Json.FitsAll]
      exact ⟨by rw [Json.Fits]; trivial, ih⟩

theorem decodeMembers_str (v : Int64) (ms : List String) :
    decodeMembers ⟨v, [], 0⟩ (.arr (ms.map fun m => .str m.toList))
      = some ⟨v, ms, ms.length⟩ := by
  cases ms with
  | nil => rfl
  | cons m ms =>
      have h := decodeElements_str (m :: ms)
      rw [List.map_cons] at h ⊢
      rw [decodeMembers, h]
      · simp
      · simp

theorem decodeField_version (v : Int64) :
    decodeField ⟨0, [], 0⟩
        ("version".toList, .num (Decimal.format v.toInt))
      = some ⟨v, [], 0⟩ := by
  have hf : isField "version".toList "version".toList = true := by decide
  refine (if_pos hf).trans ?_
  unfold decodeVersion
  dsimp only
  rw [Decimal.parseInt64_format]
  rfl

theorem decodeField_members (v : Int64) (ms : List String) :
    decodeField ⟨v, [], 0⟩
        ("members".toList, .arr (ms.map fun m => .str m.toList))
      = some ⟨v, ms, ms.length⟩ := by
  have hv : isField "version".toList "members".toList = false := by decide
  have hm : isField "members".toList "members".toList = true := by decide
  refine (if_neg (Bool.eq_false_iff.mp hv)).trans ?_
  refine (if_pos hm).trans ?_
  exact decodeMembers_str v ms

theorem decodeRing_obj (r : Ring) :
    decodeRing (.obj
      [("version".toList, .num (Decimal.format r.version.toInt)),
        ("members".toList, .arr (r.members.map fun m => .str m.toList))])
      = some r := by
  show (((decodeField _ _).bind fun d => (decodeField d _).bind some).map
    fun d => Ring.mk d.version (d.backing.take d.length)) = some r
  rw [decodeField_version, Option.bind_some, decodeField_members,
    Option.bind_some, Option.map_some, List.take_length]

/-- What the operator writes, both sides read back. -/
theorem unmarshalRing_marshalRing (r : Ring) :
    unmarshalRing (marshalRing r) = some r := by
  have hfits : Json.Fits Json.maxNestingDepth (.obj
      [("version".toList, .num (Decimal.format r.version.toInt)),
        ("members".toList, .arr (r.members.map fun m => .str m.toList))]) := by
    show Json.Fits (9999 + 1) _
    rw [Json.Fits, Json.FitsMembers, Json.FitsMembers, Json.FitsMembers,
      Json.Fits]
    refine ⟨Json.isNumber_format _, ?_, trivial⟩
    show Json.Fits (9998 + 1) _
    rw [Json.Fits]
    exact fitsAll_str 9998 r.members
  unfold unmarshalRing marshalRing
  rw [String.toList_ofList, Json.parse_print hfits, Option.bind_some,
    decodeRing_obj]

end CacheOperator
