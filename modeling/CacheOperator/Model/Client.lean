/-
The reference client: `internal/cacheclient/client.go`.

The hash is any function of the string, the sort any that keeps the
contract of `sort.Slice`: SHA-1 and Go's sort are one choice each. The
atomic pointer to the loaded ring is a field of the client's state.
-/
import CacheOperator.Model.Reconcile

namespace CacheOperator

open Lib

/-- Virtual nodes per pod. -/
def vnodeCount : Nat := 128

/-- The resolved ring: sorted hashes with the pod that owns each. -/
structure HashRing where
  version : Int64
  hashes : List UInt32
  positions : List String
deriving DecidableEq

/-- A client with the ring it has loaded. -/
structure Client where
  ringConfigMap : NamespacedName
  serviceFQDN : String
  ring : Option HashRing
deriving DecidableEq

section

variable (srt : SliceSort) (hashString : String → UInt32)

/-- The virtual nodes in the order they are appended. -/
def vnodes (r : Ring) : List (UInt32 × String) :=
  r.members.flatMap fun member =>
    (List.range vnodeCount).map fun (i : Nat) =>
      (hashString (member ++ "#" ++ String.ofList (Decimal.format i)),
        member)

/-- `buildRing`. -/
def buildRing (r : Ring) : HashRing :=
  let hashes := (vnodes hashString r).map Prod.fst
  let positions := (vnodes hashString r).map Prod.snd
  let idx := srt.sort (byKey fun j => (hashes.getD j 0).toNat)
    (List.range hashes.length)
  { version := r.version
    hashes := idx.map fun j => hashes.getD j 0
    positions := idx.map fun j => positions.getD j "" }

/-- The end of `pollOnce`: an equal version is taken as unchanged. -/
def Client.load (c : Client) (r : Ring) : Client :=
  match c.ring with
  | some current =>
      if current.version = r.version then c
      else { c with ring := some (buildRing srt hashString r) }
  | none => { c with ring := some (buildRing srt hashString r) }

/-- `pollOnce`: the client afterwards, and the error it returned. -/
def pollOnce (c : Client) : Op (Client × Option GoError) := do
  match ← request (.get .configMap c.ringConfigMap) with
  | .error e => pure (c, some (e.wrap "get ring ConfigMap"))
  | .ok ⟨cm, _⟩ =>
      match cm.body.data.get "ring.json" with
      | none => pure (c, some ⟨.other, "ring ConfigMap missing ring.json"⟩)
      | some raw =>
          match unmarshalRing raw with
          | none => pure (c, some ⟨.other, "unmarshal ring"⟩)
          | some r => pure (c.load srt hashString r, none)

def errRingEmpty : GoError := ⟨.other, "ring is empty"⟩

/-- `Lookup`; no result is an index out of range. -/
def Client.lookup (c : Client) (key : String) :
    Option (Except GoError String) :=
  match c.ring with
  | none => some (.error errRingEmpty)
  | some r =>
      if r.hashes.length = 0 then some (.error errRingEmpty)
      else
        let h := hashString key
        let i := search r.hashes.length fun i =>
          match r.hashes[i]? with
          | some x => decide (h ≤ x)
          | none => false
        let i := if i = r.hashes.length then 0 else i
        r.positions[i]?.map fun pod => .ok (pod ++ "." ++ c.serviceFQDN)

end

/-- `RingVersion`. -/
def Client.ringVersion (c : Client) : Int64 :=
  match c.ring with
  | none => 0
  | some r => r.version

-- =========================================================== lemmas

variable {srt : SliceSort} {hashString : String → UInt32}

@[simp] theorem buildRing_version (r : Ring) :
    (buildRing srt hashString r).version = r.version := rfl

/-- Taking a list's elements at a permutation of its indices permutes
the list. -/
theorem map_getD_perm {α : Type} {l : List α} {idx : List Nat}
    (h : idx.Perm (List.range l.length)) (d : α) :
    (idx.map fun j => l.getD j d).Perm l := by
  refine (h.map _).trans (List.Perm.of_eq ?_)
  refine List.ext_getElem (by simp) fun i h1 h2 => ?_
  simp [h2]

/-- The built ring's positions are the members, many times over. -/
theorem mem_positions_buildRing {r : Ring} {m : String} :
    m ∈ (buildRing srt hashString r).positions ↔ m ∈ r.members := by
  have hperm : (buildRing srt hashString r).positions.Perm
      ((vnodes hashString r).map Prod.snd) := by
    refine map_getD_perm ((srt.perm _ _).trans ?_) ""
    rw [List.length_map, List.length_map]
  rw [hperm.mem_iff]
  simp only [vnodes, List.map_flatMap, List.map_map, List.mem_flatMap,
    List.mem_map, Function.comp_apply]
  constructor
  · rintro ⟨m', hm', i, -, rfl⟩
    exact hm'
  · intro hm
    exact ⟨m, hm, 0, by decide, rfl⟩

/-- A client that loads a ring has the ring's version afterwards. -/
theorem Client.load_version (c : Client) (r : Ring) :
    ∃ h, (c.load srt hashString r).ring = some h
      ∧ h.version = r.version := by
  unfold Client.load
  cases hc : c.ring with
  | none => exact ⟨_, rfl, rfl⟩
  | some current =>
      by_cases hv : current.version = r.version
      · exact ⟨current, by simp [hv, hc], hv⟩
      · exact ⟨buildRing srt hashString r, by simp [hv], rfl⟩

end CacheOperator
