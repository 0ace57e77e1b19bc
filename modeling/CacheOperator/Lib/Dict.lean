/-
Maps as Go programs use them for labels, annotations and small pieces of
data: a key is looked up, a key is set, the size is taken.

A `Dict` is an association list. Setting a key that is present replaces
its value in place, so setting what is already there changes nothing
(`set_eq_self`) and equality of two dicts can stand for equality of the
objects that hold them. An absent map and an empty one are the same.
-/
import Mathlib.Data.List.Basic

namespace CacheOperator.Lib

/-- A finite map from `κ` to `ν`. -/
structure Dict (κ ν : Type) where
  entries : List (κ × ν)
deriving DecidableEq

namespace Dict

variable {κ ν : Type} [DecidableEq κ]

def empty : Dict κ ν := ⟨[]⟩

instance : Inhabited (Dict κ ν) := ⟨empty⟩

/-- `v, ok := m[k]`. -/
def get (d : Dict κ ν) (k : κ) : Option ν :=
  (d.entries.find? fun e => e.1 = k).map Prod.snd

/-- `len(m)`. -/
def size (d : Dict κ ν) : Nat := d.entries.length

/-- Replace the value of `k`, or append the pair. -/
def setEntries (k : κ) (v : ν) : List (κ × ν) → List (κ × ν)
  | [] => [(k, v)]
  | e :: es => if e.1 = k then (k, v) :: es else e :: setEntries k v es

/-- `m[k] = v`. -/
def set (d : Dict κ ν) (k : κ) (v : ν) : Dict κ ν :=
  ⟨setEntries k v d.entries⟩

@[simp] theorem get_empty (k : κ) : (empty : Dict κ ν).get k = none := rfl

@[simp] theorem get_set_self (d : Dict κ ν) (k : κ) (v : ν) :
    (d.set k v).get k = some v := by
  obtain ⟨es⟩ := d
  simp only [set, get]
  induction es with
  | nil => simp [setEntries]
  | cons e es ih =>
      by_cases h : e.1 = k
      · simp [setEntries, h]
      · simpa [setEntries, h] using ih

theorem get_set_of_ne (d : Dict κ ν) {k k' : κ} (v : ν) (hne : k' ≠ k) :
    (d.set k v).get k' = d.get k' := by
  obtain ⟨es⟩ := d
  simp only [set, get]
  congr 1
  induction es with
  | nil => simp [setEntries, Ne.symm hne]
  | cons e es ih =>
      rw [setEntries]
      by_cases h : e.1 = k
      · rw [if_pos h]
        simp [h, Ne.symm hne]
      · rw [if_neg h, List.find?_cons, List.find?_cons, ih]

/-- Setting what is there changes nothing. -/
theorem set_eq_self (d : Dict κ ν) {k : κ} {v : ν} (h : d.get k = some v) :
    d.set k v = d := by
  obtain ⟨es⟩ := d
  simp only [set, get] at *
  congr 1
  induction es with
  | nil => simp at h
  | cons e es ih =>
      by_cases hk : e.1 = k
      · simp only [List.find?_cons, hk, decide_true, Option.map_some,
          Option.some.injEq] at h
        rw [setEntries, if_pos hk, ← hk, ← h]
      · rw [setEntries, if_neg hk, ih]
        simpa [List.find?_cons, hk] using h

theorem size_pos_of_get {d : Dict κ ν} {k : κ} {v : ν}
    (h : d.get k = some v) : 0 < d.size := by
  obtain ⟨es⟩ := d
  cases es with
  | nil => cases h
  | cons e es => exact Nat.succ_pos _

end Dict

end CacheOperator.Lib
