/-
A key-value store that may lose entries, as a parameter.

# The parameter

A program that keeps values in a cache library can ask four things of it
(`StoreOps`): make a store, get, add and remove. Besides, things happen
to a store that nobody asked for: time passes, entries expire, a sweeper
comes by (`Event`). What the operations do inside is not said.

# What is relied on

`Lossy` names it. What is found under a key is what was last added there;
everything else that is done to the store, and everything that happens to
it, can only lose entries (`Loses`). Nothing is said about how many
entries there is room for, which of them go first, or when they expire.
A `remove` tells of every entry that would have been found; it may tell
of one that is not found any more as well.

# A store

`AgingStore` is one that keeps all this, for examples: its entries expire
one by one, and an expired entry stays, unfound, until it is swept.
-/
import Mathlib.Data.List.Basic

namespace CacheOperator.Lib

/-- What a cache library offers. -/
structure StoreOps (K V : Type) where
  State : Type
  /-- What can happen to a store besides its operations. -/
  Event : Type
  /-- A store of a size and with a time to live. -/
  new : Nat → Int → State
  get : State → K → Option V × State
  /-- Was something pushed out? -/
  add : State → K → V → Bool × State
  /-- Was something there? -/
  remove : State → K → Bool × State
  happen : Event → State → State

namespace StoreOps

variable {K V : Type} (L : StoreOps K V)

/-- What is found under a key. -/
def find (s : L.State) (k : K) : Option V := (L.get s k).1

/-- Nothing is found in the second store that is not in the first. -/
def Loses (s s' : L.State) : Prop :=
  ∀ k v, L.find s' k = some v → L.find s k = some v

/-- What is relied on. -/
structure Lossy : Prop where
  new_find : ∀ size ttl, 0 < size → 0 < ttl →
    ∀ k, L.find (L.new size ttl) k = none
  get_loses : ∀ s k, L.Loses s (L.get s k).2
  add_find : ∀ s k v, L.find (L.add s k v).2 k = some v
  add_others : ∀ s k v k' v', k' ≠ k →
    L.find (L.add s k v).2 k' = some v' → L.find s k' = some v'
  remove_find : ∀ s k, L.find (L.remove s k).2 k = none
  remove_loses : ∀ s k, L.Loses s (L.remove s k).2
  remove_told : ∀ s k v, L.find s k = some v → (L.remove s k).1 = true
  happen_loses : ∀ e s, L.Loses s (L.happen e s)
  /-- A store has finitely many entries. -/
  finite : ∀ s, ∃ keys : List K, ∀ k v, L.find s k = some v → k ∈ keys

variable {L}

theorem Loses.refl (s : L.State) : L.Loses s s := fun _ _ h => h

theorem Loses.trans {s s' s'' : L.State} (h : L.Loses s s')
    (h' : L.Loses s' s'') : L.Loses s s'' :=
  fun k v hv => h k v (h' k v hv)

/-- What is found later was there, or nothing is found. -/
theorem Loses.find_eq {s s' : L.State} (h : L.Loses s s') (k : K) :
    L.find s' k = L.find s k ∨ L.find s' k = none := by
  cases hv : L.find s' k with
  | none => exact Or.inr rfl
  | some v => exact Or.inl (h k v hv).symm

end StoreOps

-- ========================================================== an instance

/-- An entry, fresh or expired. -/
structure AgingEntry (K V : Type) where
  key : K
  value : V
  expired : Bool
deriving DecidableEq

/-- What happens to the entry under a key. -/
inductive Aging (K : Type) where
  | expire (k : K)
  /-- It is taken out, if it has expired. -/
  | sweep (k : K)
deriving DecidableEq

namespace AgingStore

variable {K V : Type} [DecidableEq K]

/-- The value of the entry under a key, if that is fresh. -/
def freshValue (es : List (AgingEntry K V)) (k : K) : Option V :=
  match es.find? (·.key = k) with
  | none => none
  | some e => if e.expired then none else some e.value

def expire (es : List (AgingEntry K V)) (k : K) :
    List (AgingEntry K V) :=
  es.map fun e => if e.key = k then { e with expired := true } else e

/-- The entries under other keys. -/
def without (es : List (AgingEntry K V)) (k : K) :
    List (AgingEntry K V) :=
  es.filter (·.key ≠ k)

def sweep (es : List (AgingEntry K V)) (k : K) : List (AgingEntry K V) :=
  match freshValue es k with
  | none => without es k
  | some _ => es

def ops (K V : Type) [DecidableEq K] : StoreOps K V where
  State := List (AgingEntry K V)
  Event := Aging K
  new _ _ := []
  get es k := (freshValue es k, es)
  add es k v := (es.any (·.key = k), ⟨k, v, false⟩ :: without es k)
  remove es k := (es.any (·.key = k), without es k)
  happen
    | .expire k, es => expire es k
    | .sweep k, es => sweep es k

/-- Nothing is found under a key that was left out. -/
theorem find?_without (es : List (AgingEntry K V)) (k k' : K) :
    (without es k).find? (·.key = k')
      = if k' = k then none else es.find? (·.key = k') := by
  unfold without
  rw [List.find?_filter]
  by_cases hk : k' = k
  · rw [if_pos hk, List.find?_eq_none]
    intro e _
    simp [hk]
  · rw [if_neg hk]
    congr 1
    funext e
    by_cases he : e.key = k'
    · simp [he, hk]
    · simp [he]

theorem freshValue_without (es : List (AgingEntry K V)) (k k' : K) :
    freshValue (without es k) k'
      = if k' = k then none else freshValue es k' := by
  unfold freshValue
  rw [find?_without]
  by_cases hk : k' = k
  · rw [if_pos hk, if_pos hk]
  · rw [if_neg hk, if_neg hk]

theorem freshValue_expire (es : List (AgingEntry K V)) (k k' : K) :
    freshValue (expire es k) k'
      = if k' = k then none else freshValue es k' := by
  induction es with
  | nil => simp [freshValue, expire]
  | cons e es ih =>
      unfold freshValue expire at ih ⊢
      by_cases hk : e.key = k'
      · by_cases he : e.key = k
        · simp [he, ← hk]
        · have hne : k' ≠ k := fun h => he (hk.trans h)
          simp [hk, hne]
      · by_cases he : e.key = k
        · simpa [he, he ▸ hk] using ih
        · simpa [he, hk] using ih

/-- An added entry is found, and hides nothing under other keys. -/
theorem freshValue_added (es : List (AgingEntry K V)) (k k' : K) (v : V) :
    freshValue (⟨k, v, false⟩ :: without es k) k'
      = if k' = k then some v else freshValue es k' := by
  by_cases hk : k' = k
  · simp [freshValue, hk]
  · have hcons : freshValue (⟨k, v, false⟩ :: without es k) k'
        = freshValue (without es k) k' := by
      unfold freshValue
      rw [List.find?_cons_of_neg (by simpa using Ne.symm hk)]
    rw [hcons, freshValue_without]
    simp [hk]

theorem mem_of_freshValue {es : List (AgingEntry K V)} {k : K} {v : V}
    (h : freshValue es k = some v) : k ∈ es.map AgingEntry.key := by
  unfold freshValue at h
  split at h
  · cases h
  · next e he =>
    have hkey := List.find?_some he
    exact List.mem_map.mpr ⟨e, List.mem_of_find?_eq_some he,
      by simpa using hkey⟩

theorem any_of_freshValue {es : List (AgingEntry K V)} {k : K} {v : V}
    (h : freshValue es k = some v) : es.any (·.key = k) = true := by
  obtain ⟨e, he, hkey⟩ := List.mem_map.mp (mem_of_freshValue h)
  exact List.any_eq_true.mpr ⟨e, he, decide_eq_true hkey⟩

/-- Where a key is left out, nothing else changes. -/
theorem loses_of_left_out {es es' : List (AgingEntry K V)} {k : K}
    (h : ∀ k', freshValue es' k'
      = if k' = k then none else freshValue es k') :
    (ops K V).Loses es es' := by
  intro k' v hv
  change freshValue es' k' = some v at hv
  rw [h] at hv
  split at hv
  · cases hv
  · exact hv

/-- Sweeping takes nothing away that would be found. -/
theorem freshValue_sweep (es : List (AgingEntry K V)) (k k' : K) :
    freshValue (sweep es k) k' = freshValue es k' := by
  unfold sweep
  split
  · next hnone =>
    rw [freshValue_without]
    split
    · next hk => rw [hk, hnone]
    · rfl
  · rfl

theorem lossy (K V : Type) [DecidableEq K] : (ops K V).Lossy where
  new_find _ _ _ _ _ := rfl
  get_loses s _ := .refl s
  add_find s k v := (freshValue_added s k k v).trans (if_pos rfl)
  add_others s k v k' _ hne h :=
    ((freshValue_added s k k' v).trans (if_neg hne)).symm.trans h
  remove_find s k := (freshValue_without s k k).trans (if_pos rfl)
  remove_loses s k := loses_of_left_out (freshValue_without s k)
  remove_told _ _ _ h := any_of_freshValue h
  happen_loses e s := by
    cases e with
    | expire k => exact loses_of_left_out (freshValue_expire s k)
    | sweep k =>
        exact fun k' _ h => (freshValue_sweep s k k').symm.trans h
  finite s := ⟨List.map AgingEntry.key s, fun _ _ h => mem_of_freshValue h⟩

end AgingStore

end CacheOperator.Lib
