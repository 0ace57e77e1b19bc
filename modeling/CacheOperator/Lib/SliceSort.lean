/-
Go's `sort` package: sorting a slice with a comparison (`sort.Slice`, by
its contract) and binary search (`sort.Search`, by its code).

The contract is that the result is a permutation of the input in which
no later element compares less than an earlier one, for a comparison
that is a strict weak order. Nothing is said about the order of equal
elements, so a `SliceSort` is any function that keeps the contract, and
results proved for every `SliceSort` do not depend on stability. What it
does fix is that the result is a function of the comparison and the
input: the library's sort draws no random numbers. `insertionSort` is
one that computes.
-/
import Mathlib.Data.List.Sort

namespace CacheOperator.Lib

/-- The comparisons `sort.Slice` may be given. -/
structure WeakOrder {α : Type} (less : α → α → Bool) : Prop where
  irrefl : ∀ a, less a a = false
  trans : ∀ a b c, less a b = true → less b c = true → less a c = true
  incomp : ∀ a b c, less a b = false → less b c = false →
    less a c = false

/-- Comparing by a key in a linear order. -/
def byKey {α κ : Type} [LinearOrder κ] (key : α → κ) (a b : α) : Bool :=
  decide (key a < key b)

theorem weakOrder_byKey {α κ : Type} [LinearOrder κ] (key : α → κ) :
    WeakOrder (byKey key) where
  irrefl a := by simp [byKey]
  trans a b c hab hbc := by
    simp only [byKey, decide_eq_true_eq] at *
    exact lt_trans hab hbc
  incomp a b c hab hbc := by
    simp only [byKey, decide_eq_false_iff_not, not_lt] at *
    exact le_trans hbc hab

/-- A sort that keeps the contract of `sort.Slice`. -/
structure SliceSort where
  sort : {α : Type} → (α → α → Bool) → List α → List α
  perm : ∀ {α : Type} (less : α → α → Bool) (l : List α),
    (sort less l).Perm l
  sorted : ∀ {α : Type} (less : α → α → Bool) (l : List α),
    WeakOrder less → (sort less l).Pairwise fun a b => less b a = false

namespace SliceSort

/-- Sorting by a key leaves the keys in ascending order. -/
theorem sorted_byKey (srt : SliceSort) {α κ : Type} [LinearOrder κ]
    (key : α → κ) (l : List α) :
    (srt.sort (byKey key) l).Pairwise fun a b => key a ≤ key b := by
  refine (srt.sorted _ l (weakOrder_byKey key)).imp ?_
  intro a b h
  simpa [byKey] using h

theorem mem_sort (srt : SliceSort) {α : Type} {less : α → α → Bool}
    {l : List α} {a : α} : a ∈ srt.sort less l ↔ a ∈ l :=
  (srt.perm less l).mem_iff

/-- Where the keys tell the elements apart, the result depends neither on
the order of the input nor on the sort. -/
theorem sort_eq_of_perm (srt srt' : SliceSort) {α κ : Type} [LinearOrder κ]
    {key : α → κ} {l l' : List α} (hperm : l'.Perm l)
    (hinj : ∀ a ∈ l, ∀ b ∈ l, key a = key b → a = b) :
    srt'.sort (byKey key) l' = srt.sort (byKey key) l := by
  have hmem : ∀ {a}, a ∈ srt'.sort (byKey key) l' → a ∈ l :=
    fun ha => hperm.mem_iff.mp (srt'.mem_sort.mp ha)
  apply List.Perm.eq_of_pairwise
    (fun a b ha hb hab hba =>
      hinj a (hmem ha) b (srt.mem_sort.mp hb) (le_antisymm hab hba))
    (srt'.sorted_byKey key l') (srt.sorted_byKey key l)
  exact ((srt'.perm _ l').trans hperm).trans (srt.perm _ l).symm

/-- Where the keys tell the elements apart and none occurs twice, they
ascend strictly. -/
theorem strictly_sorted (srt : SliceSort) {α κ : Type} [LinearOrder κ]
    {key : α → κ} {l : List α} (hnodup : l.Nodup)
    (hinj : ∀ a ∈ l, ∀ b ∈ l, key a = key b → a = b) :
    (srt.sort (byKey key) l).Pairwise fun a b => key a < key b := by
  have hne : (srt.sort (byKey key) l).Nodup :=
    (srt.perm _ l).nodup_iff.mpr hnodup
  apply ((srt.sorted_byKey key l).and hne).imp_of_mem
  intro a b ha hb h
  apply lt_of_le_of_ne h.1
  intro hkey
  exact h.2 (hinj a (srt.mem_sort.mp ha) b (srt.mem_sort.mp hb) hkey)

/-- Whatever the contract allows for one input, some sort returns. -/
theorem exists_sort {α : Type} {less : α → α → Bool} {l l' : List α}
    (srt : SliceSort) (hperm : l'.Perm l)
    (hsorted : l'.Pairwise fun a b => less b a = false) :
    ∃ srt' : SliceSort, srt'.sort less l = l' := by
  classical
  -- the input that gets the given answer; every other one goes to srt
  let Input := (γ : Type) × (γ → γ → Bool) × List γ
  let answer (x : Input) : List x.1 :=
    if h : x = ⟨α, less, l⟩ then h ▸ l' else srt.sort x.2.1 x.2.2
  have hanswer : ∀ x : Input, (answer x).Perm x.2.2
      ∧ (WeakOrder x.2.1 →
        (answer x).Pairwise fun a b => x.2.1 b a = false) := by
    intro x
    by_cases h : x = ⟨α, less, l⟩
    · subst h
      simp only [answer, dif_pos]
      exact ⟨hperm, fun _ => hsorted⟩
    · simp only [answer, dif_neg h]
      exact ⟨srt.perm _ _, srt.sorted _ _⟩
  refine ⟨⟨fun less l => answer ⟨_, less, l⟩,
    fun less l => (hanswer ⟨_, less, l⟩).1,
    fun less l => (hanswer ⟨_, less, l⟩).2⟩, ?_⟩
  simp only [answer, dif_pos]

/-- Insertion sort keeps the contract. -/
def insertionSort : SliceSort where
  sort less l := l.insertionSort fun a b => less b a = false
  perm less l := List.perm_insertionSort _ l
  sorted less l h := by
    have htot : Std.Total fun a b => less b a = false := by
      refine ⟨fun a b => ?_⟩
      by_contra hc
      simp only [not_or, Bool.not_eq_false] at hc
      have := h.trans _ _ _ hc.1 hc.2
      rw [h.irrefl] at this
      cases this
    have htr : IsTrans _ fun a b => less b a = false :=
      ⟨fun a b c hab hbc => h.incomp _ _ _ hbc hab⟩
    exact List.pairwise_insertionSort _ l

end SliceSort

/-- The loop of `sort.Search` on the bounds `i` and `j`; each turn halves
their distance, so `j - i` turns are more than enough. -/
def searchLoop (f : Nat → Bool) : Nat → Nat → Nat → Nat
  | 0, i, _ => i
  | fuel + 1, i, j =>
      if i < j then
        let h := (i + j) / 2
        if f h then searchLoop f fuel i h else searchLoop f fuel (h + 1) j
      else i

/-- `sort.Search(n, f)`. -/
def search (n : Nat) (f : Nat → Bool) : Nat := searchLoop f n 0 n

/-- What the bounds of the search have between them: `f` is false below
the lower one and true from the upper one on. -/
structure Bracket (n : Nat) (f : Nat → Bool) (i j : Nat) : Prop where
  le : i ≤ j
  le_size : j ≤ n
  below : ∀ k, k < i → f k = false
  above : ∀ k, j ≤ k → k < n → f k = true

/-- Once the predicate holds, it goes on to hold. -/
def Ascending (n : Nat) (f : Nat → Bool) : Prop :=
  ∀ i j, i ≤ j → j < n → f i = true → f j = true

theorem bracket_searchLoop {n : Nat} {f : Nat → Bool}
    (hf : Ascending n f) (fuel i j : Nat) (h : Bracket n f i j)
    (hfuel : j - i ≤ fuel) :
    Bracket n f (searchLoop f fuel i j) (searchLoop f fuel i j) := by
  fun_induction searchLoop f fuel i j with
  | case1 i j =>
      obtain rfl : j = i := by have := h.le; omega
      exact h
  | case2 fuel i j hij mid hmid ih =>
      apply ih
      · refine ⟨by omega, by have := h.le_size; omega, h.below, ?_⟩
        intro k hk hkn
        exact hf mid k hk hkn hmid
      · omega
  | case3 fuel i j hij mid hmid ih =>
      apply ih
      · refine ⟨by omega, h.le_size, ?_, h.above⟩
        intro k hk
        have hsize := h.le_size
        by_contra hfk
        rw [Bool.not_eq_false] at hfk
        exact hmid (hf k mid (by omega) (by omega) hfk)
      · omega
  | case4 fuel i j hij =>
      obtain rfl : j = i := by have := h.le; omega
      exact h

/-- The search finds the place where the predicate turns true. -/
theorem bracket_search {n : Nat} {f : Nat → Bool} (hf : Ascending n f) :
    Bracket n f (search n f) (search n f) := by
  apply bracket_searchLoop hf
  · exact ⟨Nat.zero_le n, le_refl n, fun k hk => by omega,
      fun k hk hkn => by omega⟩
  · omega

end CacheOperator.Lib
