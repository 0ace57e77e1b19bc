/-
Placement on a circle: every key belongs to the next point at or after
it, and past the last point the circle starts again.

`IsNext P h p` says which point of a set `P` that is; it is at most one
(`IsNext.unique`) and, among fewer points, still the same one as long as
it is there (`IsNext.of_subset`). `Owner V h b` is the placement with
owners at the points: `b` has a node at the next point. Several may, so
it is a relation, and what changes when one party's nodes are added is
said for the case that nobody else has a node at the same point
(`Owner.of_insert`). `isNext_wrapped` is the search in a sorted list.
-/
import CacheOperator.Lib.SliceSort
import Mathlib.Order.Bounds.Basic

namespace CacheOperator.Lib

variable {κ β : Type} [LinearOrder κ] {P P' : Set κ} {h p q : κ}

/-- `p` is the next point of `P` from `h` on, going round. -/
def IsNext (P : Set κ) (h p : κ) : Prop :=
  IsLeast {q | q ∈ P ∧ h ≤ q} p ∨ ((∀ q ∈ P, q < h) ∧ IsLeast P p)

theorem isNext_iff : IsNext P h p ↔
    p ∈ P ∧ ((h ≤ p ∧ ∀ q ∈ P, h ≤ q → p ≤ q)
      ∨ ((∀ q ∈ P, q < h) ∧ ∀ q ∈ P, p ≤ q)) := by
  simp only [IsNext, IsLeast, lowerBounds, Set.mem_ofPred_eq, and_imp]
  tauto

namespace IsNext

theorem unique (hp : IsNext P h p) (hq : IsNext P h q) : p = q := by
  obtain hp | ⟨hlow, hp⟩ := hp
  · obtain hq | ⟨hlow, -⟩ := hq
    · exact hp.unique hq
    · exact absurd hp.1.2 (not_le.mpr (hlow p hp.1.1))
  · obtain hq | ⟨-, hq⟩ := hq
    · exact absurd hq.1.2 (not_le.mpr (hlow q hq.1.1))
    · exact hp.unique hq

/-- Taking other points away leaves the next point what it is. -/
theorem of_subset (hp : IsNext P' h p) (hsub : P ⊆ P') (hmem : p ∈ P) :
    IsNext P h p := by
  obtain hp | ⟨hlow, hp⟩ := hp
  · refine Or.inl ⟨⟨hmem, hp.1.2⟩, ?_⟩
    intro q hq
    exact hp.2 ⟨hsub hq.1, hq.2⟩
  · refine Or.inr ⟨fun q hq => hlow q (hsub hq), hmem, ?_⟩
    intro q hq
    exact hp.2 (hsub hq)

end IsNext

-- ============================================================= owners

/-- The points where somebody has a node. -/
def points (V : Set (κ × β)) : Set κ := {p | ∃ b, (p, b) ∈ V}

/-- `b` has a node at the next point from `h` on. -/
def Owner (V : Set (κ × β)) (h : κ) (b : β) : Prop :=
  ∃ p, IsNext (points V) h p ∧ (p, b) ∈ V

namespace Owner

variable {V V' : Set (κ × β)} {b b' m : β}

/-- With the nodes of `m` added, a key is owned by `m` or by somebody who
owned it before; and if all the nodes at its point are one party's, by
nobody else than before. -/
theorem of_insert (hsub : V ⊆ V') (hnew : ∀ v ∈ V', v.2 ≠ m → v ∈ V)
    (hsole : ∀ b b', Owner V' h b → Owner V' h b' → b = b')
    (hb' : Owner V' h b') (hb : Owner V h b) : b' = m ∨ b' = b := by
  obtain ⟨p, hp, hv⟩ := hb'
  by_cases hm : b' = m
  · exact Or.inl hm
  -- the next point is one that was there before
  have hold : (p, b') ∈ V := hnew (p, b') hv hm
  have hpoints : points V ⊆ points V' := fun q ⟨c, hc⟩ => ⟨c, hsub hc⟩
  have hnext : IsNext (points V) h p := hp.of_subset hpoints ⟨b', hold⟩
  obtain ⟨q, hq, hw⟩ := hb
  obtain rfl : q = p := hq.unique hnext
  exact Or.inr (hsole b' b ⟨q, hp, hv⟩ ⟨q, hp, hsub hw⟩)

/-- Between any two placements a key stays with its owner, if the owners
have their nodes in both. -/
theorem same (hb : Owner V h b) (hb' : Owner V' h b')
    (hsole : ∀ b b', Owner V' h b → Owner V' h b' → b = b')
    (hin : ∀ p, (p, b) ∈ V → (p, b) ∈ V')
    (hin' : ∀ p, (p, b') ∈ V' → (p, b') ∈ V) : b = b' := by
  obtain ⟨p, hp, hv⟩ := hb
  obtain ⟨q, hq, hw⟩ := hb'
  -- both points are next among the points that stay
  have hnext : IsNext (points (V ∩ V')) h p := by
    refine hp.of_subset ?_ ⟨b, hv, hin p hv⟩
    intro x ⟨c, hc⟩
    exact ⟨c, hc.1⟩
  have hnext' : IsNext (points (V ∩ V')) h q := by
    refine hq.of_subset ?_ ⟨b', hin' q hw, hw⟩
    intro x ⟨c, hc⟩
    exact ⟨c, hc.2⟩
  obtain rfl : p = q := hnext.unique hnext'
  exact hsole b b' ⟨p, hq, hin p hv⟩ ⟨p, hq, hw⟩

end Owner

-- ========================================== the search in a sorted list

/-- The first index from which on the list is at or past `h`, and the
start when there is none. -/
def wrapped (n i : Nat) : Nat := if i = n then 0 else i

/-- Searching a sorted list and wrapping around finds the next point, and
the first of the places that hold it. -/
theorem isNext_wrapped {l : List κ} (hsorted : l.Pairwise (· ≤ ·))
    (hne : l ≠ []) {f : Nat → Bool}
    (hf : ∀ i (hi : i < l.length), f i = true ↔ h ≤ l[i]) :
    ∃ hi : wrapped l.length (search l.length f) < l.length,
      IsNext {q | q ∈ l} h (l.get ⟨_, hi⟩)
        ∧ ∀ j (hj : j < l.length), l[j] = l.get ⟨_, hi⟩ →
          wrapped l.length (search l.length f) ≤ j := by
  have hle : ∀ i j (hj : j < l.length) (hij : i ≤ j), l[i] ≤ l[j] := by
    intro i j hj hij
    obtain rfl | hlt := Nat.eq_or_lt_of_le hij
    · exact le_refl _
    · exact List.pairwise_iff_getElem.mp hsorted i j _ hj hlt
  have hasc : Ascending l.length f := by
    intro i j hij hj hi
    rw [hf j hj]
    exact le_trans ((hf i (by omega)).mp hi) (hle i j hj hij)
  have hb := bracket_search hasc
  generalize search l.length f = i at hb
  have hpos : 0 < l.length := List.length_pos_iff.mpr hne
  by_cases hi : i = l.length
  · -- everything is below the key: round to the start
    have hzero : wrapped l.length i = 0 := if_pos hi
    have hlow : ∀ q ∈ l, q < h := by
      intro q hq
      obtain ⟨k, hk, rfl⟩ := List.getElem_of_mem hq
      by_contra hc
      have hfk : f k = true := (hf k hk).mpr (not_lt.mp hc)
      rw [hb.below k (by omega)] at hfk
      cases hfk
    refine ⟨by omega, Or.inr ⟨hlow, List.get_mem _ _, ?_⟩, ?_⟩
    · intro q hq
      obtain ⟨k, hk, rfl⟩ := List.getElem_of_mem hq
      simp only [hzero]
      exact hle 0 k hk (Nat.zero_le k)
    · intro j hj _
      omega
  · have hsame : wrapped l.length i = i := if_neg hi
    have hlt : i < l.length := by have := hb.le_size; omega
    have hfi : h ≤ l[i] := (hf i hlt).mp (hb.above i (le_refl i) hlt)
    simp only [hsame]
    refine ⟨hlt, Or.inl ⟨⟨List.get_mem _ _, hfi⟩, ?_⟩, ?_⟩
    · rintro q ⟨hq, hge⟩
      obtain ⟨k, hk, rfl⟩ := List.getElem_of_mem hq
      have hik : i ≤ k := by
        by_contra hc
        have hfk : f k = true := (hf k hk).mpr hge
        rw [hb.below k (by omega)] at hfk
        cases hfk
      exact hle i k hk hik
    · intro j hj heq
      by_contra hc
      have hfj : f j = true := (hf j hj).mpr (by rw [heq]; exact hfi)
      rw [hb.below j (by omega)] at hfj
      cases hfj

end CacheOperator.Lib
