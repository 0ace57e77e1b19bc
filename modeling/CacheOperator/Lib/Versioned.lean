/-
Histories of versioned values.

A writer goes on from the last entry: it keeps the version when the
value stays and adds one when the value changes (`Follows`). A list of
entries made so, newest first and starting from a base, is a `History`.
As long as the 64-bit version does not wrap, versions never go down
along a history; fewer than 2^63 entries are enough for that. Equal
versions carry equal values for longer, until the versions have gone all
the way round, so that a reader may compare versions instead of values
(`History.determines`).
-/
import Mathlib.Algebra.Group.Nat.Defs
import Mathlib.Data.List.Basic

namespace CacheOperator.Lib

section

variable {ρ α : Type} (ver : ρ → Int64) (val : ρ → α)

/-- The rule of one write. -/
structure Follows (new old : ρ) : Prop where
  same : val new = val old → ver new = ver old
  changed : val new ≠ val old → ver new = ver old + 1

/-- Entries that follow one another from `base` on, newest first. -/
inductive History (base : ρ) : List ρ → Prop
  | nil : History base []
  | cons {new : ρ} {h : List ρ} :
      Follows ver val new (h.headD base) → History base h →
      History base (new :: h)

end

namespace History

variable {ρ α : Type} {ver : ρ → Int64} {val : ρ → α} {base : ρ}
  {h : List ρ}

/-- One more does not wrap below the bound. -/
theorem toInt_succ {v : Int64} {n : Nat} (hlo : 0 ≤ v.toInt)
    (hhi : v.toInt ≤ n) (hn : n + 1 < 2 ^ 63) :
    (v + 1).toInt = v.toInt + 1 := by
  rw [Int64.toInt_add]
  exact Int.bmod_eq_of_le (by simp; omega) (by simp; omega)

/-- The newest version counts at most the entries. -/
theorem version_le (hh : History ver val base h) (hbase : ver base = 0)
    (hlen : h.length < 2 ^ 63) :
    0 ≤ (ver (h.headD base)).toInt
      ∧ (ver (h.headD base)).toInt ≤ h.length := by
  induction hh with
  | nil => simp [hbase]
  | @cons new h hf hh ih =>
      rw [List.length_cons] at hlen ⊢
      obtain ⟨hlo, hhi⟩ := ih (by omega)
      rw [List.headD_cons]
      by_cases hv : val new = val (h.headD base)
      · rw [hf.same hv]
        omega
      · rw [hf.changed hv, toInt_succ hlo hhi hlen]
        omega

/-- No entry, nor the base, has a greater version than the newest; the
same version means the same value. -/
theorem newest (hh : History ver val base h) (hbase : ver base = 0)
    (hlen : h.length < 2 ^ 63) {x : ρ} (hx : x = base ∨ x ∈ h) :
    (ver x).toInt ≤ (ver (h.headD base)).toInt
      ∧ (ver x = ver (h.headD base) → val x = val (h.headD base)) := by
  induction hh with
  | nil =>
      rcases hx with rfl | hx
      · exact ⟨Int.le_refl _, fun _ => rfl⟩
      · cases hx
  | @cons new h hf hh ih =>
      rw [List.length_cons] at hlen
      rw [List.headD_cons]
      obtain ⟨hlo, hhi⟩ := hh.version_le hbase (by omega)
      -- what the rule says about the newest entry's version
      have hcase : val new = val (h.headD base)
            ∧ ver new = ver (h.headD base)
          ∨ (ver new).toInt = (ver (h.headD base)).toInt + 1 := by
        by_cases hv : val new = val (h.headD base)
        · exact Or.inl ⟨hv, hf.same hv⟩
        · right
          rw [hf.changed hv, toInt_succ hlo hhi hlen]
      by_cases hxn : x = new
      · subst hxn
        exact ⟨Int.le_refl _, fun _ => rfl⟩
      · have hx' : x = base ∨ x ∈ h := by
          rcases hx with rfl | hx
          · exact Or.inl rfl
          · rcases List.mem_cons.mp hx with rfl | hx
            · exact absurd rfl hxn
            · exact Or.inr hx
        obtain ⟨hle, heq⟩ := ih (by omega) hx'
        rcases hcase with ⟨hval, hver⟩ | hver
        · rw [hver, hval]
          exact ⟨hle, heq⟩
        · refine ⟨by omega, fun hx => ?_⟩
          rw [hx] at hle
          omega

/-- Each entry follows the next older one, and the oldest the base. -/
theorem chain (hh : History ver val base h) :
    (h ++ [base]).IsChain (Follows ver val) := by
  induction hh with
  | nil => exact .singleton base
  | @cons new h hf hh ih =>
      cases h with
      | nil => exact .cons_cons hf ih
      | cons x h => exact .cons_cons hf ih

/-- Along the history versions never go down, and equal versions carry
equal values. -/
theorem pairwise (hh : History ver val base h) (hbase : ver base = 0)
    (hlen : h.length < 2 ^ 63) :
    h.Pairwise fun newer older => ver older ≤ ver newer
      ∧ (ver older = ver newer → val older = val newer) := by
  induction hh with
  | nil => exact .nil
  | @cons new h hf hh ih =>
      have hcons := History.cons hf hh
      rw [List.length_cons] at hlen
      refine List.pairwise_cons.mpr ⟨fun x hx => ?_, ih (by omega)⟩
      obtain ⟨hle, heq⟩ := hcons.newest hbase
        (by rw [List.length_cons]; exact hlen)
        (Or.inr (List.mem_cons_of_mem new hx))
      exact ⟨Int64.le_iff_toInt_le.mpr hle, heq⟩

/-- How far the newest version is ahead of an entry's: not at all only
with the same value. -/
theorem ahead (hh : History ver val base h) {x : ρ} (hx : x ∈ h) :
    ∃ k < h.length, ver (h.headD base) = ver x + Int64.ofNat k
      ∧ (k = 0 → val (h.headD base) = val x) := by
  induction hh with
  | nil => cases hx
  | @cons new h hf hh ih =>
      rw [List.headD_cons, List.length_cons]
      rcases List.mem_cons.mp hx with rfl | hx'
      · exact ⟨0, Nat.succ_pos _, (Int64.add_zero _).symm, fun _ => rfl⟩
      · obtain ⟨k, hk, hver, hval⟩ := ih hx'
        by_cases hv : val new = val (h.headD base)
        · exact ⟨k, Nat.lt_succ_of_lt hk, (hf.same hv).trans hver,
            fun h0 => hv.trans (hval h0)⟩
        · refine ⟨k + 1, Nat.succ_lt_succ hk, ?_, nofun⟩
          rw [hf.changed hv, hver, Int64.ofNat_add, Int64.add_assoc]
          rfl

/-- The newest version is an entry's own only with the same value, unless
the versions have gone all the way round. -/
theorem eq_newest (hh : History ver val base h) (hlen : h.length ≤ 2 ^ 64)
    {x : ρ} (hx : x ∈ h) (hv : ver (h.headD base) = ver x) :
    val (h.headD base) = val x := by
  obtain ⟨k, hk, hver, hval⟩ := hh.ahead hx
  rw [hv] at hver
  apply hval
  have hzero := congrArg Int64.toBitVec (Int64.left_eq_add.mp hver)
  have hmod : k % 2 ^ 64 = 0 := by
    simpa using congrArg BitVec.toNat hzero
  omega

/-- A version determines the value, among all entries, unless the
versions have gone all the way round. -/
theorem determines (hh : History ver val base h) (hlen : h.length ≤ 2 ^ 64)
    {x y : ρ} (hx : x ∈ h) (hy : y ∈ h) (hv : ver x = ver y) :
    val x = val y := by
  induction hh with
  | nil => cases hx
  | @cons new h hf hh ih =>
      have hcons := History.cons hf hh
      rcases List.mem_cons.mp hx with rfl | hx'
      · exact hcons.eq_newest hlen hy hv
      · rcases List.mem_cons.mp hy with rfl | hy'
        · exact (hcons.eq_newest hlen hx hv.symm).symm
        · rw [List.length_cons] at hlen
          exact ih (by omega) hx' hy'

/-- An entry at version 0 has the value of the base. -/
theorem value_at_zero (hh : History ver val base h) (hbase : ver base = 0)
    (hlen : h.length < 2 ^ 63) {x : ρ} (hx : x ∈ h) (hv : ver x = 0) :
    val x = val base := by
  induction hh with
  | nil => cases hx
  | @cons new h hf hh ih =>
      have hcons := History.cons hf hh
      rw [List.length_cons] at hlen
      rcases List.mem_cons.mp hx with rfl | hx'
      · refine ((hcons.newest hbase hlen (Or.inl rfl)).2 ?_).symm
        rw [List.headD_cons, hv, hbase]
      · exact ih (by omega) hx'

end History

end CacheOperator.Lib
