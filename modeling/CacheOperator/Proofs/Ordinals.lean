/-
Pod names and their ordinals.

The drain builds names from ordinals (`podName`), the ring reads
ordinals from names (`podOrdinal`). For the ordinals a StatefulSet uses
the two are inverse to each other, whatever the cache is called.
`podOrdinal_eq_some` says which names have an ordinal at all, and these
are more.
-/
import CacheOperator.Proofs.Drain

namespace CacheOperator

open Lib

/-- The name a StatefulSet called `base` gives to its pod `i`. -/
def ordinalName (base : String) (i : Int) : String :=
  base ++ "-" ++ String.ofList (Decimal.format i)

section

variable {base : String} {cache : DistributedCache} {i j : Int}

theorem ordinalName_toList :
    (ordinalName base i).toList
      = base.toList ++ '-' :: Decimal.format i := by
  unfold ordinalName
  simp only [String.toList_append, String.toList_ofList,
    List.append_assoc]
  rfl

/-- Different ordinals have different names. -/
theorem podName_injective (h : podName cache i = podName cache j) :
    i = j := by
  have hl : (ordinalName cache.name i).toList
      = (ordinalName cache.name j).toList := congrArg String.toList h
  rw [ordinalName_toList, ordinalName_toList] at hl
  injection List.append_cancel_left hl with _ hl
  exact Decimal.format_injective hl

theorem afterLastDash_none {l : List Char} :
    afterLastDash l = none ↔ '-' ∉ l := by
  induction l with
  | nil => simp [afterLastDash]
  | cons c l ih =>
      rw [List.mem_cons, not_or]
      unfold afterLastDash
      cases hl : afterLastDash l with
      | some ds =>
          have hmem : ¬ '-' ∉ l := fun h => by
            rw [ih.mpr h] at hl
            cases hl
          simp [hmem]
      | none =>
          dsimp only
          by_cases hc : c = '-'
          · simp [hc]
          · rw [if_neg hc]
            exact ⟨fun _ => ⟨fun h => hc h.symm, ih.mp hl⟩, fun _ => rfl⟩

/-- Only the last dash counts. -/
theorem afterLastDash_append (l : List Char) {ds : List Char}
    (h : '-' ∉ ds) : afterLastDash (l ++ '-' :: ds) = some ds := by
  induction l with
  | nil =>
      show afterLastDash ('-' :: ds) = some ds
      unfold afterLastDash
      rw [afterLastDash_none.mpr h]
      rfl
  | cons c l ih =>
      rw [List.cons_append]
      unfold afterLastDash
      rw [ih]

theorem afterLastDash_eq_some {l ds : List Char}
    (h : afterLastDash l = some ds) :
    '-' ∉ ds ∧ ∃ base, l = base ++ '-' :: ds := by
  induction l with
  | nil => cases h
  | cons c l ih =>
      unfold afterLastDash at h
      cases hl : afterLastDash l with
      | some rest =>
          rw [hl] at h
          injection h with h
          subst h
          obtain ⟨hdash, base, hbase⟩ := ih hl
          exact ⟨hdash, c :: base, by rw [hbase]; rfl⟩
      | none =>
          rw [hl] at h
          dsimp only at h
          split at h
          · next hc =>
            injection h with h
            subst h hc
            exact ⟨afterLastDash_none.mp hl, [], rfl⟩
          · cases h

theorem dash_not_mem_format (hlo : 0 ≤ i) : '-' ∉ Decimal.format i := by
  intro hmem
  have hd := Decimal.isDigit_of_mem_format hlo hmem
  exact (Decimal.not_sign_of_isDigit hd).1 rfl

/-- The names with an ordinal: a 64-bit number after the last dash. -/
theorem podOrdinal_eq_some {name : String} {ord : Int} :
    podOrdinal name = some ord
      ↔ ∃ base ds n, name.toList = base ++ '-' :: ds ∧ '-' ∉ ds
        ∧ Decimal.parseInt64 ds = some n ∧ n.toInt = ord := by
  unfold podOrdinal
  constructor
  · intro h
    split at h
    · cases h
    · cases h
    · next ds _ hds =>
      obtain ⟨hdash, base, hbase⟩ := afterLastDash_eq_some hds
      obtain ⟨n, hn, hord⟩ := Option.map_eq_some_iff.mp h
      exact ⟨base, ds, n, hbase, hdash, hn, hord⟩
  · intro h
    obtain ⟨base, ds, n, hbase, hdash, hn, hord⟩ := h
    rw [hbase, afterLastDash_append base hdash]
    cases ds with
    | nil => cases hn
    | cons c ds =>
        dsimp only
        rw [hn, Option.map_some, hord]

/-- The ring reads the ordinal that the StatefulSet wrote. -/
theorem podOrdinal_ordinalName (hlo : 0 ≤ i) (hhi : i < 2 ^ 63) :
    podOrdinal (ordinalName base i) = some i := by
  have hint : (Int64.ofInt i).toInt = i := by
    rw [Int64.toInt_ofInt]
    exact Int.bmod_eq_of_le (by simp; omega) (by simp; omega)
  have hparse := Decimal.parseInt64_format (Int64.ofInt i)
  rw [hint] at hparse
  exact podOrdinal_eq_some.mpr ⟨_, _, _, ordinalName_toList,
    dash_not_mem_format hlo, hparse, hint⟩

/-- The ring reads the ordinal that the drain wrote. -/
theorem podOrdinal_podName (hlo : 0 ≤ i) (hhi : i < 2 ^ 63) :
    podOrdinal (podName cache i) = some i :=
  podOrdinal_ordinalName hlo hhi

end

/-- The drain and the ring agree on the ordinals of a StatefulSet: the ring
reads back what the drain wrote, and the drain dooms the pods between the
two numbers of replicas and no others. -/
theorem drain_and_ring_agree (cache : DistributedCache) (d c : Int32)
    (i : Int) (hlo : 0 ≤ i) (hhi : i < 2 ^ 31) :
    podOrdinal (podName cache i) = some i
      ∧ (podName cache i ∈ doomedNames cache d c
        ↔ d.toInt ≤ i ∧ i < c.toInt) := by
  refine ⟨podOrdinal_podName hlo (by omega), ?_⟩
  rw [mem_doomedNames]
  constructor
  · intro h
    obtain ⟨j, hdj, hjc, hname⟩ := h
    rw [← podName_injective hname]
    exact ⟨hdj, hjc⟩
  · intro h
    exact ⟨i, h.1, h.2, rfl⟩

/-- A cache whose own name looks like that of a pod. -/
def shopSeven : DistributedCache :=
  { metadata := { ns := "default", name := "shop-7" }
    body := Kind.distributedCache.zero }

theorem drain_and_ring_agree_shop :
    podOrdinal "shop-7-12" = some 12
      ∧ ("shop-7-12" ∈ doomedNames shopSeven 3 13
        ↔ (3 : Int32).toInt ≤ 12 ∧ 12 < (13 : Int32).toInt) :=
  drain_and_ring_agree shopSeven 3 13 12 (by decide) (by decide)

end CacheOperator
