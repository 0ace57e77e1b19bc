/-
Decimal integers as text: the printer and the parser of Go's `strconv`.

`format` prints the digits of an integer with a leading minus sign where
it is negative. `parse` accepts an optional sign and a non-empty run of
digits, and nothing else: no blanks, no underscores, no other base.
`parseInt64` adds the range check of `ParseInt(s, 10, 64)`; `Atoi` is the
same function on a 64-bit machine. The round trip (`parseInt64_format`)
is what every use of a printed number in this development rests on; the
facts about the first digit are what a reader of JSON numbers, where a
leading zero ends the number, needs.
-/
import Mathlib.Data.List.Basic
import Mathlib.Tactic

namespace CacheOperator.Lib.Decimal

/-- `strconv.FormatInt(n, 10)`. -/
def format : Int → List Char
  | .ofNat n => Nat.toDigits 10 n
  | .negSucc n => '-' :: Nat.toDigits 10 (n + 1)

/-- A non-empty run of digits. -/
def parseUnsigned (t : List Char) : Option Nat :=
  if t.isEmpty || !t.all Char.isDigit then none
  else some (Nat.ofDigitChars 10 t 0)

/-- An optional sign and a non-empty run of digits. -/
def parse : List Char → Option Int
  | '-' :: t => (parseUnsigned t).map fun n => -(n : Int)
  | '+' :: t => (parseUnsigned t).map fun n => (n : Int)
  | t => (parseUnsigned t).map fun n => (n : Int)

/-- `strconv.ParseInt(t, 10, 64)`. -/
def parseInt64 (t : List Char) : Option Int64 :=
  (parse t).bind fun n =>
    if -2 ^ 63 ≤ n ∧ n < 2 ^ 63 then some (Int64.ofInt n) else none

-- ==================================================== the digit runs

theorem parseUnsigned_toDigits (n : Nat) :
    parseUnsigned (Nat.toDigits 10 n) = some n := by
  have hne : (Nat.toDigits 10 n).isEmpty = false := by
    rw [List.isEmpty_eq_false_iff]
    exact Nat.toDigits_ne_nil
  have hall : (Nat.toDigits 10 n).all Char.isDigit = true := by
    rw [List.all_eq_true]
    intro c hc
    exact Nat.isDigit_of_mem_toDigits (by omega) (by omega) hc
  simp only [parseUnsigned, hne, hall]
  simp [Nat.ofDigitChars_ten_toDigits]

/-- A digit is neither sign. -/
theorem not_sign_of_isDigit {c : Char} (hc : c.isDigit = true) :
    c ≠ '-' ∧ c ≠ '+' := by
  constructor <;> (rintro rfl; revert hc; decide)

theorem parse_digits {t : List Char} {n : Nat}
    (h : parseUnsigned t = some n) : parse t = some (n : Int) := by
  cases t with
  | nil => simp [parseUnsigned] at h
  | cons c t =>
      have hd : c.isDigit = true := by
        by_contra hc
        simp [parseUnsigned, hc] at h
      obtain ⟨hm, hp⟩ := not_sign_of_isDigit hd
      unfold parse
      split
      · next heq => exact absurd (List.cons.inj heq).1 hm
      · next heq => exact absurd (List.cons.inj heq).1 hp
      · rw [h]; rfl

/-- Printing and parsing give the number back. -/
theorem parse_format (n : Int) : parse (format n) = some n := by
  cases n with
  | ofNat n => exact parse_digits (parseUnsigned_toDigits n)
  | negSucc n =>
      simp only [format, parse, parseUnsigned_toDigits]
      rfl

/-- Printing and parsing give a 64-bit number back. -/
theorem parseInt64_format (n : Int64) :
    parseInt64 (format n.toInt) = some n := by
  have hlo := n.le_toInt
  have hhi := n.toInt_lt
  rw [parseInt64, parse_format, Option.bind_some, if_pos ⟨hlo, hhi⟩,
    Int64.ofInt_toInt]

theorem format_injective : Function.Injective format := by
  intro m n h
  have hp : parse (format m) = parse (format n) := by rw [h]
  rw [parse_format, parse_format] at hp
  exact Option.some.inj hp

-- ================================================= the characters used

/-- A natural number prints as digits only. -/
theorem isDigit_of_mem_format {n : Int} (hn : 0 ≤ n) {c : Char}
    (hc : c ∈ format n) : c.isDigit = true := by
  cases n with
  | ofNat n => exact Nat.isDigit_of_mem_toDigits (by omega) (by omega) hc
  | negSucc n => omega

/-- A positive number does not start with a zero. -/
theorem head_toDigits_ne_zero {n : Nat} (hn : 0 < n) :
    (Nat.toDigits 10 n).head Nat.toDigits_ne_nil ≠ '0' := by
  induction n using Nat.strong_induction_on with
  | _ n ih =>
      by_cases hlt : n < 10
      · have hd := Nat.toDigits_of_lt_base hlt
        simp only [hd, List.head_cons]
        interval_cases n <;> decide
      · have hd := Nat.toDigits_of_base_le (b := 10) (n := n) (by omega)
          (by omega)
        have hpos : 0 < n / 10 := by omega
        have hih := ih (n / 10) (by omega) hpos
        simp only [hd]
        rwa [List.head_append_of_ne_nil]

/-- The digits of a natural number are a single zero, or start with
another digit. -/
theorem toDigits_shape (n : Nat) :
    Nat.toDigits 10 n = ['0'] ∨
      ∃ c t, Nat.toDigits 10 n = c :: t ∧ c ≠ '0' ∧ c.isDigit = true := by
  rcases Nat.eq_zero_or_pos n with rfl | hn
  · exact Or.inl (Nat.toDigits_zero 10)
  · right
    cases h : Nat.toDigits 10 n with
    | nil => exact absurd h Nat.toDigits_ne_nil
    | cons c t =>
        refine ⟨c, t, rfl, ?_, ?_⟩
        · have hh := head_toDigits_ne_zero hn
          simpa [h] using hh
        · exact Nat.isDigit_of_mem_toDigits (by omega) (by omega)
            (h ▸ List.mem_cons_self)

-- ==================================================== canonical forms

/-- A numeral with a plus sign or a leading zero: it can be read, but is
never printed. -/
def Padded (t : List Char) : Prop :=
  (∃ ds, t = '+' :: ds) ∨ ∃ c ds, t = '0' :: c :: ds

/-- A digit is the printed form of its value. -/
theorem toDigits_digit {c : Char} (hc : c.isDigit = true) :
    Nat.toDigits 10 (c.toNat - '0'.toNat) = [c]
      ∧ c.toNat - '0'.toNat < 10 := by
  have hrange : 48 ≤ c.toNat ∧ c.toNat ≤ 57 := by
    simpa [Char.isDigit, UInt32.le_iff_toNat_le] using hc
  have hlt : c.toNat - '0'.toNat < 10 := by
    show c.toNat - 48 < 10
    omega
  refine ⟨?_, hlt⟩
  rw [Nat.toDigits_of_lt_base hlt]
  congr 1
  apply Char.toNat_inj.mp
  rw [Nat.toNat_digitChar_of_lt_ten hlt]
  show 48 + (c.toNat - 48) = c.toNat
  omega

/-- Reading on after the digits of a positive number appends to them. -/
theorem toDigits_ofDigitChars {cs : List Char}
    (hcs : ∀ c ∈ cs, c.isDigit = true) {acc : Nat} (hacc : 0 < acc) :
    Nat.toDigits 10 (Nat.ofDigitChars 10 cs acc)
      = Nat.toDigits 10 acc ++ cs := by
  induction cs generalizing acc with
  | nil => simp [Nat.ofDigitChars]
  | cons c cs ih =>
      obtain ⟨hdigit, hlt⟩ := toDigits_digit (hcs c List.mem_cons_self)
      have hstep := Nat.toDigits_append_toDigits (b := 10) (n := acc)
        (by decide) hacc hlt
      have hrest : ∀ d ∈ cs, d.isDigit = true :=
        fun d hd => hcs d (List.mem_cons_of_mem c hd)
      rw [Nat.ofDigitChars_cons, ih hrest (by omega), ← hstep, hdigit,
        List.append_assoc]
      rfl

/-- A run of digits that is not padded is the printed form of its
value. -/
theorem toDigits_of_parseUnsigned {t : List Char} {n : Nat}
    (h : parseUnsigned t = some n) (ht : ¬Padded t) :
    Nat.toDigits 10 n = t := by
  unfold parseUnsigned at h
  split at h
  · cases h
  next hdigits =>
  injection h with h
  subst h
  simp only [Bool.or_eq_true, not_or, Bool.not_eq_true,
    Bool.not_eq_false', List.all_eq_true] at hdigits
  obtain ⟨hne, hall⟩ := hdigits
  cases t with
  | nil => cases hne
  | cons c cs =>
      obtain ⟨hdigit, -⟩ := toDigits_digit (hall c List.mem_cons_self)
      have hrest : ∀ d ∈ cs, d.isDigit = true :=
        fun d hd => hall d (List.mem_cons_of_mem c hd)
      by_cases hzero : c = '0'
      · -- a zero that is not padding stands alone
        subst hzero
        cases cs with
        | nil => decide
        | cons d ds => exact absurd (Or.inr ⟨d, ds, rfl⟩) ht
      · have hpos : 0 < c.toNat - '0'.toNat := by
          rw [Nat.pos_iff_ne_zero]
          intro hval
          rw [hval, Nat.toDigits_zero] at hdigit
          exact hzero (List.cons.inj hdigit).1.symm
        rw [Nat.ofDigitChars_cons, Nat.mul_zero, Nat.zero_add,
          toDigits_ofDigitChars hrest hpos, hdigit]
        rfl

/-- A numeral that has no minus sign and is not padded is the printed form
of its value. -/
theorem format_of_parse {t : List Char} {n : Int} (h : parse t = some n)
    (hminus : '-' ∉ t) (ht : ¬Padded t) : 0 ≤ n ∧ format n = t := by
  unfold parse at h
  split at h
  · exact absurd List.mem_cons_self hminus
  · next ds => exact absurd (Or.inl ⟨ds, rfl⟩) ht
  · cases hm : parseUnsigned t with
    | none =>
        rw [hm] at h
        cases h
    | some m =>
        rw [hm] at h
        cases h
        exact ⟨Int.natCast_nonneg m, toDigits_of_parseUnsigned hm ht⟩

/-- A natural number is not printed padded. -/
theorem not_padded_format {n : Int} (hn : 0 ≤ n) : ¬Padded (format n) := by
  intro h
  rcases h with ⟨ds, hds⟩ | ⟨c, ds, hds⟩
  · have hdigit := isDigit_of_mem_format hn (hds ▸ List.mem_cons_self)
    exact (not_sign_of_isDigit hdigit).2 rfl
  · cases n with
    | negSucc n => omega
    | ofNat n =>
        have hds' : Nat.toDigits 10 n = '0' :: c :: ds := hds
        rcases toDigits_shape n with hz | ⟨d, t, hd, hne, -⟩
        · rw [hz] at hds'
          cases hds'
        · rw [hd] at hds'
          exact hne (List.cons.inj hds').1

/-- What a 64-bit number was read from. -/
theorem parseInt64_eq_some {t : List Char} {n : Int64}
    (h : parseInt64 t = some n) : parse t = some n.toInt := by
  obtain ⟨m, hm, hn⟩ := Option.bind_eq_some_iff.mp h
  split at hn
  · next hrange =>
    injection hn with hn
    subst hn
    rw [hm, Int64.toInt_ofInt, Int.bmod_eq_of_le (by simp; omega)
      (by simp; omega)]
  · cases hn

end CacheOperator.Lib.Decimal
