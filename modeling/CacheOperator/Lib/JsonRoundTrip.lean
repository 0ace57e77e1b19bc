/-
What `print` writes, `parse` reads back.

The proof follows the reader's parts. A string: one escaped character
reads as one piece, and the pieces of a printed string assemble to the
string again, because no escape the printer uses is a surrogate. A
number: a literal that the scanner reads to its end, whatever may follow
a number. Values: by induction on the value, with the printed length as
the bound on the fuel, so that the fuel `parse` starts with is enough.
-/
import CacheOperator.Lib.Json
import CacheOperator.Lib.Decimal

namespace CacheOperator.Lib.Json

-- ============================================================ strings

theorem hexVal_hexDigit {n : Nat} (hn : n < 16) :
    hexVal (hexDigit n) = some n := by
  interval_cases n <;> decide

theorem hex4_hexDigit {n : Nat} (hn : n < 65536) :
    hex4 (hexDigit (n / 4096)) (hexDigit (n / 256 % 16))
      (hexDigit (n / 16 % 16)) (hexDigit (n % 16)) = some n := by
  have h1 := hexVal_hexDigit (n := n / 4096) (by omega)
  have h2 := hexVal_hexDigit (n := n / 256 % 16) (by omega)
  have h3 := hexVal_hexDigit (n := n / 16 % 16) (by omega)
  have h4 := hexVal_hexDigit (n := n % 16) (by omega)
  simp only [hex4, h1, h2, h3, h4]
  congr 1
  omega

/-- The printer falls back on `\u` for `c`. -/
def usesUnit (c : Char) : Bool :=
  needsUnit c && !(c.toNat == 8 || c.toNat == 12 || c == '\n' || c == '\r'
    || c == '\t')

/-- The piece that `c` is printed as. -/
def pieceOf (c : Char) : Piece :=
  if usesUnit c then .unit c.toNat else .char c

/-- Characters printed with `\u` are far from the surrogates. -/
theorem toNat_lt_of_needsUnit {c : Char} (h : needsUnit c = true) :
    c.toNat < 0x3000 := by
  simp only [needsUnit, Bool.or_eq_true, decide_eq_true_eq,
    beq_iff_eq] at h
  rcases h with ((((h | rfl) | rfl) | rfl) | h) | h
  · omega
  · decide
  · decide
  · decide
  · omega
  · omega

theorem char_of_toNat {c : Char} {n : Nat} (h : c.toNat = n) :
    c = Char.ofNat n := by
  rw [← h, Char.ofNat_toNat]

/-- One printed character reads as one piece. -/
theorem scanString_escape (c : Char) (t : List Char) :
    scanString (escape c ++ t)
      = (scanString t).map fun p => (pieceOf c :: p.1, p.2) := by
  unfold escape
  split
  · next h => subst h; simp [scanString, unescape, pieceOf]; rfl
  split
  · next h => subst h; simp [scanString, unescape, pieceOf]; rfl
  split
  · next h =>
    obtain rfl := char_of_toNat h
    simp [scanString, unescape, pieceOf]; rfl
  split
  · next h =>
    obtain rfl := char_of_toNat h
    simp [scanString, unescape, pieceOf]; rfl
  split
  · next h => subst h; simp [scanString, unescape, pieceOf]; rfl
  split
  · next h => subst h; simp [scanString, unescape, pieceOf]; rfl
  split
  · next h => subst h; simp [scanString, unescape, pieceOf]; rfl
  next h1 h2 h3 h4 h5 h6 h7 =>
  split
  · next h =>
    have hlt := toNat_lt_of_needsUnit h
    have hp : pieceOf c = .unit c.toNat := by
      simp [pieceOf, usesUnit, h, h3, h4, h5, h6, h7]
    simp [scanString, hex4_hexDigit (n := c.toNat) (by omega), hp]
  · next h =>
    have hp : pieceOf c = .char c := by simp [pieceOf, usesUnit, h]
    have hge : ¬ c.toNat < 32 := by
      intro hlt
      apply h
      simp [needsUnit, hlt]
    rw [List.singleton_append, scanString.eq_def]
    simp [h1, h2, hge, hp]

theorem scanString_escapes (s t : List Char) :
    scanString (s.flatMap escape ++ '"' :: t)
      = some (s.map pieceOf, t) := by
  induction s with
  | nil => rw [List.flatMap_nil, List.nil_append, scanString.eq_def]; rfl
  | cons c s ih =>
      rw [List.flatMap_cons, List.append_assoc, scanString_escape, ih]
      rfl

theorem assemble_unit {n : Nat} (hn : n < 0xD800) (ps : List Piece) :
    assemble (.unit n :: ps) = Char.ofNat n :: assemble ps := by
  have hc : unitChar n = Char.ofNat n := by
    rw [unitChar, if_neg]
    omega
  cases ps with
  | nil => rw [assemble.eq_def]; simp [hc]
  | cons p ps =>
      cases p with
      | char c => rw [assemble.eq_def]; simp [hc]
      | unit lo =>
          rw [assemble, if_neg, hc]
          omega

theorem assemble_pieceOf (s : List Char) :
    assemble (s.map pieceOf) = s := by
  induction s with
  | nil => rfl
  | cons c s ih =>
      rw [List.map_cons]
      by_cases hu : usesUnit c = true
      · have hn : needsUnit c = true := by
          simp only [usesUnit, Bool.and_eq_true] at hu
          exact hu.1
        have hlt := toNat_lt_of_needsUnit hn
        rw [pieceOf, if_pos hu, assemble_unit (by omega), ih,
          Char.ofNat_toNat]
      · rw [pieceOf, if_neg hu, assemble, ih]

/-- A printed string reads back as itself. -/
theorem string_escapes (s t : List Char) :
    string (s.flatMap escape ++ '"' :: t) = some (s, t) := by
  rw [string, scanString_escapes]
  simp [assemble_pieceOf]

-- ============================================================ numbers

/-- `t` cannot continue a number. -/
def EndsNumber : List Char → Prop
  | [] => True
  | c :: _ => c.isDigit = false ∧ c ≠ '.' ∧ c ≠ 'e' ∧ c ≠ 'E'

/-- A number literal: it starts as numbers do, and the scanner reads it
to its end. -/
structure IsNumber (lit : List Char) : Prop where
  head : ∃ c t, lit = c :: t ∧ (c = '-' ∨ c.isDigit = true)
  scan : ∀ t, EndsNumber t → scanNumber (lit ++ t) = some (lit, t)

theorem scanFraction_end {t : List Char} (ht : EndsNumber t) :
    scanFraction t = some ([], t) := by
  cases t with
  | nil => rfl
  | cons c t =>
      unfold scanFraction
      split
      · next h => exact absurd (List.cons.inj h).1 ht.2.1
      · rfl

theorem scanExponent_end {t : List Char} (ht : EndsNumber t) :
    scanExponent t = some ([], t) := by
  cases t with
  | nil => rfl
  | cons c t => simp [scanExponent, ht.2.2.1, ht.2.2.2]

theorem takeWhile_digits {ds t : List Char}
    (hd : ∀ c ∈ ds, c.isDigit = true) (ht : EndsNumber t) :
    (ds ++ t).takeWhile Char.isDigit = ds
      ∧ (ds ++ t).dropWhile Char.isDigit = t := by
  induction ds with
  | nil =>
      cases t with
      | nil => exact ⟨rfl, rfl⟩
      | cons c t => simp [ht.1]
  | cons d ds ih =>
      have hdd := hd d List.mem_cons_self
      obtain ⟨h1, h2⟩ := ih fun c hc => hd c (List.mem_cons_of_mem _ hc)
      simp [hdd, h1, h2]

theorem scanUnsigned_toDigits (n : Nat) {t : List Char}
    (ht : EndsNumber t) :
    scanUnsigned (Nat.toDigits 10 n ++ t) = some (Nat.toDigits 10 n, t) := by
  have hwhole : scanWhole (Nat.toDigits 10 n ++ t)
      = some (Nat.toDigits 10 n, t) := by
    rcases Decimal.toDigits_shape n with h | ⟨c, ds, h, hne, hd⟩
    · rw [h]
      rfl
    · have hds : ∀ x ∈ ds, x.isDigit = true := fun x hx =>
        Nat.isDigit_of_mem_toDigits (n := n) (by omega) (by omega)
          (h ▸ List.mem_cons_of_mem c hx)
      obtain ⟨h1, h2⟩ := takeWhile_digits hds ht
      rw [h]
      simp [scanWhole, hne, hd, h1, h2]
  simp [scanUnsigned, hwhole, scanFraction_end ht, scanExponent_end ht]

/-- A printed integer is a number literal. -/
theorem isNumber_format (n : Int) : IsNumber (Decimal.format n) where
  head := by
    cases n with
    | ofNat n =>
        rcases Decimal.toDigits_shape n with h | ⟨c, ds, h, -, hd⟩
        · exact ⟨'0', [], h, Or.inr (by decide)⟩
        · exact ⟨c, ds, h, Or.inr hd⟩
    | negSucc n => exact ⟨'-', _, rfl, Or.inl rfl⟩
  scan := by
    intro t ht
    cases n with
    | negSucc n =>
        simp [Decimal.format, scanNumber, scanUnsigned_toDigits _ ht]
    | ofNat n =>
        have hs := scanUnsigned_toDigits n ht
        rcases Decimal.toDigits_shape n with h | ⟨c, ds, h, -, hd⟩
        · rw [h] at hs
          rw [Decimal.format, h]
          exact hs
        · rw [h] at hs
          rw [Decimal.format, h]
          unfold scanNumber
          split
          · next heq =>
            exact absurd (List.cons.inj heq).1
              (Decimal.not_sign_of_isDigit hd).1
          · exact hs

-- ============================================================= values

mutual

/-- Numbers are number literals and brackets nest at most `d` deep. -/
def Fits : Nat → Value → Prop
  | _, .null => True
  | _, .bool _ => True
  | _, .str _ => True
  | _, .num lit => IsNumber lit
  | 0, .arr _ => False
  | d + 1, .arr xs => FitsAll d xs
  | 0, .obj _ => False
  | d + 1, .obj fs => FitsMembers d fs

def FitsAll : Nat → List Value → Prop
  | _, [] => True
  | d, x :: xs => Fits d x ∧ FitsAll d xs

def FitsMembers : Nat → List (List Char × Value) → Prop
  | _, [] => True
  | d, (_, v) :: fs => Fits d v ∧ FitsMembers d fs

end

/-- A character that starts a number starts nothing else. -/
theorem number_head_ne {c : Char} (hc : c = '-' ∨ c.isDigit = true) :
    c ≠ '"' ∧ c ≠ '[' ∧ c ≠ '{' ∧ c ≠ 'n' ∧ c ≠ 't' ∧ c ≠ 'f'
      ∧ c ≠ ']' ∧ c ≠ '}' ∧ isSpace c = false := by
  rcases hc with rfl | hc
  · decide
  · refine ⟨?_, ?_, ?_, ?_, ?_, ?_, ?_, ?_, ?_⟩
    case refine_9 =>
      by_contra hs
      simp only [isSpace, Bool.not_eq_false, Bool.or_eq_true,
        beq_iff_eq] at hs
      rcases hs with ((rfl | rfl) | rfl) | rfl <;> revert hc <;> decide
    all_goals (rintro rfl; revert hc; decide)

/-- No value starts with a blank or a closing bracket. -/
theorem print_head {d : Nat} {v : Value} (hv : Fits d v) :
    ∃ c t, print v = c :: t ∧ isSpace c = false ∧ c ≠ ']' ∧ c ≠ '}' := by
  cases v with
  | null => exact ⟨_, _, rfl, by decide⟩
  | bool b => cases b <;> exact ⟨_, _, rfl, by decide⟩
  | str s => exact ⟨_, _, rfl, by decide⟩
  | num lit =>
      rw [Fits] at hv
      obtain ⟨c, t, rfl, hc⟩ := hv.head
      obtain ⟨-, -, -, -, -, -, h1, h2, h3⟩ := number_head_ne hc
      exact ⟨c, t, by rw [print], h3, h1, h2⟩
  | arr xs => cases xs <;> exact ⟨'[', _, by rw [print], by decide⟩
  | obj fs =>
      cases fs with
      | nil => exact ⟨'{', _, by rw [print], by decide⟩
      | cons f fs => exact ⟨'{', _, by rw [print], by decide⟩

theorem skipSpace_cons {c : Char} (hc : isSpace c = false)
    (t : List Char) : skipSpace (c :: t) = c :: t := by
  rw [skipSpace, List.dropWhile_cons, hc]
  rfl

/-- Reading a value skips no blank in front of a printed one. -/
theorem skipSpace_print {d : Nat} {v : Value} (hv : Fits d v)
    (t : List Char) : skipSpace (print v ++ t) = print v ++ t := by
  obtain ⟨c, r, hp, hc, -, -⟩ := print_head hv
  rw [hp, List.cons_append, skipSpace_cons hc]

theorem endsNumber_printElements (xs : List Value) (t : List Char) :
    EndsNumber (printElements xs ++ t) := by
  cases xs with
  | nil => rw [printElements]; exact ⟨by decide, by decide⟩
  | cons x xs => rw [printElements]; exact ⟨by decide, by decide⟩

theorem endsNumber_printMembers (fs : List (List Char × Value))
    (t : List Char) : EndsNumber (printMembers fs ++ t) := by
  cases fs with
  | nil => rw [printMembers]; exact ⟨by decide, by decide⟩
  | cons f fs => rw [printMembers]; exact ⟨by decide, by decide⟩

theorem value_number {lit : List Char} (hl : IsNumber lit) (fuel d : Nat)
    {t : List Char} (ht : EndsNumber t) :
    value (fuel + 1) d (lit ++ t) = some (.num lit, t) := by
  have hscan := hl.scan t ht
  obtain ⟨c, r, rfl, hc⟩ := hl.head
  obtain ⟨h1, h2, h3, h4, h5, h6, -, -, h7⟩ := number_head_ne hc
  rw [List.cons_append] at hscan ⊢
  rw [value, skipSpace_cons h7]
  simp only [if_neg h1, if_neg h2, if_neg h3, if_neg h4, if_neg h5,
    if_neg h6, hscan]
  rfl

/-- With this fuel every printed value of at most half that length reads
back. -/
def ReadsValue (fuel : Nat) : Prop :=
  ∀ (v : Value) (d : Nat) (t : List Char), Fits d v →
    2 * (print v).length ≤ fuel → EndsNumber t →
    value fuel d (print v ++ t) = some (v, t)

/-- The same for the elements of an array. -/
def ReadsElements (fuel : Nat) : Prop :=
  ∀ (x : Value) (xs : List Value) (d : Nat) (t : List Char),
    Fits d x → FitsAll d xs →
    2 * (print x).length + 2 * (printElements xs).length + 1 ≤ fuel →
    elements fuel d (print x ++ (printElements xs ++ t))
      = some (x :: xs, t)

/-- The same for the members of an object. -/
def ReadsMembers (fuel : Nat) : Prop :=
  ∀ (k : List Char) (v : Value) (fs : List (List Char × Value)) (d : Nat)
    (t : List Char), Fits d v → FitsMembers d fs →
    2 * (quote k).length + 2 * (print v).length
      + 2 * (printMembers fs).length + 1 ≤ fuel →
    members fuel d (quote k ++ ':' :: (print v ++ (printMembers fs ++ t)))
      = some ((k, v) :: fs, t)

theorem readsValue_succ {fuel : Nat} (he : ReadsElements fuel)
    (hm : ReadsMembers fuel) : ReadsValue (fuel + 1) := by
  intro v d t hv hf ht
  match v, d with
  | .null, d => rw [print, value]; simp [skipSpace, isSpace, keyword]
  | .bool true, d => rw [print, value]; simp [skipSpace, isSpace, keyword]
  | .bool false, d => rw [print, value]; simp [skipSpace, isSpace, keyword]
  | .num lit, d =>
      rw [print]
      rw [Fits] at hv
      exact value_number hv fuel d ht
  | .str s, d =>
      rw [print, quote, value]
      simp [skipSpace, isSpace, string_escapes]
  | .arr [], 0 => rw [Fits] at hv; exact hv.elim
  | .arr [], d + 1 => rw [print, value]; simp [skipSpace, isSpace]
  | .arr (x :: xs), 0 => rw [Fits] at hv; exact hv.elim
  | .arr (x :: xs), d + 1 =>
      rw [Fits, FitsAll] at hv
      rw [print, List.length_cons, List.length_append] at hf
      have helems := he x xs d t hv.1 hv.2 (by omega)
      have hskip := skipSpace_print hv.1 (printElements xs ++ t)
      obtain ⟨c, r, hp, -, hne, -⟩ := print_head hv.1
      rw [print, List.cons_append, List.append_assoc, value,
        skipSpace_cons (by decide)]
      simp only [Char.reduceEq, if_false, if_true, hskip]
      split
      · next heq =>
        rw [hp, List.cons_append] at heq
        exact absurd (List.cons.inj heq).1 hne
      · rw [helems]; rfl
  | .obj [], 0 => rw [Fits] at hv; exact hv.elim
  | .obj [], d + 1 => rw [print, value]; simp [skipSpace, isSpace]
  | .obj (f :: fs), 0 => rw [Fits] at hv; exact hv.elim
  | .obj ((k, v) :: fs), d + 1 =>
      rw [Fits, FitsMembers] at hv
      rw [print] at hf
      simp only [List.length_cons, List.length_append] at hf
      have hmem := hm k v fs d t hv.1 hv.2 (by omega)
      have htext : print (.obj ((k, v) :: fs)) ++ t
          = '{' :: (quote k ++ ':' :: (print v ++ (printMembers fs ++ t))) := by
        rw [print]
        simp
      rw [htext, value, skipSpace_cons (by decide)]
      simp only [Char.reduceEq, if_false, if_true]
      rw [quote, List.cons_append] at hmem ⊢
      rw [skipSpace_cons (by decide)]
      split
      · next heq => exact absurd (List.cons.inj heq).1 (by decide)
      · rw [hmem]; rfl

theorem readsElements_succ {fuel : Nat} (hval : ReadsValue fuel)
    (he : ReadsElements fuel) : ReadsElements (fuel + 1) := by
  intro x xs d t hx hxs hf
  have hhead := hval x d (printElements xs ++ t) hx (by omega)
    (endsNumber_printElements xs t)
  rw [elements, hhead]
  cases xs with
  | nil => rw [printElements, List.cons_append]; rfl
  | cons y ys =>
      rw [FitsAll] at hxs
      rw [printElements, List.length_cons, List.length_append] at hf
      have htail := he y ys d t hxs.1 hxs.2 (by omega)
      rw [printElements, List.cons_append, Option.bind_some,
        skipSpace_cons (by decide)]
      simp only [List.append_assoc, htail]
      rfl

theorem readsMembers_succ {fuel : Nat} (hval : ReadsValue fuel)
    (hm : ReadsMembers fuel) : ReadsMembers (fuel + 1) := by
  intro k v fs d t hv hfs hf
  have hhead := hval v d (printMembers fs ++ t) hv (by omega)
    (endsNumber_printMembers fs t)
  have htext : quote k ++ ':' :: (print v ++ (printMembers fs ++ t))
      = '"' :: (k.flatMap escape ++ '"' ::
        (':' :: (print v ++ (printMembers fs ++ t)))) := by
    simp [quote]
  rw [htext, members, skipSpace_cons (by decide)]
  simp only [string_escapes, Option.bind_some]
  rw [skipSpace_cons (by decide)]
  simp only [hhead, Option.bind_some]
  cases fs with
  | nil => rw [printMembers, List.cons_append, skipSpace_cons (by decide)]; rfl
  | cons f gs =>
      obtain ⟨k', v'⟩ := f
      rw [FitsMembers] at hfs
      rw [printMembers] at hf
      simp only [List.length_cons, List.length_append] at hf
      have htail := hm k' v' gs d t hfs.1 hfs.2 (by omega)
      rw [printMembers, List.cons_append, skipSpace_cons (by decide)]
      simp only [List.append_assoc, List.cons_append, htail]
      rfl

theorem reads (fuel : Nat) :
    ReadsValue fuel ∧ ReadsElements fuel ∧ ReadsMembers fuel := by
  induction fuel with
  | zero =>
      refine ⟨?_, ?_, ?_⟩
      · intro v d t hv hf _
        obtain ⟨c, r, hp, -⟩ := print_head hv
        rw [hp, List.length_cons] at hf
        omega
      · intro x xs d t _ _ hf
        omega
      · intro k v fs d t _ _ hf
        omega
  | succ fuel ih =>
      exact ⟨readsValue_succ ih.2.1 ih.2.2, readsElements_succ ih.1 ih.2.1,
        readsMembers_succ ih.1 ih.2.2⟩

/-- What `print` writes, `parse` reads back. -/
theorem parse_print {v : Value} (hv : Fits maxNestingDepth v) :
    parse (print v) = some v := by
  have h := (reads (2 * (print v).length + 2)).1 v maxNestingDepth [] hv
    (by omega) trivial
  rw [List.append_nil] at h
  rw [parse, h]
  rfl

end CacheOperator.Lib.Json
