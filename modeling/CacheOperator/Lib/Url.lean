/-
Paths and URLs, as Go's `net/url` and `net/http` read and print them.

A Go string is a list of bytes here: a percent sequence can stand for any
byte, whether or not the result is text. `unescape` and `escape` are the
path modes of the library's functions of those names; a URL keeps the
decoded path and, when it is not what `escape` would print, the path as
it was written (`rawPath`). Printing a parsed URL and parsing the print
gives the path back (`unescape_escapedPath`).

`cleanPath` is the library's: empty and dot segments go, a double dot
takes the segment before it along, a slash at the end stays.
-/
import Mathlib.Data.List.TakeWhile
import Mathlib.Tactic

namespace CacheOperator.Lib

/-- A Go string. -/
abbrev Bytes := List UInt8

/-- The bytes of an ASCII literal. -/
def ascii (s : String) : Bytes := s.toList.map fun c => UInt8.ofNat c.toNat

/-- `%` -/
def percent : UInt8 := 0x25
/-- `/` -/
def slash : UInt8 := 0x2F
/-- `#` -/
def numberSign : UInt8 := 0x23
/-- `?` -/
def questionMark : UInt8 := 0x3F

-- ================================================== percent encoding

/-- The value of a hexadecimal digit. -/
def unhex (c : UInt8) : Option UInt8 :=
  if 0x30 ≤ c ∧ c ≤ 0x39 then some (c - 0x30)
  else if 0x61 ≤ c ∧ c ≤ 0x66 then some (c - 0x61 + 10)
  else if 0x41 ≤ c ∧ c ≤ 0x46 then some (c - 0x41 + 10)
  else none

/-- The digit for a value below sixteen. -/
def upperhex (n : UInt8) : UInt8 := if n < 10 then 0x30 + n else 0x37 + n

/-- `unescape` in path mode. -/
def unescape : Bytes → Option Bytes
  | [] => some []
  | c :: rest =>
      if c = percent then
        match rest with
        | a :: b :: rest' =>
            match unhex a, unhex b with
            | some x, some y =>
                (unescape rest').map fun t => (x * 16 + y) :: t
            | _, _ => none
        | _ => none
      else (unescape rest).map fun t => c :: t

/-- A letter, a digit or one of `-_.~`. -/
def unreserved (c : UInt8) : Bool :=
  (0x61 ≤ c && c ≤ 0x7A) || (0x41 ≤ c && c ≤ 0x5A)
    || (0x30 ≤ c && c ≤ 0x39) || (ascii "-_.~").contains c

/-- `shouldEscape` in path mode. -/
def shouldEscape (c : UInt8) : Bool :=
  !(unreserved c || (ascii "$&+,/:;=@").contains c)

/-- `escape` in path mode. -/
def escape (p : Bytes) : Bytes :=
  p.flatMap fun c =>
    if shouldEscape c then [percent, upperhex (c / 16), upperhex (c % 16)]
    else [c]

/-- A byte that `validEncoded` lets pass. -/
def encodedByte (c : UInt8) : Bool :=
  (ascii "!$&'()*+,;=:@[]%").contains c || !shouldEscape c

/-- `validEncoded` in path mode. -/
def validEncoded (p : Bytes) : Bool := p.all encodedByte

-- ================================================================ URLs

/-- The part of `url.URL` after the authority. -/
structure URL where
  path : Bytes
  rawPath : Bytes := []
  forceQuery : Bool := false
  rawQuery : Bytes := []
deriving DecidableEq

namespace URL

/-- `setPath` on a URL with no path yet. -/
def ofPath (p : Bytes) : Option URL :=
  (unescape p).map fun path =>
    { path, rawPath := if p = escape path then [] else p }

/-- `EscapedPath`. -/
def escapedPath (u : URL) : Bytes :=
  if u.rawPath ≠ [] ∧ validEncoded u.rawPath = true
      ∧ unescape u.rawPath = some u.path then u.rawPath
  else if u.path = ascii "*" then ascii "*"
  else escape u.path

/-- `RequestURI`. -/
def requestURI (u : URL) : Bytes :=
  (if u.escapedPath = [] then [slash] else u.escapedPath)
    ++ if u.forceQuery || u.rawQuery ≠ [] then questionMark :: u.rawQuery
      else []

end URL

/-- `strings.Cut`. -/
def cut (sep : UInt8) (s : Bytes) : Bytes × Bytes :=
  (s.takeWhile (· ≠ sep), (s.dropWhile (· ≠ sep)).tail)

theorem cut_eq_self {sep : UInt8} {s : Bytes} (h : sep ∉ s) :
    cut sep s = (s, []) := by
  have hne : ∀ b ∈ s, decide (b ≠ sep) = true := fun b hb =>
    decide_eq_true fun heq => h (heq ▸ hb)
  rw [cut, List.takeWhile_eq_self_iff.mpr hne,
    List.dropWhile_eq_nil_iff.mpr hne, List.tail_nil]

def containsCTLByte (s : Bytes) : Bool := s.any fun b => b < 0x20 || b = 0x7F

/-- The end of `parse`, after the authority: the query is cut off and the
path decoded. -/
def parsePathAndQuery (rest : Bytes) : Option URL :=
  let (p, query) := cut questionMark rest
  (URL.ofPath p).map fun u =>
    { u with
      forceQuery := rest.getLast? = some questionMark && query = []
      rawQuery := query }

/-- `ParseRequestURI`, for the origin form a client sends. -/
def parseRequestURI (target : Bytes) : Option URL :=
  if containsCTLByte target || target.head? ≠ some slash then none
  else parsePathAndQuery target

/-- `Parse`, for an absolute URL with the scheme `http`: the authority
and the rest. -/
def parseURL (s : Bytes) : Option (Bytes × URL) :=
  let (u, frag) := cut numberSign s
  if containsCTLByte u then none
  else if (ascii "http://").isPrefixOf u then
    let rest := u.drop (ascii "http://").length
    -- the query is cut off first, then the authority ends at the slash
    let p := (cut questionMark rest).1
    let authority := p.takeWhile (· ≠ slash)
    match parsePathAndQuery (rest.drop authority.length), unescape frag with
    | some u, some _ => some (authority, u)
    | _, _ => none
  else none

-- ======================================================== clean paths

/-- One segment of `path.Clean` on a rooted path. -/
def cleanSegment (segs : List Bytes) (seg : Bytes) : List Bytes :=
  if seg = [] ∨ seg = ascii "." then segs
  else if seg = ascii ".." then segs.dropLast
  else segs ++ [seg]

/-- `path.Clean` of a rooted path. -/
def cleanRooted (p : Bytes) : Bytes :=
  slash :: [slash].intercalate ((p.splitOn slash).foldl cleanSegment [])

/-- `cleanPath` of `net/http`. -/
def cleanPath (p : Bytes) : Bytes :=
  let p := if p.head? = some slash then p else slash :: p
  let np := cleanRooted p
  if p.getLast? = some slash ∧ np ≠ [slash] then np ++ [slash] else np

theorem head_cleanPath (p : Bytes) :
    (cleanPath p).head? = some slash := by
  unfold cleanPath cleanRooted
  generalize (if p.head? = some slash then p else slash :: p) = p'
  dsimp only
  split <;> rfl

theorem mem_intercalate {x b : UInt8} {ls : List Bytes}
    (h : b ∈ [x].intercalate ls) : b = x ∨ ∃ l ∈ ls, b ∈ l := by
  induction ls with
  | nil => cases h
  | cons l ls ih =>
      cases ls with
      | nil =>
          rw [List.intercalate_singleton] at h
          exact Or.inr ⟨l, by simp, h⟩
      | cons l' ls =>
          rw [List.intercalate_cons_cons] at h
          simp only [List.mem_append, List.mem_singleton] at h
          obtain (h | h) | h := h
          · exact Or.inr ⟨l, by simp, h⟩
          · exact Or.inl h
          · obtain h | ⟨m, hm, hb⟩ := ih h
            · exact Or.inl h
            · exact Or.inr ⟨m, List.mem_cons_of_mem _ hm, hb⟩

theorem mem_intercalate_of_mem {x b : UInt8} {ls : List Bytes} {l : Bytes}
    (hl : l ∈ ls) (hb : b ∈ l) : b ∈ [x].intercalate ls := by
  induction ls with
  | nil => cases hl
  | cons l' ls ih =>
      cases ls with
      | nil =>
          rw [List.mem_singleton] at hl
          rwa [List.intercalate_singleton, ← hl]
      | cons l'' ls =>
          rw [List.intercalate_cons_cons]
          obtain rfl | hl := List.mem_cons.mp hl
          · simp [hb]
          · simp [ih hl]

/-- Cleaning a path brings in no bytes but slashes. -/
theorem mem_cleanPath {p : Bytes} {b : UInt8} (h : b ∈ cleanPath p) :
    b = slash ∨ b ∈ p := by
  have hsegs : ∀ (segs ps : List Bytes), ∀ l ∈ segs.foldl cleanSegment ps,
      l ∈ ps ∨ l ∈ segs := by
    intro segs
    induction segs with
    | nil => exact fun ps l hl => Or.inl hl
    | cons seg segs ih =>
        intro ps l hl
        obtain hl | hl := ih _ l hl
        · unfold cleanSegment at hl
          split at hl
          · exact Or.inl hl
          split at hl
          · exact Or.inl (List.mem_of_mem_dropLast hl)
          · obtain hl | hl := List.mem_append.mp hl
            · exact Or.inl hl
            · exact Or.inr (by simp_all)
        · exact Or.inr (List.mem_cons_of_mem _ hl)
  have hrooted : ∀ q : Bytes, b ∈ cleanRooted q → b = slash ∨ b ∈ q := by
    intro q hb
    obtain hb | hb := List.mem_cons.mp hb
    · exact Or.inl hb
    obtain hb | ⟨l, hl, hb⟩ := mem_intercalate hb
    · exact Or.inl hb
    obtain hl | hl := hsegs _ _ l hl
    · cases hl
    · have hmem := mem_intercalate_of_mem (x := slash) hl hb
      rw [List.intercalate_splitOn] at hmem
      exact Or.inr hmem
  have hp : ∀ b, b ∈ (if p.head? = some slash then p else slash :: p) →
      b = slash ∨ b ∈ p := by
    intro b hb
    split at hb
    · exact Or.inr hb
    · exact List.mem_cons.mp hb
  unfold cleanPath at h
  generalize (if p.head? = some slash then p else slash :: p) = q at *
  dsimp only at h
  split at h
  · obtain h | h := List.mem_append.mp h
    · obtain h | h := hrooted q h
      · exact Or.inl h
      · exact hp b h
    · exact Or.inl (List.mem_singleton.mp h)
  · obtain h | h := hrooted q h
    · exact Or.inl h
    · exact hp b h

/-- A segment that cleaning keeps. -/
structure IsSegment (seg : Bytes) : Prop where
  ne_nil : seg ≠ []
  ne_dot : seg ≠ ascii "."
  ne_dots : seg ≠ ascii ".."
  no_slash : slash ∉ seg

theorem getLast_ne_slash {p seg : Bytes} (h : IsSegment seg) :
    (p ++ seg).getLast? ≠ some slash := by
  rw [List.getLast?_append_of_ne_nil _ h.ne_nil]
  intro hlast
  exact h.no_slash (List.mem_of_getLast? hlast)

/-- A path of two such segments is clean. -/
theorem cleanPath_of_segments {a b : Bytes} (ha : IsSegment a)
    (hb : IsSegment b) :
    cleanPath (slash :: a ++ slash :: b) = slash :: a ++ slash :: b := by
  have hpath : slash :: a ++ slash :: b = [slash].intercalate [[], a, b] := by
    simp [List.intercalate]
  have hsplit : (slash :: a ++ slash :: b).splitOn slash = [[], a, b] := by
    rw [hpath]
    refine List.splitOn_intercalate slash ?_ (by simp)
    simp [ha.no_slash, hb.no_slash]
  have hlast : (slash :: a ++ slash :: b).getLast? ≠ some slash := by
    have h := getLast_ne_slash (p := slash :: a ++ [slash]) hb
    simpa using h
  have hclean : cleanRooted (slash :: a ++ slash :: b)
      = slash :: a ++ slash :: b := by
    unfold cleanRooted
    rw [hsplit]
    simp [cleanSegment, ha.ne_nil, ha.ne_dot, ha.ne_dots, hb.ne_nil,
      hb.ne_dot, hb.ne_dots, List.intercalate]
  unfold cleanPath
  simp only [List.cons_append, List.head?_cons, if_true] at *
  rw [hclean, if_neg fun h => hlast h.1]

-- ==================================================== encoding lemmas

/-- A decidable property of all bytes is checked one by one. -/
theorem forall_byte {P : UInt8 → Prop}
    (h : ∀ n : Fin 256, P (UInt8.ofNat n)) (c : UInt8) : P c := by
  have hc := h ⟨c.toNat, c.toNat_lt⟩
  rwa [UInt8.ofNat_toNat] at hc

theorem unescape_cons {c : UInt8} (h : c ≠ percent) (p : Bytes) :
    unescape (c :: p) = (unescape p).map fun t => c :: t := by
  rw [unescape.eq_def]
  exact if_neg h

/-- A path without percent signs stands for itself. -/
theorem unescape_plain {p : Bytes} (h : percent ∉ p) :
    unescape p = some p := by
  induction p with
  | nil => rfl
  | cons c p ih =>
      rw [List.mem_cons, not_or] at h
      rw [unescape_cons (Ne.symm h.1), ih h.2]
      rfl

/-- Bytes without a percent sign in front are decoded apart. -/
theorem unescape_append_plain {a : Bytes} (h : percent ∉ a) (p : Bytes) :
    unescape (a ++ p) = (unescape p).map fun t => a ++ t := by
  induction a with
  | nil => simp
  | cons c a ih =>
      rw [List.mem_cons, not_or] at h
      rw [List.cons_append, unescape_cons (Ne.symm h.1), ih h.2,
        Option.map_map]
      rfl

/-- Decoding shortens a path by two bytes for each percent sign it
reads. -/
theorem length_unescape {p q : Bytes} (h : unescape p = some q) :
    q.length ≤ p.length ∧ (percent ∈ p → q.length < p.length) := by
  fun_induction unescape p generalizing q with
  | case1 =>
      obtain rfl := Option.some.inj h
      simp
  | case2 a b rest x y hx hy ih =>
      obtain ⟨t, ht, rfl⟩ := Option.map_eq_some_iff.mp h
      have hle := (ih ht).1
      simp only [List.length_cons]
      exact ⟨by omega, fun _ => by omega⟩
  | case3 => cases h
  | case4 => cases h
  | case5 c rest hc ih =>
      obtain ⟨t, ht, rfl⟩ := Option.map_eq_some_iff.mp h
      obtain ⟨hle, hlt⟩ := ih ht
      refine ⟨by simpa using hle, fun hmem => ?_⟩
      obtain heq | hmem := List.mem_cons.mp hmem
      · exact absurd heq.symm hc
      · simpa using hlt hmem

theorem unhex_upperhex (c : UInt8) :
    unhex (upperhex (c / 16)) = some (c / 16)
      ∧ unhex (upperhex (c % 16)) = some (c % 16)
      ∧ c / 16 * 16 + c % 16 = c := by
  revert c
  apply forall_byte
  decide +kernel

/-- Decoding undoes the encoding. -/
theorem unescape_escape (p : Bytes) : unescape (escape p) = some p := by
  induction p with
  | nil => rfl
  | cons c p ih =>
      rw [escape, List.flatMap_cons, ← escape]
      by_cases hc : shouldEscape c = true
      · obtain ⟨hhigh, hlow, hsum⟩ := unhex_upperhex c
        rw [if_pos hc]
        simp only [List.cons_append, List.nil_append, unescape, if_true,
          hhigh, hlow, ih, Option.map_some, hsum]
      · have hne : c ≠ percent := by
          rintro rfl
          exact hc (by decide)
        rw [if_neg hc, List.singleton_append, unescape_cons hne, ih]
        rfl

/-- The bytes of an encoded path. -/
theorem mem_escape {p : Bytes} {b : UInt8} (h : b ∈ escape p) :
    (b ∈ p ∧ shouldEscape b = false) ∨ b = percent
      ∨ ∃ c : UInt8, b = upperhex (c / 16) ∨ b = upperhex (c % 16) := by
  obtain ⟨c, hc, hb⟩ := List.mem_flatMap.mp h
  by_cases hesc : shouldEscape c = true
  · rw [if_pos hesc] at hb
    simp only [List.mem_cons, List.not_mem_nil, or_false] at hb
    obtain rfl | rfl | rfl := hb
    · exact Or.inr (Or.inl rfl)
    · exact Or.inr (Or.inr ⟨c, Or.inl rfl⟩)
    · exact Or.inr (Or.inr ⟨c, Or.inr rfl⟩)
  · rw [if_neg hesc, List.mem_singleton] at hb
    subst hb
    exact Or.inl ⟨hc, Bool.eq_false_iff.mpr hesc⟩

theorem upperhex_bytes (c : UInt8) :
    (encodedByte (upperhex (c / 16)) = true
        ∧ upperhex (c / 16) ≠ slash)
      ∧ encodedByte (upperhex (c % 16)) = true
        ∧ upperhex (c % 16) ≠ slash := by
  revert c
  apply forall_byte
  decide +kernel

theorem encodedByte_of_mem_escape {p : Bytes} {b : UInt8}
    (h : b ∈ escape p) : encodedByte b = true := by
  obtain ⟨-, hb⟩ | rfl | ⟨c, rfl | rfl⟩ := mem_escape h
  · simp [encodedByte, hb]
  · decide
  · exact (upperhex_bytes c).1.1
  · exact (upperhex_bytes c).2.1

/-- Encoding makes no slashes. -/
theorem slash_mem_escape {p : Bytes} (h : slash ∈ escape p) : slash ∈ p := by
  obtain ⟨hb, -⟩ | hb | ⟨c, hb | hb⟩ := mem_escape h
  · exact hb
  · exact absurd hb (by decide)
  · exact absurd hb.symm (upperhex_bytes c).1.2
  · exact absurd hb.symm (upperhex_bytes c).2.2

namespace URL

variable {u u' : URL} {p : Bytes}

/-- The escaped path decodes to the path. -/
theorem unescape_escapedPath (u : URL) :
    unescape u.escapedPath = some u.path := by
  unfold escapedPath
  split
  · next h => exact h.2.2
  split
  · next h => rw [h]; decide
  · exact unescape_escape u.path

theorem encodedByte_of_mem_escapedPath {b : UInt8}
    (h : b ∈ u.escapedPath) : encodedByte b = true := by
  unfold escapedPath at h
  split at h
  · next hraw => exact List.all_eq_true.mp hraw.2.1 b h
  split at h
  · revert h
    revert b
    apply forall_byte
    decide +kernel
  · exact encodedByte_of_mem_escape h

/-- A path that may stand as it is written does. -/
theorem escapedPath_ofPath (h : ofPath p = some u)
    (hroot : p.head? = some slash) (hp : validEncoded p = true) :
    u.escapedPath = p := by
  obtain ⟨path, hpath, rfl⟩ := Option.map_eq_some_iff.mp h
  by_cases heq : p = escape path
  · subst heq
    have hstar : path ≠ ascii "*" := by
      rintro rfl
      exact absurd hroot (by decide)
    simp [escapedPath, hstar]
  · unfold escapedPath
    simp only [if_neg heq]
    have hnil : p ≠ [] := by
      rintro rfl
      cases hroot
    rw [if_pos ⟨hnil, hp, hpath⟩]

theorem path_ofPath (h : ofPath p = some u) : unescape p = some u.path := by
  obtain ⟨path, hpath, rfl⟩ := Option.map_eq_some_iff.mp h
  exact hpath

/-- A path is written as it came, or as `escape` writes it. -/
theorem escapedPath_cases (h : ofPath p = some u)
    (hroot : p.head? = some slash) :
    u.escapedPath = p ∨ u.escapedPath = escape u.path := by
  have hstar : u.path ≠ ascii "*" := by
    intro hpath
    have hun := path_ofPath h
    cases p with
    | nil => cases hroot
    | cons c p =>
        obtain rfl : c = slash := Option.some.inj hroot
        rw [unescape_cons (by decide), hpath] at hun
        obtain ⟨t, -, ht⟩ := Option.map_eq_some_iff.mp hun
        exact absurd (List.cons.inj ht).1 (by decide)
  obtain ⟨path, hpath, rfl⟩ := Option.map_eq_some_iff.mp h
  unfold escapedPath
  dsimp only at hstar ⊢
  rw [if_neg hstar]
  by_cases heq : p = escape path
  · simp [heq]
  · rw [if_neg heq]
    exact ite_eq_or_eq _ _ _

/-- The path of what is parsed is what stands before the query. -/
theorem of_parsePathAndQuery {rest : Bytes}
    (h : parsePathAndQuery rest = some u) :
    ∃ u₀, ofPath (rest.takeWhile (· ≠ questionMark)) = some u₀
      ∧ u.path = u₀.path ∧ u.escapedPath = u₀.escapedPath := by
  obtain ⟨u₀, hu₀, rfl⟩ := Option.map_eq_some_iff.mp h
  exact ⟨u₀, hu₀, rfl, rfl⟩

/-- The server reads the path the client meant, written the same way. -/
theorem of_parseRequestURI (hroot : u.escapedPath.head? = some slash)
    (h : parseRequestURI u.requestURI = some u') :
    u'.path = u.path ∧ u'.escapedPath = u.escapedPath := by
  have hne : u.escapedPath ≠ [] := by
    intro hnil
    rw [hnil] at hroot
    cases hroot
  have hmark : ∀ b ∈ u.escapedPath, decide (b ≠ questionMark) = true := by
    intro b hb
    rw [decide_eq_true_eq]
    rintro rfl
    exact absurd (encodedByte_of_mem_escapedPath hb) (by decide)
  unfold parseRequestURI at h
  split at h
  · cases h
  obtain ⟨u₀, hu₀, hpath, hescaped⟩ := of_parsePathAndQuery h
  have hcut : u.requestURI.takeWhile (· ≠ questionMark)
      = u.escapedPath := by
    unfold requestURI
    rw [if_neg hne, List.takeWhile_append_of_pos hmark]
    split
    · simp
    · simp
  rw [hcut] at hu₀
  rw [hpath, hescaped]
  refine ⟨?_, escapedPath_ofPath hu₀ hroot ?_⟩
  · have hun := path_ofPath hu₀
    rw [unescape_escapedPath] at hun
    exact (Option.some.inj hun).symm
  · exact List.all_eq_true.mpr fun b hb => encodedByte_of_mem_escapedPath hb

end URL

end CacheOperator.Lib
