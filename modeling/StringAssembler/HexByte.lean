/-!
# Hexadecimal byte literals

One grammar serves the right-hand side of a table line and the terminator of a
run: one or two hexadecimal digits of either case, optionally behind a single
`0x` or `0X`.  No blank, sign or third digit is accepted anywhere.

Written bytes always have the form `0xNN` with two upper-case digits, so every
written byte is again a literal.
-/

namespace StringAssembler
namespace HexByte

/-! ## Reading -/

/-- The value of a hexadecimal digit of either case; any other character has none. -/
def digitValue? (c : Char) : Option Nat :=
  if '0' ≤ c ∧ c ≤ '9' then some (c.toNat - '0'.toNat)
  else if 'a' ≤ c ∧ c ≤ 'f' then some (c.toNat - 'a'.toNat + 10)
  else if 'A' ≤ c ∧ c ≤ 'F' then some (c.toNat - 'A'.toNat + 10)
  else none

/-- A literal without its marker: at most one leading `0x` or `0X` is dropped. -/
def dropMarker : List Char → List Char
  | '0' :: 'x' :: digits => digits
  | '0' :: 'X' :: digits => digits
  | digits => digits

/-- The byte written by exactly one or two digits, the more significant digit first. -/
def ofDigits? : List Char → Option UInt8
  | [low] => (digitValue? low).map UInt8.ofNat
  | [high, low] =>
      match digitValue? high, digitValue? low with
      | some h, some l => some (UInt8.ofNat (16 * h + l))
      | _, _ => none
  | _ => none

/-- The byte that characters stand for, if they form a literal. -/
def ofChars? (literal : List Char) : Option UInt8 :=
  ofDigits? (dropMarker literal)

/-- The byte that a literal stands for, if the text is a literal. -/
def parse? (literal : String) : Option UInt8 :=
  ofChars? literal.toList

/-- A text that was given as a byte literal and is none. -/
structure Invalid where
  literal : String
  deriving DecidableEq, Repr

/-- The diagnostic for a text that is no byte literal. -/
def Invalid.message (e : Invalid) : String :=
  "\"" ++ e.literal ++
    "\" is not a hexadecimal byte (expected 1-2 hex digits, optional 0x prefix)"

/-- Reads a literal, or names the text that is none. -/
def read (literal : String) : Except Invalid UInt8 :=
  match parse? literal with
  | some value => .ok value
  | none => .error ⟨literal⟩

/-! ## Writing -/

/-- The upper-case digit of a value below sixteen. -/
def upperDigit (n : Nat) : Char :=
  Char.ofNat (if n < 10 then n + '0'.toNat else n - 10 + 'A'.toNat)

/-- The two upper-case digits of a byte, the more significant digit first. -/
def upperDigits (value : UInt8) : List Char :=
  [upperDigit (value.toNat / 16), upperDigit (value.toNat % 16)]

/-- The literal `0xNN` that stands for a byte. -/
def format (value : UInt8) : String :=
  String.ofList ('0' :: 'x' :: upperDigits value)

/-- The literals of a byte sequence, joined by commas. -/
def formatList (values : List UInt8) : String :=
  String.intercalate "," (values.map format)

end HexByte
end StringAssembler
