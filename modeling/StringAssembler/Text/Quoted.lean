import StringAssembler.Text.Unprintable

/-!
# Quoted text

The form in which a log message shows a token.  The text stands between double
quotes; a quote, a backslash and the four common control characters are written
as a backslash and a letter, every other unprintable character as its code point
in lower-case hexadecimal digits without padding, and all else as it is.

This is a form for readers: the rest of the program never reads it back.
-/

namespace StringAssembler
namespace Text

/-- The letter behind the backslash for characters that have a short escape. -/
def escapeLetter? : Char → Option Char
  | '"' => some '"'
  | '\\' => some '\\'
  | '\t' => some 't'
  | '\n' => some 'n'
  | '\r' => some 'r'
  | '\x00' => some '0'
  | _ => none

/-- What stands for one character between the quotes. -/
def quoteChar (c : Char) : List Char :=
  match escapeLetter? c with
  | some letter => ['\\', letter]
  | none =>
      if isUnprintable c then
        ['\\', 'u', '\x7b'] ++ Nat.toDigits 16 c.toNat ++ ['\x7d']
      else [c]

/-- A text between double quotes, with its special characters escaped. -/
def quote (text : String) : String :=
  String.ofList ('"' :: text.toList.flatMap quoteChar ++ ['"'])

end Text
end StringAssembler
