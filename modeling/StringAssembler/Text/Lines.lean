import StringAssembler.Text.Cut

/-!
# Lines of a text

A line ends at a newline, and one carriage return directly before that newline
belongs to the line end and not to the line.  Text behind the last newline is a
line of its own unless it is empty; it keeps a carriage return at its end, since
no newline follows.

A byte order mark is not part of a line.  It is dropped from the front of a file's
text by `dropByteOrderMark`, at most once.
-/

namespace StringAssembler
namespace Text

/-- A piece that a newline ends, without the carriage return before that newline. -/
def dropReturn (piece : List Char) : List Char :=
  if piece.getLast? = some '\r' then piece.dropLast else piece

/-- The lines that the pieces between newlines stand for: a newline follows every
piece but the last, and the last is a line only if it holds something. -/
def linesOfPieces : List (List Char) → List (List Char)
  | [] => []
  | [last] => if last = [] then [] else [last]
  | piece :: more => dropReturn piece :: linesOfPieces more

/-- The lines of a text, in order. -/
def lines (text : String) : List String :=
  (linesOfPieces (pieces '\n' text.toList)).map String.ofList

/-- The byte order mark, a character that may stand in front of a file's text. -/
def byteOrderMark : Char := '\ufeff'

/-- A text without one byte order mark at its front. -/
def dropByteOrderMark (text : String) : String :=
  match text.toList with
  | [] => text
  | c :: rest => if c = byteOrderMark then String.ofList rest else text

end Text
end StringAssembler
