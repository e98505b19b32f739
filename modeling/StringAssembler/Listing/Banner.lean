/-!
# Banners

A banner is a box of comment characters around some lines, at the top of every block
of a listing.  Every row of the box has the same width: the longest line and a fixed
margin, counted in characters.  Lines are centred, and where the free space is odd the
extra blank stands on the right.

A line that itself holds a newline does not stay inside the box.
-/

namespace StringAssembler

/-- The lines that a banner shows. -/
structure Banner where
  lines : List String
  deriving DecidableEq, Repr

namespace Banner

/-- The character that starts a comment and of which the box is drawn. -/
def border : Char := '@'

/-- The width of the box beyond its longest line, the two borders included. -/
def margin : Nat := 25

/-- The banner of a conversion, which names the input and the table. -/
def forConversion (input table : String) : Banner :=
  ⟨["result of file \"" ++ input ++ "\"",
    "using table \"" ++ table ++ "\"",
    "converted using tblasm"]⟩

/-- The width of every row of the box. -/
def width (banner : Banner) : Nat :=
  (banner.lines.map String.length).foldr max 0 + margin

/-- A text of the given number of equal characters. -/
def filled (c : Char) (n : Nat) : String := String.ofList (List.replicate n c)

/-- The first and the last row: borders only. -/
def fullRow (width : Nat) : String := filled border width

/-- A row with one line, centred between the borders. -/
def framedRow (width : Nat) (line : String) : String :=
  let free := width - 2 - line.length
  let left := free / 2
  String.singleton border ++ filled ' ' left ++ line ++ filled ' ' (free - left) ++
    String.singleton border

/-- The rows of the box: the lines, an empty row above and below them, and a border
around all. -/
def rows (banner : Banner) : List String :=
  [fullRow banner.width, framedRow banner.width ""] ++
    banner.lines.map (framedRow banner.width) ++
    [framedRow banner.width "", fullRow banner.width]

end Banner
end StringAssembler
