import StringAssembler.Encoder
import StringAssembler.Listing.Banner

/-!
# Assembly listings

A listing is a list of lines.  A block of it has three parts: a header with the banner
and the section set-up, one labelled entry per string, and a reference table through
which the strings can be reached by number.  A string without bytes has a label and no
data line.

Symbols and names are inserted as they are; nothing here escapes them.
-/

namespace StringAssembler

/-- The part of a listing that one call emits. -/
inductive Emission where
  /-- The banner and the section set-up.  A fresh listing also opens its section; one
  that goes on after other text is set off by an empty line instead. -/
  | header (banner : Banner) (fresh : Bool)
  /-- The label and the data of one string. -/
  | string (encoded : EncodedString)
  /-- The table of references to the strings, under the label of the whole array. -/
  | references (input stem : String) (strings : List EncodedString)
  /-- A whole block: the header, every string, the reference table. -/
  | block (banner : Banner) (fresh : Bool) (input stem : String)
      (strings : List EncodedString)
  deriving DecidableEq, Repr

namespace Listing

/-- The lines of a banner: its rows and an empty line that sets them off. -/
def bannerLines (banner : Banner) : List String :=
  banner.rows ++ [""]

/-- The lines of a header. -/
def headerLines (banner : Banner) (fresh : Bool) : List String :=
  if fresh then bannerLines banner ++ [".text", ".align 2"]
  else "" :: bannerLines banner ++ [".align 2"]

/-- The lines of one string. -/
def stringLines (encoded : EncodedString) : List String :=
  ["", ".global " ++ encoded.symbol, encoded.symbol ++ ":"] ++
    if encoded.bytes = [] then []
    else [".byte " ++ HexByte.formatList encoded.bytes]

/-- The lines that refer to one string. -/
def referenceLines (encoded : EncodedString) : List String :=
  [".global " ++ encoded.symbol ++ "_ref", encoded.symbol ++ "_ref:",
    ".word " ++ encoded.symbol, ""]

/-- The lines of the reference table. -/
def referenceTableLines (input stem : String) (strings : List EncodedString) :
    List String :=
  ["", "@@@@ reference table for \"" ++ input ++ "\" @@@@", "", ".align 2", "",
    ".global " ++ stem ++ "_array", stem ++ "_array:", ""] ++
    strings.flatMap referenceLines

/-- The text of lines, each ended by a newline. -/
def text (lines : List String) : String :=
  String.join (lines.map (· ++ "\n"))

end Listing

/-- The text of a banner. -/
def Banner.text (banner : Banner) : String :=
  Listing.text (Listing.bannerLines banner)

/-- The lines of an emission. -/
def Emission.lines : Emission → List String
  | .header banner fresh => Listing.headerLines banner fresh
  | .string encoded => Listing.stringLines encoded
  | .references input stem strings => Listing.referenceTableLines input stem strings
  | .block banner fresh input stem strings =>
      Listing.headerLines banner fresh ++ strings.flatMap Listing.stringLines ++
        Listing.referenceTableLines input stem strings

/-- The text of an emission. -/
def Emission.text (emission : Emission) : String :=
  Listing.text emission.lines

end StringAssembler
