import Std.Data.TreeMap
import StringAssembler.HexByte

/-!
# Token tables

A token table maps tokens to bytes.  Look-up is exact: no case folding and no
normalisation.  Beside the map a table records the length of its longest token,
counted in characters, which bounds how far a text has to be searched, and whether
the 256 escape tokens were added to it.

Tables are made by a `TableCompiler`; the two recorded facts are kept by it and are
not recomputed here.
-/

namespace StringAssembler

/-- The token that stands for a raw byte: a backslash, `h` and two upper-case digits. -/
def escapeToken (value : UInt8) : String :=
  String.ofList ('\\' :: 'h' :: HexByte.upperDigits value)

/-- Tokens with the bytes they stand for, sorted by token. -/
abbrev TokenMap := Std.TreeMap String UInt8

/-- A finished table: its tokens, the length of the longest one in characters, and
whether the escape tokens are among them by construction. -/
structure TokenTable where
  tokens : TokenMap
  longest : Nat
  hasEscapes : Bool

namespace TokenTable

/-- The table without tokens. -/
def empty : TokenTable := ⟨∅, 0, false⟩

instance : Inhabited TokenTable := ⟨empty⟩

/-- The byte that a token stands for. -/
def get? (table : TokenTable) (token : String) : Option UInt8 :=
  table.tokens[token]?

/-- Whether a text is a token of the table. -/
def contains (table : TokenTable) (token : String) : Bool :=
  table.tokens.contains token

/-- The number of tokens. -/
def size (table : TokenTable) : Nat :=
  table.tokens.size

/-- Whether the table has no token. -/
def isEmpty (table : TokenTable) : Bool :=
  table.tokens.isEmpty

/-- The tokens with their bytes, in ascending order of the tokens. -/
def toList (table : TokenTable) : List (String × UInt8) :=
  table.tokens.toList

/-- Two tables are equal when they hold the same entries and record the same facts. -/
instance : BEq TokenTable where
  beq a b :=
    a.tokens == b.tokens && a.longest == b.longest && a.hasEscapes == b.hasEscapes

end TokenTable
end StringAssembler
