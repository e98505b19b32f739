import StringAssembler.Definition
import StringAssembler.Encoder
import StringAssembler.Files.Tree
import StringAssembler.Log.Traced
import StringAssembler.Table.Compiler
import StringAssembler.Text.Lines

/-!
# The stages of a conversion

A conversion reads two files as text, makes a table of one and encodes the definitions
of the other.  Each stage is a function of the text it works on and stops at the first
fault it meets; what it did before is on record as events.
-/

namespace StringAssembler

/-- Why a conversion fails. -/
inductive ConversionError where
  /-- A file that cannot be read or written. -/
  | file (path : String) (cause : FileError)
  /-- Lines that make no table. -/
  | table (cause : TableError)
  /-- A line that states no definition. -/
  | definition (cause : MalformedDefinition)
  /-- A text that cannot be cut into tokens, with the definition it belongs to. -/
  | encoding (source : String) (lineNumber : Nat) (symbol : String) (cause : Unmatched)
  deriving DecidableEq, Repr

namespace ConversionError

/-- The diagnostic for a failed conversion. -/
def message : ConversionError → String
  | file path cause => "\"" ++ path ++ "\": " ++ cause.message
  | table cause => cause.message
  | definition cause => cause.message
  | encoding source lineNumber symbol cause =>
      "Cannot encode \"" ++ symbol ++ "\" in file \"" ++ source ++ "\" (line " ++
        toString lineNumber ++ "): " ++ cause.message

/-- The diagnostics of the faults behind a failure, the nearest one first.  A failure
that only passes on another fault has none of its own. -/
def causes : ConversionError → List String
  | file _ cause => [cause.message]
  | table _ => []
  | definition _ => []
  | encoding _ _ _ cause => [cause.message]

end ConversionError

/-! ## Reading -/

/-- The text of a file without its byte order mark. -/
def decodeText (content : ByteArray) : Except FileError String :=
  match String.fromUTF8? content with
  | some text => .ok (Text.dropByteOrderMark text)
  | none => .error .notText

/-- The text of a file, from what reading the file gave. -/
def textOf (path : String) (content : Except FileError ByteArray) :
    Except ConversionError String :=
  match content.bind decodeText with
  | .ok text => .ok text
  | .error e => .error (.file path e)

/-- The text of a file of a tree. -/
def FileTree.readText (tree : FileTree) (path : String) : Except ConversionError String :=
  textOf path (tree.read path)

/-! ## Making the table -/

/-- The event that a finished table is worth. -/
def TokenTable.event (table : TokenTable) (source : String) : Event :=
  .compiled table.size source table.longest

/-- Reports a table that was made of the lines of a source; a failure is worth no
event. -/
def reportTable (source : String) (outcome : Except TableError TokenTable) :
    Traced TableError TokenTable := do
  let table ← Traced.ofExcept outcome
  Traced.report (table.event source)
  return table

/-- Makes the table of a text, with or without the escape tokens. -/
def tableOfText (source text : String) (escapes : Bool) : Traced TableError TokenTable :=
  reportTable source (TokenTable.compile source (Text.lines text) escapes)

theorem outcome_tableOfText (source text : String) (escapes : Bool) :
    (tableOfText source text escapes).outcome =
      TokenTable.compile source (Text.lines text) escapes := by
  unfold tableOfText reportTable
  cases hcompile : TokenTable.compile source (Text.lines text) escapes <;> rfl

/-! ## Encoding the definitions -/

/-- Encodes a text and reports the tokens taken, also those before a failure. -/
def Encoder.encodeTraced (encoder : Encoder) (text : String) :
    Traced Unmatched (List UInt8) :=
  ⟨(encoder.segment text).taken.map Event.matched, encoder.encode text⟩

/-- Encodes the definition on a numbered line. -/
def Encoder.encodeLine (encoder : Encoder) (source : String) (lineNumber : Nat)
    (line : String) : Traced ConversionError EncodedString := do
  let definition ←
    (Traced.ofExcept (Definition.read source lineNumber line)).mapFailure .definition
  let bytes ←
    (encoder.encodeTraced definition.text).mapFailure
      (.encoding source lineNumber definition.symbol)
  return ⟨definition.symbol, bytes⟩

/-- Encodes the definitions on lines that are numbered from the given number on, up to
the first that fails. -/
def Encoder.encodeLines (encoder : Encoder) (source : String) (lineNumber : Nat) :
    List String → Traced ConversionError (List EncodedString)
  | [] => return []
  | line :: rest => do
      let first ← encoder.encodeLine source lineNumber line
      (encoder.encodeLines source (lineNumber + 1) rest).mapValue (first :: ·)

/-- Encodes the definitions of a text. -/
def Encoder.encodeDefinitions (encoder : Encoder) (source text : String) :
    Traced ConversionError (List EncodedString) :=
  encoder.encodeLines source 1 (Text.lines text)

end StringAssembler
