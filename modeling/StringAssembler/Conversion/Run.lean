import StringAssembler.Conversion.Stages
import StringAssembler.Listing.Basic

/-!
# Conversion runs

A run has two phases.  The first one reads, encodes and renders; everything that can
go wrong with the content goes wrong here, and it depends on three facts only: what
reading the table gives, what reading the input gives, and whether the output starts
blank.  The second phase is a single write to the output, so a run that fails leaves
all files as they are.
-/

namespace StringAssembler

/-- The settings of a conversion run. -/
structure ConversionOptions where
  table : String
  input : String
  output : String
  append : Bool := false
  escapes : Bool := true
  strategy : Strategy := .shortest
  terminator : Option UInt8 := none
  deriving DecidableEq, Repr

/-- What a run finds in the files it looks at. -/
structure ConversionSources where
  table : Except FileError ByteArray
  input : Except FileError ByteArray
  outputBlank : Bool

/-- What a successful run has emitted: the number of strings, and of their bytes. -/
structure ConversionSummary where
  strings : Nat
  bytes : Nat
  deriving DecidableEq, Repr

/-- The result of the first phase: the encoded strings and the block for the output. -/
structure RenderedBlock where
  strings : List EncodedString
  text : String
  deriving DecidableEq, Repr

namespace RenderedBlock

/-- The numbers that a run reports about a block. -/
def summary (block : RenderedBlock) : ConversionSummary :=
  ⟨block.strings.length, (block.strings.flatMap EncodedString.bytes).length⟩

/-- The bytes that a run writes. -/
def bytes (block : RenderedBlock) : ByteArray := block.text.toUTF8

end RenderedBlock

/-- What became of a run: its outcome, the files afterwards, the events in order. -/
structure ConversionReport where
  outcome : Except ConversionError ConversionSummary
  tree : FileTree
  events : List Event

namespace ConversionOptions

/-- The encoder of a run, over a table. -/
def encoder (options : ConversionOptions) (table : TokenTable) : Encoder :=
  ⟨table, options.strategy, options.terminator⟩

/-- Whether the block of a run opens its section: always when the output is replaced,
and when it is extended only if it starts blank. -/
def fresh (options : ConversionOptions) (outputBlank : Bool) : Bool :=
  !options.append || outputBlank

/-- The block of a run over encoded strings. -/
def block (options : ConversionOptions) (outputBlank : Bool) (strings : List EncodedString) :
    Emission :=
  .block (.forConversion options.input options.table) (options.fresh outputBlank)
    options.input (Path.stem options.input) strings

/-- The first phase of a run: reads the table, makes it, reads the input, encodes it
and renders the block, up to the first stage that fails. -/
def render (options : ConversionOptions) (sources : ConversionSources) :
    Traced ConversionError RenderedBlock := do
  let tableText ← Traced.ofExcept (textOf options.table sources.table)
  let table ← (tableOfText options.table tableText options.escapes).mapFailure .table
  let inputText ← Traced.ofExcept (textOf options.input sources.input)
  let strings ← (options.encoder table).encodeDefinitions options.input inputText
  Traced.report (.encoded strings.length options.input)
  return ⟨strings, (options.block sources.outputBlank strings).text⟩

/-- The second phase of a run, by what became of writing the block. -/
def conclude {α : Type} (options : ConversionOptions) (block : RenderedBlock) :
    Except FileError α → Traced ConversionError ConversionSummary
  | .ok _ => ⟨[.wrote block.bytes.size options.output], .ok block.summary⟩
  | .error e => .failure (.file options.output e)

/-- What a run finds in the files of a tree. -/
def sources (options : ConversionOptions) (tree : FileTree) : ConversionSources :=
  ⟨tree.read options.table, tree.read options.input, tree.isBlank options.output⟩

/-- Runs a conversion on the files of a tree. -/
def run (options : ConversionOptions) (tree : FileTree) : ConversionReport :=
  let rendered := options.render (options.sources tree)
  match rendered.outcome with
  | .error e => ⟨.error e, tree, rendered.events⟩
  | .ok block =>
      let written := tree.write options.output options.append block.bytes
      let last := options.conclude block written
      ⟨last.outcome, written.toOption.getD tree, rendered.events ++ last.events⟩

end ConversionOptions
end StringAssembler
