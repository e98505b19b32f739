import StringAssembler.Table.Basic
import StringAssembler.Table.Line

/-!
# Table compilation

A compiler takes table lines one by one and can be finished to a table at any time.
The first line that is malformed or repeats a token is an error; it changes nothing
but the count of lines seen, so a compiler stays usable after it.

The escape tokens can be added when a compiler is finished, after all lines, so a
table line never overwrites one and a clash is always reported.
-/

namespace StringAssembler

/-- Why lines do not make a table. -/
inductive TableError where
  /-- A line that is no table line. -/
  | malformed (source : String) (lineNumber : Nat) (line : String)
  /-- A token that an earlier line of the table defines. -/
  | redefined (source : String) (lineNumber : Nat) (token : String)
  /-- A token of the table that is also an escape token to be added. -/
  | escapeClash (source : String) (token : String)
  deriving DecidableEq, Repr

/-- The diagnostic for lines that make no table. -/
def TableError.message : TableError → String
  | .malformed source lineNumber line =>
      "Error while parsing \"" ++ line ++ "\" in file \"" ++ source ++
        "\" (line " ++ toString lineNumber ++ ")"
  | .redefined source lineNumber token =>
      "Token \"" ++ token ++ "\" redefined on line " ++ toString lineNumber ++
        " in file \"" ++ source ++ "\""
  | .escapeClash source token =>
      "Token \"" ++ token ++ "\" collides with a generated escape code in file \"" ++
        source ++ "\""

/-- A table in the making: the name of its source for diagnostics, the tokens so far
with the length of the longest, and the number of lines seen. -/
structure TableCompiler where
  source : String
  tokens : TokenMap
  longest : Nat
  linesSeen : Nat

namespace TableCompiler

/-- A compiler that has seen no line. -/
def start (source : String) : TableCompiler := ⟨source, ∅, 0, 0⟩

/-! ## Adding lines -/

/-- Adds a token that is not there yet. -/
def register? (compiler : TableCompiler) (token : String) (value : UInt8) :
    Option TableCompiler :=
  if compiler.tokens.contains token then none
  else some
    { compiler with
      tokens := compiler.tokens.insert token value
      longest := max compiler.longest token.length }

/-- Adds one line.  Lines are numbered from one in the order in which they come, and
a line counts whether or not it is accepted. -/
def addLine (compiler : TableCompiler) (line : String) :
    Except TableError Unit × TableCompiler :=
  let counted := { compiler with linesSeen := compiler.linesSeen + 1 }
  match TableLine.parse? line with
  | none => (.error (.malformed counted.source counted.linesSeen line), counted)
  | some entry =>
      match counted.register? entry.token entry.value with
      | none => (.error (.redefined counted.source counted.linesSeen entry.token), counted)
      | some extended => (.ok (), extended)

/-- Adds lines up to the first that is not accepted. -/
def addLines (compiler : TableCompiler) : List String → Except TableError Unit × TableCompiler
  | [] => (.ok (), compiler)
  | line :: rest =>
      match compiler.addLine line with
      | (.ok _, next) => next.addLines rest
      | (.error e, next) => (.error e, next)

/-! ## Finishing -/

/-- All bytes in ascending order. -/
def allBytes : List UInt8 := (List.range 256).map UInt8.ofNat

/-- Adds the escape tokens of the given bytes in order, up to the first clash. -/
def addEscapes (compiler : TableCompiler) : List UInt8 → Except TableError TableCompiler
  | [] => .ok compiler
  | value :: rest =>
      match compiler.register? (escapeToken value) value with
      | none => .error (.escapeClash compiler.source (escapeToken value))
      | some extended => extended.addEscapes rest

/-- The table of the tokens added so far. -/
def finish (compiler : TableCompiler) : TokenTable :=
  ⟨compiler.tokens, compiler.longest, false⟩

/-- The table of the tokens added so far and of all escape tokens. -/
def finishWithEscapes (compiler : TableCompiler) : Except TableError TokenTable :=
  match compiler.addEscapes allBytes with
  | .ok extended => .ok { extended.finish with hasEscapes := true }
  | .error e => .error e

/-- Finishes a compiler with or without the escape tokens. -/
def finishAs (compiler : TableCompiler) (escapes : Bool) : Except TableError TokenTable :=
  if escapes then compiler.finishWithEscapes else .ok compiler.finish

end TableCompiler

/-- The table that lines make, with or without the escape tokens. -/
def TokenTable.compile (source : String) (lines : List String) (escapes : Bool) :
    Except TableError TokenTable :=
  match (TableCompiler.start source).addLines lines with
  | (.ok _, compiler) => compiler.finishAs escapes
  | (.error e, _) => .error e

end StringAssembler
