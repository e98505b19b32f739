import StringAssembler.Text.Cut

/-!
# Definitions

An input line has the form `symbol=text`.  It is cut at its first `=`, so the text
may contain `=` and may be empty, while the symbol holds no `=` and is never empty.
-/

namespace StringAssembler

/-- A symbol and the text that is to be encoded for it. -/
structure Definition where
  symbol : String
  text : String
  deriving DecidableEq, Repr

/-- An input line that states no definition, with the place where it stands. -/
structure MalformedDefinition where
  source : String
  lineNumber : Nat
  line : String
  deriving DecidableEq, Repr

/-- The diagnostic for a line that states no definition. -/
def MalformedDefinition.message (e : MalformedDefinition) : String :=
  "Error while parsing \"" ++ e.line ++ "\" in file \"" ++ e.source ++
    "\" (line " ++ toString e.lineNumber ++ ")"

namespace Definition

/-- The definition that a line states, if it states one. -/
def parse? (line : String) : Option Definition :=
  match Text.cutFirst? '=' line.toList with
  | some (symbol, text) =>
      if symbol = [] then none
      else some ⟨String.ofList symbol, String.ofList text⟩
  | none => none

/-- The definition on a numbered line of a file, or what is wrong with the line. -/
def read (source : String) (lineNumber : Nat) (line : String) :
    Except MalformedDefinition Definition :=
  match parse? line with
  | some definition => .ok definition
  | none => .error ⟨source, lineNumber, line⟩

end Definition
end StringAssembler
