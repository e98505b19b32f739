import StringAssembler.Conversion.Run

/-!
# Command line arguments

Arguments are read from left to right, and the first one that settles the matter does
so for good: a request for the version or for help is answered even if a later argument
makes no sense, and a fault is final even if the version is asked for behind it.

An option with a value takes it from the same argument or from the next one.  Every
option may be given once; only the verbosity counts how often it is given.  No argument
stands alone.
-/

namespace StringAssembler

/-- The options that take a value. -/
inductive ValueOption where
  | table
  | input
  | output
  | terminator
  | strategy
  deriving DecidableEq, Repr

/-- The options that take no value. -/
inductive Switch where
  | append
  | noEscapes
  | verbose
  | version
  | help
  deriving DecidableEq, Repr

/-- What an option name stands for. -/
inductive OptionName where
  | valued (option : ValueOption)
  | switch (switch : Switch)
  deriving DecidableEq, Repr

namespace OptionName

/-- The option with a long name, which has to be spelled in full. -/
def ofLong? : String → Option OptionName
  | "table" => some (valued .table)
  | "input" => some (valued .input)
  | "output" => some (valued .output)
  | "terminate" => some (valued .terminator)
  | "match" => some (valued .strategy)
  | "append" => some (switch .append)
  | "no-escapes" => some (switch .noEscapes)
  | "verbose" => some (switch .verbose)
  | "version" => some (switch .version)
  | "help" => some (switch .help)
  | _ => none

/-- The option with a letter for a name. -/
def ofLetter? : Char → Option OptionName
  | 't' => some (valued .table)
  | 'i' => some (valued .input)
  | 'o' => some (valued .output)
  | 'e' => some (valued .terminator)
  | 'a' => some (switch .append)
  | 'v' => some (switch .verbose)
  | 'V' => some (switch .version)
  | 'h' => some (switch .help)
  | _ => none

end OptionName

/-- What the arguments ask for. -/
inductive Request where
  | convert (options : ConversionOptions) (verbosity : Nat)
  | version
  | help
  | invalid
  deriving DecidableEq, Repr

/-- The options given so far. -/
structure GivenOptions where
  table : Option String := none
  input : Option String := none
  output : Option String := none
  terminator : Option UInt8 := none
  strategy : Option Strategy := none
  append : Bool := false
  noEscapes : Bool := false
  verbosity : Nat := 0
  deriving DecidableEq, Repr

namespace GivenOptions

/-- The path that an option value names; it may not be empty. -/
def path? (value : String) : Option String :=
  if value = "" then none else some value

/-- The strategy that an option value names. -/
def strategy? : String → Option Strategy
  | "shortest" => some .shortest
  | "longest" => some .longest
  | _ => none

/-- Fills a place that is still free with a value that has to be valid. -/
def fill? {α : Type} (place : Option α) (value : Option α) : Option (Option α) :=
  match place, value with
  | none, some a => some (some a)
  | _, _ => none

/-- Gives an option its value, unless it has one or the value is not valid. -/
def set? (given : GivenOptions) (option : ValueOption) (value : String) :
    Option GivenOptions :=
  match option with
  | .table => (fill? given.table (path? value)).map fun p => { given with table := p }
  | .input => (fill? given.input (path? value)).map fun p => { given with input := p }
  | .output => (fill? given.output (path? value)).map fun p => { given with output := p }
  | .terminator =>
      (fill? given.terminator (HexByte.parse? value)).map fun b =>
        { given with terminator := b }
  | .strategy =>
      (fill? given.strategy (strategy? value)).map fun s => { given with strategy := s }

/-- The request that the options amount to: the three paths are required. -/
def request (given : GivenOptions) : Request :=
  match given.table, given.input, given.output with
  | some table, some input, some output =>
      .convert
        { table, input, output
          append := given.append
          escapes := !given.noEscapes
          strategy := given.strategy.getD .shortest
          terminator := given.terminator }
        given.verbosity
  | _, _, _ => .invalid

end GivenOptions

/-- How far the reading of arguments has come. -/
inductive Reading where
  /-- The next argument names an option. -/
  | ready (given : GivenOptions)
  /-- The next argument is the value of an option. -/
  | awaiting (given : GivenOptions) (option : ValueOption)
  /-- The options have been ended explicitly. -/
  | ended (given : GivenOptions)
  /-- The arguments read so far settle the request. -/
  | settled (request : Request)
  deriving DecidableEq, Repr

namespace Reading

/-- Gives an option its value. -/
def assign (given : GivenOptions) (option : ValueOption) (value : String) : Reading :=
  match given.set? option value with
  | some next => ready next
  | none => settled .invalid

/-- Takes note of an option without a value. -/
def note (given : GivenOptions) : Switch → Reading
  | .append => if given.append then settled .invalid else ready { given with append := true }
  | .noEscapes =>
      if given.noEscapes then settled .invalid else ready { given with noEscapes := true }
  | .verbose => ready { given with verbosity := given.verbosity + 1 }
  | .version => settled .version
  | .help => settled .help

/-- Reads a long option, given without its dashes; a value may follow an equals sign. -/
def readLong (given : GivenOptions) (body : List Char) : Reading :=
  match Text.cutFirst? '=' body with
  | some (name, value) =>
      match OptionName.ofLong? (String.ofList name) with
      | some (.valued option) => assign given option (String.ofList value)
      | _ => settled .invalid
  | none =>
      match OptionName.ofLong? (String.ofList body) with
      | some (.valued option) => awaiting given option
      | some (.switch switch) => note given switch
      | none => settled .invalid

/-- The value in the same argument as an option letter; one equals sign in between is
not part of it. -/
def attachedValue : List Char → List Char
  | '=' :: value => value
  | value => value

/-- Reads the letters of an argument with a single dash.  A letter of an option with a
value takes all that follows as the value. -/
def readLetters (given : GivenOptions) : List Char → Reading
  | [] => ready given
  | letter :: rest =>
      match OptionName.ofLetter? letter with
      | some (.valued option) =>
          if rest = [] then awaiting given option
          else assign given option (String.ofList (attachedValue rest))
      | some (.switch switch) =>
          match note given switch with
          | ready next => readLetters next rest
          | other => other
      | none => settled .invalid

/-- Reads one argument. -/
def step : Reading → String → Reading
  | ready given, argument =>
      match argument.toList with
      | ['-', '-'] => ended given
      | '-' :: '-' :: body => readLong given body
      | '-' :: letter :: rest => readLetters given (letter :: rest)
      | _ => settled .invalid
  | awaiting given option, argument =>
      match argument.toList with
      | '-' :: _ :: _ => settled .invalid
      | _ => assign given option argument
  | ended _, _ => settled .invalid
  | settled request, _ => settled request

/-- What is asked for when no argument is left. -/
def request : Reading → Request
  | ready given => given.request
  | awaiting _ _ => .invalid
  | ended given => given.request
  | settled request => request

end Reading

/-- What arguments ask for. -/
def Request.ofArguments (arguments : List String) : Request :=
  (arguments.foldl Reading.step (.ready {})).request

end StringAssembler
