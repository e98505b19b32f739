import StringAssembler.Segmentation
import StringAssembler.Text.Quoted

/-!
# Log events

Everything a run reports about its progress, as data.  The level, the origin and the
wording of an event are functions of it, so the same list of events serves a quiet
run and a talkative one.
-/

namespace StringAssembler

/-- How important an event is, the most important level first. -/
inductive Level where
  | error
  | warn
  | info
  | debug
  | trace
  deriving DecidableEq, Repr

namespace Level

/-- The position of a level, counted from the most important one. -/
def rank : Level → Nat
  | error => 0
  | warn => 1
  | info => 2
  | debug => 3
  | trace => 4

/-- The name of a level. -/
def name : Level → String
  | error => "ERROR"
  | warn => "WARN"
  | info => "INFO"
  | debug => "DEBUG"
  | trace => "TRACE"

end Level

/-- Something that a run reports. -/
inductive Event where
  /-- A table was finished: its size, the name of its source, its longest token. -/
  | compiled (tokens : Nat) (source : String) (longest : Nat)
  /-- A token was taken from a text. -/
  | matched (taken : TokenMatch)
  /-- All definitions of a file were encoded. -/
  | encoded (strings : Nat) (source : String)
  /-- The output was written: the size of the new block and the output's path. -/
  | wrote (bytes : Nat) (path : String)
  /-- The program is done: what was emitted, and where to. -/
  | finished (strings bytes : Nat) (path : String)
  /-- The program failed, with the diagnostic. -/
  | failed (diagnostic : String)
  deriving DecidableEq, Repr

namespace Event

/-- How important an event is. -/
def level : Event → Level
  | compiled .. => .debug
  | matched _ => .trace
  | encoded .. => .info
  | wrote .. => .debug
  | finished .. => .info
  | failed _ => .error

/-- The part of the program that an event names as its origin. -/
def origin : Event → String
  | compiled .. => "tblasm::core::table"
  | matched _ => "tblasm::core::encoder"
  | encoded .. => "tblasm::convert"
  | wrote .. => "tblasm::convert"
  | finished .. => "tblasm"
  | failed _ => "tblasm"

/-- The wording of an event. -/
def message : Event → String
  | compiled tokens source longest =>
      "compiled " ++ toString tokens ++ " tokens from \"" ++ source ++
        "\" (longest token " ++ toString longest ++ " chars)"
  | matched taken =>
      Text.quote taken.token ++ " -> " ++ HexByte.format taken.value ++
        " at char " ++ toString taken.cursor
  | encoded strings source =>
      "encoded " ++ toString strings ++ " strings from \"" ++ source ++ "\""
  | wrote bytes path =>
      "wrote " ++ toString bytes ++ " bytes of assembly to \"" ++ path ++ "\""
  | finished strings bytes path =>
      toString strings ++ " strings, " ++ toString bytes ++ " bytes -> \"" ++
        path ++ "\""
  | failed diagnostic => diagnostic

end Event
end StringAssembler
