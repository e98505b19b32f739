import StringAssembler.Log.Event
import StringAssembler.Text.Terminal

/-!
# Log lines

A threshold decides which events are shown; it never changes what a run does.  A shown
event becomes one entry of the log, with its level padded to a common width, the
further lines of its message indented and whatever would operate a terminal left out.
Entries carry no time.
-/

namespace StringAssembler

/-- Which events are shown: none, or those at least as important as a level. -/
inductive Threshold where
  | silent
  | upTo (least : Level)
  deriving DecidableEq, Repr

namespace Threshold

/-- Whether events of a level are shown. -/
def admits : Threshold → Level → Bool
  | silent, _ => false
  | upTo least, level => level.rank ≤ least.rank

/-- The threshold for the number of times that more output was asked for. -/
def ofVerbosity : Nat → Threshold
  | 0 => upTo .warn
  | 1 => upTo .info
  | 2 => upTo .debug
  | _ => upTo .trace

/-- The threshold that a level name or `off` stands for, in upper or lower case. -/
def ofName? (name : String) : Option Threshold :=
  match name.toLower with
  | "off" => some silent
  | "error" => some (upTo .error)
  | "warn" => some (upTo .warn)
  | "info" => some (upTo .info)
  | "debug" => some (upTo .debug)
  | "trace" => some (upTo .trace)
  | _ => none

/-- The threshold in force: a named one wins over the verbosity. -/
def choose (verbosity : Nat) (name : Option String) : Threshold :=
  (name.bind ofName?).getD (ofVerbosity verbosity)

end Threshold

namespace Event

/-- The width to which level names are padded. -/
def levelWidth : Nat := 5

/-- The number of blanks in front of the further lines of a message. -/
def indentWidth : Nat := 4

/-- A message with its further lines indented. -/
def indented (message : String) : String :=
  String.ofList (message.toList.flatMap fun c =>
    if c = '\n' then '\n' :: List.replicate indentWidth ' ' else [c])

/-- The entry of the log that shows an event.  The time of the event has no place in it,
because neither the arguments nor the files settle that time. -/
def logEntry (event : Event) : String :=
  let name := event.level.name
  Text.withoutControls
    ("[" ++ name ++ String.ofList (List.replicate (levelWidth - name.length) ' ') ++ " " ++
      event.origin ++ "] " ++ indented event.message ++ "\n")

end Event

/-- The log that shows the admitted ones among some events, in order. -/
def Threshold.log (threshold : Threshold) (events : List Event) : String :=
  String.join ((events.filter fun event => threshold.admits event.level).map Event.logEntry)

end StringAssembler
