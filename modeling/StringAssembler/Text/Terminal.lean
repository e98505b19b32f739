/-!
# Text without terminal controls

A terminal takes some characters for instructions: the control characters, and the
sequences that an escape character starts.  A log is read as plain text, so what it
shows is freed of them.  Tabs, newlines, form feeds and carriage returns are kept; they
lay text out and operate nothing.

The reader is a machine that goes through the text once.  A kept control character
interrupts an escape sequence or a control sequence: what stands behind it is shown as
if it were plain, up to the next control character that is not kept, and from there the
sequence goes on.  Among what is shown in between, a character beyond ASCII ends the
sequence for good.  No kept control character interrupts a command or a control string,
and one that never ends takes the rest of the text with it.
-/

namespace StringAssembler
namespace Text

/-- What a reader of terminal text is in the middle of. -/
inductive TerminalState where
  /-- Text to be shown. -/
  | plain
  /-- An escape sequence of which only the escape character has been read. -/
  | escape
  /-- An escape sequence behind its first intermediate character. -/
  | escapeTail
  /-- A control sequence, which goes on to its final character. -/
  | sequence
  /-- A command to the system, which goes on to a bell. -/
  | command
  /-- The header of a device control string without parameters so far. -/
  | device
  /-- The parameters of a device control string. -/
  | deviceParameters
  /-- The header of a device control string behind its first intermediate character. -/
  | deviceTail
  /-- The content of a control string, which goes on to a string terminator. -/
  | content
  deriving DecidableEq, Repr

/-- Whether a control character lays text out. -/
def isLayout (c : Char) : Bool :=
  c == '\t' || c == '\n' || c == '\x0c' || c == '\r'

/-- Whether a character lies between two others, or is one of them. -/
def isBetween (first last c : Char) : Bool :=
  first ≤ c && c ≤ last

/-- Whether the string terminator is among the bytes that encode a character. -/
def holdsTerminator (c : Char) : Bool :=
  (String.utf8EncodeChar c).contains 0x9C

/-- Whether a character has a shape, or is a plain blank. -/
def isVisible (c : Char) : Bool :=
  ' ' ≤ c && c != '\x7f'

namespace TerminalState

/-- Whether a kept control character is shown, and interrupts what the reader is in the
middle of. -/
def isOpen : TerminalState → Bool
  | plain => true
  | escape => true
  | escapeTail => true
  | sequence => true
  | _ => false

/-- What the reader is in the middle of behind a character that is part of a
sequence. -/
def goOn : TerminalState → Char → TerminalState
  | plain, _ => plain
  | escape, c =>
      if isBetween ' ' '/' c then escapeTail
      else if c = '[' then sequence
      else if c = ']' then command
      else if c = 'P' then device
      else if c = 'X' ∨ c = '^' ∨ c = '_' then content
      else if isBetween '0' '~' c then plain
      else escape
  | escapeTail, c => if isBetween '0' '~' c then plain else escapeTail
  | sequence, c => if isBetween '@' '~' c then plain else sequence
  | command, c => if c = '\x07' then plain else command
  | device, c =>
      if isBetween ' ' '/' c then deviceTail
      else if isBetween '0' '?' c then deviceParameters
      else if isBetween '@' '~' c then content
      else device
  | deviceParameters, c =>
      if isBetween ' ' '/' c then deviceTail
      else if isBetween '<' '~' c then content
      else deviceParameters
  | deviceTail, c => if isBetween '0' '~' c then content else deviceTail
  | content, c => if holdsTerminator c then plain else content

end TerminalState

/-- A reader of terminal text: what it is in the middle of, and whether it showed the
last character.  If it did, it goes on showing. -/
structure TerminalReader where
  state : TerminalState
  showing : Bool
  deriving DecidableEq, Repr

namespace TerminalReader

/-- The reader at the front of a text. -/
def start : TerminalReader := ⟨.plain, true⟩

/-- Whether a character is shown. -/
def shows (reader : TerminalReader) (c : Char) : Bool :=
  (isLayout c && reader.state.isOpen) ||
    (isVisible c && (reader.showing || reader.state == .plain))

/-- The reader behind a character.  The two cancelling controls end every sequence, and
an escape character starts a new one. -/
def after (reader : TerminalReader) (c : Char) : TerminalReader :=
  if reader.shows c then ⟨if c ≤ '\x7f' then reader.state else .plain, true⟩
  else if c = '\x18' ∨ c = '\x1a' then ⟨.plain, false⟩
  else if c = '\x1b' then ⟨.escape, false⟩
  else ⟨reader.state.goOn c, false⟩

/-- The characters of a text that are shown. -/
def shown (reader : TerminalReader) : List Char → List Char
  | [] => []
  | c :: rest =>
      if reader.shows c then c :: (reader.after c).shown rest
      else (reader.after c).shown rest

end TerminalReader

/-- A text without the characters and sequences that would operate a terminal. -/
def withoutControls (text : String) : String :=
  String.ofList (TerminalReader.start.shown text.toList)

end Text
end StringAssembler
