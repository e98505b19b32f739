import StringAssembler.Segmentation

/-!
# Encoding of texts

An encoder holds what is fixed for a whole run: the table, the strategy and an
optional terminator.  A text is encoded to the bytes of its tokens in order, and the
terminator comes behind them, also for the empty text.
-/

namespace StringAssembler

/-- A table with the settings that decide how texts are encoded. -/
structure Encoder where
  table : TokenTable
  strategy : Strategy := .shortest
  terminator : Option UInt8 := none

/-- The bytes of a segmentation, if it reached the end of its text. -/
def Segmentation.bytes (cut : Segmentation) : Except Unmatched (List UInt8) :=
  match cut.unmatched with
  | none => .ok (cut.taken.map TokenMatch.value)
  | some place => .error place

namespace Encoder

/-- The segmentation from which the bytes of a text are read. -/
def segment (encoder : Encoder) (text : String) : Segmentation :=
  encoder.table.segment encoder.strategy text

/-- The bytes of a text, the terminator included. -/
def encode (encoder : Encoder) (text : String) : Except Unmatched (List UInt8) :=
  match (encoder.segment text).bytes with
  | .ok bytes => .ok (bytes ++ encoder.terminator.toList)
  | .error place => .error place

end Encoder

/-- A symbol with the bytes that are emitted for it. -/
structure EncodedString where
  symbol : String
  bytes : List UInt8
  deriving DecidableEq, Repr

end StringAssembler
