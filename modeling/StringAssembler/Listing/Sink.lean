import StringAssembler.Listing.Basic

/-!
# Sinks with limited room

A sink takes text line by line, up to a number of bytes in all.  A line that does not
fit is cut at the byte where the room ends, even inside a character, and the emission
that it belongs to stops there.  Later emissions may still be tried.
-/

namespace StringAssembler

/-- A place for bytes; without a number its room is unlimited. -/
structure Sink where
  room : Option Nat
  deriving DecidableEq, Repr

/-- What became of bytes that were offered to a sink: those that got through, whether
that was all of them, and the sink afterwards. -/
structure Delivery where
  delivered : ByteArray
  complete : Bool
  sink : Sink

/-- The diagnostic for an emission that did not fit. -/
def Delivery.shortfall : String := "failed to write whole buffer"

namespace Sink

/-- Offers bytes to a sink, which takes as many as it has room for. -/
def offer (sink : Sink) (bytes : ByteArray) : Delivery :=
  match sink.room with
  | none => ⟨bytes, true, sink⟩
  | some room =>
      if bytes.size ≤ room then ⟨bytes, true, ⟨some (room - bytes.size)⟩⟩
      else ⟨bytes.extract 0 room, false, ⟨some 0⟩⟩

/-- Offers lines in order, each with its newline, up to the first that does not fit. -/
def offerLines (sink : Sink) : List String → Delivery
  | [] => ⟨ByteArray.empty, true, sink⟩
  | line :: rest =>
      let first := sink.offer (line ++ "\n").toUTF8
      if first.complete then
        let more := first.sink.offerLines rest
        ⟨first.delivered ++ more.delivered, more.complete, more.sink⟩
      else first

/-- Offers the lines of an emission. -/
def emit (sink : Sink) (emission : Emission) : Delivery :=
  sink.offerLines emission.lines

/-- Emits one after the other, whether or not the emissions before got through. -/
def emitAll (sink : Sink) : List Emission → List Delivery × Sink
  | [] => ([], sink)
  | emission :: rest =>
      let first := sink.emit emission
      let (more, last) := first.sink.emitAll rest
      (first :: more, last)

end Sink
end StringAssembler
