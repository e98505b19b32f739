import StringAssembler.Listing.Sink
import StringAssembler.Proofs.Listing.Data

/-!
# Sinks with limited room

A sink takes of bytes that are offered to it the front for which it has room, in however
many pieces they come (`Sink.offerPieces_eq_offer`).  So an emission gets through as far as
the room goes that those before it have left, and a sequence of emissions to a sink with
limited room leaves exactly the front of what it would leave in a sink without a limit
(`emitAll_delivers_prefix`).

An emission always has a byte to offer, its first line being never missing.  Without that an
emission behind one that failed could still get through.
-/

namespace StringAssembler

/-! ## Bytes put together -/

/-- Bytes of several pieces, one behind the other. -/
def joinBytes (pieces : List ByteArray) : ByteArray :=
  pieces.foldr (· ++ ·) ByteArray.empty

@[simp] theorem joinBytes_nil : joinBytes [] = ByteArray.empty := rfl

@[simp] theorem joinBytes_cons (piece : ByteArray) (rest : List ByteArray) :
    joinBytes (piece :: rest) = piece ++ joinBytes rest := rfl

theorem joinBytes_append (pieces more : List ByteArray) :
    joinBytes (pieces ++ more) = joinBytes pieces ++ joinBytes more := by
  induction pieces with
  | nil => simp
  | cons piece rest ih => simp [ih, ByteArray.append_assoc]

/-- The place in joined bytes at which a piece starts: behind all pieces before it. -/
def offsetOf (pieces : List ByteArray) (i : Nat) : Nat :=
  (joinBytes (pieces.take i)).size

@[simp] theorem offsetOf_zero (pieces : List ByteArray) : offsetOf pieces 0 = 0 := rfl

@[simp] theorem offsetOf_cons_succ (piece : ByteArray) (rest : List ByteArray) (i : Nat) :
    offsetOf (piece :: rest) (i + 1) = piece.size + offsetOf rest i := by
  rw [offsetOf, List.take_succ_cons, joinBytes_cons, ByteArray.size_append, offsetOf]

/-- The bytes of a text are those of its lines, each with its newline. -/
theorem joinBytes_map_lines (lines : List String) :
    joinBytes (lines.map fun line => (line ++ "\n").toUTF8) = (Listing.text lines).toUTF8 := by
  induction lines with
  | nil => rfl
  | cons line rest ih =>
      have htext : Listing.text (line :: rest) = (line ++ "\n") ++ Listing.text rest := by
        simp [Listing.text]
      rw [List.map_cons, joinBytes_cons, ih, htext]
      exact String.toByteArray_append.symm

theorem extract_zero_of_size_le {bytes : ByteArray} {room : Nat} (h : bytes.size ≤ room) :
    bytes.extract 0 room = bytes := by
  have hmax := ByteArray.extract_zero_max_size (a := bytes) (i := room)
  rwa [Nat.max_eq_left h] at hmax

/-- Of two pieces of bytes, the first one is found in front. -/
theorem extract_zero_append {piece : ByteArray} {stop : Nat} (h : stop ≤ piece.size)
    (behind : ByteArray) : (piece ++ behind).extract 0 stop = piece.extract 0 stop := by
  have hnone : stop - piece.size = 0 := by omega
  rw [ByteArray.extract_append, hnone, Nat.zero_sub, ByteArray.extract_same,
    ByteArray.append_empty]

theorem offsetOf_succ {pieces : List ByteArray} {i : Nat} {piece : ByteArray}
    (h : pieces[i]? = some piece) : offsetOf pieces (i + 1) = offsetOf pieces i + piece.size := by
  induction pieces generalizing i with
  | nil => cases h
  | cons first rest ih =>
      cases i with
      | zero =>
          cases h
          simp
      | succ i => rw [offsetOf_cons_succ, offsetOf_cons_succ, ih h, Nat.add_assoc]

theorem offsetOf_mono (pieces : List ByteArray) {i j : Nat} (h : i ≤ j) :
    offsetOf pieces i ≤ offsetOf pieces j := by
  obtain ⟨k, rfl⟩ := Nat.exists_eq_add_of_le h
  rw [offsetOf, offsetOf, List.take_add, joinBytes_append, ByteArray.size_append]
  exact Nat.le_add_right _ _

/-- A piece is found at its offset in the front of joined bytes, as far as the front goes. -/
theorem extract_joinBytes {pieces : List ByteArray} {i : Nat} {piece : ByteArray}
    (h : pieces[i]? = some piece) (room : Nat) :
    ((joinBytes pieces).extract 0 room).extract (offsetOf pieces i) (offsetOf pieces (i + 1)) =
      piece.extract 0 (room - offsetOf pieces i) := by
  obtain ⟨hi, rfl⟩ := List.getElem?_eq_some_iff.mp h
  have hsplit : joinBytes pieces =
      joinBytes (pieces.take i) ++ (pieces[i] ++ joinBytes (pieces.drop (i + 1))) := by
    rw [← joinBytes_cons, ← joinBytes_append, ← List.drop_eq_getElem_cons hi,
      List.take_append_drop]
  have hoffset : (joinBytes (pieces.take i)).size = offsetOf pieces i := rfl
  -- What stands before the piece has no byte behind the offset.
  have hbefore : ∀ stop, (joinBytes (pieces.take i)).extract (offsetOf pieces i) stop =
      ByteArray.empty := by
    intro stop
    rw [ByteArray.extract_eq_empty_iff, hoffset]
    exact Nat.min_le_right _ _
  rw [hsplit, ByteArray.extract_extract, Nat.zero_add, Nat.zero_add, ByteArray.extract_append,
    hbefore, ByteArray.empty_append, hoffset, Nat.sub_self, offsetOf_succ h]
  by_cases hfits : offsetOf pieces i + pieces[i].size ≤ room
  · rw [Nat.min_eq_left hfits, Nat.add_sub_cancel_left, extract_zero_append (Nat.le_refl _),
      ByteArray.extract_zero_size, extract_zero_of_size_le (by omega)]
  · rw [Nat.min_eq_right (by omega), extract_zero_append (by omega)]

namespace Emission

/-- The bytes of an emission. -/
def bytes (emission : Emission) : ByteArray := emission.text.toUTF8

theorem size_bytes_pos (emission : Emission) : 0 < emission.bytes.size := by
  refine Nat.pos_of_ne_zero fun hzero => emission.text_ne_empty ?_
  exact String.utf8ByteSize_eq_zero_iff.mp hzero

end Emission

/-- What becomes of bytes that are offered one after the other to a sink with limited room,
whether or not those before got through. -/
structure DeliversFront (room : Nat) (outputs : List ByteArray) (deliveries : List Delivery) :
    Prop where
  length_eq : deliveries.length = outputs.length
  /-- What gets through in all is the front of all bytes. -/
  joined_eq : joinBytes (deliveries.map Delivery.delivered) = (joinBytes outputs).extract 0 room
  /-- An output gets through as a whole if the room is enough for it and all before it. -/
  complete_iff : ∀ (i : Nat) (delivery : Delivery), deliveries[i]? = some delivery →
    (delivery.complete = true ↔ offsetOf outputs (i + 1) ≤ room)
  /-- Of an output that part gets through that belongs to the front. -/
  delivered_eq : ∀ (i : Nat) (delivery : Delivery), deliveries[i]? = some delivery →
    delivery.delivered =
      ((joinBytes outputs).extract 0 room).extract (offsetOf outputs i) (offsetOf outputs (i + 1))
  /-- Behind an output that does not get through as a whole, nothing gets through. -/
  after_failure : ∀ (i j : Nat) (delivery later : Delivery), i < j →
    deliveries[i]? = some delivery → deliveries[j]? = some later → delivery.complete = false →
      later.complete = false ∧ later.delivered = ByteArray.empty

namespace Sink

/-- Offers pieces in order, up to the first that does not fit. -/
def offerPieces (sink : Sink) : List ByteArray → Delivery
  | [] => ⟨ByteArray.empty, true, sink⟩
  | piece :: rest =>
      let first := sink.offer piece
      if first.complete then
        let more := first.sink.offerPieces rest
        ⟨first.delivered ++ more.delivered, more.complete, more.sink⟩
      else first

theorem offer_unlimited (bytes : ByteArray) : (⟨none⟩ : Sink).offer bytes = ⟨bytes, true, ⟨none⟩⟩ :=
  rfl

/-- A sink with room for some bytes takes so many from the front of what it is offered. -/
theorem offer_limited (room : Nat) (bytes : ByteArray) :
    (⟨some room⟩ : Sink).offer bytes =
      ⟨bytes.extract 0 room, decide (bytes.size ≤ room), ⟨some (room - bytes.size)⟩⟩ := by
  simp only [offer]
  split
  case isTrue hfits =>
    simp [extract_zero_of_size_le hfits, hfits]
  case isFalse hshort =>
    have hnone : room - bytes.size = 0 := by omega
    simp [hshort, hnone]

/-- It does not matter in which pieces bytes are offered. -/
theorem offerPieces_eq_offer (sink : Sink) (pieces : List ByteArray) :
    sink.offerPieces pieces = sink.offer (joinBytes pieces) := by
  obtain ⟨room⟩ := sink
  cases room with
  | none =>
      induction pieces with
      | nil => rfl
      | cons piece rest ih => simp [offerPieces, offer_unlimited, ih]
  | some room =>
      induction pieces generalizing room with
      | nil => simp [offerPieces, offer_limited, extract_zero_of_size_le]
      | cons piece rest ih =>
          simp only [offerPieces, offer_limited, decide_eq_true_eq, ih, joinBytes_cons,
            ByteArray.size_append]
          split
          case isTrue hfits =>
            have hroom : room - piece.size - (joinBytes rest).size =
                room - (piece.size + (joinBytes rest).size) := by omega
            have hall : (joinBytes rest).size ≤ room - piece.size ↔
                piece.size + (joinBytes rest).size ≤ room := by omega
            simp only [ByteArray.extract_append, Nat.zero_sub, hroom, hall]
          case isFalse hshort =>
            -- The room ends within the piece, so what follows it gets nothing through.
            have hpiece : (piece ++ joinBytes rest).extract 0 room = piece.extract 0 room :=
              extract_zero_append (by omega) _
            have hroom : room - (piece.size + (joinBytes rest).size) = room - piece.size := by omega
            have hall : ¬ piece.size + (joinBytes rest).size ≤ room := by omega
            simp only [hpiece, hroom, hshort, hall]

theorem offerLines_eq_offerPieces (sink : Sink) (lines : List String) :
    sink.offerLines lines = sink.offerPieces (lines.map fun line => (line ++ "\n").toUTF8) := by
  induction lines generalizing sink with
  | nil => rfl
  | cons line rest ih => simp only [offerLines, List.map_cons, offerPieces, ih]

/-- To emit is to offer the bytes of the emission. -/
theorem emit_eq_offer (sink : Sink) (emission : Emission) :
    sink.emit emission = sink.offer emission.bytes := by
  rw [emit, offerLines_eq_offerPieces, offerPieces_eq_offer, joinBytes_map_lines]
  rfl

/-! ## Emissions one after the other -/

theorem emitAll_cons (room : Nat) (emission : Emission) (rest : List Emission) :
    ((⟨some room⟩ : Sink).emitAll (emission :: rest)).1 =
      (⟨some room⟩ : Sink).offer emission.bytes ::
        ((⟨some (room - emission.bytes.size)⟩ : Sink).emitAll rest).1 := by
  simp only [emitAll, emit_eq_offer, offer_limited]

theorem length_emitAll (room : Nat) (emissions : List Emission) :
    ((⟨some room⟩ : Sink).emitAll emissions).1.length = emissions.length := by
  induction emissions generalizing room with
  | nil => rfl
  | cons emission rest ih => rw [emitAll_cons, List.length_cons, List.length_cons, ih]

/-- An emission finds the room that those before it have left. -/
theorem getElem?_emitAll (room : Nat) (emissions : List Emission) (i : Nat) :
    ((⟨some room⟩ : Sink).emitAll emissions).1[i]? =
      emissions[i]?.map fun emission =>
        (⟨some (room - offsetOf (emissions.map Emission.bytes) i)⟩ : Sink).offer
          emission.bytes := by
  induction emissions generalizing room i with
  | nil => rfl
  | cons emission rest ih =>
      rw [emitAll_cons]
      cases i with
      | zero => simp
      | succ i =>
          rw [List.getElem?_cons_succ, ih, List.getElem?_cons_succ, List.map_cons,
            offsetOf_cons_succ, Nat.sub_sub]

/-- What gets through in all is the front of all bytes. -/
theorem joinBytes_emitAll (room : Nat) (emissions : List Emission) :
    joinBytes (((⟨some room⟩ : Sink).emitAll emissions).1.map Delivery.delivered) =
      (joinBytes (emissions.map Emission.bytes)).extract 0 room := by
  induction emissions generalizing room with
  | nil => simp [emitAll, extract_zero_of_size_le]
  | cons emission rest ih =>
      rw [emitAll_cons, List.map_cons, joinBytes_cons, ih, List.map_cons, joinBytes_cons,
        ByteArray.extract_append, Nat.zero_sub, offer_limited]

theorem exists_of_getElem?_emitAll {room i : Nat} {emissions : List Emission}
    {delivery : Delivery} (h : ((⟨some room⟩ : Sink).emitAll emissions).1[i]? = some delivery) :
    ∃ emission : Emission, (emissions.map Emission.bytes)[i]? = some emission.bytes ∧
      delivery = (⟨some (room - offsetOf (emissions.map Emission.bytes) i)⟩ : Sink).offer
        emission.bytes := by
  rw [getElem?_emitAll, Option.map_eq_some_iff] at h
  obtain ⟨emission, hemission, rfl⟩ := h
  exact ⟨emission, by rw [List.getElem?_map, hemission, Option.map_some], rfl⟩

theorem complete_emitAll_iff {room i : Nat} {emissions : List Emission} {delivery : Delivery}
    (h : ((⟨some room⟩ : Sink).emitAll emissions).1[i]? = some delivery) :
    delivery.complete = true ↔ offsetOf (emissions.map Emission.bytes) (i + 1) ≤ room := by
  obtain ⟨emission, hbytes, rfl⟩ := exists_of_getElem?_emitAll h
  -- An emission without bytes would get through even where no room is left.
  have hpos := emission.size_bytes_pos
  rw [offer_limited, decide_eq_true_eq, offsetOf_succ hbytes]
  omega

/-- Emissions to a sink with limited room are delivered as far as the room goes. -/
theorem deliversFront_emitAll (room : Nat) (emissions : List Emission) :
    DeliversFront room (emissions.map Emission.bytes)
      ((⟨some room⟩ : Sink).emitAll emissions).1 where
  length_eq := by rw [length_emitAll, List.length_map]
  joined_eq := joinBytes_emitAll room emissions
  complete_iff i delivery h := complete_emitAll_iff h
  delivered_eq i delivery h := by
    obtain ⟨emission, hbytes, rfl⟩ := exists_of_getElem?_emitAll h
    rw [offer_limited, extract_joinBytes hbytes]
  after_failure i j delivery later hij h hlater hfailed := by
    have hover : room < offsetOf (emissions.map Emission.bytes) j := by
      have hshort : ¬ offsetOf (emissions.map Emission.bytes) (i + 1) ≤ room := by
        rw [← complete_emitAll_iff h, hfailed]
        exact Bool.false_ne_true
      have hmono : offsetOf (emissions.map Emission.bytes) (i + 1) ≤
          offsetOf (emissions.map Emission.bytes) j := offsetOf_mono _ hij
      omega
    constructor
    · rw [← Bool.not_eq_true, complete_emitAll_iff hlater]
      have hmono : offsetOf (emissions.map Emission.bytes) j ≤
          offsetOf (emissions.map Emission.bytes) (j + 1) := offsetOf_mono _ (Nat.le_succ j)
      omega
    · obtain ⟨emission, -, rfl⟩ := exists_of_getElem?_emitAll hlater
      rw [offer_limited, Nat.sub_eq_zero_of_le (Nat.le_of_lt hover), ByteArray.extract_same]

end Sink

/-- Emissions to a sink with limited room leave the front of what they leave in a sink without
a limit, and each of them its own part of this front.  An emission gets through as a whole
exactly if the room is enough for it and all before it; behind one that does not, nothing
gets through any more.  In which pieces an emission is offered does not matter. -/
theorem emitAll_delivers_prefix (room : Nat) (emissions : List Emission) :
    DeliversFront room
      (emissions.map fun emission => (Sink.emit ⟨none⟩ emission).delivered)
      (Sink.emitAll ⟨some room⟩ emissions).1 ∧
    ∀ emission : Emission,
      (Sink.emit ⟨none⟩ emission).complete = true ∧
      (Sink.emit ⟨none⟩ emission).delivered = emission.text.toUTF8 ∧
      ∀ (sink : Sink) (pieces : List ByteArray), joinBytes pieces = emission.text.toUTF8 →
        sink.offerPieces pieces = sink.emit emission := by
  have houtputs : (emissions.map fun emission => (Sink.emit ⟨none⟩ emission).delivered) =
      emissions.map Emission.bytes := by
    simp [Sink.emit_eq_offer, Sink.offer_unlimited]
  rw [houtputs]
  refine ⟨Sink.deliversFront_emitAll room emissions, fun emission => ?_⟩
  rw [Sink.emit_eq_offer, Sink.offer_unlimited]
  refine ⟨rfl, rfl, fun sink pieces hpieces => ?_⟩
  rw [Sink.offerPieces_eq_offer, Sink.emit_eq_offer, hpieces]
  rfl

end StringAssembler
