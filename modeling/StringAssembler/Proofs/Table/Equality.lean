import StringAssembler.Conversion.Stages
import StringAssembler.Proofs.Segmentation.Greedy

/-!
# Equal tables

The length that a built table records is that of its longest token, so it tells no two
tables apart that hold the same tokens with the same bytes: such tables are equal, unless
only one of them has had the escape tokens added (`TokenTable.Built.beq_iff`).

The encoder looks at a table through look-ups and the recorded length alone, so equal tables
encode definitions to the same strings, with the same events and the same failures
(`Encoder.encodeDefinitions_eq_of_get?_eq`).
-/

namespace StringAssembler

/-! ## The recorded length -/

/-- The recorded length is no greater than that of more tokens. -/
theorem TokenMap.Measured.longest_le {tokens others : TokenMap} {longest longest' : Nat}
    (h : Measured tokens longest) (h' : Measured others longest')
    (hsub : ∀ token ∈ tokens, token ∈ others) : longest ≤ longest' := by
  by_cases hzero : longest = 0
  · omega
  · obtain ⟨token, hmem, hlength⟩ := h.attained hzero
    rw [← hlength]
    exact h'.length_le token (hsub token hmem)

/-- Maps with the same tokens have the same recorded length. -/
theorem TokenMap.Measured.longest_eq {tokens others : TokenMap} {longest longest' : Nat}
    (h : Measured tokens longest) (h' : Measured others longest')
    (hsame : ∀ token, token ∈ tokens ↔ token ∈ others) : longest = longest' :=
  Nat.le_antisymm (h.longest_le h' fun token => (hsame token).mp)
    (h'.longest_le h fun token => (hsame token).mpr)

namespace TokenTable

variable {table other : TokenTable}

theorem Built.longest_eq (built : table.Built) (built' : other.Built)
    (hget : ∀ token, table.get? token = other.get? token) : table.longest = other.longest := by
  refine built.measured.longest_eq built'.measured fun token => ?_
  have htoken : table.tokens[token]? = other.tokens[token]? := hget token
  rw [Std.TreeMap.mem_iff_isSome_getElem?, Std.TreeMap.mem_iff_isSome_getElem?, htoken]

/-- Built tables are equal when they give every text the same byte, if any, and both or
neither have had the escape tokens added. -/
theorem Built.beq_iff (built : table.Built) (built' : other.Built) :
    (table == other) = true ↔
      table.hasEscapes = other.hasEscapes ∧ ∀ token, table.get? token = other.get? token := by
  show (table.tokens == other.tokens && table.longest == other.longest &&
    table.hasEscapes == other.hasEscapes) = true ↔ _
  simp only [Bool.and_eq_true, beq_iff_eq]
  constructor
  · rintro ⟨⟨htokens, -⟩, hescapes⟩
    exact ⟨hescapes, fun token => (Std.TreeMap.equiv_of_beq htokens).getElem?_eq⟩
  · rintro ⟨hescapes, hget⟩
    exact ⟨⟨(Std.TreeMap.Equiv.of_forall_constGet?_eq hget).beq, built.longest_eq built' hget⟩,
      hescapes⟩

/-! ## Encoding -/

/-- The cut of a text depends on look-ups and on the recorded length. -/
theorem segmentFrom_eq_of_get?_eq (hget : ∀ token, table.get? token = other.get? token)
    (hlongest : table.longest = other.longest) (strategy : Strategy) (cursor : Nat)
    (text : List Char) :
    table.segmentFrom strategy cursor text = other.segmentFrom strategy cursor text := by
  apply segmentFrom_eq_of_front?_eq
  intro rest _
  simp only [front?, hlongest, hget]

end TokenTable

namespace Encoder

variable {encoder other : Encoder} {source : String}

/-- Definitions are encoded by the cuts of their texts and the terminator. -/
theorem encodeLines_eq_of_segment_eq (hsegment : ∀ text, encoder.segment text = other.segment text)
    (hterminator : encoder.terminator = other.terminator) (number : Nat) (lines : List String) :
    encoder.encodeLines source number lines = other.encodeLines source number lines := by
  have htext : ∀ text, encoder.encodeTraced text = other.encodeTraced text := by
    intro text
    rw [encodeTraced, encodeTraced, hsegment, encode_eq_of_segment_eq (hsegment text) hterminator]
  have hline : ∀ number line,
      encoder.encodeLine source number line = other.encodeLine source number line := by
    intro number line
    simp only [encodeLine, htext]
  induction lines generalizing number with
  | nil => rfl
  | cons line rest ih => rw [encodeLines, encodeLines, hline, ih]

/-- Tables with the same look-ups and the same recorded length encode definitions alike. -/
theorem encodeDefinitions_eq_of_get?_eq {table other : TokenTable}
    (hget : ∀ token, table.get? token = other.get? token)
    (hlongest : table.longest = other.longest) (strategy : Strategy) (terminator : Option UInt8)
    (source text : String) :
    encodeDefinitions ⟨table, strategy, terminator⟩ source text =
      encodeDefinitions ⟨other, strategy, terminator⟩ source text := by
  apply encodeLines_eq_of_segment_eq
  · intro text
    exact TokenTable.segmentFrom_eq_of_get?_eq hget hlongest strategy 0 text.toList
  · rfl

end Encoder
end StringAssembler
