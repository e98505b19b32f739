import StringAssembler.Proofs.Segmentation.Greedy

/-!
# The tokens taken from a text

A segmentation keeps with each token the place where it starts.  These places leave no gap:
the first token stands at the start of the text and each other one where the one before it
ends (`TokenTable.consecutiveFrom_segmentFrom`).

`Encoder.Cuts` says of a list of tokens that an encoder takes them from a text, without a
segmentation: by their places, their bytes and the rule by which a text is cut.  From such
tokens the outcome of encoding can be read off (`Encoder.Cuts.encode_eq`): together they are
the text up to a place, and the text is encoded if nothing is left behind it.
-/

namespace StringAssembler

/-- Tokens that stand one behind the other from a place on: each starts where the one
before it ends. -/
def ConsecutiveFrom (cursor : Nat) : List TokenMatch → Prop
  | [] => True
  | first :: rest =>
      first.cursor = cursor ∧ ConsecutiveFrom (first.cursor + first.token.length) rest

/-- No token stands before the place from which they go on. -/
theorem ConsecutiveFrom.le_cursor {cursor : Nat} {cut : List TokenMatch}
    (h : ConsecutiveFrom cursor cut) : ∀ taken ∈ cut, cursor ≤ taken.cursor := by
  induction cut generalizing cursor with
  | nil => simp
  | cons first rest ih =>
      obtain ⟨rfl, hrest⟩ := h
      intro taken htaken
      rcases List.mem_cons.mp htaken with rfl | hmem
      · exact Nat.le_refl _
      · exact Nat.le_trans (Nat.le_add_right _ _) (ih hrest taken hmem)

/-- The tokens of a cut stand one behind the other. -/
theorem TokenTable.consecutiveFrom_segmentFrom (table : TokenTable) (strategy : Strategy)
    (cursor : Nat) (text : List Char) :
    ConsecutiveFrom cursor (table.segmentFrom strategy cursor text).taken := by
  -- The recursion is that of the cut: along the text, each time behind a token.
  induction cursor, text using segmentFrom.induct table strategy with
  | case1 cursor text hfront =>
      rw [segmentFrom_of_front?_eq_none cursor hfront]
      trivial
  | case2 cursor text n value hfront ih =>
      have hlength : (String.ofList (text.take n)).length = n := by
        rw [String.length_ofList, List.length_take, Nat.min_eq_left (front?_bounds hfront).2]
      rw [segmentFrom_of_front?_eq_some cursor hfront]
      refine ⟨rfl, ?_⟩
      rw [hlength]
      exact ih

namespace Encoder

/-- The tokens that an encoder takes from a text. -/
structure Cuts (encoder : Encoder) (text : String) (cut : List TokenMatch) : Prop where
  /-- The first token starts the text, and each other one starts where the one before it
  ends. -/
  consecutive : ConsecutiveFrom 0 cut
  /-- The tokens have the bytes that the table gives them. -/
  values : ∀ taken ∈ cut, encoder.table.get? taken.token = some taken.value
  /-- The tokens are those that the rule takes, up to a place where none stands. -/
  greedy : ∃ left,
    Greedy encoder.table.byte? encoder.strategy text.toList (cut.map (·.token.toList)) left

section

variable {encoder : Encoder} {text : String} {cut : List TokenMatch}

/-- The segmentation of a text holds the tokens taken from it. -/
theorem cuts_segment (hbounded : encoder.table.Bounded) (text : String) :
    encoder.Cuts text (encoder.segment text).taken where
  consecutive := encoder.table.consecutiveFrom_segmentFrom encoder.strategy 0 text.toList
  values := by
    have hvalues := (encoder.table.segmentFrom_tokens encoder.strategy 0 text.toList).1
    unfold Segmentation.tokens Segmentation.values at hvalues
    rw [List.map_map, List.map_map, List.map_inj_left] at hvalues
    intro taken htaken
    simpa [TokenTable.byte?] using hvalues taken htaken
  greedy := by
    obtain ⟨left, hgreedy, -⟩ := hbounded.segmentFrom_greedy encoder.strategy 0 text.toList
    exact ⟨left, hgreedy⟩

/-- What encoding a text gives is told by the tokens taken from it: they are the text up
to a place, and if that is the end of the text their bytes are those of the text. -/
theorem Cuts.encode_eq (h : encoder.Cuts text cut) (hbounded : encoder.table.Bounded) :
    ∃ left, text = String.join (cut.map TokenMatch.token) ++ left ∧
      encoder.encode text =
        if left = "" then .ok (cut.map TokenMatch.value ++ encoder.terminator.toList)
        else .error ⟨(String.join (cut.map TokenMatch.token)).length, left⟩ := by
  obtain ⟨left, hgreedy⟩ := h.greedy
  have htokens : (cut.map (·.token.toList)).flatten =
      (String.join (cut.map TokenMatch.token)).toList := by
    rw [String.toList_join, List.flatMap_map, List.flatMap_def]
  have hvalues : (cut.map (·.token.toList)).map encoder.table.byte? =
      (cut.map TokenMatch.value).map some := by
    rw [List.map_map, List.map_map, List.map_inj_left]
    intro taken htaken
    simpa [TokenTable.byte?] using h.values taken htaken
  refine ⟨String.ofList left, ?_, ?_⟩
  · rw [← String.toList_inj, String.toList_append, String.toList_ofList, ← htokens]
    exact hgreedy.flatten_append.symm
  · rw [encoder.encode_of_greedy hbounded hgreedy hvalues, htokens, String.length_toList]
    simp only [String.ofList_eq_empty_iff]

/-- The tokens of a text that is encoded are the whole text, and its bytes are theirs. -/
theorem Cuts.of_encode_eq_ok (h : encoder.Cuts text cut) (hbounded : encoder.table.Bounded)
    {bytes : List UInt8} (hencode : encoder.encode text = .ok bytes) :
    String.join (cut.map TokenMatch.token) = text ∧
      bytes = cut.map TokenMatch.value ++ encoder.terminator.toList := by
  obtain ⟨left, htext, hcut⟩ := h.encode_eq hbounded
  rw [hencode] at hcut
  split at hcut
  case isTrue hleft =>
    cases hcut
    rw [hleft, String.append_empty] at htext
    exact ⟨htext.symm, rfl⟩
  case isFalse => cases hcut

/-- The tokens of a text that gets stuck are what stands before the place. -/
theorem Cuts.of_encode_eq_error (h : encoder.Cuts text cut)
    (hbounded : encoder.table.Bounded) {place : Unmatched}
    (hencode : encoder.encode text = .error place) :
    text = String.join (cut.map TokenMatch.token) ++ place.remaining ∧
      (String.join (cut.map TokenMatch.token)).length = place.cursor := by
  obtain ⟨left, htext, hcut⟩ := h.encode_eq hbounded
  rw [hencode] at hcut
  split at hcut
  case isTrue => cases hcut
  case isFalse =>
    cases hcut
    exact ⟨htext, rfl⟩

end

end Encoder

end StringAssembler
