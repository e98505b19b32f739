import StringAssembler.Proofs.Segmentation.PrefixFree

/-!
# Texts put together

With the shortest token first, the token taken at a place does not depend on what stands
behind it.  So a text that is encoded keeps its cut when more text follows, the cut of that
text goes on where it ends (`Greedy.append_shortest`), and the bytes follow each other; a place
where the second text gets stuck moves by the length of the first (`encode_append`).

With the longest token first this fails, because a token may reach from one text into the
other.  Nothing is said of a first text that gets stuck itself.
-/

namespace StringAssembler

/-- The cut of a whole text is kept in front of another text, whose own cut follows. -/
theorem Greedy.append_shortest {lookup : List Char → Option UInt8} {text more left : List Char}
    {tokens tokens' : List (List Char)} (h : Greedy lookup .shortest text tokens [])
    (hmore : Greedy lookup .shortest more tokens' left) :
    Greedy lookup .shortest (text ++ more) (tokens ++ tokens') left := by
  generalize hend : [] = rest at h
  induction h with
  | stop =>
      subst hend
      exact hmore
  | @take token rest _ _ htaken _ ih =>
      have hfirst : IsTaken lookup .shortest (token ++ (rest ++ more)) token := by
        rw [← List.append_assoc]
        exact htaken.append_shortest more
      rw [List.append_assoc]
      exact .take hfirst (ih hend)

/-- A text that is encoded is the text of its tokens, and the bytes are theirs. -/
theorem TokenTable.Bounded.exists_greedy_of_encode_eq_ok {table : TokenTable}
    (hbounded : table.Bounded) {strategy : Strategy} {text : String} {bytes : List UInt8}
    (h : Encoder.encode ⟨table, strategy, none⟩ text = .ok bytes) :
    ∃ tokens, Greedy table.byte? strategy text.toList tokens [] ∧
      tokens.map table.byte? = bytes.map some := by
  obtain ⟨tokens, values, left, hcut, hvalues⟩ := hbounded.exists_greedy strategy text.toList
  rw [Encoder.encode_of_greedy ⟨table, strategy, none⟩ hbounded hcut hvalues] at h
  split at h
  case isTrue hleft =>
    have hbytes : values = bytes := by simpa using h
    exact ⟨tokens, hleft ▸ hcut, hbytes ▸ hvalues⟩
  case isFalse => cases h

/-- With the shortest token first, encoding goes on behind a text that is encoded.  The bytes
of what follows are put behind its bytes, and a place where what follows gets stuck is counted
from its start. -/
theorem encode_append {table : TokenTable} (built : table.Built) {text : String}
    {bytes : List UInt8} (hencode : Encoder.encode ⟨table, .shortest, none⟩ text = .ok bytes)
    (more : String) (terminator : Option UInt8) :
    Encoder.encode ⟨table, .shortest, terminator⟩ (text ++ more) =
      match Encoder.encode ⟨table, .shortest, terminator⟩ more with
      | .ok behind => .ok (bytes ++ behind)
      | .error place => .error ⟨text.length + place.cursor, place.remaining⟩ := by
  have hbounded := built.bounded
  obtain ⟨tokens, hcut, hvalues⟩ := hbounded.exists_greedy_of_encode_eq_ok hencode
  obtain ⟨tokens', values, left, hmore, hvalues'⟩ :=
    hbounded.exists_greedy .shortest more.toList
  have hwhole : Greedy table.byte? .shortest (text ++ more).toList (tokens ++ tokens') left := by
    rw [String.toList_append]
    exact hcut.append_shortest hmore
  have hwholeValues : (tokens ++ tokens').map table.byte? = (bytes ++ values).map some := by
    rw [List.map_append, List.map_append, hvalues, hvalues']
  have hlength : tokens.flatten.length = text.length := by
    have htext := hcut.flatten_append
    rw [List.append_nil] at htext
    rw [htext, String.length_toList]
  rw [Encoder.encode_of_greedy ⟨table, .shortest, terminator⟩ hbounded hwhole hwholeValues,
    Encoder.encode_of_greedy ⟨table, .shortest, terminator⟩ hbounded hmore hvalues']
  by_cases hleft : left = []
  · simp only [hleft, if_true, List.append_assoc]
  · simp only [hleft, if_false, List.flatten_append, List.length_append, hlength]

/-- Behind `AB` the text `BC!` gets stuck at its mark, which is the fifth character of both
together. -/
theorem encode_append_stuck :
    let table := ((TableCompiler.start "t").addLines ["A=1", "AB=2", "B=3", "C=4"]).2.finish
    table.Built ∧ Encoder.encode ⟨table, .shortest, none⟩ "AB" = .ok [1, 3] ∧
      Encoder.encode ⟨table, .shortest, some 0⟩ "BC!" = .error ⟨2, "!"⟩ ∧
      Encoder.encode ⟨table, .shortest, some 0⟩ ("AB" ++ "BC!") = .error ⟨4, "!"⟩ := by
  intro table
  have hbuilt : table.Built := .finish (.addLines (.start "t") ["A=1", "AB=2", "B=3", "C=4"])
  have hencode : Encoder.encode ⟨table, .shortest, none⟩ "AB" = .ok [1, 3] := by decide +kernel
  have hmore : Encoder.encode ⟨table, .shortest, some 0⟩ "BC!" = .error ⟨2, "!"⟩ := by
    decide +kernel
  refine ⟨hbuilt, hencode, hmore, ?_⟩
  rw [encode_append hbuilt hencode "BC!" (some 0), hmore]
  rfl

/-- With the longest token first a token is taken across the border of the two texts, although
no token stands in front of the second. -/
example :
    let table := ((TableCompiler.start "t").addLines ["A=1", "AB=2"]).2.finish
    let encoder : Encoder := ⟨table, .longest, none⟩
    encoder.encode "A" = .ok [1] ∧ encoder.encode "B" = .error ⟨0, "B"⟩ ∧
      encoder.encode ("A" ++ "B") = .ok [2] := by
  decide +kernel

end StringAssembler
