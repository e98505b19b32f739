import Mathlib.Algebra.Group.Action.Defs
import Mathlib.Algebra.Order.BigOperators.Group.List
import Mathlib.Algebra.Order.Group.Nat
import StringAssembler.Proofs.Segmentation.PrefixFree

/-!
# Texts whose characters are tokens

If every character of a text is a token by itself, a token stands in front of every rest of the
text, so its cut reaches the end whatever longer tokens there are
(`Greedy.left_eq_nil_of_covered`).  A longer token may be taken, but never in vain.

With the shortest token first the text is cut into its characters.  With the longest first it is
only known between how many and how few tokens it is cut into; the main statement,
`encode_of_covered`, has both.
-/

namespace StringAssembler

section Rule

variable {lookup : List Char → Option UInt8} {strategy : Strategy}
variable {text left : List Char} {tokens : List (List Char)}

/-- Nothing is left of a text all of whose characters are tokens. -/
theorem Greedy.left_eq_nil_of_covered (h : Greedy lookup strategy text tokens left)
    (hcovered : ∀ c ∈ text, (lookup [c]).isSome) : left = [] := by
  cases left with
  | nil => rfl
  | cons c rest =>
      have hmem : c ∈ text := by
        rw [← h.flatten_append]
        exact List.mem_append_right _ List.mem_cons_self
      have hfront : IsFront lookup (c :: rest) [c] :=
        ⟨List.cons_ne_nil c [], ⟨rest, rfl⟩, hcovered c hmem⟩
      exact absurd hfront (h.not_isFront [c])

/-- The tokens taken are not empty, and they are tokens. -/
theorem Greedy.ne_nil_of_mem (h : Greedy lookup strategy text tokens left) :
    ∀ token ∈ tokens, token ≠ [] ∧ (lookup token).isSome := by
  induction h with
  | stop => simp
  | take htaken _ ih =>
      intro other hother
      rcases List.mem_cons.mp hother with rfl | hmem
      · exact ⟨htaken.front.ne_nil, htaken.front.isToken⟩
      · exact ih other hmem

/-- A token of one character starts with no other one. -/
theorem alwaysTaken_singleton {c : Char} (h : (lookup [c]).isSome) :
    AlwaysTaken lookup .shortest [c] := by
  have hself : IsFront lookup [c] [c] := isFront_self (List.cons_ne_nil c []) h
  refine alwaysTaken_shortest_iff.mpr (isTaken_shortest_self_iff.mpr ⟨hself, fun shorter h => ?_⟩)
  exact h.starts.eq_of_length_le h.length_bounds.1

end Rule

/-- Parts that are not empty are no more than the characters of them all, and these are no more
than the parts times the length of the longest part. -/
theorem length_flatten_bounds {tokens : List (List Char)} {longest : Nat}
    (h : ∀ token ∈ tokens, 1 ≤ token.length ∧ token.length ≤ longest) :
    tokens.length ≤ tokens.flatten.length ∧ tokens.flatten.length ≤ tokens.length * longest := by
  rw [List.length_flatten]
  constructor
  · have hlower := List.length_le_sum_of_one_le (tokens.map List.length)
      (List.forall_mem_map.mpr fun token hmem => (h token hmem).1)
    rwa [List.length_map] at hlower
  · have hupper := List.sum_le_card_nsmul (tokens.map List.length) longest
      (List.forall_mem_map.mpr fun token hmem => (h token hmem).2)
    rwa [List.length_map, smul_eq_mul] at hupper

namespace TokenTable

variable {table : TokenTable}

/-- The tokens of a cut have lengths between one and the recorded length. -/
theorem Bounded.length_bounds_of_greedy (hbounded : table.Bounded) {strategy : Strategy}
    {text left : List Char} {tokens : List (List Char)}
    (h : Greedy table.byte? strategy text tokens left) :
    ∀ token ∈ tokens, 1 ≤ token.length ∧ token.length ≤ table.longest := by
  intro token hmem
  obtain ⟨hne, htoken⟩ := h.ne_nil_of_mem token hmem
  obtain ⟨value, hvalue⟩ := Option.isSome_iff_exists.mp htoken
  exact ⟨List.length_pos_of_ne_nil hne, hbounded token value hvalue⟩

theorem isSome_byte?_singleton {c : Char} (h : table.contains (String.singleton c)) :
    (table.byte? [c]).isSome := by
  rw [← String.toList_singleton]
  exact contains_iff_isSome_byte?.mp h

end TokenTable

/-- A text is put together from its characters. -/
theorem join_singletons (text : String) : String.join (text.toList.map String.singleton) = text := by
  rw [← String.toList_inj, String.toList_join, List.flatMap_map]
  simp only [String.toList_singleton]
  exact List.flatMap_singleton' _

/-- A text all of whose characters are tokens is always encoded.  With the shortest token first
it is encoded character by character.  With either strategy there are no more bytes than
characters, and each byte stands for no more characters than the longest token has. -/
theorem encode_of_covered {table : TokenTable} (built : table.Built) {text : String}
    (hcovered : ∀ c ∈ text.toList, table.contains (String.singleton c))
    (terminator : Option UInt8) :
    (∃ values : List UInt8,
      text.toList.map (fun c => table.get? (String.singleton c)) = values.map some ∧
      Encoder.encode ⟨table, .shortest, terminator⟩ text = .ok (values ++ terminator.toList)) ∧
    ∀ strategy, ∃ values : List UInt8,
      Encoder.encode ⟨table, strategy, terminator⟩ text = .ok (values ++ terminator.toList) ∧
      values.length ≤ text.length ∧ text.length ≤ values.length * table.longest := by
  constructor
  · have hcontains : ∀ token ∈ text.toList.map String.singleton, table.contains token := by
      simpa using hcovered
    obtain ⟨values, hvalues⟩ := TokenTable.exists_values_of_contains hcontains
    have htaken : ∀ token ∈ text.toList.map String.singleton,
        AlwaysTaken table.byte? .shortest token.toList := by
      intro token htoken
      obtain ⟨c, hc, rfl⟩ := List.mem_map.mp htoken
      rw [String.toList_singleton]
      exact alwaysTaken_singleton (TokenTable.isSome_byte?_singleton (hcovered c hc))
    have hencode := Encoder.encode_join built.bounded terminator htaken hvalues
    rw [join_singletons] at hencode
    rw [List.map_map] at hvalues
    exact ⟨values, hvalues, hencode⟩
  · intro strategy
    obtain ⟨tokens, values, left, hcut, hvalues⟩ :=
      built.bounded.exists_greedy strategy text.toList
    have hleft : left = [] := hcut.left_eq_nil_of_covered fun c hc =>
      TokenTable.isSome_byte?_singleton (hcovered c hc)
    have hencode := Encoder.encode_of_greedy ⟨table, strategy, terminator⟩ built.bounded hcut hvalues
    rw [if_pos hleft] at hencode
    -- There is one byte for each token, and the tokens have the characters of the text.
    have hcount : tokens.length = values.length := by
      simpa using congrArg List.length hvalues
    have hlength : tokens.flatten.length = text.length := by
      have htext := hcut.flatten_append
      rw [hleft, List.append_nil] at htext
      rw [htext, String.length_toList]
    have hbounds := length_flatten_bounds (built.bounded.length_bounds_of_greedy hcut)
    rw [hcount, hlength] at hbounds
    exact ⟨values, hencode, hbounds⟩

/-- `ABCAB` has five characters that are tokens.  With the longest token first `AB` is taken
twice, and the longest token of the table never. -/
theorem encode_of_covered_fiveCharacters :
    let table :=
      ((TableCompiler.start "t").addLines ["A=1", "B=2", "C=3", "AB=4", "BC=5", "ABCB=6"]).2.finish
    table.Built ∧ (∀ c ∈ "ABCAB".toList, table.contains (String.singleton c)) ∧
      Encoder.encode ⟨table, .shortest, some 0⟩ "ABCAB" = .ok [1, 2, 3, 1, 2, 0] ∧
      Encoder.encode ⟨table, .longest, some 0⟩ "ABCAB" = .ok [4, 3, 4, 0] ∧
      ∃ values : List UInt8,
        Encoder.encode ⟨table, .longest, some 0⟩ "ABCAB" = .ok (values ++ [0]) ∧
        values.length ≤ 5 ∧ 5 ≤ values.length * 4 := by
  intro table
  have hbuilt : table.Built :=
    .finish (.addLines (.start "t") ["A=1", "B=2", "C=3", "AB=4", "BC=5", "ABCB=6"])
  have hcovered : ∀ c ∈ "ABCAB".toList, table.contains (String.singleton c) := by
    -- Over a list, since a decision over all characters would go through every one of them.
    have hall : ("ABCAB".toList.all fun c => table.contains (String.singleton c)) = true := by
      decide +kernel
    exact List.all_eq_true.mp hall
  obtain ⟨⟨values, hvalues, hshortest⟩, hany⟩ := encode_of_covered hbuilt hcovered (some 0)
  have hbytes : "ABCAB".toList.map (fun c => table.get? (String.singleton c)) =
      [1, 2, 3, 1, 2].map some := by decide +kernel
  rw [hbytes, List.map_inj_right (fun _ _ => Option.some.inj)] at hvalues
  rw [← hvalues] at hshortest
  exact ⟨hbuilt, hcovered, hshortest, by decide +kernel, hany .longest⟩

end StringAssembler
