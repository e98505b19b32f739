import StringAssembler.Proofs.Segmentation.Cursors

/-!
# How far a cut looks ahead

Which token is taken at a place depends on the characters from there on, but only on as many
as the longest token has (`TokenTable.front?_append`).  So as long as a text has that many left,
its cut does not depend on what is put behind it (`TokenTable.exists_shared`).

The main statement is `encode_bounded_lookahead`: whatever stands behind a text, at all places
of the text but the last ones the same tokens are taken, and the cut gets stuck at the same one
of these places if it gets stuck there.  With the longest token first a place that has one
character less before the end of the text may already be cut in two ways.
-/

namespace StringAssembler

namespace TokenTable

variable {table : TokenTable} {strategy : Strategy} {text : List Char}

/-! ## Fronts -/

/-- At a front as many characters are looked at as the longest token has. -/
theorem front?_take (table : TokenTable) (strategy : Strategy) (text : List Char) :
    table.front? strategy (text.take table.longest) = table.front? strategy text := by
  unfold front?
  rw [List.take_take, Nat.min_self, ← List.head?_filterMap, ← List.head?_filterMap]
  congr 1
  apply List.filterMap_congr
  intro n hn
  have hle : n ≤ table.longest := by
    have := Strategy.mem_lengths.mp hn
    rw [List.length_take] at this
    omega
  rw [List.take_take, Nat.min_eq_left hle]

/-- What stands behind so many characters is not looked at. -/
theorem front?_append (hle : table.longest ≤ text.length) (tail : List Char) :
    table.front? strategy (text ++ tail) = table.front? strategy text := by
  rw [← front?_take, List.take_append_of_le_length hle, front?_take]

/-! ## Cuts -/

/-- The cut of a text has a first part that does not depend on what is put behind the text.  It
ends where fewer characters of the text are left than the longest token has, or where the cut
gets stuck. -/
theorem exists_shared (table : TokenTable) (strategy : Strategy) (cursor : Nat)
    (text : List Char) :
    ∃ shared before rest, text = before ++ rest ∧
      (∀ taken ∈ shared, taken.cursor + table.longest ≤ cursor + text.length) ∧
      (table.longest ≤ rest.length → table.front? strategy rest = none) ∧
      ∀ tail, table.segmentFrom strategy cursor (text ++ tail) =
        ⟨shared ++ (table.segmentFrom strategy (cursor + before.length) (rest ++ tail)).taken,
          (table.segmentFrom strategy (cursor + before.length) (rest ++ tail)).unmatched⟩ := by
  -- The recursion is that of the cut of the text alone, with nothing behind it.
  induction cursor, text using segmentFrom.induct table strategy with
  | case1 cursor text hnone => exact ⟨[], [], text, rfl, by simp, fun _ => hnone, fun _ => rfl⟩
  | case2 cursor text n value hfront ih =>
      by_cases hlong : table.longest ≤ text.length
      · obtain ⟨shared, before, rest, hsplit, hnear, hstop, hcut⟩ := ih
        have hle : n ≤ text.length := (front?_bounds hfront).2
        refine ⟨⟨String.ofList (text.take n), value, cursor⟩ :: shared, text.take n ++ before,
          rest, ?_, ?_, hstop, ?_⟩
        · rw [List.append_assoc, ← hsplit, List.take_append_drop]
        · intro taken htaken
          rcases List.mem_cons.mp htaken with rfl | hmem
          · exact Nat.add_le_add_left hlong cursor
          · have := hnear taken hmem
            rw [List.length_drop] at this
            omega
        · intro tail
          have hfront' : table.front? strategy (text ++ tail) = some (n, value) :=
            (front?_append hlong tail).trans hfront
          have hcursor : cursor + (text.take n ++ before).length = cursor + n + before.length := by
            rw [List.length_append, List.length_take, Nat.min_eq_left hle, Nat.add_assoc]
          rw [segmentFrom_of_front?_eq_some cursor hfront', List.drop_append_of_le_length hle,
            List.take_append_of_le_length hle, hcut tail, hcursor]
          rfl
      · exact ⟨[], [], text, rfl, by simp, fun hle => absurd hle hlong, fun _ => rfl⟩

/-- A cut gets stuck behind the place where it starts. -/
theorem Bounded.le_cursor_of_unmatched (hbounded : table.Bounded) {cursor : Nat}
    {place : Unmatched} (h : (table.segmentFrom strategy cursor text).unmatched = some place) :
    cursor ≤ place.cursor := by
  obtain ⟨left, -, hunmatched⟩ := hbounded.segmentFrom_greedy strategy cursor text
  rw [h] at hunmatched
  split at hunmatched
  case isTrue => cases hunmatched
  case isFalse =>
    cases hunmatched
    exact Nat.le_add_right _ _

/-- The tokens taken at all places of a text but the last ones, and the one of these places
where the cut gets stuck, are the same whatever is put behind the text. -/
theorem Built.exists_shared_segment (built : table.Built) (hne : table.isEmpty = false)
    (strategy : Strategy) (text : String) :
    ∃ (shared : List TokenMatch) (stuck : Option Nat),
      (∀ taken ∈ shared, taken.cursor + table.longest ≤ text.length) ∧
      ∀ tail, ∃ later, (table.segment strategy (text ++ tail)).taken = shared ++ later ∧
        (∀ taken ∈ later, text.length < taken.cursor + table.longest) ∧
        ∀ cursor, cursor + table.longest ≤ text.length →
          ((∃ remaining, (table.segment strategy (text ++ tail)).unmatched =
            some ⟨cursor, remaining⟩) ↔ stuck = some cursor) := by
  have hpos := built.longest_pos hne
  obtain ⟨shared, before, rest, hsplit, hnear, hstop, hcut⟩ :=
    table.exists_shared strategy 0 text.toList
  have hlength : text.length = before.length + rest.length := by
    rw [← String.length_toList, hsplit, List.length_append]
  simp only [Nat.zero_add, String.length_toList] at hnear hcut
  have hsegment : ∀ tail, table.segment strategy (text ++ tail) =
      ⟨shared ++ (table.segmentFrom strategy before.length (rest ++ tail.toList)).taken,
        (table.segmentFrom strategy before.length (rest ++ tail.toList)).unmatched⟩ := by
    intro tail
    rw [segment, String.toList_append]
    exact hcut tail.toList
  by_cases hlong : table.longest ≤ rest.length
  · refine ⟨shared, some before.length, hnear, fun tail => ⟨[], ?_⟩⟩
    -- The cut is stuck behind the shared tokens, since otherwise it would have gone on.
    have hfront : table.front? strategy (rest ++ tail.toList) = none :=
      (front?_append hlong _).trans (hstop hlong)
    have hleft : rest ++ tail.toList ≠ [] := by
      intro hnil
      have hzero := congrArg List.length (List.append_eq_nil_iff.mp hnil).1
      rw [List.length_nil] at hzero
      omega
    rw [hsegment, segmentFrom_of_front?_eq_none _ hfront]
    simp [hleft]
  · refine ⟨shared, none, hnear, fun tail =>
      ⟨(table.segmentFrom strategy before.length (rest ++ tail.toList)).taken, ?_⟩⟩
    -- All that follows stands behind places that are too close to the end of the text.
    rw [hsegment]
    refine ⟨rfl, fun taken htaken => ?_, fun cursor hle => ?_⟩
    · have hbehind := (table.consecutiveFrom_segmentFrom strategy before.length
        (rest ++ tail.toList)).le_cursor taken htaken
      omega
    · refine iff_of_false ?_ (by simp)
      rintro ⟨remaining, hstuck⟩
      have hbehind : before.length ≤ cursor := built.bounded.le_cursor_of_unmatched hstuck
      omega

end TokenTable

/-- The bytes of the first tokens taken are the first bytes. -/
theorem Encoder.values_prefix_of_encode {table : TokenTable} {strategy : Strategy}
    {terminator : Option UInt8} {text : String} {shared later : List TokenMatch}
    {bytes : List UInt8} (htaken : (table.segment strategy text).taken = shared ++ later)
    (hencode : encode ⟨table, strategy, terminator⟩ text = .ok bytes) :
    shared.map TokenMatch.value <+: bytes := by
  obtain ⟨-, rfl⟩ := encode_eq_ok_iff.mp hencode
  rw [Segmentation.values, segment, htaken, List.map_append, List.append_assoc]
  exact List.prefix_append _ _

/-- What stands behind a text matters only to the cut of its last characters, fewer than the
longest token has.  At all places before them the same tokens are taken, with the same bytes, and
the text is stuck at the same one of these places or at none, whatever follows.  So the bytes of
these tokens are the first ones in every case. -/
theorem encode_bounded_lookahead {table : TokenTable} (built : table.Built)
    (hne : table.isEmpty = false) (strategy : Strategy) (terminator : Option UInt8)
    (text tail tail' : String) :
    ∃ shared later later' : List TokenMatch,
      (table.segment strategy (text ++ tail)).taken = shared ++ later ∧
      (table.segment strategy (text ++ tail')).taken = shared ++ later' ∧
      (∀ taken ∈ shared, taken.cursor + table.longest ≤ text.length) ∧
      (∀ taken ∈ later ++ later', text.length < taken.cursor + table.longest) ∧
      (∀ cursor, cursor + table.longest ≤ text.length →
        ((∃ remaining, Encoder.encode ⟨table, strategy, terminator⟩ (text ++ tail) =
            .error ⟨cursor, remaining⟩) ↔
          ∃ remaining, Encoder.encode ⟨table, strategy, terminator⟩ (text ++ tail') =
            .error ⟨cursor, remaining⟩)) ∧
      ∀ bytes, Encoder.encode ⟨table, strategy, terminator⟩ (text ++ tail) = .ok bytes ∨
          Encoder.encode ⟨table, strategy, terminator⟩ (text ++ tail') = .ok bytes →
        shared.map TokenMatch.value <+: bytes := by
  obtain ⟨shared, stuck, hnear, hshared⟩ := built.exists_shared_segment hne strategy text
  obtain ⟨later, htaken, hfar, hstuck⟩ := hshared tail
  obtain ⟨later', htaken', hfar', hstuck'⟩ := hshared tail'
  refine ⟨shared, later, later', htaken, htaken', hnear, ?_, fun cursor hle => ?_, ?_⟩
  · intro taken hmem
    exact (List.mem_append.mp hmem).elim (hfar taken) (hfar' taken)
  · simp only [Encoder.encode_eq_error_iff]
    exact (hstuck cursor hle).trans (hstuck' cursor hle).symm
  · rintro bytes (hencode | hencode)
    · exact Encoder.values_prefix_of_encode htaken hencode
    · exact Encoder.values_prefix_of_encode htaken' hencode

/-- The mark stands two characters before the end of `AB!A`, and no token has more, so the cut
gets stuck at it whatever follows. -/
theorem encode_bounded_lookahead_stuck :
    let table := ((TableCompiler.start "t").addLines ["A=1", "AB=2"]).2.finish
    table.Built ∧ table.isEmpty = false ∧ 2 + table.longest ≤ "AB!A".length ∧
      Encoder.encode ⟨table, .longest, some 0⟩ ("AB!A" ++ "") = .error ⟨2, "!A"⟩ ∧
      ∀ tail, ∃ remaining,
        Encoder.encode ⟨table, .longest, some 0⟩ ("AB!A" ++ tail) = .error ⟨2, remaining⟩ := by
  intro table
  have hbuilt : table.Built := .finish (.addLines (.start "t") ["A=1", "AB=2"])
  have hne : table.isEmpty = false := by decide +kernel
  have hle : 2 + table.longest ≤ "AB!A".length := by decide +kernel
  have hstuck : Encoder.encode ⟨table, .longest, some 0⟩ ("AB!A" ++ "") = .error ⟨2, "!A"⟩ := by
    decide +kernel
  refine ⟨hbuilt, hne, hle, hstuck, fun tail => ?_⟩
  obtain ⟨_, _, _, -, -, -, -, hsame, -⟩ :=
    encode_bounded_lookahead hbuilt hne .longest (some 0) "AB!A" "" tail
  exact (hsame 2 hle).mp ⟨"!A", hstuck⟩

/-- One place further the tail matters: whether the last `A` is taken alone depends on it. -/
example :
    let table := ((TableCompiler.start "t").addLines ["A=1", "AB=2"]).2.finish
    let encoder : Encoder := ⟨table, .longest, none⟩
    encoder.encode ("ABA" ++ "") = .ok [2, 1] ∧ encoder.encode ("ABA" ++ "B") = .ok [2, 2] := by
  decide +kernel

end StringAssembler
