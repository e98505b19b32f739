import StringAssembler.Proofs.Segmentation.PrefixFree
import StringAssembler.Proofs.Table.Reordering

/-!
# Shadowed tokens

A token that starts with another token of the table is shadowed (`TokenTable.Shadows`).  With
the shortest token first it is never taken, because the other one stands in front of the same
texts.  So the tables that differ in shadowed tokens only encode every text alike
(`TokenTable.AddsShadowed.encode_eq`), although their longest tokens may differ in length.

The main statement is `shadowed_lines_are_dead`: lines that state shadowed tokens can be left
out of a table, all at once, and can be put in.  With the longest token first they do matter,
and nothing is said of it.
-/

namespace StringAssembler

namespace TokenTable

/-- Whether a text starts with a token of the table that is not the whole of it. -/
def Shadows (table : TokenTable) (token : String) : Prop :=
  ∃ shorter, table.contains shorter ∧ shorter ≠ "" ∧ shorter ≠ token ∧
    shorter.toList <+: token.toList

instance (table : TokenTable) : DecidablePred table.Shadows := fun token =>
  decidable_of_iff
    (∃ entry ∈ table.toList, entry.1 ≠ "" ∧ entry.1 ≠ token ∧
      entry.1.toList <+: token.toList) (by
    constructor
    · rintro ⟨⟨shorter, value⟩, hentry, hrest⟩
      exact ⟨shorter, contains_iff.mpr ⟨value, mem_toList_iff.mp hentry⟩, hrest⟩
    · rintro ⟨shorter, hshorter, hrest⟩
      obtain ⟨value, hvalue⟩ := contains_iff.mp hshorter
      exact ⟨(shorter, value), mem_toList_iff.mpr hvalue, hrest⟩)

/-- One table holds another, and whatever it holds besides is shadowed. -/
structure AddsShadowed (table kept : TokenTable) : Prop where
  get?_of_kept : ∀ token value, kept.get? token = some value → table.get? token = some value
  get?_of_not_shadows : ∀ token value, table.get? token = some value → ¬ table.Shadows token →
    kept.get? token = some value

/-! ## Cuts -/

section Cuts

variable {table kept : TokenTable} {text token : List Char}

/-- The shortest token at a front is not shadowed. -/
theorem not_shadows_of_isTaken (h : IsTaken table.byte? .shortest text token) :
    ¬ table.Shadows (String.ofList token) := by
  rintro ⟨shorter, hshorter, hne, hother, hstarts⟩
  rw [String.toList_ofList] at hstarts
  have hfront : IsFront table.byte? text shorter.toList :=
    ⟨by simpa using hne, hstarts.trans h.front.starts, contains_iff_isSome_byte?.mp hshorter⟩
  have hlength : token.length ≤ shorter.toList.length := h.best _ hfront
  apply hother
  rw [← hstarts.eq_of_length_le hlength, String.ofList_toList]

/-- Shadowed tokens are not found at a front, nor do they keep another one from being found. -/
theorem AddsShadowed.front?_eq (h : table.AddsShadowed kept) (hbounded : table.Bounded)
    (hbounded' : kept.Bounded) (text : List Char) :
    table.front? .shortest text = kept.front? .shortest text := by
  have hfront : ∀ token, IsFront kept.byte? text token → IsFront table.byte? text token := by
    intro token hfront
    obtain ⟨value, hvalue⟩ := Option.isSome_iff_exists.mp hfront.isToken
    exact hfront.of_isToken (Option.isSome_of_eq_some (h.get?_of_kept _ value hvalue))
  refine hbounded.front?_eq_of_isTaken hbounded' hfront fun token htaken => ?_
  obtain ⟨value, hvalue⟩ := Option.isSome_iff_exists.mp htaken.front.isToken
  have hkept : kept.byte? token = some value :=
    h.get?_of_not_shadows _ value hvalue (not_shadows_of_isTaken htaken)
  have hfront' : IsFront kept.byte? text token :=
    htaken.front.of_isToken (Option.isSome_of_eq_some hkept)
  exact ⟨⟨hfront', fun other hother => htaken.best other (hfront other hother)⟩,
    hkept.trans hvalue.symm⟩

/-- Tables that differ in shadowed tokens only encode every text alike. -/
theorem AddsShadowed.encode_eq (h : table.AddsShadowed kept) (built : table.Built)
    (built' : kept.Built) (terminator : Option UInt8) (text : String) :
    Encoder.encode ⟨table, .shortest, terminator⟩ text =
      Encoder.encode ⟨kept, .shortest, terminator⟩ text := by
  have hsegment : table.segment .shortest text = kept.segment .shortest text :=
    segmentFrom_eq_of_front?_eq (fun rest _ => h.front?_eq built.bounded built'.bounded rest) 0
  exact Encoder.encode_eq_of_segment_eq hsegment rfl

end Cuts

/-! ## Lines -/

/-- The lines that state tokens which the table does not shadow. -/
def unshadowed (table : TokenTable) (lines : List String) : List String :=
  lines.filter fun line =>
    (TableLine.parse? line).any fun entry => decide (¬ table.Shadows entry.token)

section Lines

variable {source line : String} {lines before after : List String} {escapes : Bool}
variable {table : TokenTable} {entry : TableLine}

theorem mem_entries_unshadowed_iff :
    entry ∈ TableLine.entries (table.unshadowed lines) ↔
      entry ∈ TableLine.entries lines ∧ ¬ table.Shadows entry.token := by
  simp only [TableLine.mem_entries_iff, unshadowed, List.mem_filter, Option.any_eq_true,
    decide_eq_true_eq]
  constructor
  · rintro ⟨line, ⟨hline, stated, hstated, hfree⟩, hentry⟩
    obtain rfl := Option.some.inj (hstated.symm.trans hentry)
    exact ⟨⟨line, hline, hentry⟩, hfree⟩
  · rintro ⟨⟨line, hline, hentry⟩, hfree⟩
    exact ⟨line, ⟨hline, entry, hentry, hfree⟩, hentry⟩

/-- Without the lines of its shadowed tokens a table can still be made. -/
theorem exists_compile_unshadowed (h : compile source lines escapes = .ok table) :
    ∃ kept, compile source (table.unshadowed lines) escapes = .ok kept ∧
      table.AddsShadowed kept := by
  obtain ⟨htabular, hnew⟩ := exists_compile_eq_ok_iff_tabular.mp ⟨table, h⟩
  have hkept : TableLine.Tabular (table.unshadowed lines) := htabular.sublist List.filter_sublist
  have hkeptNew : escapes = true →
      ∀ value, escapeToken value ∉ TableLine.tokens (table.unshadowed lines) := by
    intro hescapes value hmem
    obtain ⟨entry, hentry, htoken⟩ := TableLine.mem_tokens_iff.mp hmem
    exact hnew hescapes value
      (TableLine.mem_tokens_iff.mpr ⟨entry, (mem_entries_unshadowed_iff.mp hentry).1, htoken⟩)
  obtain ⟨kept, hok⟩ := exists_compile_eq_ok_iff_tabular.mpr ⟨hkept, hkeptNew⟩
  refine ⟨kept, hok, fun token value => ?_, fun token value => ?_⟩
  · rw [get?_of_compile_eq_ok h, get?_of_compile_eq_ok hok, mem_entries_unshadowed_iff]
    exact Or.imp_left And.left
  · rw [get?_of_compile_eq_ok h, get?_of_compile_eq_ok hok, mem_entries_unshadowed_iff]
    exact fun hstated hfree => hstated.imp_left fun hentry => ⟨hentry, hfree⟩

/-- A line can be put into a table, at any place, if its token is new to the table. -/
theorem exists_compile_insert_iff (h : compile source (before ++ after) escapes = .ok table)
    (hentry : TableLine.parse? line = some entry) :
    (∃ larger, compile source (before ++ line :: after) escapes = .ok larger) ↔
      ¬ table.contains entry.token := by
  obtain ⟨htabular, hnew⟩ := exists_compile_eq_ok_iff_tabular.mp ⟨table, h⟩
  rw [exists_compile_eq_ok_iff_tabular, TableLine.tabular_insert_iff]
  constructor
  · rintro ⟨⟨-, stated, hstated, hnotMem⟩, hescapes⟩ hcontains
    obtain rfl := Option.some.inj (hstated.symm.trans hentry)
    rcases (contains_of_compile_eq_ok_iff h).mp hcontains with hmem | ⟨hasked, value, hvalue⟩
    · exact hnotMem hmem
    · exact hescapes hasked value ((TableLine.mem_tokens_insert_iff hentry).mpr (.inl hvalue))
  · rw [contains_of_compile_eq_ok_iff h, not_or]
    rintro ⟨hnotMem, hother⟩
    refine ⟨⟨htabular, entry, hentry, hnotMem⟩, fun hasked value hmem => ?_⟩
    rcases (TableLine.mem_tokens_insert_iff hentry).mp hmem with heq | hmem
    · exact hother ⟨hasked, value, heq⟩
    · exact hnew hasked value hmem

/-- What a line adds to a table is the entry that it states. -/
theorem addsShadowed_of_compile_insert
    (h : compile source (before ++ after) escapes = .ok table)
    (hentry : TableLine.parse? line = some entry) (hshadows : table.Shadows entry.token)
    {larger : TokenTable}
    (hlarger : compile source (before ++ line :: after) escapes = .ok larger) :
    larger.AddsShadowed table := by
  have hkept : ∀ token value, table.get? token = some value → larger.get? token = some value := by
    intro token value
    rw [get?_of_compile_eq_ok h, get?_of_compile_eq_ok hlarger,
      TableLine.mem_entries_insert_iff hentry]
    exact Or.imp_left Or.inr
  refine ⟨hkept, fun token value hget hfree => ?_⟩
  rw [get?_of_compile_eq_ok hlarger, TableLine.mem_entries_insert_iff hentry] at hget
  rw [get?_of_compile_eq_ok h]
  rcases hget with (rfl | hstated) | hescape
  · -- What shadows the new token in the table does so in the larger one.
    obtain ⟨shorter, hshorter, hrest⟩ := hshadows
    obtain ⟨value', hvalue'⟩ := contains_iff.mp hshorter
    exact absurd ⟨shorter, contains_iff.mpr ⟨value', hkept _ _ hvalue'⟩, hrest⟩ hfree
  · exact .inl hstated
  · exact .inr hescape

end Lines
end TokenTable

/-- With the shortest token first, shadowed tokens are dead.  The lines of a table without
those that state them make a table as well, with the escape tokens or without them, and it
encodes every text to the same bytes or gets stuck in it at the same place.  A line whose token
starts with one of the table can be put anywhere between its lines, unless its token is there
already, and then changes nothing either. -/
theorem shadowed_lines_are_dead {source : String} {lines : List String} {escapes : Bool}
    {table : TokenTable} (hcompile : TokenTable.compile source lines escapes = .ok table) :
    (∃ kept, TokenTable.compile source (table.unshadowed lines) escapes = .ok kept ∧
      ∀ terminator text, Encoder.encode ⟨table, .shortest, terminator⟩ text =
        Encoder.encode ⟨kept, .shortest, terminator⟩ text) ∧
    ∀ before after line entry, lines = before ++ after → TableLine.parse? line = some entry →
      table.Shadows entry.token →
      ((∃ larger, TokenTable.compile source (before ++ line :: after) escapes = .ok larger) ↔
        ¬ table.contains entry.token) ∧
      ∀ larger, TokenTable.compile source (before ++ line :: after) escapes = .ok larger →
        ∀ terminator text, Encoder.encode ⟨larger, .shortest, terminator⟩ text =
          Encoder.encode ⟨table, .shortest, terminator⟩ text := by
  have built := TokenTable.Built.of_compile hcompile
  constructor
  · obtain ⟨kept, hkept, hadds⟩ := TokenTable.exists_compile_unshadowed hcompile
    exact ⟨kept, hkept, hadds.encode_eq built (.of_compile hkept)⟩
  · rintro before after line entry rfl hentry hshadows
    refine ⟨TokenTable.exists_compile_insert_iff hcompile hentry, fun larger hlarger => ?_⟩
    have hadds := TokenTable.addsShadowed_of_compile_insert hcompile hentry hshadows hlarger
    exact hadds.encode_eq (.of_compile hlarger) built

/-- `AB` and `ABC` start with `A` and are left out, `CB` starts with `C` and is put in; the text
`ACAB` gets stuck at its last character all the same. -/
theorem shadowed_lines_are_dead_fourLines :
    let lines := ["AB=1", "A=2", "ABC=3", "C=4"]
    let outcome : Except Unmatched (List UInt8) := .error ⟨3, "B"⟩
    ∃ table kept larger, TokenTable.compile "t" lines false = .ok table ∧
      TokenTable.compile "t" ["A=2", "C=4"] false = .ok kept ∧
      TokenTable.compile "t" ["AB=1", "A=2", "CB=5", "ABC=3", "C=4"] false = .ok larger ∧
      Encoder.encode ⟨table, .shortest, some 0⟩ "ACAB" = outcome ∧
      Encoder.encode ⟨kept, .shortest, some 0⟩ "ACAB" = outcome ∧
      Encoder.encode ⟨larger, .shortest, some 0⟩ "ACAB" = outcome := by
  intro lines outcome
  let table := ((TableCompiler.start "t").addLines lines).2.finish
  have hcompile : TokenTable.compile "t" lines false = .ok table :=
    TokenTable.compile_eq_ok_iff.mpr ⟨by decide +kernel, rfl⟩
  have hencode : Encoder.encode ⟨table, .shortest, some 0⟩ "ACAB" = outcome := by decide +kernel
  have hlines : table.unshadowed lines = ["A=2", "C=4"] := by decide +kernel
  have hentry : TableLine.parse? "CB=5" = some ⟨"CB", 5⟩ := by decide +kernel
  have hshadows : table.Shadows "CB" := by decide +kernel
  have hnew : ¬ table.contains "CB" := by decide +kernel
  obtain ⟨⟨kept, hkept, hsame⟩, hinsert⟩ := shadowed_lines_are_dead hcompile
  obtain ⟨hiff, hadded⟩ :=
    hinsert ["AB=1", "A=2"] ["ABC=3", "C=4"] "CB=5" ⟨"CB", 5⟩ rfl hentry hshadows
  obtain ⟨larger, hmade⟩ := hiff.mpr hnew
  rw [hlines] at hkept
  exact ⟨table, kept, larger, hcompile, hkept, hmade, hencode,
    (hsame (some 0) "ACAB").symm.trans hencode,
    (hadded larger hmade (some 0) "ACAB").trans hencode⟩

/-- With the longest token first the shadowed token is taken. -/
example :
    let table := ((TableCompiler.start "t").addLines ["A=1", "AB=2"]).2.finish
    let kept := ((TableCompiler.start "t").addLines (table.unshadowed ["A=1", "AB=2"])).2.finish
    Encoder.encode ⟨table, .longest, none⟩ "AB" = .ok [2] ∧
      Encoder.encode ⟨kept, .longest, none⟩ "AB" = .error ⟨1, "B"⟩ := by
  decide +kernel

end StringAssembler
