import StringAssembler.Conversion.Stages
import StringAssembler.Proofs.Table.Attempts

/-!
# What lines make

Lines make a table exactly when each of them states an entry and no two state the same
token; the table then holds these entries and nothing else.  Otherwise the first line
that cannot be added behind those before it decides the error, whether it is malformed
or repeats a token (`isOutcome_compile`).

This is the table of the lines alone.  What the escape tokens add to it, and the length
that is recorded beside the tokens, are not treated here.
-/

namespace StringAssembler

namespace TableLine

/-- Lines that make a table: each states an entry, and no two state the same token. -/
structure Tabular (lines : List String) : Prop where
  isSome_parse? : ∀ line ∈ lines, (parse? line).isSome
  nodup_tokens : (tokens lines).Nodup

/-- What lines make is a table of their entries, or the error of the first of them that
cannot be added behind those before it. -/
structure IsOutcome (source : String) (lines : List String)
    (outcome : Except TableError TokenTable) : Prop where
  exists_table_iff : (∃ table, outcome = .ok table) ↔ Tabular lines
  get?_eq_some_iff : ∀ table, outcome = .ok table → ∀ token value,
    table.get? token = some value ↔ ∃ line ∈ lines, parse? line = some ⟨token, value⟩
  size_eq : ∀ table, outcome = .ok table → table.size = lines.length
  eq_error_iff : ∀ e, outcome = .error e ↔ ∃ number, FirstFault (Fault source) lines number e

section

variable {source line token : String} {lines : List String} {value : UInt8}

theorem tabular_concat_iff :
    Tabular (lines ++ [line]) ↔
      Tabular lines ∧ ∃ entry, parse? line = some entry ∧ entry.token ∉ tokens lines := by
  constructor
  · rintro ⟨hall, hnodup⟩
    obtain ⟨entry, hentry⟩ := Option.isSome_iff_exists.mp (hall line (by simp))
    rw [tokens_concat_of_some hentry, ← List.concat_eq_append, List.nodup_concat] at hnodup
    refine ⟨⟨fun earlier hearlier => ?_, hnodup.2⟩, entry, hentry, hnodup.1⟩
    exact hall earlier (List.mem_append_left _ hearlier)
  · rintro ⟨⟨hall, hnodup⟩, entry, hentry, hnew⟩
    refine ⟨?_, ?_⟩
    · intro other hother
      rcases List.mem_append.mp hother with hearlier | hlast
      · exact hall other hearlier
      · rw [List.mem_singleton.mp hlast, hentry]
        rfl
    · rw [tokens_concat_of_some hentry, ← List.concat_eq_append, List.nodup_concat]
      exact ⟨hnew, hnodup⟩

/-- Lines of a table make one if some of the others are left out. -/
theorem Tabular.sublist {kept : List String} (h : Tabular lines) (hsub : kept.Sublist lines) :
    Tabular kept where
  isSome_parse? line hline := h.isSome_parse? line (hsub.subset hline)
  nodup_tokens := ((hsub.filterMap parse?).map TableLine.token).nodup h.nodup_tokens

theorem Tabular.perm {others : List String} (h : Tabular lines) (hperm : lines.Perm others) :
    Tabular others where
  isSome_parse? line hline := h.isSome_parse? line (hperm.mem_iff.mpr hline)
  nodup_tokens := ((hperm.filterMap parse?).map TableLine.token).nodup h.nodup_tokens

theorem mem_entries_insert_iff {before after : List String} {entry stated : TableLine}
    (h : parse? line = some entry) :
    stated ∈ entries (before ++ line :: after) ↔
      stated = entry ∨ stated ∈ entries (before ++ after) := by
  simp only [entries, List.filterMap_append, List.filterMap_cons_some h, List.mem_append,
    List.mem_cons]
  exact or_left_comm

theorem mem_tokens_insert_iff {before after : List String} {entry : TableLine}
    (h : parse? line = some entry) :
    token ∈ tokens (before ++ line :: after) ↔
      token = entry.token ∨ token ∈ tokens (before ++ after) := by
  simp only [mem_tokens_iff, mem_entries_insert_iff h, or_and_right, exists_or, exists_eq_left]
  exact or_congr_left eq_comm

/-- A line makes a table with others if it states a new token, wherever it stands. -/
theorem tabular_insert_iff {before after : List String} :
    Tabular (before ++ line :: after) ↔
      Tabular (before ++ after) ∧
        ∃ entry, parse? line = some entry ∧ entry.token ∉ tokens (before ++ after) := by
  have hperm : (before ++ line :: after).Perm (before ++ after ++ [line]) :=
    List.perm_middle.trans (List.perm_append_singleton line (before ++ after)).symm
  rw [← tabular_concat_iff]
  exact ⟨fun h => h.perm hperm, fun h => h.perm hperm.symm⟩

/-- Each line can be added behind those before it exactly when the lines make a table. -/
theorem faultless_iff_tabular : Faultless (Fault source) lines ↔ Tabular lines := by
  -- Along the lines: the last one is judged behind all the others.
  induction lines using List.reverseRecOn with
  | nil => exact iff_of_true faultless_nil ⟨by simp, List.nodup_nil⟩
  | append_singleton lines line ih =>
      rw [faultless_append_iff, faultless_singleton_iff, ih, tabular_concat_iff,
        List.append_nil, not_fault_iff]

theorem Tabular.length_tokens (h : Tabular lines) : (tokens lines).length = lines.length := by
  induction lines using List.reverseRecOn with
  | nil => rfl
  | append_singleton lines line ih =>
      obtain ⟨hlines, entry, hentry, -⟩ := tabular_concat_iff.mp h
      rw [tokens_concat_of_some hentry, List.length_append, List.length_append, ih hlines]
      rfl

/-- In a table a token has the byte of the line that states it. -/
theorem Tabular.firstValue?_eq_some_iff (h : Tabular lines) :
    firstValue? lines token = some value ↔
      ∃ line ∈ lines, parse? line = some ⟨token, value⟩ := by
  rw [← mem_entries_iff, firstValue?, Option.map_eq_some_iff]
  constructor
  · rintro ⟨entry, hfind, rfl⟩
    have htoken : entry.token = token := by simpa using List.find?_some hfind
    rw [← htoken]
    exact List.mem_of_find?_eq_some hfind
  · intro hmem
    cases hfind : (entries lines).find? (·.token = token) with
    | none => simpa using List.find?_eq_none.mp hfind _ hmem
    | some entry =>
        -- No other line states the token, so the first one found is this one.
        have htoken : entry.token = token := by simpa using List.find?_some hfind
        have heq := List.inj_on_of_nodup_map h.nodup_tokens
          (List.mem_of_find?_eq_some hfind) hmem htoken
        exact ⟨entry, rfl, by rw [heq]⟩

end
end TableLine

/-! ## Compilation -/

namespace TokenTable

variable {source : String} {lines : List String} {table : TokenTable} {e : TableError}

theorem compile_eq (source : String) (lines : List String) (escapes : Bool) :
    compile source lines escapes =
      match ((TableCompiler.start source).addLines lines).1 with
      | .ok _ => ((TableCompiler.start source).addLines lines).2.finishAs escapes
      | .error e => .error e := by
  unfold compile
  split
  case h_1 compiler hlines => rw [hlines]
  case h_2 e compiler hlines => rw [hlines]

theorem compile_eq_ok_iff :
    compile source lines false = .ok table ↔
      ((TableCompiler.start source).addLines lines).1 = .ok () ∧
        ((TableCompiler.start source).addLines lines).2.finish = table := by
  rw [compile_eq]
  cases ((TableCompiler.start source).addLines lines).1 <;> simp [TableCompiler.finishAs]

theorem compile_eq_error_iff :
    compile source lines false = .error e ↔
      ((TableCompiler.start source).addLines lines).1 = .error e := by
  rw [compile_eq]
  cases ((TableCompiler.start source).addLines lines).1 <;> simp [TableCompiler.finishAs]

/-- Lines are compiled to a table exactly when they make one. -/
theorem exists_compile_eq_ok_iff :
    (∃ table, compile source lines false = .ok table) ↔ TableLine.Tabular lines := by
  have hok : ((TableCompiler.start source).addLines lines).1 = .ok () ↔
      Faultless (TableLine.Fault source) lines :=
    (TableCompiler.hasSeen_start source).addLines_eq_ok_iff
  simp only [compile_eq_ok_iff, exists_and_left, exists_eq', and_true]
  rw [hok, TableLine.faultless_iff_tabular]

/-- The table of lines is that of a compiler that has seen them all. -/
theorem exists_hasSeen_of_compile_eq_ok (h : compile source lines false = .ok table) :
    ∃ compiler : TableCompiler, compiler.HasSeen source lines ∧ compiler.finish = table := by
  have htabular := exists_compile_eq_ok_iff.mp ⟨table, h⟩
  obtain ⟨-, hseen⟩ := (TableCompiler.hasSeen_start source).addLines_of_faultless
    (TableLine.faultless_iff_tabular.mpr htabular)
  rw [List.nil_append] at hseen
  exact ⟨_, hseen, (compile_eq_ok_iff.mp h).2⟩

theorem size_of_compile_eq_ok (h : compile source lines false = .ok table) :
    table.size = lines.length := by
  have htabular := exists_compile_eq_ok_iff.mp ⟨table, h⟩
  obtain ⟨compiler, hseen, rfl⟩ := exists_hasSeen_of_compile_eq_ok h
  calc compiler.tokens.size
      = (TableLine.tokens lines).toFinset.card := hseen.size_tokens
    _ = (TableLine.tokens lines).length :=
        List.toFinset_card_of_nodup htabular.nodup_tokens
    _ = lines.length := htabular.length_tokens

end TokenTable

/-- Lines are compiled to a table of exactly their entries, or to the error of the first
line that states no token or one that a line before it states; so are the lines of a
text. -/
theorem isOutcome_compile (source : String) :
    (∀ lines, TableLine.IsOutcome source lines (TokenTable.compile source lines false)) ∧
      ∀ text, TableLine.IsOutcome source (Text.lines text)
        (tableOfText source text false).outcome := by
  have houtcome : ∀ lines,
      TableLine.IsOutcome source lines (TokenTable.compile source lines false) := by
    intro lines
    refine ⟨TokenTable.exists_compile_eq_ok_iff, ?_, fun table => TokenTable.size_of_compile_eq_ok,
      fun e => ?_⟩
    · intro table hok token value
      have htabular := TokenTable.exists_compile_eq_ok_iff.mp ⟨table, hok⟩
      obtain ⟨compiler, hseen, rfl⟩ := TokenTable.exists_hasSeen_of_compile_eq_ok hok
      rw [← htabular.firstValue?_eq_some_iff, ← hseen.getElem?_tokens]
      rfl
    · rw [TokenTable.compile_eq_error_iff]
      exact (TableCompiler.hasSeen_start source).addLines_eq_error_iff
  refine ⟨houtcome, fun text => ?_⟩
  rw [outcome_tableOfText]
  exact houtcome (Text.lines text)

end StringAssembler
