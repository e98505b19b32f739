import StringAssembler.Proofs.Conversion.Pipeline

/-!
# The events of a run, stage by stage

A table and an input are each found at most once (`HasTable.unique`, `HoldsText.unique`), so
what a run reports can be told by what it finds: nothing without a table, the table alone
without an input, and otherwise the table, what encoding the input reports, and the strings
if there are any.  A run that succeeds adds the size of its block, and no other run adds
anything.
-/

namespace StringAssembler

/-- A path holds at most one text. -/
theorem FileTree.HoldsText.unique {tree : FileTree} {path text other : String}
    (h : tree.HoldsText path text) (hother : tree.HoldsText path other) : text = other := by
  rw [← FileTree.readText_eq_ok_iff] at h hother
  rw [h] at hother
  cases hother
  rfl

/-- Making a table reports it. -/
theorem events_tableOfText (source text : String) (escapes : Bool) :
    (tableOfText source text escapes).events =
      (TokenTable.compile source (Text.lines text) escapes).toOption.toList.map
        (·.event source) := by
  unfold tableOfText reportTable
  cases hcompile : TokenTable.compile source (Text.lines text) escapes <;> rfl

namespace ConversionOptions

variable {options : ConversionOptions} {tree : FileTree} {table other : TokenTable}
  {input : String} {strings : List EncodedString}

/-- A run has at most one table. -/
theorem HasTable.unique (h : options.HasTable tree table) (hother : options.HasTable tree other) :
    table = other := by
  obtain ⟨text, htext, hcompile⟩ := h
  obtain ⟨text', htext', hcompile'⟩ := hother
  rw [htext.unique htext', hcompile'] at hcompile
  cases hcompile
  rfl

/-- With a table and an input there are the strings that encoding gives. -/
theorem hasStrings_iff (htable : options.HasTable tree table)
    (hinput : tree.HoldsText options.input input) :
    (∃ input, options.HasStrings tree input strings) ↔
      ((options.encoder table).encodeDefinitions options.input input).outcome = .ok strings := by
  constructor
  · rintro ⟨input', table', htable', hinput', hstrings⟩
    rwa [htable.unique htable', hinput.unique hinput']
  · intro hstrings
    exact ⟨input, table, htable, hinput, hstrings⟩

/-! ## The first phase -/

/-- Without a table nothing is reported. -/
theorem events_render_of_no_table (h : ∀ table, ¬ options.HasTable tree table) :
    (options.render (options.sources tree)).events = [] := by
  show (Traced.ofExcept (tree.readText options.table) >>= _).events = []
  cases htext : tree.readText options.table with
  | error e => exact Traced.events_bind_of_error rfl _
  | ok text =>
      rw [Traced.events_bind_of_ok rfl, Traced.events_ofExcept, List.nil_append]
      cases hcompile : TokenTable.compile options.table (Text.lines text) options.escapes with
      | error e =>
          have hmake := Traced.mapFailure_eq_error_iff (f := ConversionError.table) |>.mpr
            ⟨e, (outcome_tableOfText _ _ _).trans hcompile, rfl⟩
          rw [Traced.events_bind_of_error hmake, Traced.events_mapFailure, events_tableOfText,
            hcompile]
          rfl
      | ok table => exact absurd ⟨text, FileTree.readText_eq_ok_iff.mp htext, hcompile⟩ (h table)

/-- A table is reported, and then the rest of the first phase. -/
theorem events_render_of_table (htable : options.HasTable tree table) :
    (options.render (options.sources tree)).events =
      table.event options.table ::
        (do
          let input ← Traced.ofExcept (tree.readText options.input)
          let strings ← (options.encoder table).encodeDefinitions options.input input
          Traced.report (.encoded strings.length options.input)
          return (⟨strings, (options.block (tree.isBlank options.output) strings).text⟩ :
            RenderedBlock)).events := by
  obtain ⟨text, htext, hcompile⟩ := htable
  have hread : (Traced.ofExcept (tree.readText options.table)).outcome = .ok text :=
    FileTree.readText_eq_ok_iff.mpr htext
  have hmake : ((tableOfText options.table text options.escapes).mapFailure
      ConversionError.table).outcome = .ok table :=
    Traced.mapFailure_eq_ok_iff.mpr ((outcome_tableOfText _ _ _).trans hcompile)
  show (Traced.ofExcept (tree.readText options.table) >>= _).events = _
  rw [Traced.events_bind_of_ok hread, Traced.events_bind_of_ok hmake, Traced.events_mapFailure,
    events_tableOfText, hcompile]
  rfl

/-- Without an input nothing is reported but the table. -/
theorem events_render_of_no_input (htable : options.HasTable tree table)
    (h : ∀ input, ¬ tree.HoldsText options.input input) :
    (options.render (options.sources tree)).events = [table.event options.table] := by
  rw [events_render_of_table htable]
  cases hinput : tree.readText options.input with
  | error e => rw [Traced.events_bind_of_error rfl, Traced.events_ofExcept]
  | ok input => exact absurd (FileTree.readText_eq_ok_iff.mp hinput) (h input)

/-- The tokens of an input are reported behind the table, and behind them the strings, if
all of them are encoded. -/
theorem events_render_of_input (htable : options.HasTable tree table)
    (hinput : tree.HoldsText options.input input) :
    let encoding := (options.encoder table).encodeDefinitions options.input input
    (options.render (options.sources tree)).events =
      table.event options.table :: (encoding.events ++
        encoding.outcome.toOption.toList.map
          fun strings => .encoded strings.length options.input) := by
  intro encoding
  have hread : (Traced.ofExcept (tree.readText options.input)).outcome = .ok input :=
    FileTree.readText_eq_ok_iff.mpr hinput
  rw [events_render_of_table htable, Traced.events_bind_of_ok hread]
  cases houtcome : encoding.outcome with
  | error e =>
      rw [Traced.events_bind_of_error houtcome]
      simp [Except.toOption, encoding]
  | ok strings =>
      rw [Traced.events_bind_of_ok houtcome, Traced.events_bind_pure]
      rfl

/-! ## The second phase -/

/-- A run that fails reports nothing behind its first phase. -/
theorem events_run_of_error {e : ConversionError} (h : (options.run tree).outcome = .error e) :
    (options.run tree).events = (options.render (options.sources tree)).events := by
  cases hrender : (options.render (options.sources tree)).outcome with
  | error e => rw [run_of_render_error hrender]
  | ok block =>
      cases hwrite : tree.write options.output options.append block.bytes with
      | error e => rw [run_of_write_error hrender hwrite]
      | ok next =>
          rw [run_of_write_ok hrender hwrite] at h
          cases h

/-- A run that succeeds reports the size of its block behind its first phase. -/
theorem events_run_of_ok {summary : ConversionSummary} {block : RenderedBlock}
    (h : (options.run tree).outcome = .ok summary)
    (hrender : (options.render (options.sources tree)).outcome = .ok block) :
    (options.run tree).events = (options.render (options.sources tree)).events ++
      [.wrote block.bytes.size options.output] := by
  cases hwrite : tree.write options.output options.append block.bytes with
  | error e =>
      rw [run_of_write_error hrender hwrite] at h
      cases h
  | ok next => rw [run_of_write_ok hrender hwrite]

end ConversionOptions
end StringAssembler
