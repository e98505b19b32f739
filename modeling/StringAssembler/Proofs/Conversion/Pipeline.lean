import StringAssembler.Proofs.Conversion.Definitions
import StringAssembler.Proofs.Conversion.Effects
import StringAssembler.Proofs.Listing.Names
import StringAssembler.Proofs.Text.LineEndings

/-!
# A conversion as a pipeline

A run has five stages: it reads the table, makes it, reads the input, encodes its lines
and opens the output.  `ConversionOptions.FailsWith` says for each stage with which
failure it ends a run, provided that all stages before it come through.  A run fails
exactly so, and without such a failure the output holds the kept bytes and the block of
the encoded strings (`run_refines_pipeline`).

The number of bytes in the summary is that of the literals in the data lines of the
block.  As lines of the text these are found again only where neither path brings a
newline of its own.
-/

namespace StringAssembler

/-! ## Reading -/

/-- A path reads a text: the bytes of the text with one byte order mark in front, or those
of the text itself, which then has no mark of its own there. -/
def FileTree.HoldsText (tree : FileTree) (path text : String) : Prop :=
  tree.read path = .ok ("\ufeff" ++ text).toUTF8 ∨
    tree.read path = .ok text.toUTF8 ∧ text.toList.head? ≠ some '\ufeff'

/-- A path reads no text: it reads nothing, or bytes that no text has. -/
def FileTree.Unreadable (tree : FileTree) (path : String) (cause : FileError) : Prop :=
  tree.read path = .error cause ∨
    ∃ content, tree.read path = .ok content ∧ (∀ raw : String, content ≠ raw.toUTF8) ∧
      cause = .notText

theorem fromUTF8?_eq_some_iff {content : ByteArray} {raw : String} :
    String.fromUTF8? content = some raw ↔ content = raw.toUTF8 := by
  unfold String.fromUTF8?
  split
  case isTrue hvalid =>
    rw [Option.some.injEq]
    constructor
    · rintro rfl
      rfl
    · rintro rfl
      rfl
  case isFalse hinvalid =>
    constructor
    · intro h
      cases h
    · -- The bytes of a text are always valid.
      rintro rfl
      exact absurd raw.isValidUTF8 hinvalid

namespace FileTree

variable {tree : FileTree} {path text : String} {e : ConversionError}

/-- A path reads a text exactly if it reads the bytes of one, of which at most a mark in
front is no part of the text. -/
theorem holdsText_iff :
    tree.HoldsText path text ↔
      ∃ raw : String, tree.read path = .ok raw.toUTF8 ∧ Text.dropByteOrderMark raw = text := by
  unfold HoldsText
  simp only [Text.dropByteOrderMark_eq_iff]
  constructor
  · rintro (hmarked | ⟨hread, hne⟩)
    · exact ⟨_, hmarked, Or.inl rfl⟩
    · exact ⟨text, hread, Or.inr ⟨rfl, hne⟩⟩
  · rintro ⟨raw, hread, rfl | ⟨rfl, hne⟩⟩
    · exact Or.inl hread
    · exact Or.inr ⟨hread, hne⟩

theorem readText_eq_ok_iff : tree.readText path = .ok text ↔ tree.HoldsText path text := by
  rw [holdsText_iff, readText, textOf]
  cases hread : tree.read path with
  | error cause => simp [Except.bind]
  | ok content =>
      simp only [Except.bind, decodeText]
      cases hdecode : String.fromUTF8? content with
      | none =>
          simp only [Except.ok.injEq, false_iff, reduceCtorEq]
          rintro ⟨raw, hraw, -⟩
          rw [fromUTF8?_eq_some_iff.mpr hraw] at hdecode
          cases hdecode
      | some found =>
          have hfound := fromUTF8?_eq_some_iff.mp hdecode
          simp only [Except.ok.injEq]
          constructor
          · rintro rfl
            exact ⟨found, hfound, rfl⟩
          · rintro ⟨raw, hraw, rfl⟩
            rw [fromUTF8?_eq_some_iff.mpr hraw] at hdecode
            cases hdecode
            rfl

theorem readText_eq_error_iff :
    tree.readText path = .error e ↔
      ∃ cause, tree.Unreadable path cause ∧ e = .file path cause := by
  unfold readText textOf Unreadable
  cases hread : tree.read path with
  | error cause => simp [Except.bind, eq_comm]
  | ok content =>
      simp only [Except.bind, decodeText]
      cases hdecode : String.fromUTF8? content with
      | none =>
          have hraw : ∀ raw : String, content ≠ raw.toUTF8 := by
            intro raw hraw
            rw [fromUTF8?_eq_some_iff.mpr hraw] at hdecode
            cases hdecode
          simp only [Except.error.injEq]
          constructor
          · rintro rfl
            exact ⟨.notText, Or.inr ⟨content, rfl, hraw, rfl⟩, rfl⟩
          · rintro ⟨cause, hcause | ⟨_, -, -, rfl⟩, rfl⟩
            · cases hcause
            · rfl
      | some found =>
          have hfound := fromUTF8?_eq_some_iff.mp hdecode
          constructor
          · intro h
            cases h
          · rintro ⟨cause, hcause | ⟨_, hcontent, hraw, -⟩, -⟩
            · cases hcause
            · cases hcontent
              exact absurd hfound (hraw found)

end FileTree

/-! ## Stages -/

namespace ConversionOptions

variable {options : ConversionOptions} {tree : FileTree} {table : TokenTable}
  {strings : List EncodedString} {block : RenderedBlock} {e : ConversionError}

/-- The first two stages give a table. -/
def HasTable (options : ConversionOptions) (tree : FileTree) (table : TokenTable) : Prop :=
  ∃ text, tree.HoldsText options.table text ∧
    TokenTable.compile options.table (Text.lines text) options.escapes = .ok table

/-- The first four stages give encoded strings, one for each line of the input. -/
def HasStrings (options : ConversionOptions) (tree : FileTree) (input : String)
    (strings : List EncodedString) : Prop :=
  ∃ table, options.HasTable tree table ∧ tree.HoldsText options.input input ∧
    ((options.encoder table).encodeDefinitions options.input input).outcome = .ok strings

/-- The failures that can end a run, each with the stages that come through before. -/
inductive FailsWith (options : ConversionOptions) (tree : FileTree) : ConversionError → Prop
  /-- The table cannot be read. -/
  | readTable {cause : FileError} (hread : tree.Unreadable options.table cause) :
      FailsWith options tree (.file options.table cause)
  /-- The lines of the table make no table. -/
  | makeTable {text : String} {cause : TableError}
      (htext : tree.HoldsText options.table text)
      (hmake : TokenTable.compile options.table (Text.lines text) options.escapes =
        .error cause) :
      FailsWith options tree (.table cause)
  /-- The input cannot be read. -/
  | readInput {table : TokenTable} {cause : FileError} (htable : options.HasTable tree table)
      (hread : tree.Unreadable options.input cause) :
      FailsWith options tree (.file options.input cause)
  /-- A line of the input has no string, and all lines before it have one. -/
  | encode {table : TokenTable} {text line : String} {before after : List String}
      {strings : List EncodedString} {e : ConversionError}
      (htable : options.HasTable tree table) (htext : tree.HoldsText options.input text)
      (hlines : Text.lines text = before ++ line :: after)
      (hbefore :
        ((options.encoder table).encodeLines options.input 1 before).outcome = .ok strings)
      (hline : ((options.encoder table).encodeLine options.input (1 + before.length)
        line).outcome = .error e) :
      FailsWith options tree e
  /-- The output opens no file. -/
  | openOutput {input : String} {strings : List EncodedString} {cause : FileError}
      (hstrings : options.HasStrings tree input strings)
      (hopen : tree.target options.output = .error cause) :
      FailsWith options tree (.file options.output cause)

/-- The first phase comes through when the first four stages do, and then holds their
strings and the block for them. -/
theorem render_eq_ok_iff :
    (options.render (options.sources tree)).outcome = .ok block ↔
      ∃ input strings, options.HasStrings tree input strings ∧
        block = ⟨strings, (options.block (tree.isBlank options.output) strings).text⟩ := by
  have htable : textOf options.table (options.sources tree).table =
      tree.readText options.table := rfl
  have hinput : textOf options.input (options.sources tree).input =
      tree.readText options.input := rfl
  have hblank : (options.sources tree).outputBlank = tree.isBlank options.output := rfl
  unfold render
  simp only [Traced.bind_eq_ok_iff, Traced.outcome_ofExcept, Traced.mapFailure_eq_ok_iff,
    Traced.outcome_report, Traced.outcome_pure, outcome_tableOfText, htable, hinput, hblank,
    FileTree.readText_eq_ok_iff]
  constructor
  · rintro ⟨tableText, htext, table, hmake, input, hread, strings, hstrings, -, -, hblock⟩
    cases hblock
    exact ⟨input, strings, ⟨table, ⟨tableText, htext, hmake⟩, hread, hstrings⟩, rfl⟩
  · rintro ⟨input, strings, ⟨table, ⟨tableText, htext, hmake⟩, hread, hstrings⟩, rfl⟩
    exact ⟨tableText, htext, table, hmake, input, hread, strings, hstrings, (), trivial, rfl⟩

/-- A failure of the first phase is one of the first four stages. -/
theorem failsWith_of_render
    (h : (options.render (options.sources tree)).outcome = .error e) :
    options.FailsWith tree e := by
  have htable : textOf options.table (options.sources tree).table =
      tree.readText options.table := rfl
  have hinput : textOf options.input (options.sources tree).input =
      tree.readText options.input := rfl
  unfold render at h
  -- The failure is that of the first part of the sequence, or the first part has a value
  -- and the failure is that of the rest; so one stage after the other is taken off.
  rcases Traced.bind_eq_error_iff.mp h with hread | ⟨tableText, htext, h⟩
  · rw [Traced.outcome_ofExcept, htable] at hread
    obtain ⟨cause, hcause, rfl⟩ := FileTree.readText_eq_error_iff.mp hread
    exact .readTable hcause
  rw [Traced.outcome_ofExcept, htable, FileTree.readText_eq_ok_iff] at htext
  rcases Traced.bind_eq_error_iff.mp h with hmake | ⟨table, hmake, h⟩
  · obtain ⟨cause, hcause, rfl⟩ := Traced.mapFailure_eq_error_iff.mp hmake
    rw [outcome_tableOfText] at hcause
    exact .makeTable htext hcause
  rw [Traced.mapFailure_eq_ok_iff, outcome_tableOfText] at hmake
  rcases Traced.bind_eq_error_iff.mp h with hread | ⟨input, hread, h⟩
  · rw [Traced.outcome_ofExcept, hinput] at hread
    obtain ⟨cause, hcause, rfl⟩ := FileTree.readText_eq_error_iff.mp hread
    exact .readInput ⟨tableText, htext, hmake⟩ hcause
  rw [Traced.outcome_ofExcept, hinput, FileTree.readText_eq_ok_iff] at hread
  rcases Traced.bind_eq_error_iff.mp h with hencode | ⟨strings, hstrings, h⟩
  · obtain ⟨before, line, after, strings, hlines, hbefore, hline⟩ :=
      Encoder.encodeLines_eq_error_iff.mp hencode
    exact .encode ⟨tableText, htext, hmake⟩ hread hlines hbefore hline
  · -- What follows the last stage of the phase cannot fail.
    rcases Traced.bind_eq_error_iff.mp h with hreport | ⟨_, -, hreturn⟩
    · cases hreport
    · cases hreturn

/-- A stage that fails ends the run, whatever the stages behind it would do. -/
theorem run_eq_error_of_failsWith (h : options.FailsWith tree e) :
    (options.run tree).outcome = .error e := by
  -- A failure of the first phase is the failure of the run.
  have hrun : (options.render (options.sources tree)).outcome = .error e →
      (options.run tree).outcome = .error e := by
    intro hrender
    rcases options.run_cases tree with
      ⟨cause, hcause, hrun, -⟩ | ⟨_, _, hblock, -⟩ | ⟨_, _, _, hblock, -⟩
    · rw [hrender] at hcause
      cases hcause
      exact hrun
    · rw [hrender] at hblock
      cases hblock
    · rw [hrender] at hblock
      cases hblock
  have hread : ∀ {path text}, tree.HoldsText path text →
      (Traced.ofExcept (textOf path (tree.read path))).outcome = .ok text :=
    fun htext => FileTree.readText_eq_ok_iff.mpr htext
  have hunread : ∀ {path cause}, tree.Unreadable path cause →
      (Traced.ofExcept (textOf path (tree.read path))).outcome = .error (.file path cause) :=
    fun hcause => FileTree.readText_eq_error_iff.mpr ⟨_, hcause, rfl⟩
  cases h with
  | readTable hcause =>
      apply hrun
      exact Traced.bind_eq_error_iff.mpr (Or.inl (hunread hcause))
  | makeTable htext hmake =>
      apply hrun
      refine Traced.bind_eq_error_iff.mpr (Or.inr ⟨_, hread htext, ?_⟩)
      refine Traced.bind_eq_error_iff.mpr (Or.inl (Traced.mapFailure_eq_error_iff.mpr ?_))
      exact ⟨_, (outcome_tableOfText _ _ _).trans hmake, rfl⟩
  | readInput htable hcause =>
      obtain ⟨text, htext, hmake⟩ := htable
      apply hrun
      refine Traced.bind_eq_error_iff.mpr (Or.inr ⟨_, hread htext, ?_⟩)
      refine Traced.bind_eq_error_iff.mpr (Or.inr ⟨_, Traced.mapFailure_eq_ok_iff.mpr
        ((outcome_tableOfText _ _ _).trans hmake), ?_⟩)
      exact Traced.bind_eq_error_iff.mpr (Or.inl (hunread hcause))
  | encode htable htext hlines hbefore hline =>
      obtain ⟨text, htableText, hmake⟩ := htable
      apply hrun
      refine Traced.bind_eq_error_iff.mpr (Or.inr ⟨_, hread htableText, ?_⟩)
      refine Traced.bind_eq_error_iff.mpr (Or.inr ⟨_, Traced.mapFailure_eq_ok_iff.mpr
        ((outcome_tableOfText _ _ _).trans hmake), ?_⟩)
      refine Traced.bind_eq_error_iff.mpr (Or.inr ⟨_, hread htext, ?_⟩)
      refine Traced.bind_eq_error_iff.mpr (Or.inl (Encoder.encodeLines_eq_error_iff.mpr ?_))
      exact ⟨_, _, _, _, hlines, hbefore, hline⟩
  | openOutput hstrings hopen =>
      -- The first phase has a block, so only opening the output is left to fail.
      have hrender := render_eq_ok_iff.mpr ⟨_, _, hstrings, rfl⟩
      rcases options.run_cases tree with
        ⟨_, hfail, -⟩ | ⟨_, cause, -, htarget, hrun, -⟩ | ⟨_, _, _, -, hopens, -⟩
      · rw [hrender] at hfail
        cases hfail
      · rw [hopen] at htarget
        cases htarget
        exact hrun
      · rw [FileTree.target_of_opens hopens] at hopen
        cases hopen

/-- A run fails with the failure of its first stage that fails. -/
theorem run_eq_error_iff :
    (options.run tree).outcome = .error e ↔ options.FailsWith tree e := by
  constructor
  · intro h
    rcases options.run_cases tree with
      ⟨cause, hrender, hrun, -⟩ | ⟨block, cause, hrender, htarget, hrun, -⟩ |
        ⟨_, _, _, -, -, hrun, -⟩
    · rw [hrun] at h
      cases h
      exact failsWith_of_render hrender
    · rw [hrun] at h
      cases h
      obtain ⟨input, strings, hstrings, -⟩ := render_eq_ok_iff.mp hrender
      exact .openOutput hstrings htarget
    · rw [hrun] at h
      cases h
  · exact run_eq_error_of_failsWith

/-- The strings of an input are as many as its lines. -/
theorem HasStrings.length_eq {input : String} (h : options.HasStrings tree input strings) :
    strings.length = (Text.lines input).length := by
  obtain ⟨table, -, -, hstrings⟩ := h
  exact Encoder.length_of_encodeLines hstrings

/-- The symbols of an input hold no newline. -/
theorem HasStrings.oneLine_symbol {input : String}
    (h : options.HasStrings tree input strings) :
    ∀ encoded ∈ strings, OneLine encoded.symbol := by
  obtain ⟨table, -, -, hstrings⟩ := h
  exact Encoder.newline_notMem_symbol hstrings

/-- What a run that succeeds has found, rendered and left in the output. -/
theorem exists_strings_of_run_ok {summary : ConversionSummary}
    (h : (options.run tree).outcome = .ok summary) :
    ∃ input strings, options.HasStrings tree input strings ∧
      (options.render (options.sources tree)).outcome =
        .ok ⟨strings, (options.block (tree.isBlank options.output) strings).text⟩ ∧
      summary = ⟨strings.length, (strings.flatMap EncodedString.bytes).length⟩ ∧
      (options.fresh (tree.isBlank options.output) = true ↔
        options.append = false ∨ tree.contentOf options.output = ByteArray.empty) ∧
      (options.run tree).tree.read options.output =
        .ok ((if options.append then tree.contentOf options.output else ByteArray.empty) ++
          (options.block (tree.isBlank options.output) strings).text.toUTF8) := by
  rcases options.run_cases tree with
    ⟨_, -, herror, -⟩ | ⟨_, _, -, -, herror, -⟩ |
      ⟨block, here, name, hrender, hopens, hok, htree⟩
  · rw [herror] at h
    cases h
  · rw [herror] at h
    cases h
  · obtain ⟨input, strings, hstrings, rfl⟩ := render_eq_ok_iff.mp hrender
    rw [hok] at h
    cases h
    refine ⟨input, strings, hstrings, hrender, rfl, ?_, ?_⟩
    · unfold fresh
      rw [Bool.or_eq_true, hopens.isBlank_iff, Bool.not_eq_true']
    · rw [htree, hopens.read_insert]
      rfl

end ConversionOptions

end StringAssembler
