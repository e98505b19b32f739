import StringAssembler.Proofs.Conversion.Pipeline
import StringAssembler.Proofs.Files.Rewriting
import StringAssembler.Proofs.Text.LineEndings

/-!
# Sources in another form

Of the table and of the input a run uses the lines, and of the output whether it starts
blank (`render_eq_of_lines_eq`).  A bare text has the same lines in every form that a file
may hold it in, so a run does not tell the forms apart: put the table and the input in any
forms, and the outcome, the events and the output are the same (`run_eq_in_every_form`).

The output must be neither of the two files, since a run that appends keeps what it holds.
-/

namespace StringAssembler

/-- A file that holds a bare text in any form is read to the lines of this text. -/
theorem lines_of_textOf_written {text : String} (h : Text.Bare text) (form : Text.FileForm)
    (path : String) :
    ∃ found, textOf path (.ok (form.written text).toUTF8) = .ok found ∧
      Text.lines found = Text.lines text := by
  refine ⟨Text.dropByteOrderMark (form.written text), ?_,
    Text.lines_dropByteOrderMark_written h form⟩
  have hdecode : String.fromUTF8? (form.written text).toUTF8 = some (form.written text) :=
    fromUTF8?_eq_some_iff.mpr rfl
  simp only [textOf, Except.bind, decodeText, hdecode]

/-- A file that holds a bare text as it is is read to this text. -/
theorem textOf_bare {text : String} (h : Text.Bare text) (path : String) :
    textOf path (.ok text.toUTF8) = .ok text := by
  have hdecode : String.fromUTF8? text.toUTF8 = some text := fromUTF8?_eq_some_iff.mpr rfl
  simp only [textOf, Except.bind, decodeText, hdecode, Text.dropByteOrderMark_of_bare h]

namespace ConversionOptions

variable {options : ConversionOptions}

/-- The first phase sees the lines of the table and of the input and nothing else of them. -/
theorem render_eq_of_lines_eq {sources others : ConversionSources}
    {table table' input input' : String}
    (htable : textOf options.table sources.table = .ok table)
    (htable' : textOf options.table others.table = .ok table')
    (htableLines : Text.lines table' = Text.lines table)
    (hinput : textOf options.input sources.input = .ok input)
    (hinput' : textOf options.input others.input = .ok input')
    (hinputLines : Text.lines input' = Text.lines input)
    (hblank : others.outputBlank = sources.outputBlank) :
    options.render others = options.render sources := by
  have hmake : tableOfText options.table table' options.escapes =
      tableOfText options.table table options.escapes := by
    rw [tableOfText, tableOfText, htableLines]
  have hencode : ∀ encoder : Encoder, encoder.encodeDefinitions options.input input' =
      encoder.encodeDefinitions options.input input := by
    intro encoder
    rw [Encoder.encodeDefinitions, Encoder.encodeDefinitions, hinputLines]
  simp only [render, htable, htable', hinput, hinput', hblank, bind, Traced.andThen,
    Traced.ofExcept, hmake, hencode]

/-- Runs with the same first phase whose outputs open and read the same do the same. -/
theorem run_eq_of_render_eq {tree other : FileTree}
    (hrender : options.render (options.sources other) = options.render (options.sources tree))
    (htarget : other.target options.output = tree.target options.output)
    (hread : other.read options.output = tree.read options.output) :
    (options.run other).outcome = (options.run tree).outcome ∧
      (options.run other).events = (options.run tree).events ∧
      (options.run other).tree.read options.output =
        (options.run tree).tree.read options.output := by
  have halike : options.RunsAlike tree other :=
    runsAlike_of_render_eq hrender htarget fun _ => by
      rw [FileTree.contentOf, FileTree.contentOf, hread]
  refine ⟨halike.outcome, halike.events, ?_⟩
  rcases halike.effect with ⟨htree, hother⟩ | ⟨here, name, content, hopens, htree, hother⟩
  · rw [htree, hother, hread]
  · rw [htree, hother, hopens.read_insert, (hopens.of_target_eq htarget).read_insert]

end ConversionOptions

/-- The files of a table and of an input can be put in any forms.  The places of files stay
as they are, and paths to other files read what they read before. -/
theorem FileTree.exists_reformed {tree : FileTree} {tablePath inputPath table input : String}
    (htable : tree.read tablePath = .ok table.toUTF8)
    (hinput : tree.read inputPath = .ok input.toUTF8) (tableForm inputForm : Text.FileForm) :
    ∃ between reformed,
      tree.write tablePath false (tableForm.written table).toUTF8 = .ok between ∧
      between.write inputPath false (inputForm.written input).toUTF8 = .ok reformed ∧
      (∃ form : Text.FileForm, reformed.read tablePath = .ok (form.written table).toUTF8) ∧
      reformed.read inputPath = .ok (inputForm.written input).toUTF8 ∧
      SameShape tree reformed ∧
      ∀ path, tree.target path ≠ tree.target tablePath →
        tree.target path ≠ tree.target inputPath → reformed.resolve path = tree.resolve path := by
  obtain ⟨between, hwriteTable, hbetween⟩ :=
    exists_rewritten htable (tableForm.written table).toUTF8
  have hbetweenInput : ∃ content, between.read inputPath = .ok content := by
    by_cases hsame : tree.target inputPath = tree.target tablePath
    · exact ⟨_, hbetween.read_eq_of_target_eq hsame⟩
    · exact ⟨_, (hbetween.read_eq_of_target_ne hsame).trans hinput⟩
  obtain ⟨content, hcontent⟩ := hbetweenInput
  obtain ⟨reformed, hwriteInput, hreformed⟩ :=
    exists_rewritten hcontent (inputForm.written input).toUTF8
  refine ⟨between, reformed, hwriteTable, hwriteInput, ?_, hreformed.read_self,
    hbetween.shape.trans hreformed.shape, ?_⟩
  · by_cases hsame : between.target tablePath = between.target inputPath
    · -- Both paths open one file, so there is one text, now in the form of the input.
      have htext : table = input := by
        rw [hbetween.shape.target_eq, hbetween.shape.target_eq] at hsame
        obtain ⟨place, hplace, -⟩ := hbetween.changes
        rw [read_eq_of_target_eq hplace (hsame ▸ hplace), htable] at hinput
        exact String.toByteArray_inj.mp (Except.ok.inj hinput)
      exact ⟨inputForm, htext ▸ hreformed.read_eq_of_target_eq hsame⟩
    · exact ⟨tableForm, (hreformed.read_eq_of_target_ne hsame).trans hbetween.read_self⟩
  · intro path hnotTable hnotInput
    rw [hreformed.resolve_eq, hbetween.resolve_eq hnotTable]
    rwa [hbetween.shape.target_eq, hbetween.shape.target_eq]

/-- A run does not tell the forms of its sources apart.  If the files of the table and of the
input hold bare texts and the output is neither of them, both files can be replaced by any
forms of their texts, and the run has the same outcome, reports the same events and leaves
the same output. -/
theorem run_eq_in_every_form {options : ConversionOptions} {tree : FileTree}
    {table input : String} (htable : tree.read options.table = .ok table.toUTF8)
    (hinput : tree.read options.input = .ok input.toUTF8) (hbareTable : Text.Bare table)
    (hbareInput : Text.Bare input)
    (hnotTable : tree.target options.output ≠ tree.target options.table)
    (hnotInput : tree.target options.output ≠ tree.target options.input)
    (tableForm inputForm : Text.FileForm) :
    ∃ between reformed,
      tree.write options.table false (tableForm.written table).toUTF8 = .ok between ∧
      between.write options.input false (inputForm.written input).toUTF8 = .ok reformed ∧
      (options.run reformed).outcome = (options.run tree).outcome ∧
      (options.run reformed).events = (options.run tree).events ∧
      (options.run reformed).tree.read options.output =
        (options.run tree).tree.read options.output := by
  obtain ⟨between, reformed, hwriteTable, hwriteInput, ⟨form, hreadTable⟩, hreadInput, hshape,
    hother⟩ := FileTree.exists_reformed htable hinput tableForm inputForm
  have houtput := hother options.output hnotTable hnotInput
  obtain ⟨foundTable, hfoundTable, hlinesTable⟩ :=
    lines_of_textOf_written hbareTable form options.table
  obtain ⟨foundInput, hfoundInput, hlinesInput⟩ :=
    lines_of_textOf_written hbareInput inputForm options.input
  have htableText : textOf options.table (options.sources tree).table = .ok table := by
    rw [ConversionOptions.sources, htable]
    exact textOf_bare hbareTable _
  have hinputText : textOf options.input (options.sources tree).input = .ok input := by
    rw [ConversionOptions.sources, hinput]
    exact textOf_bare hbareInput _
  rw [← hreadTable] at hfoundTable
  rw [← hreadInput] at hfoundInput
  have hrender : options.render (options.sources reformed) =
      options.render (options.sources tree) :=
    ConversionOptions.render_eq_of_lines_eq htableText hfoundTable hlinesTable hinputText
      hfoundInput hlinesInput (FileTree.isBlank_eq_of_resolve_eq houtput)
  exact ⟨between, reformed, hwriteTable, hwriteInput,
    ConversionOptions.run_eq_of_render_eq hrender (hshape.target_eq options.output)
      (FileTree.read_eq_of_resolve_eq houtput)⟩

/-- A table behind a byte order mark and an input with carriage returns: the second line
still fails at its exclamation mark. -/
theorem run_eq_in_every_form_stuck :
    let table := "A=1\nB=2\n"
    let input := "x=AB\ny=A!\n"
    let tree := (FileTree.empty.putFile "t" table.toUTF8).putFile "i" input.toUTF8
    let options : ConversionOptions := ⟨"t", "i", "o", true, false, .longest, some 0⟩
    tree.read "t" = .ok table.toUTF8 ∧ tree.read "i" = .ok input.toUTF8 ∧
      Text.Bare table ∧ Text.Bare input ∧
      tree.target "o" ≠ tree.target "t" ∧ tree.target "o" ≠ tree.target "i" ∧
      ∃ between reformed,
        tree.write "t" false "\ufeffA=1\nB=2\n".toUTF8 = .ok between ∧
        between.write "i" false "x=AB\r\ny=A!\r\n".toUTF8 = .ok reformed ∧
        (options.run reformed).outcome = .error (.encoding "i" 2 "y" ⟨1, "!"⟩) := by
  intro table input tree options
  have htable : tree.read "t" = .ok table.toUTF8 := by decide +kernel
  have hinput : tree.read "i" = .ok input.toUTF8 := by decide +kernel
  have hbareTable : Text.Bare table := ⟨by decide +kernel, by decide +kernel⟩
  have hbareInput : Text.Bare input := ⟨by decide +kernel, by decide +kernel⟩
  have hnotTable : tree.target "o" ≠ tree.target "t" := by decide +kernel
  have hnotInput : tree.target "o" ≠ tree.target "i" := by decide +kernel
  have hmarked : (⟨false, true⟩ : Text.FileForm).written table = "\ufeffA=1\nB=2\n" := by
    decide +kernel
  have hreturned : (⟨true, false⟩ : Text.FileForm).written input = "x=AB\r\ny=A!\r\n" := by
    decide +kernel
  obtain ⟨between, reformed, hwriteTable, hwriteInput, houtcome, -⟩ :=
    @run_eq_in_every_form options tree table input htable hinput hbareTable hbareInput
      hnotTable hnotInput ⟨false, true⟩ ⟨true, false⟩
  refine ⟨htable, hinput, hbareTable, hbareInput, hnotTable, hnotInput, between, reformed,
    hmarked ▸ hwriteTable, hreturned ▸ hwriteInput, houtcome.trans ?_⟩
  decide +kernel

end StringAssembler
