import StringAssembler.Proofs.Conversion.ReachedTexts
import StringAssembler.Proofs.Conversion.StageEvents

/-!
# The log of a run

What a run reports is one list of events, and every event stands for something that the
run did: the table that it made, each token that it took, the strings that it encoded, the
block that it wrote.  `RunLog` holds these parts, and `RunLog.Records` says for what they
stand.

The main statement is `run_log_accounts`: the log of any run consists of its parts and of
nothing else, and they add up.  If the run succeeds, the tokens make up the texts and the
bytes of the strings; if it stops at a line, they make up the texts before that line and what
was taken of its own.

Two things are proved on the way.  The events of the first phase follow from what the run
finds in its files (`exists_log_of_render`), and the tokens are tied to the lines of the input
(`HasCuts.split`).  The wording of an event and whether a threshold admits it are not taken up
here.
-/

namespace StringAssembler

/-! ## The parts of a log -/

namespace ConversionOptions

/-- The tokens that a run takes, text by text: of every definition that it reaches, and of
none if there is no table or no input. -/
inductive HasCuts (options : ConversionOptions) (tree : FileTree) :
    List (List TokenMatch) → Prop
  | unread (h : ∀ table input, options.HasTable tree table →
        ¬ tree.HoldsText options.input input) :
      HasCuts options tree []
  | reached {table : TokenTable} {input : String} {definitions : List Definition}
      {cuts : List (List TokenMatch)} (htable : options.HasTable tree table)
      (hinput : tree.HoldsText options.input input)
      (hattempts : (options.encoder table).Attempts (Text.lines input) definitions)
      (hcuts : List.Forall₂ (fun definition cut =>
        (options.encoder table).Cuts definition.text cut) definitions cuts) :
      HasCuts options tree cuts

end ConversionOptions

/-- The parts of the log of a run, in the order in which they are reported: the table, the
tokens text by text, the strings and the size of the block.  Parts to which the run does
not come are missing. -/
structure RunLog where
  table? : Option TokenTable
  cuts : List (List TokenMatch)
  strings? : Option (List EncodedString)
  written? : Option Nat

namespace RunLog

/-- The events of a log. -/
def events (log : RunLog) (options : ConversionOptions) : List Event :=
  log.table?.toList.map (·.event options.table) ++ log.cuts.flatten.map .matched ++
    log.strings?.toList.map (fun strings => .encoded strings.length options.input) ++
    log.written?.toList.map (.wrote · options.output)

/-- The parts of a log stand for what a run came to. -/
structure Records (log : RunLog) (options : ConversionOptions) (tree : FileTree) : Prop where
  /-- The table is reported exactly if it was made. -/
  table : ∀ table, log.table? = some table ↔ options.HasTable tree table
  /-- The tokens are those that are taken from the texts of the input. -/
  cuts : options.HasCuts tree log.cuts
  /-- The strings are reported exactly if all definitions are encoded. -/
  strings : ∀ strings, log.strings? = some strings ↔
    ∃ input, options.HasStrings tree input strings
  /-- The block is reported exactly if the run succeeds. -/
  written : log.written?.isSome ↔ ∃ summary, (options.run tree).outcome = .ok summary
  /-- The size of the block is what the output has gained, or all of the output if the run
  has replaced it. -/
  size : ∀ size, log.written? = some size → ∃ content,
    (options.run tree).tree.read options.output = .ok content ∧
      content.size = (if options.append then (tree.contentOf options.output).size else 0) + size

end RunLog

/-! ## The log of the first phase -/

namespace ConversionOptions

variable {options : ConversionOptions} {tree : FileTree} {table : TokenTable} {input : String}
  {strings : List EncodedString} {cuts : List (List TokenMatch)}

theorem HasTable.bounded (h : options.HasTable tree table) :
    (options.encoder table).table.Bounded := by
  obtain ⟨text, -, hcompile⟩ := h
  exact (TokenTable.Built.of_compile hcompile).bounded

/-- The events of encoding an input are those of tokens that are taken text by text. -/
theorem exists_hasCuts (htable : options.HasTable tree table)
    (hinput : tree.HoldsText options.input input) :
    ∃ cuts, options.HasCuts tree cuts ∧
      ((options.encoder table).encodeDefinitions options.input input).events =
        cuts.flatten.map Event.matched := by
  obtain ⟨definitions, hattempts⟩ := (options.encoder table).exists_attempts (Text.lines input)
  refine ⟨definitions.map fun reached => ((options.encoder table).segment reached.text).taken,
    .reached htable hinput hattempts ?_, ?_⟩
  · rw [List.forall₂_map_right_iff, List.forall₂_same]
    intro reached _
    exact Encoder.cuts_segment htable.bounded reached.text
  · rw [Encoder.encodeDefinitions, Encoder.events_encodeLines hattempts, List.flatMap_def]

/-- The log of the first phase. -/
theorem exists_log_of_render (options : ConversionOptions) (tree : FileTree) :
    ∃ table? cuts strings?,
      (options.render (options.sources tree)).events =
        RunLog.events ⟨table?, cuts, strings?, none⟩ options ∧
      (∀ table, table? = some table ↔ options.HasTable tree table) ∧
      options.HasCuts tree cuts ∧
      ∀ strings, strings? = some strings ↔ ∃ input, options.HasStrings tree input strings := by
  by_cases htable : ∃ table, options.HasTable tree table
  · obtain ⟨table, htable⟩ := htable
    have hsome : ∀ other, some table = some other ↔ options.HasTable tree other := by
      intro other
      rw [Option.some.injEq]
      constructor
      · rintro rfl
        exact htable
      · exact htable.unique
    by_cases hinput : ∃ input, tree.HoldsText options.input input
    · obtain ⟨input, hinput⟩ := hinput
      obtain ⟨cuts, hcuts, hevents⟩ := exists_hasCuts htable hinput
      refine ⟨some table, cuts,
        ((options.encoder table).encodeDefinitions options.input input).outcome.toOption,
        ?_, hsome, hcuts, fun strings => ?_⟩
      · rw [events_render_of_input htable hinput, hevents]
        simp [RunLog.events]
      · rw [hasStrings_iff htable hinput]
        cases ((options.encoder table).encodeDefinitions options.input input).outcome <;>
          simp [Except.toOption]
    · rw [not_exists] at hinput
      refine ⟨some table, [], none, events_render_of_no_input htable hinput, hsome,
        .unread fun _ input _ => hinput input, fun strings => ?_⟩
      refine iff_of_false (by simp) ?_
      rintro ⟨input, _, -, hholds, -⟩
      exact hinput input hholds
  · rw [not_exists] at htable
    refine ⟨none, [], none, events_render_of_no_table htable,
      fun table => iff_of_false (by simp) (htable table),
      .unread fun table _ h => absurd h (htable table), fun strings => iff_of_false (by simp) ?_⟩
    rintro ⟨_, table, hhas, -⟩
    exact htable table hhas

/-! ## Tokens and lines -/

/-- The tokens taken from lines that all have strings make up their texts and their bytes;
the others are taken from the lines behind. -/
theorem HasCuts.split (h : options.HasCuts tree cuts) (htable : options.HasTable tree table)
    (hinput : tree.HoldsText options.input input) {before after : List String}
    (hlines : Text.lines input = before ++ after)
    (hbefore : List.Forall₂ (options.encoder table).LineString before strings) :
    ∃ first rest more, cuts = first ++ rest ∧
      Definition.JoinedTexts before (takenText first) ∧
      strings.map EncodedString.bytes =
        first.map (fun cut => cut.map TokenMatch.value ++ options.terminator.toList) ∧
      (options.encoder table).Attempts after more ∧
      List.Forall₂ (fun definition cut => (options.encoder table).Cuts definition.text cut)
        more rest := by
  cases h with
  | unread h => exact absurd hinput (h table input htable)
  | @reached table' input' reached _ htable' hinput' hattempts hcuts =>
      obtain rfl := htable.unique htable'
      obtain rfl := hinput.unique hinput'
      rw [hlines] at hattempts
      obtain ⟨definitions, more, rfl, hstated, hbytes, hmore⟩ := hattempts.of_append hbefore
      -- The cuts are as many as the definitions, so they are split at the same place.
      have hfirst := (List.forall₂_take_append _ _ _ hcuts.flip).flip
      have hrest := (List.forall₂_drop_append _ _ _ hcuts.flip).flip
      obtain ⟨htexts, hvalues⟩ := Encoder.join_of_forall₂_cuts htable.bounded hbytes hfirst
      exact ⟨_, _, more, (List.take_append_drop _ _).symm, ⟨definitions, hstated, htexts⟩,
        hvalues, hmore, hrest⟩

/-- If all definitions are encoded, the tokens taken make up their texts and their bytes. -/
theorem HasCuts.of_hasStrings (h : options.HasCuts tree cuts)
    (hstrings : options.HasStrings tree input strings) :
    Definition.JoinedTexts (Text.lines input) (takenText cuts) ∧
      strings.map EncodedString.bytes =
        cuts.map fun cut => cut.map TokenMatch.value ++ options.terminator.toList := by
  obtain ⟨table, htable, hinput, hencode⟩ := hstrings
  obtain ⟨first, rest, more, rfl, htexts, hvalues, hmore, hrest⟩ :=
    h.split htable hinput (List.append_nil _).symm
      (Encoder.encodeLines_eq_ok_iff_forall₂.mp hencode)
  cases hmore
  cases hrest
  rw [List.append_nil]
  exact ⟨htexts, hvalues⟩

/-- If a line states no definition, the tokens taken make up the texts of the lines before
it. -/
theorem HasCuts.of_malformed (h : options.HasCuts tree cuts)
    (htable : options.HasTable tree table) (hinput : tree.HoldsText options.input input)
    {before after : List String} {line : String}
    (hlines : Text.lines input = before ++ line :: after)
    (hbefore : List.Forall₂ (options.encoder table).LineString before strings)
    (hline : ∀ definition : Definition, ¬ definition.StatedBy line) :
    Definition.JoinedTexts before (takenText cuts) := by
  obtain ⟨first, rest, more, rfl, htexts, -, hmore, hrest⟩ :=
    h.split htable hinput hlines hbefore
  cases hmore with
  | malformed =>
      cases hrest
      rw [List.append_nil]
      exact htexts
  | stuck hother => exact absurd hother (hline _)
  | next hother => exact absurd hother (hline _)

/-- If a text gets stuck, the tokens taken make up the texts of the lines before it and
what of it stands before the place. -/
theorem HasCuts.of_unmatched (h : options.HasCuts tree cuts)
    (htable : options.HasTable tree table) (hinput : tree.HoldsText options.input input)
    {before after : List String} {line : String} {definition : Definition} {place : Unmatched}
    (hlines : Text.lines input = before ++ line :: after)
    (hbefore : List.Forall₂ (options.encoder table).LineString before strings)
    (hline : definition.StatedBy line)
    (hplace : (options.encoder table).encode definition.text = .error place) :
    ∃ earlier front, takenText cuts = earlier ++ front ∧
      Definition.JoinedTexts before earlier ∧
      definition.text = front ++ place.remaining ∧ front.length = place.cursor := by
  obtain ⟨first, rest, more, rfl, htexts, -, hmore, hrest⟩ :=
    h.split htable hinput hlines hbefore
  cases hmore with
  | malformed hnone => exact absurd hline (hnone definition)
  | next hother hbytes =>
      rw [hother.unique hline, hplace] at hbytes
      cases hbytes
  | stuck hother =>
      obtain rfl := hother.unique hline
      obtain ⟨cut, _, hcut, hnil, rfl⟩ := List.forall₂_cons_left_iff.mp hrest
      cases hnil
      obtain ⟨htext, hlength⟩ := hcut.of_encode_eq_error htable.bounded hplace
      refine ⟨takenText first, String.join (cut.map TokenMatch.token), ?_, htexts, htext, hlength⟩
      rw [takenText_append, takenText_cons, takenText_nil, String.append_empty]

/-- A run that fails at a text took the tokens of the lines before it, and those of the text
in front of the place. -/
theorem HasCuts.of_encoding_error (h : options.HasCuts tree cuts) {source symbol : String}
    {number : Nat} {place : Unmatched}
    (houtcome : (options.run tree).outcome = .error (.encoding source number symbol place)) :
    ∃ (input line earlier front : String) (before after : List String)
        (definition : Definition),
      tree.HoldsText options.input input ∧ Text.lines input = before ++ line :: after ∧
      number = before.length + 1 ∧ definition.StatedBy line ∧ definition.symbol = symbol ∧
      takenText cuts = earlier ++ front ∧ Definition.JoinedTexts before earlier ∧
      definition.text = front ++ place.remaining ∧ front.length = place.cursor := by
  -- Only encoding a line fails like this, so all stages before it have come through.
  cases run_eq_error_iff.mp houtcome with
  | encode htable hinput hlines hbefore hline =>
      rw [Nat.add_comm] at hline
      cases Encoder.encodeLine_eq_error_iff.mp hline with
      | unmatched hstated hplace =>
          obtain ⟨earlier, front, htaken, hearlier, htext, hlength⟩ :=
            h.of_unmatched htable hinput hlines
              (Encoder.encodeLines_eq_ok_iff_forall₂.mp hbefore) hstated hplace
          exact ⟨_, _, earlier, front, _, _, _, hinput, hlines, rfl, hstated, rfl, htaken,
            hearlier, htext, hlength⟩

/-- A run that fails at a line without a definition took the tokens of the lines before it. -/
theorem HasCuts.of_definition_error (h : options.HasCuts tree cuts)
    {cause : MalformedDefinition}
    (houtcome : (options.run tree).outcome = .error (.definition cause)) :
    ∃ input before after, tree.HoldsText options.input input ∧
      Text.lines input = before ++ cause.line :: after ∧
      cause.lineNumber = before.length + 1 ∧
      Definition.JoinedTexts before (takenText cuts) := by
  cases run_eq_error_iff.mp houtcome with
  | encode htable hinput hlines hbefore hline =>
      rw [Nat.add_comm] at hline
      cases Encoder.encodeLine_eq_error_iff.mp hline with
      | malformed hnone =>
          exact ⟨_, _, _, hinput, hlines, rfl, h.of_malformed htable hinput hlines
            (Encoder.encodeLines_eq_ok_iff_forall₂.mp hbefore) hnone⟩

end ConversionOptions

/-- Lists to each of which the same ending was added have its length once for each list. -/
theorem length_flatten_map_append {α β : Type} (f : α → β) (lists : List (List α))
    (ending : List β) :
    (lists.map fun list => list.map f ++ ending).flatten.length =
      lists.flatten.length + lists.length * ending.length := by
  induction lists with
  | nil => rw [List.length_nil, Nat.zero_mul]; rfl
  | cons list rest ih =>
      rw [List.map_cons, List.flatten_cons, List.flatten_cons, List.length_append,
        List.length_append, List.length_append, ih, List.length_map, List.length_cons,
        Nat.succ_mul]
      omega

/-- As many tokens are reported as there are bytes in the strings without a terminator. -/
theorem length_of_map_bytes_eq {strings : List EncodedString} {cuts : List (List TokenMatch)}
    {terminator : Option UInt8}
    (h : strings.map EncodedString.bytes =
      cuts.map fun cut => cut.map TokenMatch.value ++ terminator.toList) :
    cuts.flatten.length + (if terminator.isSome then strings.length else 0) =
      (strings.flatMap EncodedString.bytes).length := by
  have hlength : strings.length = cuts.length := by
    simpa using congrArg List.length h
  rw [List.flatMap_def, h, hlength, length_flatten_map_append]
  cases terminator <;> simp

/-- The events of a log have the levels of its parts. -/
theorem RunLog.map_level_events (log : RunLog) (options : ConversionOptions) :
    (log.events options).map Event.level =
      log.table?.toList.map (fun _ => .debug) ++ log.cuts.flatten.map (fun _ => .trace) ++
        log.strings?.toList.map (fun _ => .info) ++
        log.written?.toList.map (fun _ => .debug) := by
  simp only [RunLog.events, List.map_append, List.map_map]
  rfl

/-- The tokens of a log are its only traces. -/
theorem RunLog.filter_trace_events (log : RunLog) (options : ConversionOptions) :
    (log.events options).filter (fun event => event.level = .trace) =
      log.cuts.flatten.map Event.matched := by
  simp [RunLog.events, List.filter_map, Function.comp_def, Event.level, TokenTable.event]

/-! ## The log of a run -/

namespace ConversionOptions

/-- The events of a run are those of a log that records it. -/
theorem exists_log_of_run (options : ConversionOptions) (tree : FileTree) :
    ∃ log : RunLog, (options.run tree).events = log.events options ∧
      log.Records options tree := by
  obtain ⟨table?, cuts, strings?, hevents, htable, hcuts, hstrings⟩ :=
    exists_log_of_render options tree
  cases houtcome : (options.run tree).outcome with
  | error e =>
      refine ⟨⟨table?, cuts, strings?, none⟩, (events_run_of_error houtcome).trans hevents,
        htable, hcuts, hstrings, ?_, by simp⟩
      rw [houtcome]
      simp
  | ok summary =>
      obtain ⟨_, strings, -, hrender, -, -, hread⟩ := exists_strings_of_run_ok houtcome
      let block : RenderedBlock :=
        ⟨strings, (options.block (tree.isBlank options.output) strings).text⟩
      refine ⟨⟨table?, cuts, strings?, some block.bytes.size⟩, ?_, htable, hcuts, hstrings, ?_, ?_⟩
      · rw [events_run_of_ok houtcome hrender, hevents]
        simp [RunLog.events, block]
      · rw [houtcome]
        simp
      · intro size hsize
        cases hsize
        refine ⟨_, hread, ?_⟩
        rw [ByteArray.size_append]
        split <;> rfl

end ConversionOptions

/-- The log of a run accounts for it.  It tells in order of the table, if there is one; of
each token that was taken from the texts of the input; of the strings, if all of them are
encoded; and of the size of the block, if it was written.  It tells of nothing else.

Behind a success the tokens make up the texts of all lines, and their bytes are those of the
strings without the terminators.  Behind a failure at a line they make up the texts of the
lines before it and the part of its own text in front of the place that the failure names. -/
theorem run_log_accounts (options : ConversionOptions) (tree : FileTree) :
    let report := options.run tree
    ∃ log : RunLog, report.events = log.events options ∧ log.Records options tree ∧
      report.events.map Event.level =
        log.table?.toList.map (fun _ => .debug) ++ log.cuts.flatten.map (fun _ => .trace) ++
          log.strings?.toList.map (fun _ => .info) ++
          log.written?.toList.map (fun _ => .debug) ∧
      (∀ summary, report.outcome = .ok summary →
        ∃ input strings, tree.HoldsText options.input input ∧ log.strings? = some strings ∧
          Definition.JoinedTexts (Text.lines input) (takenText log.cuts) ∧
          strings.map EncodedString.bytes =
            log.cuts.map (fun cut => cut.map TokenMatch.value ++ options.terminator.toList) ∧
          summary.strings = strings.length ∧
          (report.events.filter fun event => event.level = .trace).length +
              (if options.terminator.isSome then summary.strings else 0) = summary.bytes) ∧
      (∀ source number symbol place,
        report.outcome = .error (.encoding source number symbol place) →
        ∃ (input line earlier front : String) (before after : List String)
            (definition : Definition),
          tree.HoldsText options.input input ∧ Text.lines input = before ++ line :: after ∧
          number = before.length + 1 ∧ definition.StatedBy line ∧
          definition.symbol = symbol ∧ takenText log.cuts = earlier ++ front ∧
          Definition.JoinedTexts before earlier ∧
          definition.text = front ++ place.remaining ∧ front.length = place.cursor) ∧
      ∀ cause, report.outcome = .error (.definition cause) →
        ∃ input before after, tree.HoldsText options.input input ∧
          Text.lines input = before ++ cause.line :: after ∧
          cause.lineNumber = before.length + 1 ∧
          Definition.JoinedTexts before (takenText log.cuts) := by
  intro report
  obtain ⟨log, hevents, hrecords⟩ := options.exists_log_of_run tree
  refine ⟨log, hevents, hrecords, ?_, ?_, ?_, ?_⟩
  · rw [hevents, log.map_level_events]
  · intro summary houtcome
    obtain ⟨input, strings, hstrings, -, rfl, -⟩ :=
      ConversionOptions.exists_strings_of_run_ok houtcome
    obtain ⟨htexts, hvalues⟩ := hrecords.cuts.of_hasStrings hstrings
    obtain ⟨_, -, hinput, -⟩ := id hstrings
    refine ⟨input, strings, hinput, (hrecords.strings strings).mpr ⟨input, hstrings⟩, htexts,
      hvalues, rfl, ?_⟩
    rw [hevents, log.filter_trace_events, List.length_map]
    exact length_of_map_bytes_eq hvalues
  · intro source number symbol place houtcome
    exact hrecords.cuts.of_encoding_error houtcome
  · intro cause houtcome
    exact hrecords.cuts.of_definition_error houtcome

/-- The second line gets stuck behind its first token. -/
example :
    let tree := (FileTree.empty.putFile "t" "A=1\nB=2\n".toUTF8).putFile "i"
      "x=AB\ny=A!\n".toUTF8
    let options : ConversionOptions := ⟨"t", "i", "o", true, false, .longest, some 0⟩
    (options.run tree).events =
      [.compiled 2 "t" 1, .matched ⟨"A", 1, 0⟩, .matched ⟨"B", 2, 1⟩, .matched ⟨"A", 1, 0⟩] := by
  decide +kernel

end StringAssembler
