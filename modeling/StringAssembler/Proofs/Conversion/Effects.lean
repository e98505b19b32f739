import StringAssembler.CommandLine.Program
import StringAssembler.Proofs.Files.Writing

/-!
# What a run does to the files

A run ends in one of three ways: its first phase fails, the output cannot be opened, or
the rendered block is written (`ConversionOptions.run_cases`).  Everything said about
the files behind a run is read off these three.

The main statement is `run_changes_only_output`: a failure leaves the tree as it was,
and a success changes the file that the output path opens and nothing else.  It holds
of every tree and all paths, also of paths that name the same file.  It does not say
what the output holds afterwards.

On trees where the first phase sees the same, and where the output opens the same place with
the same bytes to keep, a run does the same (`ConversionOptions.runsAlike_of_render_eq`).
-/

namespace StringAssembler

/-- Between two trees the file that a path opens has been written, and nothing else has
changed, appeared or gone. -/
def FileTree.ChangedOnly (path : String) (before after : FileTree) : Prop :=
  ∃ place content, before.target path = .ok place ∧
    after.find? place = some (.file content) ∧ FileTree.SameExceptAt place before after

theorem FileTree.Opens.changedOnly_insert {tree : FileTree} {path name : String}
    {here : List String} (h : tree.Opens path here name) (content : ByteArray) :
    FileTree.ChangedOnly path tree (tree.insert (here ++ [name]) (.file content)) :=
  ⟨here ++ [name], content, FileTree.target_of_opens h,
    FileTree.find?_insert_self h.not_prefix_home, FileTree.sameExceptAt_insert _ _ _⟩

namespace ConversionOptions

section

variable {options : ConversionOptions} {tree next : FileTree} {block : RenderedBlock}

/-- A run whose first phase fails does nothing more. -/
theorem run_of_render_error {e : ConversionError}
    (hrender : (options.render (options.sources tree)).outcome = .error e) :
    options.run tree = ⟨.error e, tree, (options.render (options.sources tree)).events⟩ := by
  simp only [run, hrender]

/-- A run that cannot open the output does nothing more. -/
theorem run_of_write_error {e : FileError}
    (hrender : (options.render (options.sources tree)).outcome = .ok block)
    (hwrite : tree.write options.output options.append block.bytes = .error e) :
    options.run tree =
      ⟨.error (.file options.output e), tree, (options.render (options.sources tree)).events⟩ := by
  simp only [run, hrender, hwrite, conclude, Traced.failure, Except.toOption, Option.getD_none,
    List.append_nil]

/-- A run that writes reports how much, and is done. -/
theorem run_of_write_ok
    (hrender : (options.render (options.sources tree)).outcome = .ok block)
    (hwrite : tree.write options.output options.append block.bytes = .ok next) :
    options.run tree =
      ⟨.ok block.summary, next, (options.render (options.sources tree)).events ++
        [.wrote block.bytes.size options.output]⟩ := by
  simp only [run, hrender, hwrite, conclude, Except.toOption, Option.getD_some]

end

/-- The three ends of a run. -/
theorem run_cases (options : ConversionOptions) (tree : FileTree) :
    (∃ e, (options.render (options.sources tree)).outcome = .error e ∧
        (options.run tree).outcome = .error e ∧ (options.run tree).tree = tree) ∨
    (∃ block e, (options.render (options.sources tree)).outcome = .ok block ∧
        tree.target options.output = .error e ∧
        (options.run tree).outcome = .error (.file options.output e) ∧
        (options.run tree).tree = tree) ∨
    ∃ block here name, (options.render (options.sources tree)).outcome = .ok block ∧
        tree.Opens options.output here name ∧
        (options.run tree).outcome = .ok block.summary ∧
        (options.run tree).tree =
          tree.insert (here ++ [name])
            (.file ((if options.append then tree.contentOf options.output
              else ByteArray.empty) ++ block.bytes)) := by
  cases hrender : (options.render (options.sources tree)).outcome with
  | error e =>
      rw [run_of_render_error hrender]
      exact Or.inl ⟨e, rfl, rfl, rfl⟩
  | ok block =>
      rcases tree.write_cases options.output options.append block.bytes with
        ⟨e, htarget, hwrite⟩ | ⟨here, name, hopens, hwrite⟩
      · rw [run_of_write_error hrender hwrite]
        exact Or.inr (Or.inl ⟨block, e, rfl, htarget, rfl, rfl⟩)
      · rw [run_of_write_ok hrender hwrite]
        exact Or.inr (Or.inr ⟨block, here, name, rfl, hopens, rfl, rfl⟩)

/-- A run does the same on two trees: it has the same outcome, reports the same events, and
leaves both trees alone or puts the same file at the same place of both. -/
structure RunsAlike (options : ConversionOptions) (tree other : FileTree) : Prop where
  outcome : (options.run other).outcome = (options.run tree).outcome
  events : (options.run other).events = (options.run tree).events
  effect : ((options.run tree).tree = tree ∧ (options.run other).tree = other) ∨
    ∃ here name content, tree.Opens options.output here name ∧
      (options.run tree).tree = tree.insert (here ++ [name]) (.file content) ∧
      (options.run other).tree = other.insert (here ++ [name]) (.file content)

/-- What a run does is settled by its first phase, by the place that the output opens and, if
it appends, by the bytes there. -/
theorem runsAlike_of_render_eq {options : ConversionOptions} {tree other : FileTree}
    (hrender : options.render (options.sources other) = options.render (options.sources tree))
    (htarget : other.target options.output = tree.target options.output)
    (hkept : options.append = true →
      other.contentOf options.output = tree.contentOf options.output) :
    options.RunsAlike tree other := by
  cases htree : (options.render (options.sources tree)).outcome with
  | error e =>
      have hother := (congrArg Traced.outcome hrender).trans htree
      constructor <;> rw [run_of_render_error htree, run_of_render_error hother]
      · rw [hrender]
      · exact Or.inl ⟨rfl, rfl⟩
  | ok block =>
      have hother := (congrArg Traced.outcome hrender).trans htree
      rcases tree.write_cases options.output options.append block.bytes with
        ⟨e, hfails, hwrite⟩ | ⟨here, name, hopens, hwrite⟩
      · have hwrite' : other.write options.output options.append block.bytes = .error e := by
          rw [FileTree.write, htarget, hfails]
        constructor <;> rw [run_of_write_error htree hwrite, run_of_write_error hother hwrite']
        · rw [hrender]
        · exact Or.inl ⟨rfl, rfl⟩
      · have hwrite' := (hopens.of_target_eq htarget).write_eq options.append block.bytes
        have hcontent : (if options.append then other.contentOf options.output
              else ByteArray.empty) =
            if options.append then tree.contentOf options.output else ByteArray.empty := by
          split
          case isTrue happend => exact hkept happend
          case isFalse => rfl
        rw [hcontent] at hwrite'
        constructor <;> rw [run_of_write_ok htree hwrite, run_of_write_ok hother hwrite']
        · rw [hrender]
        · exact Or.inr ⟨here, name, _, hopens, rfl, rfl⟩

theorem RunsAlike.refl (options : ConversionOptions) (tree : FileTree) :
    options.RunsAlike tree tree :=
  runsAlike_of_render_eq rfl rfl fun _ => rfl

/-- A failed run leaves the tree as it was. -/
theorem run_tree_eq_of_error {options : ConversionOptions} {tree : FileTree}
    {e : ConversionError} (h : (options.run tree).outcome = .error e) :
    (options.run tree).tree = tree := by
  rcases options.run_cases tree with
    ⟨_, -, -, htree⟩ | ⟨_, _, -, -, -, htree⟩ | ⟨_, _, _, -, -, hok, -⟩
  · exact htree
  · exact htree
  · rw [hok] at h
    cases h

/-- A successful run changes the output only. -/
theorem changedOnly_of_run_ok {options : ConversionOptions} {tree : FileTree}
    {summary : ConversionSummary} (h : (options.run tree).outcome = .ok summary) :
    FileTree.ChangedOnly options.output tree (options.run tree).tree := by
  rcases options.run_cases tree with
    ⟨_, -, herror, -⟩ | ⟨_, _, -, -, herror, -⟩ | ⟨_, _, _, -, hopens, -, htree⟩
  · rw [herror] at h
    cases h
  · rw [herror] at h
    cases h
  · rw [htree]
    exact hopens.changedOnly_insert _

end ConversionOptions

/-- Failed runs change nothing and successful runs change only the output, for single
conversions and for the program with any arguments and any environment. -/
theorem run_changes_only_output (tree : FileTree) :
    (∀ options : ConversionOptions,
      match (options.run tree).outcome with
      | .error _ => (options.run tree).tree = tree
      | .ok _ => FileTree.ChangedOnly options.output tree (options.run tree).tree) ∧
    ∀ arguments levelName,
      if (Program.run arguments levelName tree).1.exitCode = 0 then
        (Program.run arguments levelName tree).2 = tree ∨
          ∃ options verbosity,
            Request.ofArguments arguments = .convert options verbosity ∧
            FileTree.ChangedOnly options.output tree
              (Program.run arguments levelName tree).2
      else (Program.run arguments levelName tree).2 = tree := by
  constructor
  · intro options
    cases houtcome : (options.run tree).outcome with
    | error e => exact ConversionOptions.run_tree_eq_of_error houtcome
    | ok summary => exact ConversionOptions.changedOnly_of_run_ok houtcome
  · -- Only a request for a conversion reaches the files, and its outcome decides the exit.
    intro arguments levelName
    unfold Program.run
    cases hrequest : Request.ofArguments arguments with
    | convert options verbosity =>
        cases houtcome : (options.run tree).outcome with
        | error e =>
            have htree := ConversionOptions.run_tree_eq_of_error houtcome
            simp [Program.answer, Program.conversionReport, Program.exitCode, houtcome, htree]
        | ok summary =>
            have hchanged := ConversionOptions.changedOnly_of_run_ok houtcome
            simp only [Program.answer, Program.conversionReport, Program.exitCode, houtcome,
              if_true]
            exact Or.inr ⟨options, verbosity, rfl, hchanged⟩
    | version => exact Or.inl rfl
    | help => exact Or.inl rfl
    | invalid => rfl

end StringAssembler
