import StringAssembler.Proofs.Conversion.Pipeline

/-!
# Output that accumulates

Conversions that write to one output leave blocks in it.  A run that overwrites takes
everything away that stood there before, a run that appends adds its block at the end,
and a run that fails changes nothing.  `Accumulated` says what the output holds behind
such runs in terms of the blocks that they wrote; one run preserves it
(`Accumulated.step`), and so does any sequence of runs (`Accumulated.runAll`).

A block is never empty (`WrittenBlock.bytes_ne_empty`).  So behind a successful run the
output is not blank, and a block that is appended to it does not open the section again.

Nothing is assumed of the tables and inputs of the runs; one that reads the output finds
there what the runs before it have left.
-/

namespace StringAssembler

/-- A block that a run wrote. -/
structure WrittenBlock where
  options : ConversionOptions
  fresh : Bool
  strings : List EncodedString
  deriving DecidableEq, Repr

namespace WrittenBlock

/-- What was emitted for a block. -/
def emission (block : WrittenBlock) : Emission :=
  .block (.forConversion block.options.input block.options.table) block.fresh
    block.options.input (Path.stem block.options.input) block.strings

/-- The bytes of a block. -/
def bytes (block : WrittenBlock) : ByteArray := block.emission.text.toUTF8

/-- The bytes of blocks that stand one behind the other. -/
def joined : List WrittenBlock → ByteArray
  | [] => ByteArray.empty
  | block :: rest => block.bytes ++ joined rest

@[simp] theorem joined_nil : joined [] = ByteArray.empty := rfl

@[simp] theorem joined_cons (block : WrittenBlock) (rest : List WrittenBlock) :
    joined (block :: rest) = block.bytes ++ joined rest := rfl

@[simp] theorem joined_append (blocks more : List WrittenBlock) :
    joined (blocks ++ more) = joined blocks ++ joined more := by
  induction blocks with
  | nil => simp
  | cons block rest ih => simp [ih, ByteArray.append_assoc]

/-- A block has bytes: its last line ends in a newline. -/
theorem bytes_ne_empty (block : WrittenBlock) : block.bytes ≠ ByteArray.empty := by
  intro hempty
  exact block.emission.text_ne_empty (String.toByteArray_inj.mp hempty)

/-- Only no blocks at all have no bytes. -/
theorem joined_eq_empty_iff {blocks : List WrittenBlock} :
    joined blocks = ByteArray.empty ↔ blocks = [] := by
  cases blocks with
  | nil => simp
  | cons block rest =>
      simp only [joined_cons, ByteArray.append_eq_empty_iff, reduceCtorEq, iff_false]
      rintro ⟨hempty, -⟩
      exact block.bytes_ne_empty hempty

end WrittenBlock

/-! ## Runs -/

namespace ConversionOptions

/-- The same run to another output. -/
def writingTo (options : ConversionOptions) (output : String) : ConversionOptions :=
  { options with output := output }

/-- The block that a run writes, if it succeeds. -/
def written? (options : ConversionOptions) (tree : FileTree) : Option WrittenBlock :=
  match (options.run tree).outcome, (options.render (options.sources tree)).outcome with
  | .ok _, .ok block =>
      some ⟨options, options.fresh (tree.isBlank options.output), block.strings⟩
  | _, _ => none

/-- The files behind runs that are made one after the other. -/
def runAll (tree : FileTree) : List ConversionOptions → FileTree
  | [] => tree
  | options :: rest => runAll (options.run tree).tree rest

/-- The blocks that the runs write, in order. -/
def writtenBy (tree : FileTree) : List ConversionOptions → List WrittenBlock
  | [] => []
  | options :: rest =>
      (options.written? tree).toList ++ writtenBy (options.run tree).tree rest

theorem runAll_append (tree : FileTree) (runs more : List ConversionOptions) :
    runAll tree (runs ++ more) = runAll (runAll tree runs) more := by
  induction runs generalizing tree with
  | nil => rfl
  | cons options rest ih => exact ih _

variable {options : ConversionOptions} {tree : FileTree} {block : WrittenBlock}

theorem written?_eq_none_of_error {e : ConversionError}
    (h : (options.run tree).outcome = .error e) : options.written? tree = none := by
  simp only [written?, h]

/-- A run that succeeds writes the block of its own strings behind what it keeps. -/
theorem exists_written?_of_ok {summary : ConversionSummary}
    (h : (options.run tree).outcome = .ok summary) :
    ∃ block input, options.written? tree = some block ∧ block.options = options ∧
      options.HasStrings tree input block.strings ∧
      (block.fresh = true ↔
        options.append = false ∨ tree.contentOf options.output = ByteArray.empty) ∧
      (options.run tree).tree.read options.output =
        .ok ((if options.append then tree.contentOf options.output
          else ByteArray.empty) ++ block.bytes) := by
  obtain ⟨input, strings, hstrings, hrender, -, hfresh, hread⟩ := exists_strings_of_run_ok h
  refine ⟨⟨options, options.fresh (tree.isBlank options.output), strings⟩, input, ?_, rfl,
    hstrings, hfresh, hread⟩
  simp only [written?, h, hrender]

theorem writtenBy_append (tree : FileTree) (runs more : List ConversionOptions) :
    writtenBy tree (runs ++ more) = writtenBy tree runs ++ writtenBy (runAll tree runs) more := by
  induction runs generalizing tree with
  | nil => rfl
  | cons options rest ih =>
      show (options.written? tree).toList ++ writtenBy _ (rest ++ more) = _
      rw [ih, ← List.append_assoc]
      rfl

theorem writtenBy_append_cons (tree : FileTree) (before : List ConversionOptions)
    (options : ConversionOptions) (after : List ConversionOptions) :
    writtenBy tree (before ++ options :: after) =
      writtenBy tree before ++ ((options.written? (runAll tree before)).toList ++
        writtenBy (options.run (runAll tree before)).tree after) :=
  writtenBy_append tree before (options :: after)

/-- A run that fails among others might as well not have been made. -/
theorem runAll_eq_of_error {before after : List ConversionOptions} {e : ConversionError}
    (h : (options.run (runAll tree before)).outcome = .error e) :
    runAll tree (before ++ options :: after) = runAll tree (before ++ after) ∧
      writtenBy tree (before ++ options :: after) = writtenBy tree (before ++ after) := by
  have htree := run_tree_eq_of_error h
  constructor
  · rw [runAll_append, runAll_append]
    show runAll (options.run (runAll tree before)).tree after = _
    rw [htree]
  · rw [writtenBy_append_cons, written?_eq_none_of_error h, htree, writtenBy_append]
    rfl

end ConversionOptions

/-! ## What stands in the output -/

/-- A split of a list with an additional last element is at that element or before it. -/
theorem concat_eq_append_cons {α : Type} {list before after : List α} {last a : α}
    (h : list ++ [last] = before ++ a :: after) :
    (list = before ∧ last = a ∧ after = []) ∨
      ∃ front, after = front ++ [last] ∧ list = before ++ a :: front := by
  rcases List.eq_nil_or_concat after with rfl | ⟨front, final, rfl⟩
  · obtain ⟨hlist, hlast⟩ := List.append_inj' h rfl
    exact Or.inl ⟨hlist, List.singleton_inj.mp hlast, rfl⟩
  · rw [List.concat_eq_append, ← List.cons_append, ← List.append_assoc] at h
    obtain ⟨hlist, hlast⟩ := List.append_inj' h rfl
    refine Or.inr ⟨front, ?_, hlist⟩
    rw [List.concat_eq_append, List.singleton_inj.mp hlast]

/-- What an output holds behind runs, by the blocks that these wrote. -/
structure Accumulated (output : String) (first : FileTree) (blocks : List WrittenBlock)
    (last : FileTree) (base : ByteArray) (standing : List WrittenBlock) : Prop where
  /-- Of the blocks those stand that none has overwritten: from the last one on that
  overwrote the output, or else all of them, behind the first content. -/
  origin :
    (base = first.contentOf output ∧ standing = blocks ∧
        ∀ block ∈ blocks, block.options.append = true) ∨
      (base = ByteArray.empty ∧ ∃ earlier overwriting later,
        blocks = earlier ++ overwriting :: later ∧ standing = overwriting :: later ∧
          overwriting.options.append = false ∧ ∀ block ∈ later, block.options.append = true)
  /-- The standing blocks follow each other, with nothing between them. -/
  content_eq : last.contentOf output = base ++ WrittenBlock.joined standing
  /-- A standing block is fresh exactly if nothing stands before it. -/
  fresh_iff : ∀ before block after, standing = before ++ block :: after →
    (block.fresh = true ↔ base ++ WrittenBlock.joined before = ByteArray.empty)
  /-- Once a block has been written, the output is a file. -/
  reads : blocks ≠ [] → last.read output = .ok (base ++ WrittenBlock.joined standing)
  /-- Without any block the files are what they were. -/
  untouched : blocks = [] → last = first

/-- Before any run the first content stands alone. -/
theorem Accumulated.start (output : String) (first : FileTree) :
    Accumulated output first [] first (first.contentOf output) [] where
  origin := Or.inl ⟨rfl, rfl, by simp⟩
  content_eq := by simp
  fresh_iff := by
    intro before block after h
    cases before <;> cases h
  reads := fun h => absurd rfl h
  untouched := fun _ => rfl

section Steps

variable {output : String} {first last next : FileTree} {blocks standing : List WrittenBlock}
  {base : ByteArray} {block : WrittenBlock}

/-- A block that overwrites is the only one left. -/
theorem Accumulated.overwrite (hmode : block.options.append = false)
    (hfresh : block.fresh = true) (hread : next.read output = .ok block.bytes) :
    Accumulated output first (blocks ++ [block]) next ByteArray.empty [block] where
  origin := Or.inr ⟨rfl, blocks, block, [], rfl, rfl, hmode, by simp⟩
  content_eq := by
    rw [FileTree.contentOf_eq_of_read hread]
    simp
  fresh_iff := by
    intro before other after h
    cases before with
    | nil =>
        cases h
        simp [hfresh]
    | cons head rest => cases rest <;> cases h
  reads := by
    intro _
    rw [hread]
    simp
  untouched := by simp

/-- A block that appends stands behind all others. -/
theorem Accumulated.append (h : Accumulated output first blocks last base standing)
    (hmode : block.options.append = true)
    (hfresh : block.fresh = true ↔ last.contentOf output = ByteArray.empty)
    (hread : next.read output = .ok (last.contentOf output ++ block.bytes)) :
    Accumulated output first (blocks ++ [block]) next base (standing ++ [block]) where
  origin := by
    have hbehind : ∀ later : List WrittenBlock,
        (∀ other ∈ later, other.options.append = true) →
          ∀ other ∈ later ++ [block], other.options.append = true := by
      intro later hall other hother
      rcases List.mem_append.mp hother with hold | hnew
      · exact hall other hold
      · rw [List.mem_singleton.mp hnew]
        exact hmode
    rcases h.origin with
      ⟨hbase, rfl, hall⟩ | ⟨hbase, earlier, overwriting, later, rfl, rfl, hmode', hall⟩
    · exact Or.inl ⟨hbase, rfl, hbehind _ hall⟩
    · exact Or.inr ⟨hbase, earlier, overwriting, later ++ [block], by simp, by simp, hmode',
        hbehind later hall⟩
  content_eq := by
    rw [FileTree.contentOf_eq_of_read hread, h.content_eq]
    simp [ByteArray.append_assoc]
  fresh_iff := by
    intro before other after hsplit
    rcases concat_eq_append_cons hsplit with ⟨rfl, rfl, -⟩ | ⟨front, -, hstanding⟩
    · -- The new block: before it stands everything that the output held.
      rw [hfresh, h.content_eq]
    · exact h.fresh_iff before other front hstanding
  reads := by
    intro _
    rw [hread, h.content_eq]
    simp [ByteArray.append_assoc]
  untouched := by simp

/-- One more run keeps the account. -/
theorem Accumulated.step (h : Accumulated output first blocks last base standing)
    {options : ConversionOptions} (houtput : options.output = output) :
    ∃ base standing, Accumulated output first (blocks ++ (options.written? last).toList)
      (options.run last).tree base standing := by
  subst houtput
  cases houtcome : (options.run last).outcome with
  | error e =>
      rw [ConversionOptions.run_tree_eq_of_error houtcome,
        ConversionOptions.written?_eq_none_of_error houtcome]
      exact ⟨base, standing, by simpa using h⟩
  | ok summary =>
      obtain ⟨block, _, hwritten, hoptions, -, hfresh, hread⟩ :=
        ConversionOptions.exists_written?_of_ok houtcome
      rw [hwritten]
      cases hmode : options.append with
      | true =>
          simp only [hmode, Bool.true_eq_false, false_or, if_true] at hfresh hread
          exact ⟨base, standing ++ [block], h.append (hoptions ▸ hmode) hfresh hread⟩
      | false =>
          simp only [hmode, true_or, iff_true, Bool.false_eq_true, if_false,
            ByteArray.empty_append] at hfresh hread
          exact ⟨ByteArray.empty, [block], .overwrite (hoptions ▸ hmode) hfresh hread⟩

/-- Any number of runs keeps the account. -/
theorem Accumulated.runAll (h : Accumulated output first blocks last base standing)
    {runs : List ConversionOptions} (houtput : ∀ options ∈ runs, options.output = output) :
    ∃ base standing,
      Accumulated output first (blocks ++ ConversionOptions.writtenBy last runs)
        (ConversionOptions.runAll last runs) base standing := by
  -- The account is kept for any start, so that the rest of the runs can go on from here.
  induction runs generalizing blocks last base standing with
  | nil => exact ⟨base, standing, by
      simpa [ConversionOptions.writtenBy, ConversionOptions.runAll] using h⟩
  | cons options rest ih =>
      obtain ⟨base, standing, hstep⟩ := h.step (houtput options List.mem_cons_self)
      have hrest := ih hstep fun other hother => houtput other (List.mem_cons_of_mem _ hother)
      rw [List.append_assoc] at hrest
      exact hrest

/-- A standing block that opens the section stands at the start of the output. -/
theorem Accumulated.eq_nil_of_openSection
    (h : Accumulated output first blocks last base standing) {before after : List WrittenBlock}
    (hsplit : standing = before ++ block :: after)
    (hopen : Listing.openSection ∈ block.emission.lines) :
    base = ByteArray.empty ∧ before = [] := by
  have hfresh : block.fresh = true := Listing.openSection_mem_blockLines_iff.mp hopen
  have hempty := (h.fresh_iff before block after hsplit).mp hfresh
  rw [ByteArray.append_eq_empty_iff, WrittenBlock.joined_eq_empty_iff] at hempty
  exact hempty

end Steps

/-- Behind any runs to one output, whatever their modes and outcomes, the output holds
the block of the last one that overwrote it, or else the first content, and then the
blocks that were appended since; a block opens the section only at the very start.  Each
run that succeeds adds one block of its own strings, and behind the earlier bytes if it
appends; a run that fails might as well not have been made. -/
theorem runAll_accumulates (output : String) (tree : FileTree)
    (requested : List ConversionOptions) :
    let runs := requested.map (·.writingTo output)
    (∃ base standing,
      Accumulated output tree (ConversionOptions.writtenBy tree runs)
          (ConversionOptions.runAll tree runs) base standing ∧
        ∀ before block after, standing = before ++ block :: after →
          Listing.openSection ∈ block.emission.lines →
            base = ByteArray.empty ∧ before = []) ∧
    ∀ before options after, runs = before ++ options :: after →
      let reached := ConversionOptions.runAll tree before
      let blocks := ConversionOptions.writtenBy tree before
      match (options.run reached).outcome with
      | .error _ =>
          (options.run reached).tree = reached ∧
            ConversionOptions.runAll tree runs = ConversionOptions.runAll tree (before ++ after) ∧
            ConversionOptions.writtenBy tree runs =
              ConversionOptions.writtenBy tree (before ++ after)
      | .ok _ =>
          ∃ block input, options.HasStrings reached input block.strings ∧
            block.options = options ∧
            ConversionOptions.writtenBy tree runs =
              blocks ++ block ::
                ConversionOptions.writtenBy (options.run reached).tree after ∧
            (options.append = true →
              (options.run reached).tree.contentOf output =
                reached.contentOf output ++ block.bytes) := by
  intro runs
  have houtput : ∀ options ∈ runs, options.output = output := by
    intro options hoptions
    obtain ⟨request, -, rfl⟩ := List.mem_map.mp hoptions
    rfl
  constructor
  · obtain ⟨base, standing, h⟩ := (Accumulated.start output tree).runAll houtput
    refine ⟨base, standing, h, ?_⟩
    intro before block after hsplit hopen
    exact h.eq_nil_of_openSection hsplit hopen
  · intro before options after hruns reached blocks
    have hmem : options ∈ runs := by
      rw [hruns]
      simp
    cases houtcome : (options.run reached).outcome with
    | error e =>
        obtain ⟨hall, hwritten⟩ := ConversionOptions.runAll_eq_of_error houtcome
        rw [hruns]
        exact ⟨ConversionOptions.run_tree_eq_of_error houtcome, hall, hwritten⟩
    | ok summary =>
        obtain ⟨block, input, hwritten, hoptions, hstrings, -, hread⟩ :=
          ConversionOptions.exists_written?_of_ok houtcome
        refine ⟨block, input, hstrings, hoptions, ?_, ?_⟩
        · rw [hruns, ConversionOptions.writtenBy_append_cons, hwritten]
          rfl
        · intro happend
          rw [if_pos happend, houtput options hmem] at hread
          exact FileTree.contentOf_eq_of_read hread

end StringAssembler
