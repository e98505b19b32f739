import StringAssembler.Proofs.Conversion.Definitions
import StringAssembler.Proofs.Listing.Names

/-!
# Blocks read back

Behind its header a block has an entry for each string and a reference table with a group
for each.  What an entry, the front of the table and a group look like is stated here line by
line (`IsEntry`, `tableFront`, `IsReference`), with the bytes of an entry read off its
literals.

Symbols may look like directives, labels or comments, but an entry ends where an empty line
follows, and behind that line stands either the next directive or the heading of the table,
which is a comment.  So the text of a block determines its strings
(`block_determines_strings`).  A group always has four lines, so the table can be read in one
way only (`flatten_references_inj`).

Symbols with a newline are left out, and nothing is said here about what an assembler makes
of the text.  A newline in the name of the input or of the array breaks lines of the front,
so the lines behind the header are given for other names only.
-/

namespace StringAssembler
namespace Listing

/-! ## Lines of a text -/

/-- What stands between the newlines of a text. -/
def cutLines (text : String) : List String :=
  (Text.pieces '\n' text.toList).map String.ofList

theorem cutLines_text_append {lines : List String} (h : ∀ line ∈ lines, OneLine line)
    (more : String) : cutLines (text lines ++ more) = lines ++ cutLines more := by
  rw [cutLines, String.toList_append, pieces_text_append h, List.map_append, List.map_map]
  simp [cutLines, Function.comp_def]

theorem cutLines_text {lines : List String} (h : ∀ line ∈ lines, OneLine line) :
    cutLines (text lines) = lines ++ [""] := by
  have hcut := cutLines_text_append h ""
  rw [String.append_empty] at hcut
  exact hcut

/-- The first line starts like the text. -/
theorem exists_cutLines_cons {text : String} {c : Char} (hhead : text.toList.head? = some c)
    (hc : c ≠ '\n') :
    ∃ line more, cutLines text = line :: more ∧ line.toList.head? = some c := by
  obtain ⟨chars, htext⟩ := List.head?_eq_some_iff.mp hhead
  obtain ⟨piece, more, hpieces⟩ := Text.exists_pieces_cons hc chars
  refine ⟨String.ofList (c :: piece), more.map String.ofList, ?_, ?_⟩
  · rw [cutLines, htext, hpieces, List.map_cons]
  · rw [String.toList_ofList, List.head?_cons]

/-! ## Entries and references -/

/-- The lines of an entry: behind an empty line the symbol is made global and labelled.  A
data line follows exactly if there are bytes, and these are what the literals between its
commas stand for. -/
inductive IsEntry (encoded : EncodedString) : List String → Prop
  | label (h : encoded.bytes = []) :
      IsEntry encoded ["", ".global " ++ encoded.symbol, encoded.symbol ++ ":"]
  | data {literals : String} (h : encoded.bytes ≠ [])
      (hread : ((Text.pieces ',' literals.toList).map String.ofList).mapM HexByte.parse? =
        some encoded.bytes) :
      IsEntry encoded
        ["", ".global " ++ encoded.symbol, encoded.symbol ++ ":", ".byte " ++ literals]

/-- The lines of a reference table in front of its groups: a heading in a comment, the
alignment and the global label of the array. -/
def tableFront (input stem : String) : List String :=
  ["", "@@@@ reference table for \"" ++ input ++ "\" @@@@", "", ".align 2", "",
    ".global " ++ stem ++ "_array", stem ++ "_array:", ""]

/-- The lines of a reference to a symbol: a word under a global label of its own. -/
inductive IsReference (symbol : String) : List String → Prop
  | word : IsReference symbol
      [".global " ++ symbol ++ "_ref", symbol ++ "_ref:", ".word " ++ symbol, ""]

/-- A reference is to one symbol only. -/
theorem IsReference.unique {symbol other : String} {lines : List String}
    (h : IsReference symbol lines) (h' : IsReference other lines) : symbol = other := by
  obtain ⟨⟩ := h
  generalize hlines : [".global " ++ symbol ++ "_ref", symbol ++ "_ref:", ".word " ++ symbol, ""] =
    lines at h'
  obtain ⟨⟩ := h'
  simp only [List.cons.injEq] at hlines
  exact (String.append_right_inj ".word ").mp hlines.2.2.1

theorem IsReference.length_eq {symbol : String} {lines : List String}
    (h : IsReference symbol lines) : lines.length = 4 := by
  obtain ⟨⟩ := h
  rfl

/-- Lines are cut into references in one way only. -/
theorem flatten_references_inj {symbols others : List String} {groups more : List (List String)}
    (h : List.Forall₂ IsReference symbols groups) (h' : List.Forall₂ IsReference others more)
    (heq : more.flatten = groups.flatten) : others = symbols ∧ more = groups := by
  induction h generalizing others more with
  | nil =>
      cases h' with
      | nil => exact ⟨rfl, rfl⟩
      | cons hother _ =>
          have hlength := congrArg List.length heq
          simp [hother.length_eq] at hlength
  | cons hsymbol _ ih =>
      cases h' with
      | nil =>
          have hlength := congrArg List.length heq.symm
          simp [hsymbol.length_eq] at hlength
      | cons hother hothers =>
          rw [List.flatten_cons, List.flatten_cons] at heq
          obtain ⟨rfl, hrest⟩ :=
            List.append_inj heq (hother.length_eq.trans hsymbol.length_eq.symm)
          obtain ⟨rfl, rfl⟩ := ih hothers hrest
          exact ⟨by rw [hother.unique hsymbol], rfl⟩

theorem isEntry_stringLines (encoded : EncodedString) : IsEntry encoded (stringLines encoded) := by
  rw [stringLines]
  by_cases hbytes : encoded.bytes = []
  · rw [if_pos hbytes]
    exact .label hbytes
  · rw [if_neg hbytes]
    refine .data hbytes ?_
    rw [pieces_formatList hbytes, List.map_map]
    simpa [Function.comp_def] using Text.mapM_map_eq_some HexByte.parse?_format encoded.bytes

theorem isReference_referenceLines (encoded : EncodedString) :
    IsReference encoded.symbol (referenceLines encoded) :=
  .word

/-! ## Telling entries apart -/

/-- An entry is told from what follows it, as long as that starts with an empty line. -/
theorem IsEntry.append_inj {first second : EncodedString} {lines others rest rest' : List String}
    (h : IsEntry first lines) (h' : IsEntry second others) (hrest : rest.head? = some "")
    (hrest' : rest'.head? = some "") (heq : others ++ rest' = lines ++ rest) :
    second = first ∧ others = lines ∧ rest' = rest := by
  have hempty : ∀ literals, ".byte " ++ literals ≠ "" := by
    intro literals hline
    simpa using congrArg String.toList hline
  obtain ⟨symbol, bytes⟩ := first
  obtain ⟨symbol', bytes'⟩ := second
  -- Both symbols are made global first, so they are the same; what is left is whether a data
  -- line follows.
  cases h with
  | label hbytes =>
      cases h' with
      | label hbytes' =>
          simp only [List.cons_append, List.nil_append, List.cons.injEq, true_and] at heq
          obtain ⟨hglobal, -, hmore⟩ := heq
          obtain rfl := (String.append_right_inj ".global ").mp hglobal
          cases hbytes
          cases hbytes'
          exact ⟨rfl, rfl, hmore⟩
      | data =>
          simp only [List.cons_append, List.nil_append, List.cons.injEq, true_and] at heq
          rw [← heq.2.2] at hrest
          exact absurd (Option.some.inj hrest) (hempty _)
  | data hbytes hread =>
      cases h' with
      | label =>
          simp only [List.cons_append, List.nil_append, List.cons.injEq, true_and] at heq
          rw [heq.2.2] at hrest'
          exact absurd (Option.some.inj hrest') (hempty _)
      | data hbytes' hread' =>
          simp only [List.cons_append, List.nil_append, List.cons.injEq, true_and] at heq
          obtain ⟨hglobal, -, hdata, hmore⟩ := heq
          obtain rfl := (String.append_right_inj ".global ").mp hglobal
          obtain rfl := (String.append_right_inj ".byte ").mp hdata
          cases hread.symm.trans hread'
          exact ⟨rfl, rfl, hmore⟩

/-- Lines that start like a reference table: an empty line and a comment. -/
def StartsTable (lines : List String) : Prop :=
  ∃ heading more, lines = "" :: heading :: more ∧ heading.toList.head? = some Banner.border

/-- Entries and the table behind them start with an empty line. -/
theorem StartsTable.head?_entries {rest : List String} (hrest : StartsTable rest)
    {strings : List EncodedString} {entries : List (List String)}
    (h : List.Forall₂ IsEntry strings entries) : (entries.flatten ++ rest).head? = some "" := by
  cases h with
  | nil =>
      obtain ⟨heading, more, rfl, -⟩ := hrest
      rfl
  | cons hfirst _ => cases hfirst <;> rfl

/-- No entry starts like a reference table. -/
theorem StartsTable.ne_entry_append {rest : List String} (hrest : StartsTable rest)
    {encoded : EncodedString} {entry : List String} (h : IsEntry encoded entry)
    (more : List String) : rest ≠ entry ++ more := by
  obtain ⟨heading, behind, rfl, hborder⟩ := hrest
  have hglobal : heading ≠ ".global " ++ encoded.symbol := by
    rintro rfl
    revert hborder
    simp [Banner.border]
  intro hline
  cases h with
  | label => exact hglobal (List.cons.inj (List.cons.inj hline).2).1
  | data => exact hglobal (List.cons.inj (List.cons.inj hline).2).1

/-- Entries are told apart up to the table behind them. -/
theorem entries_append_inj {strings others : List EncodedString}
    {entries more : List (List String)} {rest rest' : List String} (hrest : StartsTable rest)
    (hrest' : StartsTable rest') (h : List.Forall₂ IsEntry strings entries)
    (h' : List.Forall₂ IsEntry others more)
    (heq : more.flatten ++ rest' = entries.flatten ++ rest) :
    others = strings ∧ more = entries ∧ rest' = rest := by
  induction h generalizing others more with
  | nil =>
      cases h' with
      | nil => exact ⟨rfl, rfl, heq⟩
      | cons hother _ =>
          rw [List.flatten_cons, List.append_assoc] at heq
          exact absurd heq.symm (hrest.ne_entry_append hother _)
  | cons hfirst hmore ih =>
      cases h' with
      | nil =>
          rw [List.flatten_cons, List.append_assoc] at heq
          exact absurd heq (hrest'.ne_entry_append hfirst _)
      | cons hother hothers =>
          rw [List.flatten_cons, List.flatten_cons, List.append_assoc, List.append_assoc] at heq
          obtain ⟨rfl, rfl, hbehind⟩ := hfirst.append_inj hother (hrest.head?_entries hmore)
            (hrest'.head?_entries hothers) heq
          obtain ⟨rfl, rfl, htable⟩ := ih hothers hbehind
          exact ⟨rfl, rfl, htable⟩

/-! ## The parts of a block -/

theorem forall₂_isEntry (strings : List EncodedString) :
    List.Forall₂ IsEntry strings (strings.map stringLines) := by
  rw [List.forall₂_map_right_iff, List.forall₂_same]
  exact fun encoded _ => isEntry_stringLines encoded

theorem forall₂_isReference (strings : List EncodedString) :
    List.Forall₂ (fun encoded => IsReference encoded.symbol) strings
      (strings.map referenceLines) := by
  rw [List.forall₂_map_right_iff, List.forall₂_same]
  exact fun encoded _ => isReference_referenceLines encoded

/-- The text of a block is that of its header, its entries, the front of the reference table
and one group for each string. -/
theorem text_block (banner : Banner) (fresh : Bool) (input stem : String)
    (strings : List EncodedString) :
    (Emission.block banner fresh input stem strings).text =
      (Emission.header banner fresh).text ++ (text (strings.map stringLines).flatten ++
        (text (tableFront input stem) ++ text (strings.map referenceLines).flatten)) := by
  show text (headerLines banner fresh ++ strings.flatMap stringLines ++
    (tableFront input stem ++ strings.flatMap referenceLines)) = _
  rw [text_append, text_append, text_append, String.append_assoc]
  rfl

/-- Whatever the names in it, a reference table starts like one. -/
theorem startsTable_cutLines (input stem more : String) :
    StartsTable (cutLines (text (tableFront input stem) ++ more)) := by
  obtain ⟨heading, behind, hlines, hborder⟩ : ∃ heading behind,
      tableFront input stem = [""] ++ heading :: behind ∧
        (text (heading :: behind) ++ more).toList.head? = some Banner.border :=
    ⟨_, _, rfl, by simp [toList_text, Banner.border]⟩
  have hempty : ∀ line ∈ [""], OneLine line := by decide
  -- The heading goes on up to the first newline, which may be one of the input's name.
  obtain ⟨line, others, hcut, hline⟩ := exists_cutLines_cons hborder (by decide)
  refine ⟨line, others, ?_, hline⟩
  rw [hlines, text_append, String.append_assoc, cutLines_text_append hempty, hcut]
  rfl

theorem startsTable_tableFront (input stem : String) (more : List String) :
    StartsTable (tableFront input stem ++ more) :=
  ⟨_, _, rfl, by simp [Banner.border]⟩

theorem oneLine_entries {strings : List EncodedString}
    (h : ∀ encoded ∈ strings, OneLine encoded.symbol) :
    ∀ line ∈ (strings.map stringLines).flatten, OneLine line := by
  intro line hline
  obtain ⟨encoded, hmem, hencoded⟩ := List.mem_flatMap.mp hline
  exact oneLine_stringLines (h encoded hmem) line hencoded

theorem oneLine_references {strings : List EncodedString}
    (h : ∀ encoded ∈ strings, OneLine encoded.symbol) :
    ∀ line ∈ (strings.map referenceLines).flatten, OneLine line := by
  intro line hline
  obtain ⟨encoded, hmem, hencoded⟩ := List.mem_flatMap.mp hline
  exact oneLine_referenceLines (h encoded hmem) line hencoded

/-- The front of a reference table is that of a table without strings. -/
theorem oneLine_tableFront {input stem : String} (hinput : OneLine input)
    (hstem : OneLine stem) : ∀ line ∈ tableFront input stem, OneLine line := by
  intro line hline
  have hstrings : ∀ encoded ∈ ([] : List EncodedString), OneLine encoded.symbol := by simp
  exact oneLine_referenceTableLines hinput hstem hstrings line (List.mem_append_left _ hline)

/-- Strings with the same block are the same. -/
theorem eq_of_text_block_eq {banner : Banner} {fresh : Bool} {input stem : String}
    {strings others : List EncodedString} (h : ∀ encoded ∈ strings, OneLine encoded.symbol)
    (h' : ∀ encoded ∈ others, OneLine encoded.symbol)
    (heq : (Emission.block banner fresh input stem others).text =
      (Emission.block banner fresh input stem strings).text) : others = strings := by
  rw [text_block, text_block] at heq
  have hcut := congrArg cutLines ((String.append_right_inj _).mp heq)
  rw [cutLines_text_append (oneLine_entries h'), cutLines_text_append (oneLine_entries h)] at hcut
  exact (entries_append_inj (startsTable_cutLines input stem _) (startsTable_cutLines input stem _)
    (forall₂_isEntry strings) (forall₂_isEntry others) hcut).1

/-- Behind the header of a block stand its lines, if the names are on one line. -/
theorem cutLines_body {input stem : String} {entries groups : List (List String)}
    (hinput : OneLine input) (hstem : OneLine stem)
    (hentries : ∀ line ∈ entries.flatten, OneLine line)
    (hgroups : ∀ line ∈ groups.flatten, OneLine line) :
    cutLines (text entries.flatten ++ (text (tableFront input stem) ++ text groups.flatten)) =
      entries.flatten ++ (tableFront input stem ++ (groups.flatten ++ [""])) := by
  rw [cutLines_text_append hentries, cutLines_text_append (oneLine_tableFront hinput hstem),
    cutLines_text hgroups]

/-- The lines behind a header can be read in one way only. -/
theorem body_inj {input stem : String} {strings others : List EncodedString}
    {symbols symbols' : List String} {entries more groups table : List (List String)}
    (hentries : List.Forall₂ IsEntry strings entries)
    (hgroups : List.Forall₂ IsReference symbols groups)
    (hmore : List.Forall₂ IsEntry others more) (htable : List.Forall₂ IsReference symbols' table)
    (heq : more.flatten ++ (tableFront input stem ++ (table.flatten ++ [""])) =
      entries.flatten ++ (tableFront input stem ++ (groups.flatten ++ [""]))) :
    others = strings ∧ symbols' = symbols := by
  obtain ⟨rfl, -, hbehind⟩ := entries_append_inj (startsTable_tableFront input stem _)
    (startsTable_tableFront input stem _) hentries hmore heq
  have hflat := List.append_cancel_right (List.append_cancel_left hbehind)
  exact ⟨rfl, (flatten_references_inj hgroups htable hflat).1⟩

end Listing

/-- The text of a block determines its strings, if no symbol has a newline.  Behind the
header it has the lines of one entry for each string, then the front of the reference table
and one group for each string, both in the order of the strings, so that every word names a
symbol with an entry.  If the input and the array have names on one line, these are the lines
behind the header, and they can be read as entries, a front and groups in no other way.  The
symbols of encoded definitions never have a newline. -/
theorem block_determines_strings (banner : Banner) (fresh : Bool) (input stem : String) :
    (∀ strings : List EncodedString, (∀ encoded ∈ strings, OneLine encoded.symbol) →
      (∃ entries groups : List (List String),
        let body := Listing.text entries.flatten ++
          (Listing.text (Listing.tableFront input stem) ++ Listing.text groups.flatten)
        (Emission.block banner fresh input stem strings).text =
          (Emission.header banner fresh).text ++ body ∧
        Listing.cutLines (Listing.text entries.flatten) = entries.flatten ++ [""] ∧
        Listing.cutLines (Listing.text groups.flatten) = groups.flatten ++ [""] ∧
        List.Forall₂ Listing.IsEntry strings entries ∧
        List.Forall₂ (fun encoded => Listing.IsReference encoded.symbol) strings groups ∧
        (∀ group ∈ groups, ∀ symbol, Listing.IsReference symbol group →
          ∃ entry ∈ entries, ∃ bytes, Listing.IsEntry ⟨symbol, bytes⟩ entry) ∧
        (OneLine input → OneLine stem →
          Listing.cutLines body =
            entries.flatten ++ (Listing.tableFront input stem ++ (groups.flatten ++ [""])) ∧
          ∀ (others : List EncodedString) (symbols : List String) (more table : List (List String)),
            List.Forall₂ Listing.IsEntry others more →
            List.Forall₂ Listing.IsReference symbols table →
            Listing.cutLines body =
              more.flatten ++ (Listing.tableFront input stem ++ (table.flatten ++ [""])) →
            others = strings ∧ symbols = strings.map EncodedString.symbol)) ∧
      ∀ others : List EncodedString, (∀ encoded ∈ others, OneLine encoded.symbol) →
        (Emission.block banner fresh input stem others).text =
          (Emission.block banner fresh input stem strings).text → others = strings) ∧
    ∀ (encoder : Encoder) (source text : String) (strings : List EncodedString),
      (encoder.encodeDefinitions source text).outcome = .ok strings →
        ∀ encoded ∈ strings, OneLine encoded.symbol := by
  refine ⟨fun strings hsymbols => ⟨?_, fun others hothers => ?_⟩, ?_⟩
  · have hentries := Listing.oneLine_entries hsymbols
    have hgroups := Listing.oneLine_references hsymbols
    refine ⟨strings.map Listing.stringLines, strings.map Listing.referenceLines,
      Listing.text_block banner fresh input stem strings, Listing.cutLines_text hentries,
      Listing.cutLines_text hgroups, Listing.forall₂_isEntry strings,
      Listing.forall₂_isReference strings, ?_, ?_⟩
    · intro group hgroup symbol hsymbol
      obtain ⟨encoded, hmem, rfl⟩ := List.mem_map.mp hgroup
      obtain rfl := hsymbol.unique (Listing.isReference_referenceLines encoded)
      exact ⟨Listing.stringLines encoded, List.mem_map_of_mem hmem, encoded.bytes,
        Listing.isEntry_stringLines encoded⟩
    · intro hinput hstem
      have hcut := Listing.cutLines_body hinput hstem hentries hgroups
      refine ⟨hcut, fun others symbols more table hmore htable hread => ?_⟩
      have hreferences : List.Forall₂ Listing.IsReference (strings.map EncodedString.symbol)
          (strings.map Listing.referenceLines) :=
        List.forall₂_map_left_iff.mpr (Listing.forall₂_isReference strings)
      exact Listing.body_inj (Listing.forall₂_isEntry strings) hreferences hmore htable
        (hread.symm.trans hcut)
  · exact Listing.eq_of_text_block_eq hsymbols hothers
  · intro encoder source text strings houtcome
    exact Encoder.newline_notMem_symbol houtcome

/-- Two definitions with symbols that look like a word and a label, the second one without
bytes; no other strings have their block, and the lines behind its header refer to these two
symbols. -/
theorem block_determines_strings_odd_symbols :
    let encoder : Encoder :=
      { table := ((TableCompiler.start "t").addLines ["A=1"]).2.finish }
    let strings : List EncodedString := [⟨".word q", [1, 1]⟩, ⟨"@q:", []⟩]
    let banner := Banner.forConversion "i" "t"
    (encoder.encodeDefinitions "i" ".word q=AA\n@q:=\n").outcome = .ok strings ∧
      (∀ others : List EncodedString, (∀ encoded ∈ others, OneLine encoded.symbol) →
        (Emission.block banner true "i" "i" others).text =
          (Emission.block banner true "i" "i" strings).text →
        others = strings) ∧
      OneLine "i" ∧
      ∃ body, (Emission.block banner true "i" "i" strings).text =
          (Emission.header banner true).text ++ body ∧
        ∀ (others : List EncodedString) (symbols : List String) (more table : List (List String)),
          List.Forall₂ Listing.IsEntry others more →
          List.Forall₂ Listing.IsReference symbols table →
          Listing.cutLines body =
            more.flatten ++ (Listing.tableFront "i" "i" ++ (table.flatten ++ [""])) →
          others = strings ∧ symbols = [".word q", "@q:"] := by
  intro encoder strings banner
  have hencode : (encoder.encodeDefinitions "i" ".word q=AA\n@q:=\n").outcome = .ok strings := by
    decide +kernel
  have hname : OneLine "i" := by decide
  obtain ⟨hblock, hsymbols⟩ := block_determines_strings banner true "i" "i"
  obtain ⟨⟨entries, groups, htext, -, -, -, -, -, hlines⟩, hunique⟩ :=
    hblock strings (hsymbols encoder _ _ strings hencode)
  exact ⟨hencode, hunique, hname, _, htext, (hlines hname hname).2⟩

end StringAssembler
