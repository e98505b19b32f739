import Mathlib.Data.List.Chain
import StringAssembler.Proofs.Listing.ReadBack

/-!
# Names in comments

A banner and the heading of a reference table are comments with the names of files in them,
inserted as they are.  Behind a newline of a name a new line of the listing starts, which is
a comment only if the name itself has a comment character there.  So the names stay in the
comments exactly if every newline of theirs has another newline or a comment character right
behind it (`Guarded`, `names_stay_in_comments_iff`).  Names without a newline do so
(`Guarded.of_oneLine`); others need not, and can bring any line into the listing
(`name_leaves_comments`).

Lines are here what stands between newlines.  Nothing is said about the other lines of a
block, which show the symbols and the stem of the input.
-/

namespace StringAssembler
namespace Listing

/-- A line that an assembler passes over: it is empty or a comment. -/
def Inert (line : String) : Prop :=
  line = "" ∨ line.toList.head? = some Banner.border

/-- A character at the front of which text starts with an inert line. -/
def StartsInert (c : Char) : Prop :=
  c = Banner.border ∨ c = '\n'

instance (line : String) : Decidable (Inert line) :=
  inferInstanceAs (Decidable (_ ∨ _))

instance : DecidablePred StartsInert := fun _ =>
  inferInstanceAs (Decidable (_ ∨ _))

/-- What may follow on a character so that no line but an inert one starts between them. -/
def KeepsInert (c next : Char) : Prop :=
  c = '\n' → StartsInert next

theorem inert_empty : Inert "" :=
  Or.inl rfl

theorem inert_ofList_cons_iff {c : Char} {line : List Char} :
    Inert (String.ofList (c :: line)) ↔ c = Banner.border := by
  rw [Inert, String.toList_ofList, List.head?_cons, Option.some.injEq]
  refine or_iff_right fun hempty => ?_
  simpa using congrArg String.toList hempty

/-! ## Lines of a text -/

/-- The first line of a text is settled by its first character, the others by the characters
behind its newlines. -/
theorem exists_pieces_inert (text : List Char) :
    ∃ first more, Text.pieces '\n' text = first :: more ∧
      (Inert (String.ofList first) ↔ ∀ c ∈ text.head?, StartsInert c) ∧
      ((∀ piece ∈ more, Inert (String.ofList piece)) ↔ text.IsChain KeepsInert) := by
  induction text with
  | nil => exact ⟨[], [], rfl, by simp [inert_empty], by simp⟩
  | cons c rest ih =>
      obtain ⟨first, more, hpieces, hfirst, hmore⟩ := ih
      rw [Text.pieces_eq_splitOn] at hpieces ⊢
      rw [List.splitOn_cons_eq_if_modifyHead, hpieces, List.isChain_cons, List.head?_cons]
      by_cases hc : c = '\n'
      · -- The first line of the rest becomes one of the lines behind a newline.
        refine ⟨[], first :: more, by simp [hc], by simp [inert_empty, StartsInert, hc], ?_⟩
        rw [List.forall_mem_cons, hfirst, hmore]
        simp [KeepsInert, hc]
      · refine ⟨c :: first, more, by simp [hc], ?_, by simp [hmore, KeepsInert, hc]⟩
        rw [inert_ofList_cons_iff]
        simp [StartsInert, hc]

/-- All lines of a text are inert if it starts with an inert line and every newline keeps
inert what follows on it. -/
theorem forall_inert_cutLines_iff (text : String) :
    (∀ line ∈ cutLines text, Inert line) ↔
      (∀ c ∈ text.toList.head?, StartsInert c) ∧ text.toList.IsChain KeepsInert := by
  obtain ⟨first, more, hpieces, hfirst, hmore⟩ := exists_pieces_inert text.toList
  rw [cutLines, hpieces, List.forall_mem_map, List.forall_mem_cons, hfirst, hmore]

/-- The lines that a text has when some of the lines put into it hold newlines. -/
theorem cutLines_text_eq_flatMap (lines : List String) :
    cutLines (text lines) = lines.flatMap cutLines ++ [""] := by
  induction lines with
  | nil => rfl
  | cons line rest ih =>
      have hfront : (text (line :: rest)).toList = line.toList ++ '\n' :: (text rest).toList := by
        simp [toList_text]
      rw [cutLines, Text.pieces_eq_splitOn] at ih ⊢
      rw [hfront, List.splitOn_append_cons_self, List.map_append, ih, List.flatMap_cons,
        List.append_assoc, cutLines, Text.pieces_eq_splitOn]

theorem mem_cutLines_text {lines : List String} {line cut : String} (hline : line ∈ lines)
    (hcut : cut ∈ cutLines line) : cut ∈ cutLines (text lines) := by
  rw [cutLines_text_eq_flatMap]
  exact List.mem_append_left _ (List.mem_flatMap.mpr ⟨line, hline, hcut⟩)

theorem forall_inert_text_iff (lines : List String) :
    (∀ line ∈ cutLines (text lines), Inert line) ↔
      ∀ line ∈ lines, ∀ cut ∈ cutLines line, Inert cut := by
  rw [cutLines_text_eq_flatMap, List.forall_mem_append, List.forall_mem_singleton,
    List.forall_mem_flatMap]
  exact and_iff_left inert_empty

/-! ## Names -/

/-- A name whose newlines all have another newline or a comment character right behind them,
in the name itself. -/
structure Guarded (name : String) : Prop where
  newlines : name.toList.IsChain KeepsInert
  last : name.toList.getLast? ≠ some '\n'

/-- Behind characters that are no newlines all goes on as before. -/
theorem isChain_keepsInert_append {front : List Char} (h : '\n' ∉ front) (rest : List Char) :
    (front ++ rest).IsChain KeepsInert ↔ rest.IsChain KeepsInert := by
  induction front with
  | nil => rfl
  | cons c more ih =>
      rw [List.mem_cons, not_or] at h
      rw [List.cons_append, List.isChain_cons, ih h.2]
      exact and_iff_right fun _ _ hc => absurd hc.symm h.1

theorem isChain_keepsInert {text : List Char} (h : '\n' ∉ text) : text.IsChain KeepsInert := by
  rw [← List.append_nil text, isChain_keepsInert_append h]
  exact .nil

/-- A name without a newline is guarded. -/
theorem Guarded.of_oneLine {name : String} (h : OneLine name) : Guarded name :=
  ⟨isChain_keepsInert h, fun hlast => h (List.mem_of_getLast? hlast)⟩

/-- A quotation mark behind a name goes on with the line that the last newline of the name
has started, and is no comment character. -/
theorem isChain_quoted_iff {name : String} {behind : List Char} (h : '\n' ∉ '"' :: behind) :
    (name.toList ++ '"' :: behind).IsChain KeepsInert ↔ Guarded name := by
  have hquote : ¬StartsInert '"' := by decide
  rw [List.isChain_append]
  constructor
  · rintro ⟨hname, -, hjoin⟩
    exact ⟨hname, fun hlast => hquote (hjoin '\n' hlast '"' rfl rfl)⟩
  · intro hguarded
    refine ⟨hguarded.newlines, isChain_keepsInert h, ?_⟩
    rintro c hlast - - rfl
    exact absurd hlast hguarded.last

/-- A comment that shows a name between other text is inert on all its lines exactly if the
name is guarded. -/
theorem forall_inert_comment_iff {front name behind : String}
    (hborder : front.toList.head? = some Banner.border) (hfront : OneLine front)
    (hquote : behind.toList.head? = some '"') (hbehind : OneLine behind) :
    (∀ line ∈ cutLines (front ++ name ++ behind), Inert line) ↔ Guarded name := by
  obtain ⟨opening, hopening⟩ := List.head?_eq_some_iff.mp hborder
  obtain ⟨closing, hclosing⟩ := List.head?_eq_some_iff.mp hquote
  have hstart : ∀ c ∈ (front ++ name ++ behind).toList.head?, StartsInert c := by
    rw [String.toList_append, String.toList_append, hopening]
    rintro c ⟨⟩
    exact Or.inl rfl
  rw [OneLine, hclosing] at hbehind
  rw [forall_inert_cutLines_iff, and_iff_right hstart, String.append_assoc, String.toList_append,
    String.toList_append, isChain_keepsInert_append hfront, hclosing, isChain_quoted_iff hbehind]

/-- A line without a newline that starts as a comment is one. -/
theorem forall_inert_of_oneLine {line : String} (hborder : line.toList.head? = some Banner.border)
    (h : OneLine line) : ∀ cut ∈ cutLines line, Inert cut := by
  rw [forall_inert_cutLines_iff, hborder]
  exact ⟨fun c hc => Or.inl (Option.some.inj hc).symm, isChain_keepsInert h⟩

/-! ## The comments of a conversion -/

/-- The heading of a reference table. -/
def referenceHeading (input : String) : String :=
  "@@@@ reference table for \"" ++ input ++ "\" @@@@"

theorem inert_referenceHeading_iff (input : String) :
    (∀ line ∈ cutLines (referenceHeading input), Inert line) ↔ Guarded input :=
  forall_inert_comment_iff (by decide) (by decide) (by decide) (by decide)

end Listing

namespace Banner

open Listing

/-- A line in its row has blanks and a border on either side. -/
theorem exists_framedRow_eq (width : Nat) (line : String) :
    ∃ left right, framedRow width line =
      String.singleton border ++ filled ' ' left ++ line ++
        (filled ' ' right ++ String.singleton border) :=
  ⟨_, _, String.append_assoc ..⟩

theorem inert_fullRow {width : Nat} : ∀ cut ∈ cutLines (fullRow width), Inert cut := by
  cases width with
  | zero => decide
  | succ more =>
      refine forall_inert_of_oneLine ?_ (OneLine.filled (by decide) _)
      rw [fullRow, filled, String.toList_ofList, List.replicate_succ, List.head?_cons]

theorem inert_framedRow_of_oneLine {width : Nat} {line : String} (h : OneLine line) :
    ∀ cut ∈ cutLines (framedRow width line), Inert cut := by
  refine forall_inert_of_oneLine ?_ (h.framedRow width)
  simp [framedRow]

/-- A row that shows a name in quotation marks is inert exactly if the name is guarded. -/
theorem inert_framedRow_iff {before name : String} (hbefore : OneLine before) {width : Nat} :
    (∀ cut ∈ cutLines (framedRow width (before ++ name ++ "\"")), Inert cut) ↔ Guarded name := by
  have hblank : ∀ n, OneLine (filled ' ' n) := OneLine.filled (by decide)
  have hborder : OneLine (String.singleton border) := by decide
  have hquote : OneLine "\"" := by decide
  obtain ⟨left, right, hrow⟩ := exists_framedRow_eq width (before ++ name ++ "\"")
  have hshown : framedRow width (before ++ name ++ "\"") =
      (String.singleton border ++ filled ' ' left ++ before) ++ name ++
        ("\"" ++ (filled ' ' right ++ String.singleton border)) := by
    rw [hrow]
    simp only [String.append_assoc]
  rw [hshown]
  exact forall_inert_comment_iff (by simp) ((hborder.append (hblank left)).append hbefore)
    (by simp) (hquote.append ((hblank right).append hborder))

theorem inert_text_forConversion_iff (input table : String) :
    (∀ line ∈ cutLines (forConversion input table).text, Inert line) ↔
      Guarded input ∧ Guarded table := by
  have hinput : OneLine "result of file \"" := by decide
  have htable : OneLine "using table \"" := by decide
  have htool : OneLine "converted using tblasm" := by decide
  have hnone : OneLine "" := by decide
  have hend : ∀ cut ∈ cutLines "", Inert cut := by decide
  rw [text, forall_inert_text_iff, bannerLines, rows]
  generalize (forConversion input table).width = width
  simp only [forConversion, List.map_cons, List.map_nil, List.forall_mem_append,
    List.forall_mem_cons, List.not_mem_nil, false_implies, implies_true, and_true,
    inert_framedRow_iff hinput, inert_framedRow_iff htable]
  constructor
  · rintro ⟨⟨⟨-, hnames⟩, -⟩, -⟩
    exact ⟨hnames.1, hnames.2.1⟩
  · rintro ⟨hguarded, hguarded'⟩
    exact ⟨⟨⟨⟨inert_fullRow, inert_framedRow_of_oneLine hnone⟩, hguarded, hguarded',
      inert_framedRow_of_oneLine htool⟩, inert_framedRow_of_oneLine hnone, inert_fullRow⟩, hend⟩

end Banner

/-- The names in the banner of a conversion and in the heading of its reference table stay in
the comments exactly if they are guarded: if every newline of theirs has another newline or
a comment character right behind it. -/
theorem names_stay_in_comments_iff (input table : String) :
    ((∀ line ∈ Listing.cutLines (Banner.forConversion input table).text, Listing.Inert line) ↔
      Listing.Guarded input ∧ Listing.Guarded table) ∧
    ∀ stem strings, ∃ heading more,
      Listing.referenceTableLines input stem strings = "" :: heading :: more ∧
        ((∀ line ∈ Listing.cutLines heading, Listing.Inert line) ↔ Listing.Guarded input) :=
  ⟨Banner.inert_text_forConversion_iff input table, fun _ _ =>
    ⟨Listing.referenceHeading input, _, rfl, Listing.inert_referenceHeading_iff input⟩⟩

/-- A file whose name has three lines, the second one a directive: an assembler reads it in
the banner and once more at the heading. -/
theorem name_leaves_comments :
    let input := "m\n.byte 7\n@.txt"
    ".byte 7" ∈ Listing.cutLines (Banner.forConversion input "t").text ∧
      ".byte 7" ∈ Listing.cutLines (Listing.referenceHeading input) ∧
      (Listing.referenceTableLines input "m" [])[1]? = some (Listing.referenceHeading input) ∧
      ¬Listing.Inert ".byte 7" := by
  intro input
  have hrow : Banner.framedRow (Banner.forConversion input "t").width
      ("result of file \"" ++ input ++ "\"") ∈
        Listing.bannerLines (Banner.forConversion input "t") := by
    simp [Listing.bannerLines, Banner.rows, Banner.forConversion]
  exact ⟨Listing.mem_cutLines_text hrow (by decide +kernel), by decide +kernel, rfl, by decide⟩

end StringAssembler
