import Mathlib.Data.List.Forall2
import StringAssembler.Text.Lines

/-!
# Pieces and lines

The pieces of a text are those of `List.splitOn`, so the library's laws on splitting and
joining hold of them (`pieces_eq_splitOn`).  Put together they are the text without its
separators, so no piece holds the separator, and no line of a text holds a newline
(`newline_notMem_lines`); parts that each end in a separator are split off from any text
behind them (`splitOn_flatMap_concat_append`).  Which lines a text has is stated once more
without pieces, by the newlines in it alone (`HasLines`, `hasLines_iff`).

A cut at the first separator is the one with none before it (`cutFirst?_eq_some_iff`), and a
cut at the last one that with none behind it (`cutLast?_eq_some_iff`).
-/

namespace StringAssembler
namespace Text

variable {separator c : Char} {text : List Char}

theorem pieces_eq_splitOn (separator : Char) (text : List Char) :
    pieces separator text = text.splitOn separator := by
  induction text with
  | nil => rfl
  | cons c rest ih =>
      unfold pieces at ih ⊢
      rw [List.foldr_cons, ih, List.splitOn_cons_eq_if_modifyHead]
      cases hsplit : rest.splitOn separator with
      | nil => exact absurd hsplit (List.splitOn_ne_nil separator rest)
      | cons piece more => by_cases hc : c = separator <;> simp [hc]

/-- Parts that a separator ends are split off one by one from what follows them. -/
theorem splitOn_flatMap_concat_append {α : Type} [DecidableEq α] {separator : α}
    {parts : List (List α)} (h : ∀ part ∈ parts, separator ∉ part) (more : List α) :
    (parts.flatMap (· ++ [separator]) ++ more).splitOn separator =
      parts ++ more.splitOn separator := by
  induction parts with
  | nil => rfl
  | cons part rest ih =>
      have hrest := ih fun later hlater => h later (List.mem_cons_of_mem _ hlater)
      rw [List.flatMap_cons, List.append_assoc, List.append_assoc, List.singleton_append,
        List.splitOn_append_cons_self_of_not_mem (h part List.mem_cons_self), hrest]
      rfl

/-- A character other than the separator belongs to the first piece. -/
theorem exists_pieces_cons (hc : c ≠ separator) (text : List Char) :
    ∃ piece more, pieces separator (c :: text) = (c :: piece) :: more := by
  obtain ⟨piece, more, hsplit⟩ :=
    List.exists_cons_of_ne_nil (List.splitOn_ne_nil separator text)
  refine ⟨piece, more, ?_⟩
  rw [pieces_eq_splitOn, List.splitOn_cons_eq_if_modifyHead, hsplit]
  simp [hc]

/-- Put together, the pieces are the text without its separators. -/
theorem flatten_pieces (separator : Char) (text : List Char) :
    (pieces separator text).flatten = text.filter (· != separator) := by
  rw [pieces_eq_splitOn]
  induction text with
  | nil => rfl
  | cons c rest ih =>
      obtain ⟨head, more, hsplit⟩ :=
        List.exists_cons_of_ne_nil (List.splitOn_ne_nil separator rest)
      rw [List.splitOn_cons_eq_if_modifyHead]
      rw [hsplit] at ih ⊢
      by_cases hc : c = separator
      · simpa [hc] using ih
      · simpa [hc] using ih

/-- The characters of the pieces are those of the text, but for the separator. -/
theorem exists_mem_piece_iff :
    (∃ piece ∈ pieces separator text, c ∈ piece) ↔ c ∈ text ∧ c ≠ separator := by
  rw [← List.mem_flatten, flatten_pieces, List.mem_filter, bne_iff_ne]

/-! ## Reading piece by piece

A reader of single pieces reads many of them if it reads each. -/

theorem mapM_eq_some_of_forall₂ {α β : Type} {f : α → Option β} {as : List α} {bs : List β}
    (h : List.Forall₂ (fun a b => f a = some b) as bs) : as.mapM f = some bs := by
  induction h with
  | nil => rfl
  | cons hhead _ ih => simp [List.mapM_cons, hhead, ih]

theorem mapM_eq_some_map {α β : Type} {f : α → Option β} {g : α → β} {as : List α}
    (h : ∀ a ∈ as, f a = some (g a)) : as.mapM f = some (as.map g) := by
  apply mapM_eq_some_of_forall₂
  rw [List.forall₂_map_right_iff, List.forall₂_same]
  exact h

theorem mapM_map_eq_some {α β : Type} {f : β → Option α} {g : α → β}
    (h : ∀ a, f (g a) = some a) (as : List α) : (as.map g).mapM f = some as := by
  apply mapM_eq_some_of_forall₂
  rw [List.forall₂_map_left_iff, List.forall₂_same]
  exact fun a _ => h a

theorem mapM_eq_none_of_mem {α β : Type} {f : α → Option β} {a : α} {as : List α}
    (hmem : a ∈ as) (h : f a = none) : as.mapM f = none := by
  induction as with
  | nil => cases hmem
  | cons first rest ih =>
      rcases List.mem_cons.mp hmem with rfl | hrest
      · simp [List.mapM_cons, h]
      · cases hfirst : f first <;> simp [List.mapM_cons, hfirst, ih hrest]

/-! ## Single cuts -/

/-- The first cut is the one with no separator before it. -/
theorem cutFirst?_eq_some_iff {before behind : List Char} :
    cutFirst? separator text = some (before, behind) ↔
      text = before ++ separator :: behind ∧ separator ∉ before := by
  induction text generalizing before with
  | nil => simp [cutFirst?]
  | cons c rest ih =>
      unfold cutFirst?
      split
      case isTrue hc =>
        subst hc
        cases before with
        | nil => simp [eq_comm]
        | cons first before =>
            -- A later cut would have this separator before it.
            simp only [Option.some.injEq, Prod.mk.injEq, reduceCtorEq, false_and, false_iff]
            rintro ⟨htext, hfree⟩
            cases htext
            exact hfree List.mem_cons_self
      case isFalse hc =>
        rw [Option.map_eq_some_iff]
        constructor
        · rintro ⟨⟨inner, _⟩, hinner, hcut⟩
          cases hcut
          obtain ⟨rfl, hfree⟩ := ih.mp hinner
          refine ⟨rfl, fun hmem => ?_⟩
          rcases List.mem_cons.mp hmem with heq | hmem
          · exact hc heq.symm
          · exact hfree hmem
        · rintro ⟨htext, hfree⟩
          cases before with
          | nil =>
              cases htext
              exact absurd rfl hc
          | cons first before =>
              cases htext
              exact ⟨(before, behind), ih.mpr ⟨rfl, fun hmem => hfree (by simp [hmem])⟩, rfl⟩

theorem cutLast?_eq_none_iff : cutLast? separator text = none ↔ separator ∉ text := by
  induction text with
  | nil => simp [cutLast?]
  | cons c rest ih =>
      rw [List.mem_cons, not_or, ← ih, cutLast?]
      cases cutLast? separator rest with
      | some cut => simp
      | none => simpa using ne_comm

/-- The last cut is the one with no separator behind it. -/
theorem cutLast?_eq_some_iff {before behind : List Char} :
    cutLast? separator text = some (before, behind) ↔
      text = before ++ separator :: behind ∧ separator ∉ behind := by
  constructor
  · intro h
    induction text generalizing before with
    | nil => cases h
    | cons c rest ih =>
        rw [cutLast?] at h
        split at h
        case h_1 inner _ hinner =>
          cases h
          obtain ⟨rfl, hfree⟩ := ih hinner
          exact ⟨rfl, hfree⟩
        case h_2 hnone =>
          split at h
          case isTrue hc =>
            cases h
            exact ⟨by rw [hc, List.nil_append], cutLast?_eq_none_iff.mp hnone⟩
          case isFalse => cases h
  · rintro ⟨rfl, hfree⟩
    induction before with
    | nil => rw [List.nil_append, cutLast?, cutLast?_eq_none_iff.mpr hfree, if_pos rfl]
    | cons c rest ih => rw [List.cons_append, cutLast?, ih]

/-! ## Lines -/

/-- The lines of a text, read off the text itself: a line ends at a newline, or at a
carriage return with a newline behind it, and what no newline ends is a line unless it is
empty. -/
inductive HasLines : List Char → List (List Char) → Prop
  | empty : HasLines [] []
  | last {line : List Char} (hne : line ≠ []) (hfree : '\n' ∉ line) : HasLines line [line]
  | newline {line rest : List Char} {lines : List (List Char)} (hfree : '\n' ∉ line)
      (hreturn : line.getLast? ≠ some '\r') (more : HasLines rest lines) :
      HasLines (line ++ '\n' :: rest) (line :: lines)
  | returnNewline {line rest : List Char} {lines : List (List Char)} (hfree : '\n' ∉ line)
      (more : HasLines rest lines) :
      HasLines (line ++ '\r' :: '\n' :: rest) (line :: lines)

/-- Before the first newline stands the first piece. -/
theorem linesOfPieces_append_newline {piece rest : List Char} (hfree : '\n' ∉ piece) :
    linesOfPieces (pieces '\n' (piece ++ '\n' :: rest)) =
      dropReturn piece :: linesOfPieces (pieces '\n' rest) := by
  rw [pieces_eq_splitOn, pieces_eq_splitOn, List.splitOn_append_cons_self_of_not_mem hfree,
    linesOfPieces]
  exact fun hnil => absurd hnil (List.splitOn_ne_nil _ _)

theorem linesOfPieces_of_notMem (hfree : '\n' ∉ text) :
    linesOfPieces (pieces '\n' text) = if text = [] then [] else [text] := by
  rw [pieces_eq_splitOn, List.splitOn_eq_singleton hfree, linesOfPieces]

theorem hasLines_linesOfPieces (text : List Char) :
    HasLines text (linesOfPieces (pieces '\n' text)) := by
  -- Along the newlines: what stands behind the first one is shorter.
  induction hlength : text.length using Nat.strongRecOn generalizing text with
  | ind length ih =>
      by_cases hnewline : '\n' ∈ text
      · obtain ⟨piece, rest, rfl, hfree⟩ := List.eq_append_cons_of_mem hnewline
        have hrest := ih rest.length (by simp [← hlength]; omega) rest rfl
        rw [linesOfPieces_append_newline hfree, dropReturn]
        split
        case isTrue hreturn =>
          obtain ⟨line, rfl⟩ := List.getLast?_eq_some_iff.mp hreturn
          rw [List.dropLast_concat, List.append_assoc]
          exact .returnNewline (fun hmem => hfree (List.mem_append_left _ hmem)) hrest
        case isFalse hreturn => exact .newline hfree hreturn hrest
      · rw [linesOfPieces_of_notMem hnewline]
        split
        case isTrue hempty =>
          rw [hempty]
          exact .empty
        case isFalse hne => exact .last hne hnewline

/-- A text has exactly its lines. -/
theorem hasLines_iff {text : List Char} {lines : List (List Char)} :
    HasLines text lines ↔ linesOfPieces (pieces '\n' text) = lines := by
  constructor
  · intro h
    induction h with
    | empty => rfl
    | last hne hfree => rw [linesOfPieces_of_notMem hfree, if_neg hne]
    | newline hfree hreturn _ ih =>
        rw [linesOfPieces_append_newline hfree, dropReturn, if_neg hreturn, ih]
    | @returnNewline line rest lines hfree _ ih =>
        have hreturn : '\n' ∉ line ++ ['\r'] := by simpa using hfree
        rw [List.append_cons, linesOfPieces_append_newline hreturn, dropReturn,
          if_pos (List.getLast?_concat ..), List.dropLast_concat, ih]
  · rintro rfl
    exact hasLines_linesOfPieces text

theorem hasLines_lines {text : String} {lines : List (List Char)} :
    HasLines text.toList lines ↔ (Text.lines text).map String.toList = lines := by
  rw [hasLines_iff, Text.lines, List.map_map]
  simp [Function.comp_def]

theorem mem_of_mem_dropReturn {piece : List Char} (h : c ∈ dropReturn piece) :
    c ∈ piece := by
  unfold dropReturn at h
  split at h
  · exact (List.dropLast_sublist piece).mem h
  · exact h

/-- A line is what is left of a piece. -/
theorem exists_piece_of_mem_linesOfPieces {cut : List (List Char)} {line : List Char}
    (h : line ∈ linesOfPieces cut) :
    ∃ piece ∈ cut, ∀ c ∈ line, c ∈ piece := by
  induction cut with
  | nil => cases h
  | cons piece more ih =>
      cases more with
      | nil =>
          rw [linesOfPieces] at h
          split at h
          · cases h
          · rw [List.mem_singleton] at h
            exact ⟨piece, List.mem_cons_self, fun c hc => h ▸ hc⟩
      | cons next others =>
          rw [linesOfPieces] at h
          · rcases List.mem_cons.mp h with rfl | hmore
            · exact ⟨piece, List.mem_cons_self, fun c hc => mem_of_mem_dropReturn hc⟩
            · obtain ⟨found, hfound, hsub⟩ := ih hmore
              exact ⟨found, List.mem_cons_of_mem _ hfound, hsub⟩
          · simp

/-- No line of a text holds a newline. -/
theorem newline_notMem_lines {text line : String} (h : line ∈ lines text) :
    '\n' ∉ line.toList := by
  obtain ⟨chars, hchars, rfl⟩ := List.mem_map.mp h
  obtain ⟨piece, hpiece, hsub⟩ := exists_piece_of_mem_linesOfPieces hchars
  intro hnewline
  rw [String.toList_ofList] at hnewline
  exact (exists_mem_piece_iff.mp ⟨piece, hpiece, hsub _ hnewline⟩).2 rfl

end Text
end StringAssembler
