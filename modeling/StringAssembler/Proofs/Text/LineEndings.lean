import StringAssembler.Proofs.Text.Pieces

/-!
# Forms of a text in a file

A file may hold a text in several forms: with newlines alone or with a carriage return
before each of them, and with a byte order mark in front or without one
(`Text.FileForm`).  A text that has neither of its own (`Text.Bare`) has the same lines in
every form (`lines_dropByteOrderMark_written`).

A carriage return of the text itself is not told from one of the form where it stands
before a newline, so nothing is said of texts that hold any.
-/

namespace StringAssembler
namespace Text

/-- A text with a carriage return before each newline. -/
def withReturns (text : List Char) : List Char :=
  text.flatMap fun c => if c = '\n' then ['\r', '\n'] else [c]

/-- A way to hold a text in a file. -/
structure FileForm where
  /-- Whether a carriage return stands before each newline. -/
  returns : Bool
  /-- Whether a byte order mark stands in front. -/
  mark : Bool
  deriving DecidableEq, Repr

/-- What a file holds that has a text in the given form. -/
def FileForm.written (form : FileForm) (text : String) : String :=
  String.ofList ((if form.mark then ['\ufeff'] else []) ++
    if form.returns then withReturns text.toList else text.toList)

/-- A text without carriage returns and without a byte order mark in front. -/
structure Bare (text : String) : Prop where
  return_notMem : '\r' ∉ text.toList
  head?_ne : text.toList.head? ≠ some '\ufeff'

/-! ## Lines -/

variable {text : List Char}

theorem withReturns_append_newline (line rest : List Char) :
    withReturns (line ++ '\n' :: rest) =
      withReturns line ++ '\r' :: '\n' :: withReturns rest := by
  simp [withReturns]

theorem withReturns_of_notMem (h : '\n' ∉ text) : withReturns text = text := by
  induction text with
  | nil => rfl
  | cons c rest ih =>
      rw [List.mem_cons, not_or] at h
      rw [withReturns, List.flatMap_cons, if_neg (Ne.symm h.1)]
      exact congrArg (c :: ·) (ih h.2)

/-- Each line of the text ends at a carriage return and a newline instead. -/
theorem HasLines.withReturns {lines : List (List Char)} (h : HasLines text lines)
    (hreturn : '\r' ∉ text) : HasLines (withReturns text) lines := by
  induction h with
  | empty => exact .empty
  | last hne hfree =>
      rw [withReturns_of_notMem hfree]
      exact .last hne hfree
  | newline hfree _ _ ih =>
      rw [withReturns_append_newline, withReturns_of_notMem hfree]
      exact .returnNewline hfree (ih fun hmem => hreturn (by simp [hmem]))
  | returnNewline => exact absurd (by simp) hreturn

theorem head?_withReturns_ne (h : text.head? ≠ some '\ufeff') :
    (withReturns text).head? ≠ some '\ufeff' := by
  cases text with
  | nil => exact h
  | cons c rest =>
      by_cases hc : c = '\n'
      · simp [withReturns, hc]
      · simpa [withReturns, hc] using h

/-! ## Marks -/

theorem toList_dropByteOrderMark_of_ne (h : text.head? ≠ some '\ufeff') :
    (dropByteOrderMark (String.ofList text)).toList = text := by
  unfold dropByteOrderMark
  split
  case h_1 => exact String.toList_ofList
  case h_2 c rest htext =>
    rw [String.toList_ofList] at htext
    subst htext
    have hc : c ≠ byteOrderMark := by
      rintro rfl
      exact h rfl
    rw [if_neg hc]
    exact String.toList_ofList

theorem toList_dropByteOrderMark_cons (text : List Char) :
    (dropByteOrderMark (String.ofList ('\ufeff' :: text))).toList = text := by
  simp [dropByteOrderMark, byteOrderMark]

/-- A text is what a file holds behind a mark, or all that it holds if it has none. -/
theorem dropByteOrderMark_eq_iff {raw text : String} :
    dropByteOrderMark raw = text ↔
      raw = "\ufeff" ++ text ∨ raw = text ∧ text.toList.head? ≠ some '\ufeff' := by
  simp only [← String.toList_inj, String.toList_append]
  rw [← String.ofList_toList (s := raw)]
  by_cases hmark : raw.toList.head? = some '\ufeff'
  · obtain ⟨rest, hraw⟩ := List.head?_eq_some_iff.mp hmark
    rw [hraw, toList_dropByteOrderMark_cons, String.toList_ofList]
    constructor
    · rintro rfl
      exact Or.inl rfl
    · rintro (hrest | ⟨hall, hne⟩)
      · exact (List.cons.inj hrest).2
      · rw [← hall] at hne
        exact absurd rfl hne
  · rw [toList_dropByteOrderMark_of_ne hmark, String.toList_ofList]
    constructor
    · intro hall
      exact Or.inr ⟨hall, hall ▸ hmark⟩
    · rintro (hrest | ⟨hall, -⟩)
      · rw [hrest] at hmark
        exact absurd rfl hmark
      · exact hall

/-- Without its mark, a file holds the text, or the text with carriage returns. -/
theorem toList_dropByteOrderMark_written {text : String} (h : Bare text) (form : FileForm) :
    (dropByteOrderMark (form.written text)).toList =
      if form.returns then withReturns text.toList else text.toList := by
  have hhead : (if form.returns then withReturns text.toList else text.toList).head? ≠
      some '\ufeff' := by
    split
    · exact head?_withReturns_ne h.head?_ne
    · exact h.head?_ne
  rw [FileForm.written]
  cases form.mark with
  | true => exact toList_dropByteOrderMark_cons _
  | false => exact toList_dropByteOrderMark_of_ne hhead

/-- A bare text has the same lines in every form. -/
theorem lines_dropByteOrderMark_written {text : String} (h : Bare text) (form : FileForm) :
    lines (dropByteOrderMark (form.written text)) = lines text := by
  have hlines : HasLines text.toList ((lines text).map String.toList) :=
    hasLines_lines.mpr rfl
  have hwritten : HasLines (dropByteOrderMark (form.written text)).toList
      ((lines text).map String.toList) := by
    rw [toList_dropByteOrderMark_written h]
    split
    · exact hlines.withReturns h.return_notMem
    · exact hlines
  exact List.map_inj_right (fun _ _ => String.toList_inj.mp) |>.mp (hasLines_lines.mp hwritten)

/-- A bare text is its own text. -/
theorem dropByteOrderMark_of_bare {text : String} (h : Bare text) :
    dropByteOrderMark text = text :=
  dropByteOrderMark_eq_iff.mpr (Or.inr ⟨rfl, h.head?_ne⟩)

end Text
end StringAssembler
