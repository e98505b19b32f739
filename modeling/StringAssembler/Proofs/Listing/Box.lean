import Mathlib.Data.Nat.PSub
import StringAssembler.Proofs.Listing.ReadBack

/-!
# The box of a banner

The rows of a banner are as wide as the longest line and the margin together, whatever the
lines are and also if there are none.  A line stands in its row between blanks, of which
there may be one more on the right than on the left; rows without a line and rows of borders
go around these (`Banner.IsBox`).

The numbers of blanks are differences, and a difference of natural numbers stops at zero.
Here none would have to be negative: a rendering in which such a subtraction has no result
gives the same rows (`Banner.rows?_eq_some`).

If the lines hold no newline, these rows are the lines of the text, with an empty line behind
them (`banner_text_is_box`).  A line with a newline is not taken up here.
-/

namespace StringAssembler
namespace Banner

/-! ## Rows without truncated subtraction -/

/-- A row with one line, centred between the borders; there is none if a subtraction would
end below zero. -/
def framedRow? (width : Nat) (line : String) : Option String := do
  let inner ← width.psub 2
  let free ← inner.psub line.length
  let right ← free.psub (free / 2)
  return String.singleton border ++ filled ' ' (free / 2) ++ line ++ filled ' ' right ++
    String.singleton border

/-- The rows of the box; there are none if a subtraction would end below zero. -/
def rows? (banner : Banner) : Option (List String) := do
  let empty ← framedRow? banner.width ""
  let framed ← banner.lines.mapM (framedRow? banner.width)
  return [fullRow banner.width, empty] ++ framed ++ [empty, fullRow banner.width]

variable {banner : Banner} {width : Nat} {line : String}

theorem framedRow?_eq_some (h : line.length + 2 ≤ width) :
    framedRow? width line = some (framedRow width line) := by
  have hinner : width.psub 2 = some (width - 2) := Nat.psub_eq_sub (by omega)
  have hfree : (width - 2).psub line.length = some (width - 2 - line.length) :=
    Nat.psub_eq_sub (by omega)
  have hright := Nat.psub_eq_sub (Nat.div_le_self (width - 2 - line.length) 2)
  simp only [framedRow?, hinner, hfree, hright, Option.bind_eq_bind, Option.bind_some]
  rfl

/-- The width is that of the longest line and the margin. -/
theorem width_eq (banner : Banner) :
    banner.width = (banner.lines.map String.length).max?.getD 0 + 25 := by
  rw [Banner.width, margin, List.foldr_eq_foldl, List.foldl_max, Nat.zero_max]

/-- Every line leaves the margin free, and so does an empty one. -/
theorem length_add_margin_le (h : line ∈ "" :: banner.lines) :
    line.length + 25 ≤ banner.width := by
  rw [width_eq]
  rcases List.mem_cons.mp h with rfl | hline
  · exact Nat.add_le_add_right (Nat.zero_le _) 25
  · exact Nat.add_le_add_right (List.le_max?_getD_of_mem (List.mem_map_of_mem hline)) 25

/-- No subtraction ends below zero. -/
theorem rows?_eq_some (banner : Banner) : banner.rows? = some banner.rows := by
  have hrow : ∀ line ∈ "" :: banner.lines,
      framedRow? banner.width line = some (framedRow banner.width line) := by
    intro line hline
    have hlength := length_add_margin_le hline
    exact framedRow?_eq_some (by omega)
  have hempty := hrow "" List.mem_cons_self
  have hframed := Text.mapM_eq_some_map fun line hline => hrow line (List.mem_cons_of_mem _ hline)
  rw [rows?, hempty, hframed]
  rfl

/-! ## The shape of rows -/

/-- Rows that draw a box around lines. -/
structure IsBox (lines : List String) (width : Nat) (rows : List String) : Prop where
  width_eq : width = (lines.map String.length).max?.getD 0 + 25
  length_rows : rows.length = lines.length + 4
  length_row : ∀ row ∈ rows, row.length = width
  head_row : ∀ row ∈ rows, row.toList.head? = some '@'
  getLast_row : ∀ row ∈ rows, row.toList.getLast? = some '@'
  first : rows[0]? = some (filled '@' width)
  second : rows[1]? = some ("@" ++ filled ' ' (width - 2) ++ "@")
  framed : ∀ i line, lines[i]? = some line → ∃ left right,
    rows[i + 2]? = some ("@" ++ filled ' ' left ++ line ++ filled ' ' right ++ "@") ∧
      (right = left ∨ right = left + 1) ∧ 23 ≤ left + right
  lastButOne : rows[lines.length + 2]? = some ("@" ++ filled ' ' (width - 2) ++ "@")
  last : rows[lines.length + 3]? = some (filled '@' width)

theorem filled_append (c : Char) (m n : Nat) : filled c m ++ filled c n = filled c (m + n) := by
  rw [filled, filled, filled, ← String.ofList_append, List.replicate_append_replicate]

theorem length_filled (c : Char) (n : Nat) : (filled c n).length = n := by
  simp [filled]

theorem length_framedRow (h : line.length + 2 ≤ width) : (framedRow width line).length = width := by
  simp only [framedRow, String.length_append, String.length_singleton, length_filled]
  omega

/-- A line that leaves the margin free has at least 23 blanks around it. -/
theorem exists_blanks (h : line.length + 25 ≤ width) :
    ∃ left right,
      framedRow width line = "@" ++ filled ' ' left ++ line ++ filled ' ' right ++ "@" ∧
        (right = left ∨ right = left + 1) ∧ 23 ≤ left + right := by
  refine ⟨(width - 2 - line.length) / 2, (width - 2 - line.length) -
    (width - 2 - line.length) / 2, rfl, ?_, ?_⟩
  · omega
  · omega

/-- A row without a line has only blanks between its borders. -/
theorem framedRow_empty (width : Nat) :
    framedRow width "" = "@" ++ filled ' ' (width - 2) ++ "@" := by
  have hblanks := filled_append ' ' ((width - 2) / 2) (width - 2 - (width - 2) / 2)
  rw [Nat.add_sub_of_le (Nat.div_le_self (width - 2) 2)] at hblanks
  rw [framedRow, String.length_empty, Nat.sub_zero, String.append_empty, ← hblanks]
  simp only [String.append_assoc]
  rfl

theorem isBox_rows (banner : Banner) : IsBox banner.lines banner.width banner.rows where
  width_eq := banner.width_eq
  length_rows := by simp [rows]
  length_row row hrow := by
    rcases row_cases hrow with rfl | ⟨line, hline, rfl⟩
    · exact length_filled border _
    · have hlength := length_add_margin_le hline
      exact length_framedRow (by omega)
  head_row row hrow := by
    rcases row_cases hrow with rfl | ⟨line, -, rfl⟩
    · simp [fullRow, filled, List.head?_replicate, banner.width_ne_zero, border]
    · simp [framedRow, border]
  getLast_row row hrow := by
    rcases row_cases hrow with rfl | ⟨line, -, rfl⟩
    · simp [fullRow, filled, List.getLast?_replicate, banner.width_ne_zero, border]
    · rw [framedRow, String.toList_append, String.toList_singleton, List.getLast?_concat]
      rfl
  first := rfl
  second := by
    rw [← framedRow_empty]
    rfl
  framed i line hline := by
    obtain ⟨hi, rfl⟩ := List.getElem?_eq_some_iff.mp hline
    obtain ⟨left, right, hrow, hblanks⟩ :=
      exists_blanks (length_add_margin_le (List.mem_cons_of_mem _ (List.getElem_mem hi)))
    refine ⟨left, right, ?_, hblanks⟩
    rw [← hrow]
    simp [rows, List.getElem?_append_left, hi]
  lastButOne := by
    rw [← framedRow_empty]
    simp [rows]
  last := by
    simp [rows, fullRow, border]

end Banner

/-- A banner is drawn without a subtraction that ends below zero, whatever its lines are.  It
is a box of rows that all have one width, with the lines in order between blanks, and its
text is these rows and an empty line.  If no line of the banner holds a newline, no row is
broken: they are what stands between the newlines of the text. -/
theorem banner_text_is_box (banner : Banner) :
    ∃ rows, banner.rows? = some rows ∧ Banner.IsBox banner.lines banner.width rows ∧
      banner.text = Listing.text (rows ++ [""]) ∧
      ((∀ line ∈ banner.lines, OneLine line) →
        Listing.cutLines banner.text = rows ++ ["", ""]) := by
  refine ⟨banner.rows, banner.rows?_eq_some, banner.isBox_rows, rfl, fun hlines => ?_⟩
  rw [Banner.text, Listing.cutLines_text (Listing.oneLine_bannerLines hlines),
    Listing.bannerLines, List.append_assoc]
  rfl

example : (Banner.mk []).rows.map String.length = [25, 25, 25, 25] := by decide

/-- Two lines: the longer one has an odd number of blanks around it, as every longest line
has, and one of them is over on the right. -/
theorem banner_text_is_box_twoLines :
    let banner : Banner := ⟨["abc", "ab"]⟩
    (∀ line ∈ banner.lines, OneLine line) ∧
      ∃ rows, Listing.cutLines banner.text = rows ++ ["", ""] ∧ rows.length = 6 ∧
        rows[2]? = some ("@" ++ Banner.filled ' ' 11 ++ "abc" ++ Banner.filled ' ' 12 ++ "@") := by
  intro banner
  have hlines : ∀ line ∈ banner.lines, OneLine line := by decide
  obtain ⟨rows, -, hbox, -, htext⟩ := banner_text_is_box banner
  obtain ⟨left, right, hrow, hdiff, hsum⟩ := hbox.framed 0 "abc" rfl
  refine ⟨hlines, rows, htext hlines, hbox.length_rows, ?_⟩
  have hlength := hbox.length_row _ (List.mem_of_getElem? hrow)
  have hwidth : banner.width = 28 := by decide
  simp only [String.length_append, Banner.length_filled, hwidth] at hlength
  have hthree : "abc".length = 3 := rfl
  have hone : "@".length = 1 := rfl
  have hleft : left = 11 := by omega
  have hright : right = 12 := by omega
  rw [hrow, hleft, hright]

end StringAssembler
