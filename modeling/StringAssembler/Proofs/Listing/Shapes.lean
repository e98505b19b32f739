import StringAssembler.Listing.Basic

/-!
# The shapes of lines

A line of a block opens the section, states data, or is plain: empty, a comment, an
alignment, a directive with a name, or a label.  Which of these a line is follows from
the part of the block that it belongs to, whatever the symbols and names in it.

Only the header has the line that opens the section, and only if the block is fresh
(`openSection_mem_blockLines_iff`).
-/

namespace StringAssembler

/-- The margin is always there, so no row of a banner is empty. -/
theorem Banner.width_ne_zero (banner : Banner) : banner.width ≠ 0 := by
  unfold width margin
  omega

/-- A row of a banner is one of borders, or has a line of the banner or none between them. -/
theorem Banner.row_cases {banner : Banner} {row : String} (h : row ∈ banner.rows) :
    row = fullRow banner.width ∨
      ∃ line ∈ "" :: banner.lines, row = framedRow banner.width line := by
  have hempty : ∃ line ∈ "" :: banner.lines,
      framedRow banner.width "" = framedRow banner.width line := ⟨"", List.mem_cons_self, rfl⟩
  simp only [rows, List.mem_append, List.mem_cons, List.mem_map, List.not_mem_nil, or_false] at h
  rcases h with ((rfl | rfl) | ⟨line, hline, rfl⟩) | rfl | rfl
  · exact Or.inl rfl
  · exact Or.inr hempty
  · exact Or.inr ⟨line, List.mem_cons_of_mem _ hline, rfl⟩
  · exact Or.inr hempty
  · exact Or.inl rfl

namespace Listing

/-- The line that opens the section. -/
def openSection : String := ".text"

/-- A line that neither opens the section nor states data. -/
inductive IsPlain : String → Prop
  | empty : IsPlain ""
  | comment {line : String} (h : line.toList.head? = some Banner.border) : IsPlain line
  | align : IsPlain ".align 2"
  | globalName (name : String) : IsPlain (".global " ++ name)
  | word (name : String) : IsPlain (".word " ++ name)
  | label {line : String} (h : ':' ∈ line.toList) : IsPlain line

theorem IsPlain.ne_openSection {line : String} (h : IsPlain line) : line ≠ openSection := by
  -- The directives differ from it in their second character already.
  have hsecond : openSection.toList.take 2 = ['.', 't'] := by decide
  cases h with
  | empty => decide
  | comment hborder =>
      rintro rfl
      revert hborder
      decide
  | align => decide
  | globalName name =>
      intro hline
      rw [← hline, String.toList_append] at hsecond
      revert hsecond
      simp
  | word name =>
      intro hline
      rw [← hline, String.toList_append] at hsecond
      revert hsecond
      simp
  | label hcolon =>
      rintro rfl
      revert hcolon
      decide

/-! ## The parts of a block -/

theorem isPlain_bannerLines {banner : Banner} :
    ∀ line ∈ bannerLines banner, IsPlain line := by
  intro line hline
  rcases List.mem_append.mp hline with hrow | hempty
  · apply IsPlain.comment
    rcases Banner.row_cases hrow with rfl | ⟨shown, -, rfl⟩
    · simp [Banner.fullRow, Banner.filled, List.head?_replicate, banner.width_ne_zero]
    · simp [Banner.framedRow]
  · rw [List.mem_singleton.mp hempty]
    exact .empty

/-- A header is plain, but for the line that opens the section. -/
theorem isPlain_or_of_mem_headerLines {banner : Banner} {fresh : Bool} {line : String}
    (h : line ∈ headerLines banner fresh) :
    IsPlain line ∨ fresh = true ∧ line = openSection := by
  unfold headerLines at h
  split at h
  case isTrue hfresh =>
    rcases List.mem_append.mp h with hbanner | hsetup
    · exact Or.inl (isPlain_bannerLines line hbanner)
    · rcases List.mem_cons.mp hsetup with rfl | halign
      · exact Or.inr ⟨hfresh, rfl⟩
      · rw [List.mem_singleton.mp halign]
        exact Or.inl .align
  case isFalse =>
    rcases List.mem_append.mp h with hfront | halign
    · rcases List.mem_cons.mp hfront with rfl | hbanner
      · exact Or.inl .empty
      · exact Or.inl (isPlain_bannerLines line hbanner)
    · rw [List.mem_singleton.mp halign]
      exact Or.inl .align

/-- The entry of a string is plain, but for the line with its bytes. -/
theorem isPlain_or_of_mem_stringLines {encoded : EncodedString} {line : String}
    (h : line ∈ stringLines encoded) :
    IsPlain line ∨
      encoded.bytes ≠ [] ∧ line = ".byte " ++ HexByte.formatList encoded.bytes := by
  rcases List.mem_append.mp h with hlabel | hdata
  · simp only [List.mem_cons, List.not_mem_nil, or_false] at hlabel
    rcases hlabel with rfl | rfl | rfl
    · exact Or.inl .empty
    · exact Or.inl (.globalName _)
    · exact Or.inl (.label (by simp))
  · split at hdata
    case isTrue => cases hdata
    case isFalse hbytes => exact Or.inr ⟨hbytes, List.mem_singleton.mp hdata⟩

theorem isPlain_referenceTableLines {input stem : String} {strings : List EncodedString} :
    ∀ line ∈ referenceTableLines input stem strings, IsPlain line := by
  intro line hline
  rcases List.mem_append.mp hline with hfront | hstrings
  · simp only [List.mem_cons, List.not_mem_nil, or_false] at hfront
    rcases hfront with rfl | rfl | rfl | rfl | rfl | rfl | rfl | rfl
    · exact .empty
    · exact .comment (by simp [Banner.border])
    · exact .empty
    · exact .align
    · exact .empty
    · rw [String.append_assoc]
      exact .globalName _
    · exact .label (by simp)
    · exact .empty
  · obtain ⟨encoded, -, hencoded⟩ := List.mem_flatMap.mp hstrings
    simp only [referenceLines, List.mem_cons, List.not_mem_nil, or_false] at hencoded
    rcases hencoded with rfl | rfl | rfl | rfl
    · rw [String.append_assoc]
      exact .globalName _
    · exact .label (by simp)
    · exact .word _
    · exact .empty

/-! ## The line that opens the section -/

theorem data_ne_openSection (literals : String) : ".byte " ++ literals ≠ openSection := by
  intro hline
  have hsecond : openSection.toList.take 2 = ['.', 't'] := by decide
  rw [← hline, String.toList_append] at hsecond
  revert hsecond
  simp

/-- A block has the line that opens the section exactly if it is fresh. -/
theorem openSection_mem_blockLines_iff {banner : Banner} {fresh : Bool} {input stem : String}
    {strings : List EncodedString} :
    openSection ∈ (Emission.block banner fresh input stem strings).lines ↔ fresh = true := by
  constructor
  · intro hmem
    rcases List.mem_append.mp hmem with hfront | hreferences
    · rcases List.mem_append.mp hfront with hheader | hstrings
      · rcases isPlain_or_of_mem_headerLines hheader with hplain | ⟨hfresh, -⟩
        · exact absurd rfl hplain.ne_openSection
        · exact hfresh
      · obtain ⟨encoded, -, hencoded⟩ := List.mem_flatMap.mp hstrings
        rcases isPlain_or_of_mem_stringLines hencoded with hplain | ⟨-, hdata⟩
        · exact absurd rfl hplain.ne_openSection
        · exact absurd hdata.symm (data_ne_openSection _)
    · exact absurd rfl (isPlain_referenceTableLines _ hreferences).ne_openSection
  · rintro rfl
    have hheader : openSection ∈ headerLines banner true :=
      List.mem_append_right _ List.mem_cons_self
    exact List.mem_append_left _ (List.mem_append_left _ hheader)

end Listing
end StringAssembler
