import StringAssembler.Files.Path
import StringAssembler.Proofs.Listing.Data

/-!
# Names in a listing

A block repeats the input path, its stem, the table path and the symbols as they are, and
everything else in its lines is free of newlines.  The stem is part of the path, so a
newline can come into a line of a block through a path or a symbol only
(`oneLine_blockLines`).
-/

namespace StringAssembler

/-- The characters of a stem are those of its path. -/
theorem Path.mem_of_mem_stem {path : String} {c : Char} (h : c ∈ (stem path).toList) :
    c ∈ path.toList := by
  -- A name is a piece of the path, and a stem is what stands before a dot of a name.
  have hname : ∀ name ∈ names path, ∀ c ∈ name.toList, c ∈ path.toList := by
    intro name hname c hc
    obtain ⟨piece, hpiece, rfl⟩ := List.mem_map.mp hname
    rw [String.toList_ofList] at hc
    exact (Text.exists_mem_piece_iff.mp ⟨piece, (List.mem_filter.mp hpiece).1, hc⟩).1
  have hstem : ∀ name : String, ∀ c ∈ (stemOfName name).toList, c ∈ name.toList := by
    intro name c hc
    unfold stemOfName at hc
    split at hc
    case h_1 before _ hcut =>
      split at hc
      case isTrue => exact hc
      case isFalse =>
        rw [(Text.cutLast?_eq_some_iff.mp hcut).1]
        rw [String.toList_ofList] at hc
        exact List.mem_append_left _ hc
    case h_2 => exact hc
  unfold stem at h
  split at h
  case h_1 name hlast =>
    have hmem := (List.mem_filter.mp (List.mem_of_getLast? hlast)).1
    split at h
    case isTrue => cases h
    case isFalse => exact hname name hmem c (hstem name c h)
  case h_2 => cases h

/-- A text without a newline. -/
def OneLine (text : String) : Prop := '\n' ∉ text.toList

instance (text : String) : Decidable (OneLine text) :=
  inferInstanceAs (Decidable ('\n' ∉ text.toList))

namespace OneLine

theorem append {text more : String} (h : OneLine text) (hmore : OneLine more) :
    OneLine (text ++ more) := by
  unfold OneLine
  rw [String.toList_append, List.mem_append, not_or]
  exact ⟨h, hmore⟩

theorem filled {c : Char} (h : '\n' ≠ c) (n : Nat) : OneLine (Banner.filled c n) := by
  unfold OneLine Banner.filled
  rw [String.toList_ofList]
  intro hmem
  exact h (List.eq_of_mem_replicate hmem)

theorem framedRow {line : String} (h : OneLine line) (width : Nat) :
    OneLine (Banner.framedRow width line) := by
  have hborder : OneLine (String.singleton Banner.border) := by decide
  have hblank : '\n' ≠ ' ' := by decide
  exact (((hborder.append (filled hblank _)).append h).append (filled hblank _)).append hborder

/-- Written bytes stand on one line. -/
theorem formatList (bytes : List UInt8) : OneLine (HexByte.formatList bytes) := by
  intro hmem
  by_cases hbytes : bytes = []
  · subst hbytes
    cases hmem
  · -- A newline would stand in one of the literals, since it is no comma.
    obtain ⟨piece, hpiece, hin⟩ :=
      Text.exists_mem_piece_iff.mpr ⟨hmem, show '\n' ≠ ',' by decide⟩
    rw [Listing.pieces_formatList hbytes] at hpiece
    obtain ⟨value, -, rfl⟩ := List.mem_map.mp hpiece
    exact absurd (HexByte.isLiteralChar_of_mem_format _ hin) (by decide)

end OneLine

namespace Listing

theorem oneLine_bannerLines {banner : Banner} (h : ∀ line ∈ banner.lines, OneLine line) :
    ∀ line ∈ bannerLines banner, OneLine line := by
  have hempty : OneLine "" := by decide
  intro line hline
  rcases List.mem_append.mp hline with hrow | hlast
  · rcases Banner.row_cases hrow with rfl | ⟨shown, hshown, rfl⟩
    · exact OneLine.filled (by decide) _
    · refine OneLine.framedRow ?_ _
      rcases List.mem_cons.mp hshown with rfl | hbanner
      · exact hempty
      · exact h shown hbanner
  · rw [List.mem_singleton.mp hlast]
    exact hempty

theorem oneLine_headerLines {banner : Banner} (h : ∀ line ∈ banner.lines, OneLine line)
    (fresh : Bool) : ∀ line ∈ headerLines banner fresh, OneLine line := by
  have hempty : OneLine "" := by decide
  have hbanner := oneLine_bannerLines h
  have hsetup : ∀ line ∈ [".text", ".align 2"], OneLine line := by decide
  intro line hline
  unfold headerLines at hline
  split at hline
  case isTrue => exact (List.mem_append.mp hline).elim (hbanner line) (hsetup line)
  case isFalse =>
    rcases List.mem_append.mp hline with hfront | halign
    · rcases List.mem_cons.mp hfront with rfl | hrow
      · exact hempty
      · exact hbanner line hrow
    · exact hsetup line (List.mem_cons_of_mem _ halign)

theorem oneLine_stringLines {encoded : EncodedString} (h : OneLine encoded.symbol) :
    ∀ line ∈ stringLines encoded, OneLine line := by
  have hempty : OneLine "" := by decide
  have hglobal : OneLine ".global " := by decide
  have hcolon : OneLine ":" := by decide
  have hbyte : OneLine ".byte " := by decide
  intro line hline
  rcases List.mem_append.mp hline with hlabel | hdata
  · simp only [List.mem_cons, List.not_mem_nil, or_false] at hlabel
    rcases hlabel with rfl | rfl | rfl
    · exact hempty
    · exact hglobal.append h
    · exact h.append hcolon
  · split at hdata
    case isTrue => cases hdata
    case isFalse =>
      rw [List.mem_singleton.mp hdata]
      exact hbyte.append (OneLine.formatList _)

theorem oneLine_referenceLines {encoded : EncodedString} (h : OneLine encoded.symbol) :
    ∀ line ∈ referenceLines encoded, OneLine line := by
  have hempty : OneLine "" := by decide
  have hglobal : OneLine ".global " := by decide
  have hreference : OneLine "_ref" := by decide
  have hreferenceLabel : OneLine "_ref:" := by decide
  have hword : OneLine ".word " := by decide
  intro line hline
  simp only [referenceLines, List.mem_cons, List.not_mem_nil, or_false] at hline
  rcases hline with rfl | rfl | rfl | rfl
  · exact (hglobal.append h).append hreference
  · exact h.append hreferenceLabel
  · exact hword.append h
  · exact hempty

theorem oneLine_referenceTableLines {input stem : String} {strings : List EncodedString}
    (hinput : OneLine input) (hstem : OneLine stem)
    (hsymbols : ∀ encoded ∈ strings, OneLine encoded.symbol) :
    ∀ line ∈ referenceTableLines input stem strings, OneLine line := by
  have hempty : OneLine "" := by decide
  have hheading : OneLine "@@@@ reference table for \"" := by decide
  have hbehind : OneLine "\" @@@@" := by decide
  have halign : OneLine ".align 2" := by decide
  have hglobal : OneLine ".global " := by decide
  have harray : OneLine "_array" := by decide
  have harrayLabel : OneLine "_array:" := by decide
  intro line hline
  rcases List.mem_append.mp hline with hfront | hstrings
  · simp only [List.mem_cons, List.not_mem_nil, or_false] at hfront
    rcases hfront with rfl | rfl | rfl | rfl | rfl | rfl | rfl | rfl
    · exact hempty
    · exact (hheading.append hinput).append hbehind
    · exact hempty
    · exact halign
    · exact hempty
    · exact (hglobal.append hstem).append harray
    · exact hstem.append harrayLabel
    · exact hempty
  · obtain ⟨encoded, hmem, hencoded⟩ := List.mem_flatMap.mp hstrings
    exact oneLine_referenceLines (hsymbols encoded hmem) line hencoded

/-- The lines of a conversion's block hold no newline if the paths and the symbols hold
none. -/
theorem oneLine_blockLines {input table : String} {strings : List EncodedString}
    (hinput : OneLine input) (htable : OneLine table)
    (hsymbols : ∀ encoded ∈ strings, OneLine encoded.symbol) (fresh : Bool) :
    ∀ line ∈ (Emission.block (.forConversion input table) fresh input (Path.stem input)
      strings).lines, OneLine line := by
  have hstem : OneLine (Path.stem input) := fun hmem => hinput (Path.mem_of_mem_stem hmem)
  have hbanner : ∀ line ∈ (Banner.forConversion input table).lines, OneLine line := by
    have hquote : OneLine "\"" := by decide
    have hresult : OneLine "result of file \"" := by decide
    have husing : OneLine "using table \"" := by decide
    have htool : OneLine "converted using tblasm" := by decide
    intro line hline
    simp only [Banner.forConversion, List.mem_cons, List.not_mem_nil, or_false] at hline
    rcases hline with rfl | rfl | rfl
    · exact (hresult.append hinput).append hquote
    · exact (husing.append htable).append hquote
    · exact htool
  intro line hline
  rcases List.mem_append.mp hline with hfront | hreferences
  · rcases List.mem_append.mp hfront with hheader | hstrings
    · exact oneLine_headerLines hbanner fresh line hheader
    · obtain ⟨encoded, hmem, hencoded⟩ := List.mem_flatMap.mp hstrings
      exact oneLine_stringLines (hsymbols encoded hmem) line hencoded
  · exact oneLine_referenceTableLines hinput hstem hsymbols line hreferences

end Listing
end StringAssembler
