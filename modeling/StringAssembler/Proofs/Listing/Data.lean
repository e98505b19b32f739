import StringAssembler.Proofs.HexByte.Literals
import StringAssembler.Proofs.Listing.Shapes
import StringAssembler.Proofs.Text.Pieces

/-!
# Data lines read back

A data line of a listing is a mark and byte literals separated by commas.  Reading it
(`Listing.dataOf?`) gives the bytes of the string it was written for, and no other line
of a block is taken for a data line: a label may start like one, but it ends in a colon,
which no literal holds.

So the literals in the data lines of a block are as many as its strings have bytes
(`literalCount_block`).  The lines are those that are written; a name with a newline
makes several lines of the text out of one of them (`pieces_text`).
-/

namespace StringAssembler
namespace Listing

/-- What a data line starts with. -/
def dataMark : List Char := ".byte ".toList

/-- The bytes that a data line states. -/
def dataOf? (line : String) : Option (List UInt8) :=
  if dataMark.isPrefixOf line.toList then
    (Text.pieces ',' (line.toList.drop dataMark.length)).mapM HexByte.ofChars?
  else none

/-- The number of byte literals in the data lines among some lines. -/
def literalCount (lines : List String) : Nat :=
  (lines.filterMap dataOf?).flatten.length

/-! ## Reading what was written -/

/-- Between the commas of written bytes stand their literals. -/
theorem pieces_formatList {bytes : List UInt8} (h : bytes ≠ []) :
    Text.pieces ',' (HexByte.formatList bytes).toList =
      bytes.map fun value => (HexByte.format value).toList := by
  have hchars : (HexByte.formatList bytes).toList =
      [','].intercalate (bytes.map fun value => (HexByte.format value).toList) := by
    simp [HexByte.formatList, Function.comp_def]
  have hliteral : ∀ literal ∈ bytes.map (fun value => (HexByte.format value).toList),
      ',' ∉ literal := by
    intro literal hliteral
    obtain ⟨value, -, rfl⟩ := List.mem_map.mp hliteral
    intro hcomma
    exact absurd (HexByte.isLiteralChar_of_mem_format _ hcomma) (by decide)
  rw [Text.pieces_eq_splitOn, hchars]
  exact List.splitOn_intercalate ',' hliteral (by simpa using h)

/-- A data line states the bytes it was written for. -/
theorem dataOf?_data {bytes : List UInt8} (h : bytes ≠ []) :
    dataOf? (".byte " ++ HexByte.formatList bytes) = some bytes := by
  have hline : (".byte " ++ HexByte.formatList bytes).toList =
      dataMark ++ (HexByte.formatList bytes).toList := String.toList_append
  rw [dataOf?, hline, if_pos (by simp), List.drop_left, pieces_formatList h]
  exact Text.mapM_map_eq_some HexByte.ofChars?_format bytes

/-! ## Lines without data -/

/-- Two characters tell the mark from everything else that a line of a block starts
with. -/
theorem dataOf?_of_take_two {line : String} (h : line.toList.take 2 ≠ ['.', 'b']) :
    dataOf? line = none := by
  rw [dataOf?, if_neg]
  intro hmark
  obtain ⟨rest, hrest⟩ := List.isPrefixOf_iff_prefix.mp hmark
  apply h
  rw [← hrest]
  rfl

/-- A line with a colon is no data line. -/
theorem dataOf?_of_colon {line : String} (h : ':' ∈ line.toList) : dataOf? line = none := by
  unfold dataOf?
  split
  case isFalse => rfl
  case isTrue hmark =>
    -- The colon is not part of the mark, so it stands in a piece that is no literal.
    obtain ⟨rest, hrest⟩ := List.isPrefixOf_iff_prefix.mp hmark
    have hcolon : ':' ∈ rest := by
      rw [← hrest] at h
      exact (List.mem_append.mp h).resolve_left (by decide)
    rw [← hrest, List.drop_left]
    obtain ⟨piece, hpiece, hin⟩ :=
      Text.exists_mem_piece_iff.mpr ⟨hcolon, show ':' ≠ ',' by decide⟩
    refine Text.mapM_eq_none_of_mem hpiece ?_
    cases hvalue : HexByte.ofChars? piece with
    | none => rfl
    | some value => exact absurd (HexByte.isLiteralChar_of_mem hvalue _ hin) (by decide)

/-- A plain line states no data. -/
theorem dataOf?_of_isPlain {line : String} (h : IsPlain line) : dataOf? line = none := by
  cases h with
  | empty => decide
  | comment hborder =>
      apply dataOf?_of_take_two
      intro htake
      have hhead : (line.toList.take 2).head? = some Banner.border := by
        rw [List.head?_take, if_neg (by decide)]
        exact hborder
      rw [htake] at hhead
      revert hhead
      decide
  | align => decide
  | globalName name =>
      apply dataOf?_of_take_two
      simp
  | word name =>
      apply dataOf?_of_take_two
      simp
  | label hcolon => exact dataOf?_of_colon hcolon

theorem dataOf?_headerLines {banner : Banner} {fresh : Bool} :
    ∀ line ∈ headerLines banner fresh, dataOf? line = none := by
  intro line hline
  rcases isPlain_or_of_mem_headerLines hline with hplain | ⟨-, rfl⟩
  · exact dataOf?_of_isPlain hplain
  · decide

/-! ## Counting literals -/

theorem literalCount_append (lines more : List String) :
    literalCount (lines ++ more) = literalCount lines + literalCount more := by
  simp [literalCount]

theorem literalCount_eq_zero {lines : List String} (h : ∀ line ∈ lines, dataOf? line = none) :
    literalCount lines = 0 := by
  rw [literalCount, List.filterMap_eq_nil_iff.mpr h]
  rfl

/-- The entry of a string states its bytes, each once. -/
theorem literalCount_stringLines (encoded : EncodedString) :
    literalCount (stringLines encoded) = encoded.bytes.length := by
  have hlabel : ∀ line ∈ ["", ".global " ++ encoded.symbol, encoded.symbol ++ ":"],
      dataOf? line = none := by
    intro line hline
    simp only [List.mem_cons, List.not_mem_nil, or_false] at hline
    rcases hline with rfl | rfl | rfl
    · exact dataOf?_of_isPlain .empty
    · exact dataOf?_of_isPlain (.globalName _)
    · exact dataOf?_of_isPlain (.label (by simp))
  rw [stringLines, literalCount_append, literalCount_eq_zero hlabel, Nat.zero_add]
  -- A string without bytes has no data line, and counts nothing either way.
  by_cases hbytes : encoded.bytes = []
  · rw [if_pos hbytes, hbytes]
    rfl
  · rw [if_neg hbytes, literalCount, List.filterMap_cons, dataOf?_data hbytes]
    simp

theorem literalCount_flatMap_stringLines (strings : List EncodedString) :
    literalCount (strings.flatMap stringLines) =
      (strings.flatMap EncodedString.bytes).length := by
  induction strings with
  | nil => rfl
  | cons first rest ih =>
      rw [List.flatMap_cons, literalCount_append, literalCount_stringLines, ih,
        List.flatMap_cons, List.length_append]

/-- The data lines of a block state the bytes of its strings and nothing else. -/
theorem literalCount_block (banner : Banner) (fresh : Bool) (input stem : String)
    (strings : List EncodedString) :
    literalCount (Emission.block banner fresh input stem strings).lines =
      (strings.flatMap EncodedString.bytes).length := by
  show literalCount (headerLines banner fresh ++ strings.flatMap stringLines ++
    referenceTableLines input stem strings) = _
  rw [literalCount_append, literalCount_append,
    literalCount_eq_zero dataOf?_headerLines,
    literalCount_eq_zero fun line hline =>
      dataOf?_of_isPlain (isPlain_referenceTableLines line hline),
    literalCount_flatMap_stringLines]
  omega

/-! ## Lines of the text -/

theorem toList_text (lines : List String) :
    (text lines).toList = (lines.map String.toList).flatMap (· ++ ['\n']) := by
  simp [text, String.toList_join, List.flatMap_map]

theorem text_append (lines more : List String) :
    text (lines ++ more) = text lines ++ text more := by
  simp [text]

/-- Lines have a text, if it is only that of their newlines. -/
theorem text_ne_empty {lines : List String} (h : lines ≠ []) : text lines ≠ "" := by
  obtain ⟨line, rest, rfl⟩ := List.exists_cons_of_ne_nil h
  intro hempty
  have hchars := congrArg String.toList hempty
  rw [toList_text] at hchars
  simp at hchars

/-- Cut at its newlines, text behind lines without newlines gives these lines first. -/
theorem pieces_text_append {lines : List String} (h : ∀ line ∈ lines, '\n' ∉ line.toList)
    (more : List Char) :
    Text.pieces '\n' ((text lines).toList ++ more) =
      lines.map String.toList ++ Text.pieces '\n' more := by
  rw [Text.pieces_eq_splitOn, Text.pieces_eq_splitOn, toList_text]
  apply Text.splitOn_flatMap_concat_append
  simpa using h

/-- Cut at its newlines, the text of lines without newlines gives the lines back. -/
theorem pieces_text {lines : List String} (h : ∀ line ∈ lines, '\n' ∉ line.toList) :
    Text.pieces '\n' (text lines).toList = lines.map String.toList ++ [[]] := by
  simpa [Text.pieces] using pieces_text_append h []

end Listing

/-- Whatever is emitted, it has a line: the first row of a banner, the empty line before a
string, the front of a reference table. -/
theorem Emission.lines_ne_nil (emission : Emission) : emission.lines ≠ [] := by
  cases emission with
  | header banner fresh =>
      cases fresh <;> simp [Emission.lines, Listing.headerLines]
  | string encoded => simp [Emission.lines, Listing.stringLines]
  | references input stem strings => simp [Emission.lines, Listing.referenceTableLines]
  | block banner fresh input stem strings =>
      simp [Emission.lines, Listing.referenceTableLines]

theorem Emission.text_ne_empty (emission : Emission) : emission.text ≠ "" :=
  Listing.text_ne_empty emission.lines_ne_nil

end StringAssembler
