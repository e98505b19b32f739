import Mathlib.Data.List.Forall2
import StringAssembler.Conversion.Stages
import StringAssembler.Proofs.Text.Pieces

/-!
# Encoding line by line

Lines are encoded in order, each under its own number.  Either every line has a string,
and the strings stand in the order of the lines (`encodeLines_eq_ok_iff`), or the first
line without one decides the failure, and the lines behind it play no part
(`encodeLines_eq_error_iff`).

What makes a single line fail is not taken apart here; a symbol is always part of the
line it was read from (`mem_line_of_mem_symbol`).
-/

namespace StringAssembler

/-- The characters of a symbol are those of the line that defines it. -/
theorem Definition.mem_of_mem_symbol {line : String} {definition : Definition} {c : Char}
    (h : parse? line = some definition) (hc : c ∈ definition.symbol.toList) :
    c ∈ line.toList := by
  unfold parse? at h
  split at h
  case h_1 symbol text hcut =>
    split at h
    case isTrue => cases h
    case isFalse =>
      cases h
      rw [(Text.cutFirst?_eq_some_iff.mp hcut).1]
      rw [String.toList_ofList] at hc
      exact List.mem_append_left _ hc
  case h_2 => cases h

theorem Definition.read_eq_ok_iff {source line : String} {number : Nat}
    {definition : Definition} :
    read source number line = .ok definition ↔ parse? line = some definition := by
  unfold read
  cases parse? line <;> simp

theorem Definition.read_eq_error_iff {source line : String} {number : Nat}
    {e : MalformedDefinition} :
    read source number line = .error e ↔ parse? line = none ∧ ⟨source, number, line⟩ = e := by
  unfold read
  cases parse? line <;> simp

namespace Encoder

variable {encoder : Encoder} {source line : String} {number : Nat} {lines : List String}
  {encoded : EncodedString} {strings : List EncodedString} {e : ConversionError}

/-- The string of a line has the symbol of its definition and the bytes of its text. -/
theorem encodeLine_eq_ok_iff :
    (encoder.encodeLine source number line).outcome = .ok encoded ↔
      ∃ definition, Definition.parse? line = some definition ∧
        definition.symbol = encoded.symbol ∧
        encoder.encode definition.text = .ok encoded.bytes := by
  unfold encodeLine
  simp only [Traced.bind_eq_ok_iff, Traced.mapFailure_eq_ok_iff, Traced.outcome_ofExcept,
    Traced.outcome_pure, Definition.read_eq_ok_iff]
  constructor
  · rintro ⟨definition, hparse, bytes, hbytes, hencoded⟩
    cases hencoded
    exact ⟨definition, hparse, rfl, hbytes⟩
  · rintro ⟨definition, hparse, hsymbol, hbytes⟩
    refine ⟨definition, hparse, encoded.bytes, hbytes, ?_⟩
    rw [hsymbol]

theorem encodeLines_cons_eq_ok_iff :
    (encoder.encodeLines source number (line :: lines)).outcome = .ok strings ↔
      ∃ first more, (encoder.encodeLine source number line).outcome = .ok first ∧
        (encoder.encodeLines source (number + 1) lines).outcome = .ok more ∧
        strings = first :: more := by
  rw [encodeLines, Traced.bind_eq_ok_iff]
  simp only [Traced.mapValue_eq_ok_iff]
  constructor
  · rintro ⟨first, hfirst, more, hmore, rfl⟩
    exact ⟨first, more, hfirst, hmore, rfl⟩
  · rintro ⟨first, more, hfirst, hmore, rfl⟩
    exact ⟨first, hfirst, more, hmore, rfl⟩

/-- The first line comes before the rest of the lines. -/
theorem encodeLines_cons_eq_error_iff :
    (encoder.encodeLines source number (line :: lines)).outcome = .error e ↔
      (encoder.encodeLine source number line).outcome = .error e ∨
        ∃ first, (encoder.encodeLine source number line).outcome = .ok first ∧
          (encoder.encodeLines source (number + 1) lines).outcome = .error e := by
  rw [encodeLines, Traced.bind_eq_error_iff]
  simp only [Traced.mapValue_eq_error_iff]

/-- Lines have strings exactly when each line has one, in the same order. -/
theorem encodeLines_eq_ok_iff :
    (encoder.encodeLines source number lines).outcome = .ok strings ↔
      List.Forall₂ (fun numbered encoded =>
          (encoder.encodeLine source numbered.2 numbered.1).outcome = .ok encoded)
        (lines.zipIdx number) strings := by
  induction lines generalizing number strings with
  | nil =>
      rw [List.zipIdx_nil, List.forall₂_nil_left_iff]
      constructor
      · intro h
        cases h
        rfl
      · rintro rfl
        rfl
  | cons line rest ih =>
      rw [encodeLines_cons_eq_ok_iff, List.zipIdx_cons, List.forall₂_cons_left_iff]
      constructor
      · rintro ⟨first, more, hfirst, hmore, rfl⟩
        exact ⟨first, more, hfirst, ih.mp hmore, rfl⟩
      · rintro ⟨first, more, hfirst, hmore, rfl⟩
        exact ⟨first, more, hfirst, ih.mpr hmore, rfl⟩

/-- The first line without a string decides the failure. -/
theorem encodeLines_eq_error_iff :
    (encoder.encodeLines source number lines).outcome = .error e ↔
      ∃ before line after strings, lines = before ++ line :: after ∧
        (encoder.encodeLines source number before).outcome = .ok strings ∧
        (encoder.encodeLine source (number + before.length) line).outcome = .error e := by
  induction lines generalizing number with
  | nil =>
      constructor
      · intro h
        cases h
      · rintro ⟨before, line, after, strings, hlines, -, -⟩
        cases before <;> cases hlines
  | cons line rest ih =>
      rw [encodeLines_cons_eq_error_iff]
      constructor
      · rintro (hline | ⟨first, hfirst, hrest⟩)
        · exact ⟨[], line, rest, [], rfl, rfl, hline⟩
        · -- The failing line stands in the rest, and its number counts from there.
          obtain ⟨before, failing, after, strings, rfl, hbefore, hfailing⟩ := ih.mp hrest
          refine ⟨line :: before, failing, after, first :: strings, rfl, ?_, ?_⟩
          · exact encodeLines_cons_eq_ok_iff.mpr ⟨first, strings, hfirst, hbefore, rfl⟩
          · rw [List.length_cons, Nat.add_comm before.length, ← Nat.add_assoc]
            exact hfailing
      · rintro ⟨before, failing, after, strings, hlines, hbefore, hfailing⟩
        cases before with
        | nil =>
            cases hlines
            exact Or.inl hfailing
        | cons first before =>
            cases hlines
            obtain ⟨encoded, more, hencoded, hmore, -⟩ :=
              encodeLines_cons_eq_ok_iff.mp hbefore
            rw [List.length_cons, Nat.add_comm before.length, ← Nat.add_assoc] at hfailing
            exact Or.inr ⟨encoded, hencoded,
              ih.mpr ⟨before, failing, after, more, rfl, hmore, hfailing⟩⟩

/-- The characters of a symbol are those of the line it was encoded from. -/
theorem mem_line_of_mem_symbol
    (h : (encoder.encodeLine source number line).outcome = .ok encoded) {c : Char}
    (hc : c ∈ encoded.symbol.toList) : c ∈ line.toList := by
  obtain ⟨definition, hparse, hsymbol, -⟩ := encodeLine_eq_ok_iff.mp h
  rw [← hsymbol] at hc
  exact Definition.mem_of_mem_symbol hparse hc

/-- Every string was encoded from one of the lines. -/
theorem exists_line_of_mem
    (h : (encoder.encodeLines source number lines).outcome = .ok strings)
    (hmem : encoded ∈ strings) :
    ∃ line ∈ lines, ∃ position,
      (encoder.encodeLine source position line).outcome = .ok encoded := by
  have hpairs := encodeLines_eq_ok_iff.mp h
  obtain ⟨index, hindex, rfl⟩ := List.mem_iff_getElem.mp hmem
  have hnumbered : index < (lines.zipIdx number).length := hpairs.length_eq ▸ hindex
  have hline : (lines.zipIdx number)[index] ∈ lines.zipIdx number := List.getElem_mem _
  exact ⟨_, List.fst_mem_of_mem_zipIdx hline, _, hpairs.get hnumbered hindex⟩

/-- The symbols of encoded definitions hold no newline. -/
theorem newline_notMem_symbol {text : String}
    (h : (encoder.encodeDefinitions source text).outcome = .ok strings) :
    ∀ encoded ∈ strings, '\n' ∉ encoded.symbol.toList := by
  intro encoded hmem hnewline
  obtain ⟨line, hline, position, hencoded⟩ := exists_line_of_mem h hmem
  exact Text.newline_notMem_lines hline (mem_line_of_mem_symbol hencoded hnewline)

/-- There is one string for each line. -/
theorem length_of_encodeLines
    (h : (encoder.encodeLines source number lines).outcome = .ok strings) :
    strings.length = lines.length := by
  have hlength := (encodeLines_eq_ok_iff.mp h).length_eq
  rw [List.length_zipIdx] at hlength
  exact hlength.symm

end Encoder
end StringAssembler
