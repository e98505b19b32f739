import StringAssembler.Proofs.Conversion.Definitions
import StringAssembler.Proofs.Text.FirstFault

/-!
# The first definition that fails

A line states a definition when it is a symbol, an `=` and a text, where the symbol holds
something but no `=` (`Definition.parse?_eq_some_iff`).  `Encoder.LineFault` says what is
wrong with a numbered line: it states no definition, or the text of its definition cannot
be encoded.

The definitions of a text are encoded to one string for each line, in order, or the first
fault decides the failure and the lines behind it play no part, not even for the events
(`encodeDefinitions_stops_at_first_fault`).  Which texts can be encoded is a matter of the
table and not taken up here.
-/

namespace StringAssembler

/-- What it means that a line states a definition. -/
structure Definition.StatedBy (definition : Definition) (line : String) : Prop where
  line_eq : line = definition.symbol ++ "=" ++ definition.text
  symbol_ne_empty : definition.symbol ≠ ""
  notMem_symbol : '=' ∉ definition.symbol.toList

theorem Definition.parse?_eq_some_iff {line : String} {definition : Definition} :
    parse? line = some definition ↔ definition.StatedBy line := by
  obtain ⟨symbol, text⟩ := definition
  have hcut : Text.cutFirst? '=' line.toList = some (symbol.toList, text.toList) ↔
      line = symbol ++ "=" ++ text ∧ '=' ∉ symbol.toList := by
    rw [Text.cutFirst?_eq_some_iff, ← String.toList_inj]
    simp
  constructor
  · intro h
    unfold parse? at h
    split at h
    case h_1 before behind hfound =>
      split at h
      case isTrue => cases h
      case isFalse hne =>
        cases h
        rw [String.toList_ofList, String.toList_ofList] at hcut
        obtain ⟨hline, hfree⟩ := hcut.mp hfound
        exact ⟨hline, by simpa using hne, by simpa using hfree⟩
    case h_2 => cases h
  · rintro ⟨hline, hne, hfree⟩
    have hsymbol : symbol.toList ≠ [] := by simpa using hne
    simp only [parse?, hcut.mpr ⟨hline, hfree⟩, if_neg hsymbol, String.ofList_toList]

/-- A line states at most one definition. -/
theorem Definition.StatedBy.unique {line : String} {definition other : Definition}
    (h : definition.StatedBy line) (hother : other.StatedBy line) : definition = other := by
  rw [← Definition.parse?_eq_some_iff] at h hother
  rw [h] at hother
  cases hother
  rfl

namespace Encoder

/-- The string that a line gives: the symbol of its definition with the bytes of the
text. -/
def LineString (encoder : Encoder) (line : String) (encoded : EncodedString) : Prop :=
  ∃ definition : Definition, definition.StatedBy line ∧
    definition.symbol = encoded.symbol ∧ encoder.encode definition.text = .ok encoded.bytes

/-- What is wrong with a numbered line. -/
inductive LineFault (encoder : Encoder) (source : String) (number : Nat) (line : String) :
    ConversionError → Prop
  | malformed (h : ∀ definition : Definition, ¬ definition.StatedBy line) :
      LineFault encoder source number line (.definition ⟨source, number, line⟩)
  | unmatched {definition : Definition} {place : Unmatched}
      (h : definition.StatedBy line) (hplace : encoder.encode definition.text = .error place) :
      LineFault encoder source number line
        (.encoding source number definition.symbol place)

section

variable {encoder : Encoder} {source line : String} {number : Nat} {lines : List String}
  {encoded : EncodedString} {strings : List EncodedString} {e : ConversionError}

theorem encodeLine_eq_ok_iff_lineString :
    (encoder.encodeLine source number line).outcome = .ok encoded ↔
      encoder.LineString line encoded := by
  rw [encodeLine_eq_ok_iff]
  simp only [Definition.parse?_eq_some_iff, LineString]

theorem encodeLine_eq_error_iff :
    (encoder.encodeLine source number line).outcome = .error e ↔
      encoder.LineFault source number line e := by
  unfold encodeLine
  simp only [Traced.bind_eq_error_iff, Traced.mapFailure_eq_error_iff,
    Traced.mapFailure_eq_ok_iff, Traced.outcome_ofExcept, Traced.outcome_pure,
    Definition.read_eq_ok_iff, Definition.read_eq_error_iff, reduceCtorEq, and_false,
    exists_false, or_false]
  constructor
  · rintro (⟨_, ⟨hnone, rfl⟩, rfl⟩ | ⟨definition, hparse, place, hplace, rfl⟩)
    · refine .malformed fun definition hstated => ?_
      rw [Definition.parse?_eq_some_iff.mpr hstated] at hnone
      cases hnone
    · exact .unmatched (Definition.parse?_eq_some_iff.mp hparse) hplace
  · rintro (hnone | ⟨hstated, hplace⟩)
    · refine Or.inl ⟨_, ⟨?_, rfl⟩, rfl⟩
      cases hparse : Definition.parse? line with
      | none => rfl
      | some definition => exact absurd (Definition.parse?_eq_some_iff.mp hparse) (hnone _)
    · exact Or.inr ⟨_, Definition.parse?_eq_some_iff.mpr hstated, _, hplace, rfl⟩

/-- A line has a string when nothing is wrong with it. -/
theorem exists_lineString_iff :
    (∃ encoded, encoder.LineString line encoded) ↔
      ∀ e, ¬ encoder.LineFault source number line e := by
  have hstring : ∀ encoded, encoder.LineString line encoded ↔
      (encoder.encodeLine source number line).outcome = .ok encoded :=
    fun encoded => encodeLine_eq_ok_iff_lineString.symm
  simp only [hstring, ← encodeLine_eq_error_iff]
  cases (encoder.encodeLine source number line).outcome <;> simp

/-! ## Lines -/

/-- The strings of lines are those of the single lines, in order. -/
theorem encodeLines_eq_ok_iff_forall₂ :
    (encoder.encodeLines source number lines).outcome = .ok strings ↔
      List.Forall₂ encoder.LineString lines strings := by
  induction lines generalizing number strings with
  | nil =>
      rw [List.forall₂_nil_left_iff]
      constructor
      · intro h
        cases h
        rfl
      · rintro rfl
        rfl
  | cons line rest ih =>
      rw [encodeLines_cons_eq_ok_iff, List.forall₂_cons_left_iff]
      simp only [encodeLine_eq_ok_iff_lineString, ih]

/-- Lines have strings when each of them has one. -/
theorem exists_encodeLines_iff :
    (∃ strings, (encoder.encodeLines source number lines).outcome = .ok strings) ↔
      ∀ line ∈ lines, ∃ encoded, encoder.LineString line encoded := by
  induction lines generalizing number with
  | nil => exact iff_of_true ⟨[], rfl⟩ (by simp)
  | cons line rest ih =>
      have hrest := @ih (number + 1)
      rw [List.forall_mem_cons, ← hrest]
      simp only [encodeLines_cons_eq_ok_iff, encodeLine_eq_ok_iff_lineString]
      constructor
      · rintro ⟨_, first, more, hfirst, hmore, -⟩
        exact ⟨⟨first, hfirst⟩, more, hmore⟩
      · rintro ⟨⟨first, hfirst⟩, more, hmore⟩
        exact ⟨_, first, more, hfirst, hmore, rfl⟩

/-- Each of numbered lines has a string when nothing is wrong with any. -/
theorem faultless_iff_lineString :
    Faultless (fun before => encoder.LineFault source (before.length + number)) lines ↔
      ∀ line ∈ lines, ∃ encoded, encoder.LineString line encoded := by
  induction lines generalizing number with
  | nil => exact iff_of_true faultless_nil (by simp)
  | cons line rest ih =>
      have hshift : ∀ before : List String,
          (line :: before).length + number = before.length + (number + 1) := by
        intro before
        rw [List.length_cons, Nat.add_right_comm, Nat.add_assoc]
      rw [faultless_cons_iff, List.forall_mem_cons, ← exists_lineString_iff]
      simp only [hshift]
      rw [ih]

/-- The failure of numbered lines is their first fault. -/
theorem encodeLines_eq_error_iff_firstFault :
    (encoder.encodeLines source number lines).outcome = .error e ↔
      ∃ place, FirstFault
        (fun before => encoder.LineFault source (before.length + number)) lines place e := by
  have hfaultless : ∀ before,
      Faultless (fun before => encoder.LineFault source (before.length + number)) before ↔
        ∃ strings, (encoder.encodeLines source number before).outcome = .ok strings :=
    fun before => faultless_iff_lineString.trans exists_encodeLines_iff.symm
  simp only [encodeLines_eq_error_iff, firstFault_iff, hfaultless, encodeLine_eq_error_iff]
  constructor
  · rintro ⟨before, line, after, strings, hlines, hbefore, hline⟩
    rw [Nat.add_comm] at hline
    exact ⟨_, before, line, after, hlines, rfl, ⟨strings, hbefore⟩, hline⟩
  · rintro ⟨_, before, line, after, hlines, -, ⟨strings, hbefore⟩, hline⟩
    rw [Nat.add_comm] at hline
    exact ⟨before, line, after, strings, hlines, hbefore, hline⟩

/-- Lines behind a failure leave no trace. -/
theorem encodeLines_append_of_error {before after : List String}
    (h : (encoder.encodeLines source number before).outcome = .error e) :
    encoder.encodeLines source number (before ++ after) =
      encoder.encodeLines source number before := by
  induction before generalizing number with
  | nil => cases h
  | cons line rest ih =>
      rw [List.cons_append, encodeLines, encodeLines]
      rcases encodeLines_cons_eq_error_iff.mp h with hline | ⟨first, hfirst, hrest⟩
      · rw [Traced.bind_of_error hline, Traced.bind_of_error hline]
      · rw [ih hrest]

/-- Only the lines up to the first fault are looked at. -/
theorem encodeLines_eq_of_take_eq {other : List String} {place : Nat}
    (hfirst : FirstFault
      (fun before => encoder.LineFault source (before.length + number)) lines place e)
    (htake : other.take place = lines.take place) :
    encoder.encodeLines source number other = encoder.encodeLines source number lines := by
  -- The lines up to the first fault are the same, and they have it already.
  have hshared : (encoder.encodeLines source number (lines.take place)).outcome = .error e := by
    refine encodeLines_eq_error_iff_firstFault.mpr ⟨place, hfirst.of_take_eq ?_⟩
    rw [List.take_take, Nat.min_self]
  calc encoder.encodeLines source number other
      = encoder.encodeLines source number (lines.take place ++ other.drop place) := by
        rw [← htake, List.take_append_drop]
    _ = encoder.encodeLines source number (lines.take place) :=
        encodeLines_append_of_error hshared
    _ = encoder.encodeLines source number (lines.take place ++ lines.drop place) :=
        (encodeLines_append_of_error hshared).symm
    _ = encoder.encodeLines source number lines := by rw [List.take_append_drop]

end
end Encoder

/-- The definitions of a text are encoded to one string for each line, in order, or to the
first fault.  A line states a definition when an `=` stands behind a symbol that is not
empty and holds no `=`; its string is this symbol with the bytes of what follows.  The
lines behind the first fault play no part, not even for what is reported. -/
theorem encodeDefinitions_stops_at_first_fault (encoder : Encoder) (source text : String) :
    let lines := Text.lines text
    let outcome := (encoder.encodeDefinitions source text).outcome
    let fault := fun before : List String => encoder.LineFault source (before.length + 1)
    (∀ cut, Text.HasLines text.toList cut ↔ lines.map String.toList = cut) ∧
    (∀ line definition,
      Definition.parse? line = some definition ↔ definition.StatedBy line) ∧
    ((∃ strings, outcome = .ok strings) ↔
      ∀ line ∈ lines, ∃ encoded, encoder.LineString line encoded) ∧
    (∀ strings, outcome = .ok strings ↔ List.Forall₂ encoder.LineString lines strings) ∧
    (∀ e, outcome = .error e ↔ ∃ number, FirstFault fault lines number e) ∧
    ∀ number e, FirstFault fault lines number e →
      ∀ other, (Text.lines other).take number = lines.take number →
        encoder.encodeDefinitions source other = encoder.encodeDefinitions source text := by
  intro lines outcome fault
  refine ⟨fun cut => Text.hasLines_lines, fun line definition => Definition.parse?_eq_some_iff,
    Encoder.exists_encodeLines_iff, fun strings => Encoder.encodeLines_eq_ok_iff_forall₂,
    fun e => Encoder.encodeLines_eq_error_iff_firstFault, ?_⟩
  intro number e hfirst other htake
  exact Encoder.encodeLines_eq_of_take_eq hfirst htake

end StringAssembler
