import StringAssembler.Proofs.Conversion.FirstFailure
import StringAssembler.Proofs.Segmentation.Cursors

/-!
# The definitions that are reached

Encoding lines stops at the first fault, and what it reports are the tokens taken from the
texts up to there.  `Encoder.Attempts` holds the definitions of these texts: a definition
whose text gets stuck is the last of them, a line that states none adds nothing.

* `Encoder.events_encodeLines` — lines report the tokens of the definitions reached, in
  order, and nothing else.
* `Encoder.Attempts.of_append` — behind lines that all have strings the further lines are
  reached.
* `Encoder.join_of_forall₂_cuts` — tokens of texts that are all encoded make up these texts
  and their bytes.
-/

namespace StringAssembler

/-- The tokens taken from several texts, put together. -/
def takenText (cuts : List (List TokenMatch)) : String :=
  String.join (cuts.flatten.map TokenMatch.token)

@[simp] theorem takenText_nil : takenText [] = "" := by
  simp [takenText]

@[simp] theorem takenText_cons (cut : List TokenMatch) (cuts : List (List TokenMatch)) :
    takenText (cut :: cuts) = String.join (cut.map TokenMatch.token) ++ takenText cuts := by
  simp [takenText]

@[simp] theorem takenText_append (cuts more : List (List TokenMatch)) :
    takenText (cuts ++ more) = takenText cuts ++ takenText more := by
  simp [takenText]

/-- The texts of the definitions that lines state, one for each line, put together. -/
def Definition.JoinedTexts (lines : List String) (text : String) : Prop :=
  ∃ definitions : List Definition, List.Forall₂ StatedBy definitions lines ∧
    text = String.join (definitions.map Definition.text)

namespace Encoder

/-- The definitions whose texts an encoder cuts: those that the lines state, in order, up
to the first text that gets stuck or the first line that states none. -/
inductive Attempts (encoder : Encoder) : List String → List Definition → Prop
  | done : Attempts encoder [] []
  | malformed {line : String} {rest : List String}
      (h : ∀ definition : Definition, ¬ definition.StatedBy line) :
      Attempts encoder (line :: rest) []
  | stuck {line : String} {rest : List String} {definition : Definition} {place : Unmatched}
      (h : definition.StatedBy line) (hplace : encoder.encode definition.text = .error place) :
      Attempts encoder (line :: rest) [definition]
  | next {line : String} {rest : List String} {definition : Definition}
      {more : List Definition} {bytes : List UInt8}
      (h : definition.StatedBy line) (hbytes : encoder.encode definition.text = .ok bytes)
      (hmore : Attempts encoder rest more) :
      Attempts encoder (line :: rest) (definition :: more)

section

variable {encoder : Encoder} {source line : String} {number : Nat} {lines : List String}
  {definition : Definition} {definitions : List Definition}

theorem exists_attempts (encoder : Encoder) (lines : List String) :
    ∃ definitions, encoder.Attempts lines definitions := by
  induction lines with
  | nil => exact ⟨[], .done⟩
  | cons line rest ih =>
      obtain ⟨more, hmore⟩ := ih
      cases hparse : Definition.parse? line with
      | none =>
          refine ⟨[], .malformed fun definition hstated => ?_⟩
          rw [Definition.parse?_eq_some_iff.mpr hstated] at hparse
          cases hparse
      | some definition =>
          have hstated := Definition.parse?_eq_some_iff.mp hparse
          cases hencode : encoder.encode definition.text with
          | ok bytes => exact ⟨_, .next hstated hencode hmore⟩
          | error place => exact ⟨_, .stuck hstated hencode⟩

/-- A line that states no definition reports nothing. -/
theorem events_encodeLine_of_malformed
    (h : ∀ definition : Definition, ¬ definition.StatedBy line) :
    (encoder.encodeLine source number line).events = [] := by
  have hread : ((Traced.ofExcept (Definition.read source number line)).mapFailure
      ConversionError.definition).outcome = .error (.definition ⟨source, number, line⟩) := by
    rw [Traced.mapFailure_eq_error_iff]
    refine ⟨_, Definition.read_eq_error_iff.mpr ⟨?_, rfl⟩, rfl⟩
    cases hparse : Definition.parse? line with
    | none => rfl
    | some definition => exact absurd (Definition.parse?_eq_some_iff.mp hparse) (h definition)
  unfold encodeLine
  exact Traced.events_bind_of_error hread _

/-- A line that states a definition reports the tokens taken from its text. -/
theorem events_encodeLine (h : definition.StatedBy line) :
    (encoder.encodeLine source number line).events =
      (encoder.segment definition.text).taken.map Event.matched := by
  have hread : ((Traced.ofExcept (Definition.read source number line)).mapFailure
      ConversionError.definition).outcome = .ok definition :=
    Traced.mapFailure_eq_ok_iff.mpr
      (Definition.read_eq_ok_iff.mpr (Definition.parse?_eq_some_iff.mpr h))
  unfold encodeLine
  rw [Traced.events_bind_of_ok hread, Traced.events_bind_pure]
  rfl

/-- Lines report the tokens of the texts that are reached. -/
theorem events_encodeLines (h : encoder.Attempts lines definitions) :
    (encoder.encodeLines source number lines).events =
      (definitions.flatMap fun reached => (encoder.segment reached.text).taken).map
        Event.matched := by
  induction h generalizing number with
  | done => rfl
  | malformed hline =>
      have hfault : (encoder.encodeLine source number _).outcome = .error _ :=
        encodeLine_eq_error_iff.mpr (.malformed hline)
      rw [encodeLines, Traced.events_bind_of_error hfault, events_encodeLine_of_malformed hline]
      rfl
  | stuck hline hplace =>
      have hfault : (encoder.encodeLine source number _).outcome = .error _ :=
        encodeLine_eq_error_iff.mpr (.unmatched hline hplace)
      rw [encodeLines, Traced.events_bind_of_error hfault, events_encodeLine hline,
        List.flatMap_singleton]
  | @next _ _ definition _ bytes hline hbytes _ ih =>
      have hfirst : (encoder.encodeLine source number _).outcome =
          .ok ⟨definition.symbol, bytes⟩ :=
        encodeLine_eq_ok_iff_lineString.mpr ⟨definition, hline, rfl, hbytes⟩
      rw [encodeLines, Traced.events_bind_of_ok hfirst, Traced.events_mapValue,
        events_encodeLine hline, ih, List.flatMap_cons, List.map_append]

/-- Behind lines that all have strings the further lines are reached. -/
theorem Attempts.of_append {before after : List String} {strings : List EncodedString}
    (hbefore : List.Forall₂ encoder.LineString before strings)
    (h : encoder.Attempts (before ++ after) definitions) :
    ∃ first more, definitions = first ++ more ∧
      List.Forall₂ Definition.StatedBy first before ∧
      List.Forall₂ (fun definition encoded =>
        encoder.encode definition.text = .ok encoded.bytes) first strings ∧
      encoder.Attempts after more := by
  induction hbefore generalizing definitions with
  | nil => exact ⟨[], definitions, rfl, .nil, .nil, h⟩
  | @cons line encoded _ _ hline _ ih =>
      obtain ⟨stated, hstated, -, hencode⟩ := hline
      cases h with
      | malformed hnone => exact absurd hstated (hnone stated)
      | stuck hother hplace =>
          rw [hother.unique hstated, hencode] at hplace
          cases hplace
      | next hother _ hmore =>
          obtain rfl := hother.unique hstated
          obtain ⟨first, more, rfl, hlines, hstrings, hafter⟩ := ih hmore
          exact ⟨_, more, rfl, .cons hstated hlines, .cons hencode hstrings, hafter⟩

/-- Cuts of texts that are all encoded make up these texts and their bytes. -/
theorem join_of_forall₂_cuts (hbounded : encoder.table.Bounded)
    {strings : List EncodedString} {cuts : List (List TokenMatch)}
    (hstrings : List.Forall₂ (fun definition encoded =>
      encoder.encode definition.text = .ok encoded.bytes) definitions strings)
    (hcuts : List.Forall₂ (fun definition cut => encoder.Cuts definition.text cut)
      definitions cuts) :
    takenText cuts = String.join (definitions.map Definition.text) ∧
      strings.map EncodedString.bytes =
        cuts.map fun cut => cut.map TokenMatch.value ++ encoder.terminator.toList := by
  induction hstrings generalizing cuts with
  | nil =>
      cases hcuts
      exact ⟨takenText_nil, rfl⟩
  | cons hencode _ ih =>
      cases hcuts with
      | cons hcut hmore =>
          obtain ⟨htext, hbytes⟩ := hcut.of_encode_eq_ok hbounded hencode
          obtain ⟨htexts, hrest⟩ := ih hmore
          constructor
          · rw [takenText_cons, htext, htexts, List.map_cons, String.join_cons]
          · rw [List.map_cons, List.map_cons, hbytes, hrest]

end
end Encoder

end StringAssembler
