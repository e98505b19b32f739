import StringAssembler.CommandLine.Arguments
import StringAssembler.Proofs.HexByte.Grammar
import StringAssembler.Proofs.Text.Pieces

/-!
# The grammar of table lines

A table line is a token that is not empty, an `=` and a byte literal (`TableLine.StatedBy`).
The token may itself hold `=` and text that looks like a literal, but a literal holds no `=`:
a line is cut before a literal in one place at most (`TableLine.IsCut.unique`), which is its
last `=`, and trying the others as well gives the same answer
(`TableLine.parse?_eq_parseAtLast?`).

The terminator on the command line is read by the rules for what stands behind the cut, so
the same literals are accepted in both places, with the same values
(`table_lines_follow_grammar`).
-/

namespace StringAssembler

namespace HexByte

theorem equals_notMem {literal : List Char} {value : UInt8} (h : IsLiteral literal value) :
    '=' ∉ literal := fun hmem =>
  absurd (isLiteralChar_of_mem (ofChars?_eq_some_iff.mpr h) _ hmem) (by decide)

theorem read_eq_ok_iff {literal : String} {value : UInt8} :
    read literal = .ok value ↔ IsLiteral literal.toList value := by
  rw [← ofChars?_eq_some_iff, ← parse?, read]
  cases parse? literal <;> simp

end HexByte

namespace TableLine

/-! ## Cuts before a literal -/

/-- A cut of a line at an `=` that has a literal for a byte behind it. -/
structure IsCut (line token literal : String) (value : UInt8) : Prop where
  line_eq : line = token ++ "=" ++ literal
  isLiteral : HexByte.IsLiteral literal.toList value

/-- What it means that a line states an entry. -/
structure StatedBy (entry : TableLine) (line : String) : Prop where
  token_ne_empty : entry.token ≠ ""
  exists_literal : ∃ literal, IsCut line entry.token literal entry.value

/-- The entry that a line states if it is cut at its last `=` and nowhere else. -/
def parseAtLast? (line : String) : Option TableLine :=
  match Text.cutLast? '=' line.toList with
  | some (token, literal) =>
      if token = [] then none
      else (HexByte.ofChars? literal).map fun value => ⟨String.ofList token, value⟩
  | none => none

section

variable {line token literal : String} {value : UInt8} {entry : TableLine}

/-- A cut before a literal is the one at the last `=`. -/
theorem IsCut.cutLast?_eq (h : IsCut line token literal value) :
    Text.cutLast? '=' line.toList = some (token.toList, literal.toList) := by
  rw [Text.cutLast?_eq_some_iff, h.line_eq]
  exact ⟨by simp, HexByte.equals_notMem h.isLiteral⟩

/-- A line has at most one cut before a literal. -/
theorem IsCut.unique {token' literal' : String} {value' : UInt8}
    (h : IsCut line token literal value) (h' : IsCut line token' literal' value') :
    token = token' ∧ literal = literal' ∧ value = value' := by
  have hcut := h.cutLast?_eq
  rw [h'.cutLast?_eq, Option.some.injEq, Prod.mk.injEq, String.toList_inj, String.toList_inj]
    at hcut
  obtain ⟨rfl, rfl⟩ := hcut
  have hvalue := HexByte.ofChars?_eq_some_iff.mpr h.isLiteral
  rw [HexByte.ofChars?_eq_some_iff.mpr h'.isLiteral] at hvalue
  exact ⟨rfl, rfl, (Option.some.inj hvalue).symm⟩

/-! ## Reading a line -/

theorem splitLast?_eq_none_of_notMem {text : List Char} (h : '=' ∉ text) (seen : List Char) :
    splitLast? seen text = none := by
  induction text generalizing seen with
  | nil => rfl
  | cons c rest ih =>
      rw [List.mem_cons, not_or] at h
      rw [splitLast?, ih h.2]
      exact if_neg fun hcut => h.1 hcut.1.symm

/-- The search ends at the `=` before a literal: none behind it is left to be tried. -/
theorem splitLast?_append_literal {literal : List Char} (h : HexByte.IsLiteral literal value)
    {seen before : List Char} (hne : seen.reverse ++ before ≠ []) :
    splitLast? seen (before ++ '=' :: literal) =
      some ⟨String.ofList (seen.reverse ++ before), value⟩ := by
  induction before generalizing seen with
  | nil =>
      have hseen : seen ≠ [] := by simpa using hne
      rw [List.nil_append, splitLast?, splitLast?_eq_none_of_notMem (HexByte.equals_notMem h),
        List.append_nil]
      simp [hseen, HexByte.ofChars?_eq_some_iff.mpr h]
  | cons c rest ih =>
      have hrest := @ih (c :: seen) (by simp)
      rw [List.cons_append, splitLast?, hrest]
      simp

/-- A line is read as an entry exactly if it states it. -/
theorem parse?_eq_some_iff : parse? line = some entry ↔ entry.StatedBy line := by
  constructor
  · intro h
    obtain ⟨hne, literal, hline, hvalue⟩ := exists_literal_of_parse? h
    exact ⟨hne, literal, hline, HexByte.ofChars?_eq_some_iff.mp hvalue⟩
  · rintro ⟨hne, literal, hline, hliteral⟩
    have hchars : line.toList = entry.token.toList ++ '=' :: literal.toList := by simp [hline]
    have htoken : [].reverse ++ entry.token.toList ≠ [] := by simpa using hne
    rw [parse?, hchars, splitLast?_append_literal hliteral htoken]
    simp

theorem parseAtLast?_eq_some_iff : parseAtLast? line = some entry ↔ entry.StatedBy line := by
  constructor
  · intro h
    unfold parseAtLast? at h
    split at h
    case h_1 token literal hcut =>
      split at h
      case isTrue => cases h
      case isFalse hne =>
        obtain ⟨value, hvalue, rfl⟩ := Option.map_eq_some_iff.mp h
        obtain ⟨hline, -⟩ := Text.cutLast?_eq_some_iff.mp hcut
        refine ⟨by simpa using hne, String.ofList literal, ?_, ?_⟩
        · rw [← String.toList_inj, hline]
          simp
        · rw [String.toList_ofList]
          exact HexByte.ofChars?_eq_some_iff.mp hvalue
    case h_2 => cases h
  · rintro ⟨hne, literal, hcut⟩
    have htoken : entry.token.toList ≠ [] := by simpa using hne
    simp only [parseAtLast?, hcut.cutLast?_eq, if_neg htoken,
      HexByte.ofChars?_eq_some_iff.mpr hcut.isLiteral, Option.map_some, String.ofList_toList]

/-- To try every `=` from the last to the first is to try the last alone. -/
theorem parse?_eq_parseAtLast? (line : String) : parse? line = parseAtLast? line := by
  apply Option.ext
  intro entry
  rw [parse?_eq_some_iff, parseAtLast?_eq_some_iff]

/-- Behind a token and an `=` every literal is read, and nothing else. -/
theorem parse?_append_eq_some_iff (hne : token ≠ "") :
    parse? (token ++ "=" ++ literal) = some ⟨token, value⟩ ↔
      HexByte.IsLiteral literal.toList value := by
  rw [parse?_eq_some_iff]
  constructor
  · rintro ⟨-, other, hline, hliteral⟩
    rwa [(String.append_right_inj (token ++ "=")).mp hline]
  · intro hliteral
    exact ⟨hne, literal, rfl, hliteral⟩

end
end TableLine

/-- A terminator can be given exactly if it is a literal, and is then the byte of it. -/
theorem GivenOptions.set?_terminator_eq_some_iff {given : GivenOptions}
    (hfree : given.terminator = none) {literal : String} {value : UInt8} :
    given.set? .terminator literal = some { given with terminator := some value } ↔
      HexByte.IsLiteral literal.toList value := by
  rw [← HexByte.ofChars?_eq_some_iff, ← HexByte.parse?, set?, hfree]
  cases HexByte.parse? literal <;> simp [fill?]

/-- A line states an entry exactly if it is a token that is not empty, an `=` and one or two
hexadecimal digits, with or without a marker, that write the byte in base sixteen.  It can be
cut like this in one place at most, so only the last `=` has to be tried, however many the
token holds.  What is accepted behind a token is what is accepted as a terminator. -/
theorem table_lines_follow_grammar :
    (∀ line,
      (∀ entry, TableLine.parse? line = some entry ↔ entry.StatedBy line) ∧
      (∀ token literal value token' literal' value',
        TableLine.IsCut line token literal value → TableLine.IsCut line token' literal' value' →
        token = token' ∧ literal = literal' ∧ value = value') ∧
      TableLine.parse? line = TableLine.parseAtLast? line) ∧
    ∀ token, token ≠ "" → ∀ literal value,
      (TableLine.parse? (token ++ "=" ++ literal) = some ⟨token, value⟩ ↔
        HexByte.read literal = .ok value) ∧
      ∀ given : GivenOptions, given.terminator = none →
        (given.set? .terminator literal = some { given with terminator := some value } ↔
          HexByte.read literal = .ok value) := by
  refine ⟨fun line => ⟨fun entry => TableLine.parse?_eq_some_iff, ?_,
    TableLine.parse?_eq_parseAtLast? line⟩, ?_⟩
  · intro token literal value token' literal' value' h h'
    exact h.unique h'
  · intro token hne literal value
    rw [HexByte.read_eq_ok_iff]
    exact ⟨TableLine.parse?_append_eq_some_iff hne,
      fun given hfree => GivenOptions.set?_terminator_eq_some_iff hfree⟩

/-- A token that holds an `=` and ends like a literal, before a literal with a marker. -/
theorem table_lines_follow_grammar_twoCuts :
    "a=7" ≠ "" ∧ HexByte.read "0x1" = .ok 1 ∧
      TableLine.parse? "a=7=0x1" = some ⟨"a=7", 1⟩ ∧
      (∀ token literal value, TableLine.IsCut "a=7=0x1" token literal value → token = "a=7") ∧
      GivenOptions.set? {} .terminator "0x1" = some { terminator := some 1 } := by
  have hne : "a=7" ≠ "" := by decide
  have hread : HexByte.read "0x1" = .ok 1 := by decide
  obtain ⟨hline, hterminator⟩ := table_lines_follow_grammar.2 "a=7" hne "0x1" 1
  have hparse : TableLine.parse? "a=7=0x1" = some ⟨"a=7", 1⟩ := hline.mpr hread
  obtain ⟨hstated, hunique, -⟩ := table_lines_follow_grammar.1 "a=7=0x1"
  obtain ⟨-, literal, hcut⟩ := (hstated _).mp hparse
  refine ⟨hne, hread, hparse, ?_, (hterminator {} rfl).mpr hread⟩
  intro token other value hother
  exact (hunique _ _ _ _ _ _ hother hcut).1

end StringAssembler
