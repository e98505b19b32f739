import StringAssembler.HexByte

/-!
# Table lines

A table line has the form `token=literal`, where the token is not empty and the
literal is a hexadecimal byte.  Tokens may contain `=` themselves, so the line is
cut at the last `=` that leaves a token on its left and a literal on its right.
-/

namespace StringAssembler

/-- One entry of a table as a line states it: a token and the byte it stands for. -/
structure TableLine where
  token : String
  value : UInt8
  deriving DecidableEq, Repr

namespace TableLine

/-- Tries every `=` of the rest of a line as the cut, the last one first; `seen`
holds the characters before the rest in reverse order. -/
def splitLast? (seen : List Char) : List Char → Option TableLine
  | [] => none
  | c :: rest =>
      match splitLast? (c :: seen) rest with
      | some line => some line
      | none =>
          if c = '=' ∧ seen ≠ [] then
            (HexByte.ofChars? rest).map fun value =>
              ⟨String.ofList seen.reverse, value⟩
          else none

/-- The entry that a line states, if it is a table line. -/
def parse? (line : String) : Option TableLine :=
  splitLast? [] line.toList

/-! ## The parts of a line -/

/-- A cut leaves a token on its left, which is not empty, and a literal on its right. -/
theorem exists_cut_of_splitLast? {seen text : List Char} {line : TableLine}
    (h : splitLast? seen text = some line) :
    ∃ before literal, text = before ++ '=' :: literal ∧ seen.reverse ++ before ≠ [] ∧
      String.ofList (seen.reverse ++ before) = line.token ∧
      HexByte.ofChars? literal = some line.value := by
  induction text generalizing seen with
  | nil => cases h
  | cons c rest ih =>
      rw [splitLast?] at h
      split at h
      case h_1 found hfound =>
        -- A cut further back wins; the characters before it begin with this one.
        cases h
        obtain ⟨before, literal, rfl, hne, htoken, hvalue⟩ := ih hfound
        rw [List.reverse_cons, List.append_assoc, List.singleton_append] at hne htoken
        exact ⟨c :: before, literal, rfl, hne, htoken, hvalue⟩
      case h_2 =>
        split at h
        case isTrue hcut =>
          obtain ⟨value, hvalue, rfl⟩ := Option.map_eq_some_iff.mp h
          refine ⟨[], rest, by rw [hcut.1, List.nil_append], ?_, ?_, hvalue⟩
          · simpa using hcut.2
          · rw [List.append_nil]
        case isFalse => cases h

/-- A table line is its token, an `=` and a literal for its byte. -/
theorem exists_literal_of_parse? {line : String} {entry : TableLine}
    (h : parse? line = some entry) :
    entry.token ≠ "" ∧
      ∃ literal, line = entry.token ++ "=" ++ literal ∧
        HexByte.parse? literal = some entry.value := by
  obtain ⟨token, literal, hline, hne, htoken, hvalue⟩ := exists_cut_of_splitLast? h
  rw [List.reverse_nil, List.nil_append] at hne htoken
  rw [← htoken]
  refine ⟨by simpa using hne, String.ofList literal, ?_, ?_⟩
  · rw [← String.toList_inj, hline]
    simp
  · rw [HexByte.parse?, String.toList_ofList, hvalue]

end TableLine
end StringAssembler
