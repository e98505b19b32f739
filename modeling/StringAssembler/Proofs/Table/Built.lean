import Std.Data.TreeMap.Lemmas
import StringAssembler.Table.Compiler

/-!
# Tables that can be built

A compiler is fed by single lines and by lists of lines, and any of these calls may
fail; `TableCompiler.Reachable` holds of whatever such calls lead to.  A table can be
built if it is the empty one or if a reachable compiler is finished to it, with or
without the escape tokens (`TokenTable.Built`).

The main statement is the invariant `TokenMap.Measured` between the tokens and the
length that is recorded beside them: no token is empty, none is longer than recorded,
and the recorded length is the length of a token unless it is zero.  One lemma says
what registering a token does to it; lines, lists of lines and escape tokens only
register tokens.
-/

namespace StringAssembler

theorem escapeToken_ne_empty (value : UInt8) : escapeToken value ≠ "" := by
  intro hempty
  simpa [escapeToken] using congrArg String.toList hempty

/-! ## The recorded length -/

/-- What the length recorded beside the tokens says about them. -/
structure TokenMap.Measured (tokens : TokenMap) (longest : Nat) : Prop where
  ne_empty : ∀ token ∈ tokens, token ≠ ""
  length_le : ∀ token ∈ tokens, token.length ≤ longest
  attained : longest ≠ 0 → ∃ token ∈ tokens, token.length = longest

theorem TokenMap.measured_empty : TokenMap.Measured ∅ 0 where
  ne_empty token h := by simp at h
  length_le token h := by simp at h
  attained h := absurd rfl h

/-- One more token moves the recorded length up to its own, or leaves it. -/
theorem TokenMap.Measured.insert {tokens : TokenMap} {longest : Nat} {token : String}
    (h : TokenMap.Measured tokens longest) (hne : token ≠ "") (value : UInt8) :
    TokenMap.Measured (tokens.insert token value) (max longest token.length) where
  ne_empty other hmem := by
    rcases Std.TreeMap.mem_insert.mp hmem with heq | hold
    · exact Std.compare_eq_iff_eq.mp heq ▸ hne
    · exact h.ne_empty other hold
  length_le other hmem := by
    rcases Std.TreeMap.mem_insert.mp hmem with heq | hold
    · exact Std.compare_eq_iff_eq.mp heq ▸ Nat.le_max_right _ _
    · exact Nat.le_trans (h.length_le other hold) (Nat.le_max_left _ _)
  attained hpos := by
    -- Either the new token is a longest one, or an old one of that length is still there.
    by_cases hle : longest ≤ token.length
    · exact ⟨token, by simp, (Nat.max_eq_right hle).symm⟩
    · obtain ⟨other, hmem, hlength⟩ := h.attained (by omega)
      refine ⟨other, Std.TreeMap.mem_insert.mpr (Or.inr hmem), ?_⟩
      rw [hlength, Nat.max_eq_left (by omega)]

namespace TableCompiler

/-- The invariant of a compiler. -/
def Measured (compiler : TableCompiler) : Prop :=
  TokenMap.Measured compiler.tokens compiler.longest

theorem measured_start (source : String) : (start source).Measured :=
  TokenMap.measured_empty

/-- Registering succeeds with a token that is new, and adds that token only. -/
theorem register?_eq_some_iff {compiler next : TableCompiler} {token : String}
    {value : UInt8} :
    compiler.register? token value = some next ↔
      token ∉ compiler.tokens ∧
        next =
          { compiler with
            tokens := compiler.tokens.insert token value
            longest := max compiler.longest token.length } := by
  unfold register?
  split
  case isTrue h => simp [Std.TreeMap.mem_iff_contains.mpr h]
  case isFalse h =>
    rw [← Std.TreeMap.mem_iff_contains] at h
    simp [h, eq_comm]

theorem register?_eq_none_iff {compiler : TableCompiler} {token : String} {value : UInt8} :
    compiler.register? token value = none ↔ token ∈ compiler.tokens := by
  unfold register?
  rw [← Std.TreeMap.contains_iff_mem]
  split
  case isTrue h => simp [h]
  case isFalse h => simp [h]

theorem Measured.register? {compiler next : TableCompiler} {token : String}
    {value : UInt8} (h : compiler.Measured) (hne : token ≠ "")
    (hnext : compiler.register? token value = some next) : next.Measured := by
  obtain ⟨-, rfl⟩ := register?_eq_some_iff.mp hnext
  exact TokenMap.Measured.insert h hne value

/-- A line that states no token, or one that is there, is only counted and reported; any
other line is counted and its token registered. -/
theorem addLine_cases (compiler : TableCompiler) (line : String) :
    (TableLine.parse? line = none ∧
      compiler.addLine line =
        (.error (.malformed compiler.source (compiler.linesSeen + 1) line),
          { compiler with linesSeen := compiler.linesSeen + 1 })) ∨
    ∃ entry, TableLine.parse? line = some entry ∧
      (entry.token ∈ compiler.tokens ∧
          compiler.addLine line =
            (.error (.redefined compiler.source (compiler.linesSeen + 1) entry.token),
              { compiler with linesSeen := compiler.linesSeen + 1 }) ∨
        entry.token ∉ compiler.tokens ∧
          compiler.addLine line =
            (.ok (),
              { compiler with
                tokens := compiler.tokens.insert entry.token entry.value
                longest := max compiler.longest entry.token.length
                linesSeen := compiler.linesSeen + 1 })) := by
  unfold addLine register?
  cases hparse : TableLine.parse? line with
  | none => exact Or.inl ⟨rfl, rfl⟩
  | some entry =>
      refine Or.inr ⟨entry, rfl, ?_⟩
      simp only [Std.TreeMap.contains_iff_mem]
      by_cases hmem : entry.token ∈ compiler.tokens
      · exact Or.inl ⟨hmem, by simp only [if_pos hmem]⟩
      · exact Or.inr ⟨hmem, by simp only [if_neg hmem]⟩

theorem Measured.addLine {compiler : TableCompiler} (h : compiler.Measured)
    (line : String) : (compiler.addLine line).2.Measured := by
  rcases compiler.addLine_cases line with
    ⟨-, heq⟩ | ⟨entry, hentry, ⟨-, heq⟩ | ⟨-, heq⟩⟩
  · rw [heq]
    exact h
  · rw [heq]
    exact h
  · rw [heq]
    exact TokenMap.Measured.insert h (TableLine.exists_literal_of_parse? hentry).1 _

theorem Measured.addLines {compiler : TableCompiler} (h : compiler.Measured)
    (lines : List String) : (compiler.addLines lines).2.Measured := by
  induction lines generalizing compiler with
  | nil => exact h
  | cons line rest ih =>
      have hline := h.addLine line
      rw [TableCompiler.addLines]
      split
      case h_1 next hnext =>
        rw [hnext] at hline
        exact ih hline
      case h_2 e next hnext =>
        -- The lines behind a failure are not fed, but the failing one has been counted.
        rw [hnext] at hline
        exact hline

theorem Measured.addEscapes {compiler next : TableCompiler} (h : compiler.Measured)
    {values : List UInt8} (hnext : compiler.addEscapes values = .ok next) :
    next.Measured := by
  induction values generalizing compiler with
  | nil =>
      cases hnext
      exact h
  | cons value rest ih =>
      rw [TableCompiler.addEscapes] at hnext
      split at hnext
      case h_1 => cases hnext
      case h_2 extended hextended =>
        exact ih (h.register? (escapeToken_ne_empty value) hextended) hnext

/-! ## Reachable compilers -/

/-- The compilers to which feeding a new one leads.  A call that fails leaves a compiler
that can be fed further, so it counts as well. -/
inductive Reachable : TableCompiler → Prop
  | start (source : String) : Reachable (TableCompiler.start source)
  | addLine {compiler : TableCompiler} (h : Reachable compiler) (line : String) :
      Reachable (compiler.addLine line).2
  | addLines {compiler : TableCompiler} (h : Reachable compiler) (lines : List String) :
      Reachable (compiler.addLines lines).2

theorem Reachable.measured {compiler : TableCompiler} (h : compiler.Reachable) :
    compiler.Measured := by
  induction h with
  | start source => exact measured_start source
  | addLine _ line ih => exact ih.addLine line
  | addLines _ lines ih => exact ih.addLines lines

/-- Escape tokens are added before a compiler is finished, or nothing is finished. -/
theorem finishWithEscapes_eq_ok_iff {compiler : TableCompiler} {table : TokenTable} :
    compiler.finishWithEscapes = .ok table ↔
      ∃ extended, compiler.addEscapes allBytes = .ok extended ∧
        table = { extended.finish with hasEscapes := true } := by
  unfold finishWithEscapes
  split
  case h_1 extended h => simp [h, eq_comm]
  case h_2 e h => simp [h]

end TableCompiler

/-! ## Built tables -/

namespace TokenTable

/-- The tables that can be built: the empty one and whatever reachable compilers are
finished to. -/
inductive Built : TokenTable → Prop
  | empty : Built TokenTable.empty
  | finish {compiler : TableCompiler} (h : compiler.Reachable) : Built compiler.finish
  | finishWithEscapes {compiler : TableCompiler} {table : TokenTable}
      (h : compiler.Reachable) (hfinish : compiler.finishWithEscapes = .ok table) :
      Built table

/-- The recorded length of a built table is that of its longest token. -/
theorem Built.measured {table : TokenTable} (h : table.Built) :
    TokenMap.Measured table.tokens table.longest := by
  cases h with
  | empty => exact TokenMap.measured_empty
  | finish h => exact h.measured
  | finishWithEscapes h hfinish =>
      obtain ⟨extended, hextended, rfl⟩ := TableCompiler.finishWithEscapes_eq_ok_iff.mp hfinish
      exact h.measured.addEscapes hextended

/-- A table that lines make is built, with the escape tokens or without them. -/
theorem Built.of_compile {source : String} {lines : List String} {escapes : Bool}
    {table : TokenTable} (h : TokenTable.compile source lines escapes = .ok table) :
    table.Built := by
  have hreach := (TableCompiler.Reachable.start source).addLines lines
  unfold TokenTable.compile at h
  split at h
  case h_1 compiler hlines =>
    rw [hlines] at hreach
    cases escapes with
    | false =>
        cases h
        exact .finish hreach
    | true => exact .finishWithEscapes hreach h
  case h_2 => cases h

/-- A table lists exactly its tokens, with their bytes. -/
theorem mem_toList_iff {table : TokenTable} {token : String} {value : UInt8} :
    (token, value) ∈ table.toList ↔ table.get? token = some value :=
  Std.TreeMap.mem_toList_iff_getElem?_eq_some

theorem contains_iff {table : TokenTable} {token : String} :
    table.contains token ↔ ∃ value, table.get? token = some value := by
  rw [← Option.isSome_iff_exists, get?, contains, Std.TreeMap.contains_eq_isSome_getElem?]

/-- A token of a built table is no longer than the table records. -/
theorem Built.length_le {table : TokenTable} (h : table.Built) {token : String}
    {value : UInt8} (hget : table.get? token = some value) :
    token.length ≤ table.longest := by
  refine h.measured.length_le token (Std.TreeMap.mem_iff_isSome_getElem?.mpr ?_)
  rw [show table.tokens[token]? = some value from hget]
  rfl

/-- A table with tokens records a length. -/
theorem Built.longest_pos {table : TokenTable} (built : table.Built)
    (hne : table.isEmpty = false) : 0 < table.longest := by
  obtain ⟨token, hmem⟩ := Std.TreeMap.isEmpty_eq_false_iff_exists_mem.mp hne
  have hlength := built.measured.length_le token hmem
  have hpos : token.length ≠ 0 := by
    rw [ne_eq, String.length_eq_zero_iff]
    exact built.measured.ne_empty token hmem
  omega

end TokenTable
end StringAssembler
