import Mathlib.Data.Finset.Card
import StringAssembler.Proofs.Table.Built
import StringAssembler.Proofs.Text.FirstFault

/-!
# Attempted lines

What a compiler holds depends on the lines it has attempted, accepted or not, and on
nothing else (`TableCompiler.HasSeen`): a token stands for the byte on the first line
that states it, and every line is counted.  `TableLine.Fault` says when a line cannot be
added behind others, and with which error.

A line is added to such a compiler, or only counted (`HasSeen.addLine_of_not_fault`,
`HasSeen.addLine_of_fault`); of several lines all are added, or those up to the first
fault, which decides the error (`HasSeen.addLines_of_faultless`,
`HasSeen.addLines_of_firstFault`).  The length that is recorded beside the tokens is left to
`TokenMap.Measured`.
-/

namespace StringAssembler

/-! ## What lines state -/

namespace TableLine

/-- The entries that lines state, in the order of the lines. -/
def entries (lines : List String) : List TableLine :=
  lines.filterMap parse?

/-- The tokens that lines state, in the order of the lines. -/
def tokens (lines : List String) : List String :=
  (entries lines).map token

/-- The byte of a token on the first line that states the token. -/
def firstValue? (lines : List String) (token : String) : Option UInt8 :=
  ((entries lines).find? (·.token = token)).map value

/-- Why a line cannot be added behind others: it states no token, or one of theirs.  The
error gives the number that the line has behind them. -/
inductive Fault (source : String) (before : List String) (line : String) :
    TableError → Prop
  | malformed (h : parse? line = none) :
      Fault source before line (.malformed source (before.length + 1) line)
  | redefined {entry : TableLine} (h : parse? line = some entry)
      (hbefore : entry.token ∈ tokens before) :
      Fault source before line (.redefined source (before.length + 1) entry.token)

section

variable {source line token : String} {before lines : List String} {entry : TableLine}
  {e e' : TableError}

theorem mem_entries_iff : entry ∈ entries lines ↔ ∃ line ∈ lines, parse? line = some entry :=
  List.mem_filterMap

theorem mem_tokens_iff : token ∈ tokens lines ↔ ∃ entry ∈ entries lines, entry.token = token :=
  List.mem_map

theorem entries_concat_of_none (h : parse? line = none) :
    entries (lines ++ [line]) = entries lines := by
  simp [entries, h]

theorem entries_concat_of_some (h : parse? line = some entry) :
    entries (lines ++ [line]) = entries lines ++ [entry] := by
  simp [entries, h]

theorem tokens_concat_of_some (h : parse? line = some entry) :
    tokens (lines ++ [line]) = tokens lines ++ [entry.token] := by
  simp [tokens, entries_concat_of_some h]

theorem toFinset_tokens_concat_of_some (h : parse? line = some entry) :
    (tokens (lines ++ [line])).toFinset = insert entry.token (tokens lines).toFinset := by
  ext token
  simp [tokens_concat_of_some h]

theorem toFinset_tokens_concat_of_fault (h : Fault source lines line e) :
    (tokens (lines ++ [line])).toFinset = (tokens lines).toFinset := by
  cases h with
  | malformed h => rw [tokens, entries_concat_of_none h, tokens]
  | redefined h hbefore =>
      rw [toFinset_tokens_concat_of_some h, Finset.insert_eq_of_mem (List.mem_toFinset.mpr hbefore)]

/-- No line states a token that has no byte. -/
theorem firstValue?_eq_none_iff : firstValue? lines token = none ↔ token ∉ tokens lines := by
  simp [firstValue?, mem_tokens_iff]

/-- A line that states a known token, or none, changes no byte. -/
theorem firstValue?_concat_of_fault (h : Fault source lines line e) (token : String) :
    firstValue? (lines ++ [line]) token = firstValue? lines token := by
  cases h with
  | malformed h => rw [firstValue?, entries_concat_of_none h, firstValue?]
  | @redefined entry h hbefore =>
      rw [firstValue?, entries_concat_of_some h, List.find?_append, firstValue?]
      cases hfind : (entries lines).find? (·.token = token) with
      | some found => rfl
      | none =>
          -- The token asked for is not stated before, so it is not that of the line.
          have hother : entry.token ≠ token := by
            rintro rfl
            obtain ⟨earlier, hearlier, htoken⟩ := mem_tokens_iff.mp hbefore
            simpa [htoken] using List.find?_eq_none.mp hfind earlier hearlier
          simp [hother]

/-- A line that states a new token gives this token its byte. -/
theorem firstValue?_concat_of_some (h : parse? line = some entry)
    (hnew : entry.token ∉ tokens lines) (token : String) :
    firstValue? (lines ++ [line]) token =
      if entry.token = token then some entry.value else firstValue? lines token := by
  rw [firstValue?, entries_concat_of_some h, List.find?_append, Option.map_or]
  by_cases htoken : entry.token = token
  · subst htoken
    have hnone := firstValue?_eq_none_iff.mpr hnew
    rw [firstValue?] at hnone
    simp [hnone]
  · simp [htoken, firstValue?]

/-- A line has at most one fault. -/
theorem Fault.unique (h : Fault source before line e) (h' : Fault source before line e') :
    e = e' := by
  cases h with
  | malformed hnone =>
      cases h' with
      | malformed => rfl
      | redefined hsome =>
          rw [hnone] at hsome
          cases hsome
  | redefined hsome =>
      cases h' with
      | malformed hnone =>
          rw [hsome] at hnone
          cases hnone
      | redefined hsome' =>
          rw [hsome] at hsome'
          cases hsome'
          rfl

/-- A line without a fault states a new token. -/
theorem not_fault_iff :
    (∀ e, ¬ Fault source before line e) ↔
      ∃ entry, parse? line = some entry ∧ entry.token ∉ tokens before := by
  constructor
  · intro hnone
    cases hparse : parse? line with
    | none => exact absurd (.malformed hparse) (hnone _)
    | some entry => exact ⟨entry, rfl, fun hbefore => hnone _ (.redefined hparse hbefore)⟩
  · rintro ⟨entry, hparse, hnew⟩ e hfault
    cases hfault with
    | malformed hnone =>
        rw [hparse] at hnone
        cases hnone
    | redefined hsome hbefore =>
        rw [hparse] at hsome
        cases hsome
        exact hnew hbefore

end
end TableLine

/-! ## What a compiler holds -/

theorem TokenMap.getElem?_insert (tokens : TokenMap) (token other : String) (value : UInt8) :
    (tokens.insert token value)[other]? = if token = other then some value else tokens[other]? := by
  rw [Std.TreeMap.getElem?_insert]
  simp only [Std.compare_eq_iff_eq]

theorem TokenMap.size_insert_of_notMem {tokens : TokenMap} {token : String}
    (h : token ∉ tokens) (value : UInt8) :
    (tokens.insert token value).size = tokens.size + 1 := by
  have hcontains : tokens.contains token = false := by
    rwa [← Bool.not_eq_true, Std.TreeMap.contains_iff_mem]
  rw [Std.TreeMap.size_insert, hcontains]
  rfl

namespace TableCompiler

/-- What a compiler holds that has attempted lines, whether or not they were accepted. -/
structure HasSeen (compiler : TableCompiler) (source : String) (seen : List String) :
    Prop where
  source_eq : compiler.source = source
  linesSeen_eq : compiler.linesSeen = seen.length
  getElem?_tokens : ∀ token, compiler.tokens[token]? = TableLine.firstValue? seen token
  size_tokens : compiler.tokens.size = (TableLine.tokens seen).toFinset.card

theorem hasSeen_start (source : String) : (start source).HasSeen source [] where
  source_eq := rfl
  linesSeen_eq := rfl
  getElem?_tokens token := by simp [start, TableLine.firstValue?, TableLine.entries]
  size_tokens := rfl

section

variable {compiler : TableCompiler} {source line token : String} {seen lines : List String}
  {e : TableError}

theorem HasSeen.mem_tokens_iff (h : compiler.HasSeen source seen) :
    token ∈ compiler.tokens ↔ token ∈ TableLine.tokens seen := by
  rw [Std.TreeMap.mem_iff_isSome_getElem?, h.getElem?_tokens, ← not_iff_not,
    Bool.not_eq_true, Option.isSome_eq_false_iff, Option.isNone_iff_eq_none]
  exact TableLine.firstValue?_eq_none_iff

/-- A faulty line is only counted; its error is that of its fault. -/
theorem HasSeen.addLine_of_fault (h : compiler.HasSeen source seen)
    (hfault : TableLine.Fault source seen line e) :
    compiler.addLine line =
      (.error e, { compiler with linesSeen := compiler.linesSeen + 1 }) := by
  rcases compiler.addLine_cases line with
    ⟨hnone, heq⟩ | ⟨entry, hentry, ⟨hmem, heq⟩ | ⟨hnew, heq⟩⟩
  · have hfault' : TableLine.Fault source seen line _ := .malformed hnone
    rw [heq, h.source_eq, h.linesSeen_eq, hfault.unique hfault']
  · have hfault' : TableLine.Fault source seen line _ :=
      .redefined hentry (h.mem_tokens_iff.mp hmem)
    rw [heq, h.source_eq, h.linesSeen_eq, hfault.unique hfault']
  · rw [h.mem_tokens_iff] at hnew
    exact absurd hfault (TableLine.not_fault_iff.mpr ⟨entry, hentry, hnew⟩ e)

/-- Behind a faulty line a compiler has seen one line more. -/
theorem HasSeen.counted (h : compiler.HasSeen source seen)
    (hfault : TableLine.Fault source seen line e) :
    { compiler with linesSeen := compiler.linesSeen + 1 }.HasSeen source (seen ++ [line]) where
  source_eq := h.source_eq
  linesSeen_eq := by simp [h.linesSeen_eq]
  getElem?_tokens token := by
    rw [TableLine.firstValue?_concat_of_fault hfault]
    exact h.getElem?_tokens token
  size_tokens := by
    rw [TableLine.toFinset_tokens_concat_of_fault hfault]
    exact h.size_tokens

/-- A line without a fault is accepted, and gives its new token its byte. -/
theorem HasSeen.addLine_of_not_fault (h : compiler.HasSeen source seen)
    (hnone : ∀ e, ¬ TableLine.Fault source seen line e) :
    (compiler.addLine line).1 = .ok () ∧
      (compiler.addLine line).2.HasSeen source (seen ++ [line]) := by
  obtain ⟨entry, hentry, hnew⟩ := TableLine.not_fault_iff.mp hnone
  rcases compiler.addLine_cases line with
    ⟨hmalformed, -⟩ | ⟨entry', hentry', ⟨hmem, -⟩ | ⟨hmem, heq⟩⟩
  · rw [hentry] at hmalformed
    cases hmalformed
  · rw [hentry] at hentry'
    cases hentry'
    exact absurd (h.mem_tokens_iff.mp hmem) hnew
  · rw [hentry] at hentry'
    cases hentry'
    rw [heq]
    refine ⟨rfl, h.source_eq, ?_, ?_, ?_⟩
    · simp [h.linesSeen_eq]
    · intro token
      rw [TokenMap.getElem?_insert, TableLine.firstValue?_concat_of_some hentry hnew,
        h.getElem?_tokens]
    · have hnotMem : entry.token ∉ (TableLine.tokens seen).toFinset := by
        rwa [List.mem_toFinset]
      rw [TokenMap.size_insert_of_notMem hmem, h.size_tokens,
        TableLine.toFinset_tokens_concat_of_some hentry, Finset.card_insert_of_notMem hnotMem]

/-! ## Lines up to the first failure -/

theorem addLines_cons_of_ok (h : (compiler.addLine line).1 = .ok ()) :
    compiler.addLines (line :: lines) = (compiler.addLine line).2.addLines lines := by
  rw [addLines]
  split
  case h_1 next hnext => rw [hnext]
  case h_2 e next hnext =>
    rw [hnext] at h
    cases h

theorem addLines_cons_of_error (h : (compiler.addLine line).1 = .error e) :
    compiler.addLines (line :: lines) = (.error e, (compiler.addLine line).2) := by
  rw [addLines]
  split
  case h_1 next hnext =>
    rw [hnext] at h
    cases h
  case h_2 e' next hnext =>
    rw [hnext] at h
    cases h
    rw [hnext]

/-- Lines behind others are fed only if the others are accepted. -/
theorem addLines_append (compiler : TableCompiler) (before lines : List String) :
    compiler.addLines (before ++ lines) =
      match (compiler.addLines before).1 with
      | .ok _ => (compiler.addLines before).2.addLines lines
      | .error _ => compiler.addLines before := by
  induction before generalizing compiler with
  | nil => rfl
  | cons line rest ih =>
      rw [List.cons_append]
      cases hline : (compiler.addLine line).1 with
      | ok =>
          rw [addLines_cons_of_ok hline, addLines_cons_of_ok hline]
          exact ih _
      | error e =>
          rw [addLines_cons_of_error hline, addLines_cons_of_error hline]

theorem addLines_append_of_ok {before : List String}
    (hbefore : (compiler.addLines before).1 = .ok ()) :
    compiler.addLines (before ++ lines) = (compiler.addLines before).2.addLines lines := by
  rw [addLines_append, hbefore]

/-- Lines are accepted in one go exactly when their two parts are, one after the other. -/
theorem addLines_append_eq_ok_iff {before : List String} :
    (compiler.addLines (before ++ lines)).1 = .ok () ↔
      (compiler.addLines before).1 = .ok () ∧
        ((compiler.addLines before).2.addLines lines).1 = .ok () := by
  rw [addLines_append]
  cases hbefore : (compiler.addLines before).1 with
  | ok => simp
  | error e => simp [hbefore]

theorem addLines_singleton (compiler : TableCompiler) (line : String) :
    compiler.addLines [line] = compiler.addLine line := by
  cases hline : (compiler.addLine line).1 with
  | ok =>
      rw [addLines_cons_of_ok hline, addLines, ← hline]
  | error e => rw [addLines_cons_of_error hline, ← hline]

/-- Lines without a fault are all accepted. -/
theorem HasSeen.addLines_of_faultless (h : compiler.HasSeen source seen)
    (hlines : Faultless (fun before => TableLine.Fault source (seen ++ before)) lines) :
    (compiler.addLines lines).1 = .ok () ∧
      (compiler.addLines lines).2.HasSeen source (seen ++ lines) := by
  induction lines generalizing compiler seen with
  | nil =>
      rw [List.append_nil]
      exact ⟨rfl, h⟩
  | cons line rest ih =>
      obtain ⟨hline, hrest⟩ := faultless_cons_iff.mp hlines
      rw [List.append_nil] at hline
      obtain ⟨hok, hnext⟩ := h.addLine_of_not_fault hline
      rw [addLines_cons_of_ok hok, List.append_cons]
      apply ih hnext
      simpa using hrest

/-- The first fault among lines decides the failure, and its line is only counted. -/
theorem HasSeen.addLines_of_firstFault (h : compiler.HasSeen source seen)
    {before after : List String}
    (hbefore : Faultless (fun before => TableLine.Fault source (seen ++ before)) before)
    (hfault : TableLine.Fault source (seen ++ before) line e) :
    compiler.addLines (before ++ line :: after) =
      (.error e,
        { (compiler.addLines before).2 with
          linesSeen := (compiler.addLines before).2.linesSeen + 1 }) := by
  obtain ⟨hok, hseen⟩ := h.addLines_of_faultless hbefore
  have hline := hseen.addLine_of_fault hfault
  have herror : ((compiler.addLines before).2.addLine line).1 = .error e := by
    rw [hline]
  rw [addLines_append_of_ok hok, addLines_cons_of_error herror, hline]

theorem HasSeen.addLines_eq_ok_iff (h : compiler.HasSeen source seen) :
    (compiler.addLines lines).1 = .ok () ↔
      Faultless (fun before => TableLine.Fault source (seen ++ before)) lines := by
  refine ⟨fun hok => ?_, fun hlines => (h.addLines_of_faultless hlines).1⟩
  rcases faultless_or_exists_firstFault
      (fun before => TableLine.Fault source (seen ++ before)) lines with
    hlines | ⟨before, line, after, e, rfl, hbefore, hfault⟩
  · exact hlines
  · rw [h.addLines_of_firstFault hbefore hfault] at hok
    cases hok

theorem HasSeen.addLines_eq_error_iff (h : compiler.HasSeen source seen) :
    (compiler.addLines lines).1 = .error e ↔
      ∃ number,
        FirstFault (fun before => TableLine.Fault source (seen ++ before)) lines number e := by
  constructor
  · intro herror
    rcases faultless_or_exists_firstFault
        (fun before => TableLine.Fault source (seen ++ before)) lines with
      hlines | ⟨before, line, after, e', rfl, hbefore, hfault⟩
    · rw [(h.addLines_of_faultless hlines).1] at herror
      cases herror
    · rw [h.addLines_of_firstFault hbefore hfault] at herror
      cases herror
      exact ⟨_, firstFault_iff.mpr ⟨before, line, after, rfl, rfl, hbefore, hfault⟩⟩
  · rintro ⟨number, hfirst⟩
    obtain ⟨before, line, after, rfl, -, hbefore, hfault⟩ := firstFault_iff.mp hfirst
    rw [h.addLines_of_firstFault hbefore hfault]

end
end TableCompiler
end StringAssembler
