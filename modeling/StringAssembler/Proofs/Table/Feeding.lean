import StringAssembler.Proofs.Table.Compilation

/-!
# Feeding a compiler

A compiler is fed by calls that pass one line or many, and a call that fails is no
obstacle to the next.  `Feed.attempted` lists the lines that calls attempt: of the lines
of a call all up to the first that cannot be added, that one included.

Whatever the calls and their grouping, the compiler holds what the attempted lines say
(`HasSeen.feedAll`), so the number in an error is that of the lines attempted, and calls
that all succeed might as well have been a single one (`feedAll_hasSeen_attempted`).
-/

namespace StringAssembler

/-- The number of the line that an error names, if it names one. -/
def TableError.lineNumber? : TableError → Option Nat
  | .malformed _ lineNumber _ => some lineNumber
  | .redefined _ lineNumber _ => some lineNumber
  | .escapeClash _ _ => none

namespace TableLine

/-- A line that can be added behind others: it states a token that they do not. -/
def Fits (before : List String) (line : String) : Prop :=
  ∃ entry ∈ parse? line, entry.token ∉ tokens before

instance (before : List String) (line : String) : Decidable (Fits before line) :=
  inferInstanceAs (Decidable (∃ entry ∈ parse? line, entry.token ∉ tokens before))

/-- The lines up to the first that cannot be added behind those seen, that one included. -/
def reached (seen : List String) : List String → List String
  | [] => []
  | line :: rest =>
      if Fits seen line then line :: reached (seen ++ [line]) rest else [line]

section

variable {source line : String} {seen before after lines : List String} {e : TableError}

theorem fits_iff : Fits before line ↔ ∀ e, ¬ Fault source before line e :=
  not_fault_iff.symm

theorem Fault.lineNumber?_eq (h : Fault source before line e) :
    e.lineNumber? = some (before.length + 1) := by
  cases h <;> rfl

/-- Lines without a fault are all reached. -/
theorem reached_of_faultless
    (h : Faultless (fun before => Fault source (seen ++ before)) lines) :
    reached seen lines = lines := by
  induction lines generalizing seen with
  | nil => rfl
  | cons line rest ih =>
      obtain ⟨hline, hrest⟩ := faultless_cons_iff.mp h
      rw [List.append_nil] at hline
      rw [reached, if_pos (fits_iff.mpr hline), ih]
      simpa using hrest

/-- Nothing behind the first fault is reached. -/
theorem reached_of_firstFault
    (hbefore : Faultless (fun before => Fault source (seen ++ before)) before)
    (hfault : Fault source (seen ++ before) line e) :
    reached seen (before ++ line :: after) = before ++ [line] := by
  induction before generalizing seen with
  | nil =>
      rw [List.append_nil] at hfault
      have hfits : ¬ Fits seen line := fun h => fits_iff.mp h e hfault
      rw [List.nil_append, reached, if_neg hfits]
      rfl
  | cons first rest ih =>
      obtain ⟨hfirst, hrest⟩ := faultless_cons_iff.mp hbefore
      rw [List.append_nil] at hfirst
      rw [List.cons_append, reached, if_pos (fits_iff.mpr hfirst), ih]
      · rfl
      · simpa using hrest
      · simpa using hfault

end
end TableLine

/-! ## Calls -/

/-- A call that passes lines to a compiler. -/
inductive Feed where
  | single (line : String)
  | batch (lines : List String)
  deriving DecidableEq, Repr

namespace Feed

/-- The lines that a call passes. -/
def passed : Feed → List String
  | single line => [line]
  | batch lines => lines

/-- The lines that calls attempt, behind lines that have been attempted before. -/
def attempted (seen : List String) : List Feed → List String
  | [] => seen
  | call :: rest => attempted (seen ++ TableLine.reached seen call.passed) rest

end Feed

namespace TableCompiler

/-- Feeds a compiler by one call. -/
def feed (compiler : TableCompiler) : Feed → Except TableError Unit × TableCompiler
  | .single line => compiler.addLine line
  | .batch lines => compiler.addLines lines

/-- The compiler behind calls that are made one after the other, whatever becomes of
them. -/
def feedAll (compiler : TableCompiler) (calls : List Feed) : TableCompiler :=
  calls.foldl (fun reached call => (reached.feed call).2) compiler

/-- Calls that are made one after the other all succeed. -/
def Accepts (compiler : TableCompiler) : List Feed → Prop
  | [] => True
  | call :: rest => (compiler.feed call).1 = .ok () ∧ (compiler.feed call).2.Accepts rest

section

variable {compiler : TableCompiler} {source : String} {seen lines : List String}
  {calls : List Feed} {e : TableError}

theorem feed_eq_addLines (compiler : TableCompiler) (call : Feed) :
    compiler.feed call = compiler.addLines call.passed := by
  cases call with
  | single line => exact (compiler.addLines_singleton line).symm
  | batch lines => rfl

/-- A call leads to a compiler that has seen the lines it reaches. -/
theorem HasSeen.addLines (h : compiler.HasSeen source seen) (lines : List String) :
    (compiler.addLines lines).2.HasSeen source (seen ++ TableLine.reached seen lines) := by
  rcases faultless_or_exists_firstFault
      (fun before => TableLine.Fault source (seen ++ before)) lines with
    hlines | ⟨before, line, after, e, rfl, hbefore, hfault⟩
  · rw [TableLine.reached_of_faultless hlines]
    exact (h.addLines_of_faultless hlines).2
  · rw [TableLine.reached_of_firstFault hbefore hfault, h.addLines_of_firstFault hbefore hfault,
      ← List.append_assoc]
    exact (h.addLines_of_faultless hbefore).2.counted hfault

/-- Calls lead to a compiler that has seen the lines they attempt. -/
theorem HasSeen.feedAll (h : compiler.HasSeen source seen) (calls : List Feed) :
    (compiler.feedAll calls).HasSeen source (Feed.attempted seen calls) := by
  induction calls generalizing compiler seen with
  | nil => exact h
  | cons call rest ih =>
      have hcall := h.addLines call.passed
      rw [← feed_eq_addLines] at hcall
      exact ih hcall

/-- Calls all succeed exactly when their lines are accepted in one go. -/
theorem accepts_iff :
    compiler.Accepts calls ↔ (compiler.addLines (calls.flatMap Feed.passed)).1 = .ok () := by
  induction calls generalizing compiler with
  | nil => exact iff_of_true trivial rfl
  | cons call rest ih =>
      rw [Accepts, ih, List.flatMap_cons, addLines_append_eq_ok_iff, feed_eq_addLines]

/-- Calls that all succeed lead where their lines lead in one go. -/
theorem Accepts.addLines_eq (h : compiler.Accepts calls) :
    (compiler.addLines (calls.flatMap Feed.passed)).2 = compiler.feedAll calls := by
  induction calls generalizing compiler with
  | nil => rfl
  | cons call rest ih =>
      obtain ⟨hcall, hrest⟩ := h
      rw [feed_eq_addLines] at hcall hrest
      rw [List.flatMap_cons, addLines_append_of_ok hcall, ih hrest, TableCompiler.feedAll,
        TableCompiler.feedAll, List.foldl_cons, feed_eq_addLines]

end
end TableCompiler

/-- Whatever calls feed a compiler, and whatever becomes of them, a token has the byte on
the first attempted line that states it.  A further call fails at the first of its lines
that cannot be added: the error numbers this line among the attempted ones, and the line
changes nothing but their count.  Calls that all succeed make the table that their lines
make in one go. -/
theorem feedAll_hasSeen_attempted (source : String) (calls : List Feed) :
    let compiler := (TableCompiler.start source).feedAll calls
    let attempted := Feed.attempted [] calls
    compiler.linesSeen = attempted.length ∧
    (∀ token, compiler.tokens[token]? = TableLine.firstValue? attempted token) ∧
    (∀ call : Feed,
      let reached := TableLine.reached attempted call.passed
      match (compiler.feed call).1 with
      | .ok _ => reached = call.passed
      | .error e =>
          e.lineNumber? = some (attempted ++ reached).length ∧
          ∃ before line after, call.passed = before ++ line :: after ∧
            reached = before ++ [line] ∧
            TableLine.Fault source (attempted ++ before) line e ∧
            (compiler.addLines before).1 = .ok () ∧
            (compiler.feed call).2 =
              { (compiler.addLines before).2 with
                linesSeen := (compiler.addLines before).2.linesSeen + 1 }) ∧
    ((TableCompiler.start source).Accepts calls ↔
      TokenTable.compile source (calls.flatMap Feed.passed) false = .ok compiler.finish) := by
  intro compiler attempted
  have hseen : compiler.HasSeen source attempted :=
    (TableCompiler.hasSeen_start source).feedAll calls
  refine ⟨hseen.linesSeen_eq, hseen.getElem?_tokens, ?_, ?_⟩
  · intro call reached
    rw [TableCompiler.feed_eq_addLines]
    rcases faultless_or_exists_firstFault
        (fun before => TableLine.Fault source (attempted ++ before)) call.passed with
      hlines | ⟨before, line, after, e, hsplit, hbefore, hfault⟩
    · rw [(hseen.addLines_of_faultless hlines).1]
      exact TableLine.reached_of_faultless hlines
    · have hreached : reached = before ++ [line] := by
        simp only [reached, hsplit]
        exact TableLine.reached_of_firstFault hbefore hfault
      rw [hsplit, hseen.addLines_of_firstFault hbefore hfault]
      refine ⟨?_, before, line, after, rfl, hreached, hfault,
        (hseen.addLines_of_faultless hbefore).1, rfl⟩
      simp [hfault.lineNumber?_eq, hreached, Nat.add_assoc]
  · rw [TokenTable.compile_eq_ok_iff, ← TableCompiler.accepts_iff]
    exact ⟨fun haccepts => ⟨haccepts, congrArg TableCompiler.finish haccepts.addLines_eq⟩,
      fun h => h.1⟩

end StringAssembler
