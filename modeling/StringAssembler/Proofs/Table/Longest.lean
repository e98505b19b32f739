import StringAssembler.Proofs.Table.Equality
import StringAssembler.Proofs.Table.Feeding

/-!
# The longest token

A compiler keeps the length of its longest token beside the tokens and never counts again.
Here it is counted again: in every compiler that calls lead to, whatever became of the calls,
and in every table that can be built, the recorded length is the greatest length among the
tokens, zero if there are none, and no token is empty (`TokenMap.Recorded`).

So the recorded length follows from the tokens, and equality of tables, which compares it as
well, is agreement on the escape tokens and on every look-up (`recorded_length_is_exact`).
-/

namespace StringAssembler

/-! ## Counting again -/

/-- Tokens that are not empty, and the length of the longest, zero if there are none. -/
structure TokenMap.Recorded (tokens : TokenMap) (longest : Nat) : Prop where
  ne_empty : ∀ token ∈ tokens, token ≠ ""
  longest_eq : longest = (tokens.keys.map String.length).max?.getD 0

theorem TokenMap.Measured.recorded {tokens : TokenMap} {longest : Nat}
    (h : Measured tokens longest) : Recorded tokens longest where
  ne_empty := h.ne_empty
  longest_eq := by
    apply Nat.le_antisymm
    · by_cases hzero : longest = 0
      · omega
      · obtain ⟨token, hmem, hlength⟩ := h.attained hzero
        rw [← hlength]
        exact List.le_max?_getD_of_mem (List.mem_map_of_mem (Std.TreeMap.mem_keys.mpr hmem))
    · cases hmax : (tokens.keys.map String.length).max? with
      | none => exact Nat.zero_le longest
      | some greatest =>
          obtain ⟨token, hkey, rfl⟩ := List.mem_map.mp (List.max?_mem hmax)
          exact h.length_le token (Std.TreeMap.mem_keys.mp hkey)

/-! ## Calls -/

namespace TableCompiler

theorem Reachable.feed {compiler : TableCompiler} (h : compiler.Reachable) (call : Feed) :
    (compiler.feed call).2.Reachable := by
  cases call with
  | single line => exact h.addLine line
  | batch lines => exact h.addLines lines

theorem Reachable.feedAll {compiler : TableCompiler} (h : compiler.Reachable)
    (calls : List Feed) : (compiler.feedAll calls).Reachable := by
  induction calls generalizing compiler with
  | nil => exact h
  | cons call rest ih => exact ih (h.feed call)

theorem feedAll_concat (compiler : TableCompiler) (calls : List Feed) (call : Feed) :
    compiler.feedAll (calls ++ [call]) = ((compiler.feedAll calls).feed call).2 := by
  simp only [TableCompiler.feedAll, List.foldl_append, List.foldl_cons, List.foldl_nil]

/-- The reachable compilers are those that some calls lead to. -/
theorem reachable_iff_exists_feedAll {compiler : TableCompiler} :
    compiler.Reachable ↔ ∃ source calls, (start source).feedAll calls = compiler := by
  constructor
  · intro h
    induction h with
    | start source => exact ⟨source, [], rfl⟩
    | addLine _ line ih =>
        obtain ⟨source, calls, rfl⟩ := ih
        exact ⟨source, calls ++ [.single line], feedAll_concat _ calls _⟩
    | addLines _ lines ih =>
        obtain ⟨source, calls, rfl⟩ := ih
        exact ⟨source, calls ++ [.batch lines], feedAll_concat _ calls _⟩
  · rintro ⟨source, calls, rfl⟩
    exact (Reachable.start source).feedAll calls

end TableCompiler

/-- In every compiler that calls lead to and in every table that can be built no token is
empty, and the recorded length is that of the longest token, zero without tokens.  Two such
tables are equal exactly if both or neither have had the escape tokens added and every text
has the same byte in both, if any.  The recorded length never tells them apart: it is the
same wherever the look-ups agree. -/
theorem recorded_length_is_exact :
    (∀ source calls,
      let compiler := (TableCompiler.start source).feedAll calls
      TokenMap.Recorded compiler.tokens compiler.longest ∧
        compiler.finish.Built ∧
        ∀ table, compiler.finishWithEscapes = .ok table → table.Built) ∧
    (default : TokenTable).Built ∧
    (∀ table : TokenTable, table.Built → TokenMap.Recorded table.tokens table.longest) ∧
    ∀ table other : TokenTable, table.Built → other.Built →
      ((table == other) = true ↔
        table.hasEscapes = other.hasEscapes ∧ ∀ token, table.get? token = other.get? token) ∧
      ((∀ token, table.get? token = other.get? token) → table.longest = other.longest) := by
  refine ⟨fun source calls => ?_, .empty, fun table built => built.measured.recorded, ?_⟩
  · intro compiler
    have hreach : compiler.Reachable :=
      TableCompiler.reachable_iff_exists_feedAll.mpr ⟨source, calls, rfl⟩
    exact ⟨hreach.measured.recorded, .finish hreach,
      fun table htable => .finishWithEscapes hreach htable⟩
  · intro table other built built'
    exact ⟨built.beq_iff built', fun hget => built.longest_eq built' hget⟩

/-- Lines in another order, and two calls that fail: the tables are equal, and what is longer in
the lines that were not accepted has left no trace in the recorded length. -/
theorem recorded_length_is_exact_failedCalls :
    let table := ((TableCompiler.start "t").feedAll
      [.single "AB=1", .single "long line", .batch ["C=3", "AB=2", "DEF=4"]]).finish
    let other := ((TableCompiler.start "u").feedAll [.batch ["C=0x03", "AB=01"]]).finish
    (table == other) = true ∧ (∀ token, table.get? token = other.get? token) ∧
      table.longest = 2 := by
  intro table other
  have built : table.Built := (recorded_length_is_exact.1 "t" _).2.1
  have built' : other.Built := (recorded_length_is_exact.1 "u" _).2.1
  have hequal : (table == other) = true := by decide +kernel
  obtain ⟨hiff, -⟩ := recorded_length_is_exact.2.2.2 table other built built'
  exact ⟨hequal, (hiff.mp hequal).2, by decide +kernel⟩

end StringAssembler
