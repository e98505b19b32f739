import StringAssembler.Proofs.Segmentation.PrefixFree
import StringAssembler.Proofs.Table.Escapes

/-!
# Raw bytes by escape tokens

Over a table with the escape tokens every byte can be written by its escape token, if
nothing gets in the way.  What can get in the way depends on the strategy: with the
shortest token first a user token that an escape token starts with (`IsEscapeStart`), with
the longest first a longer user token that starts with an escape token.

The main statement is `escapes_encode_raw_bytes`.  With the shortest token first its
condition is exact; with the longest first it is only sufficient, because the longer token
matters only where its text goes on like that.
-/

namespace StringAssembler

/-- The text that writes bytes by their escape tokens. -/
def escapeText (bytes : List UInt8) : String :=
  String.join (bytes.map escapeToken)

/-- A text that is not empty and that an escape token starts with, but no escape token
itself. -/
def IsEscapeStart (token : String) : Prop :=
  token ≠ "" ∧ ∃ value, token.toList <+: (escapeToken value).toList ∧ token ≠ escapeToken value

/-! ## The start of an escape token -/

/-- An escape token that starts with another one is that one. -/
theorem escapeToken_eq_of_starts {value other : UInt8}
    (h : (escapeToken value).toList <+: (escapeToken other).toList) :
    escapeToken value = escapeToken other := by
  have hlength : (escapeToken value).toList.length = (escapeToken other).toList.length := by
    rw [length_escapeToken, length_escapeToken]
  exact String.toList_inj.mp (h.eq_of_length hlength)

/-- An escape token starts with a backslash, with `\h`, and with `\h` and one digit. -/
theorem isEscapeStart_iff {token : String} :
    IsEscapeStart token ↔
      token = "\\" ∨ token = "\\h" ∨
        ∃ digit, HexByte.IsUpperDigit digit ∧ token.toList = ['\\', 'h', digit] := by
  constructor
  · rintro ⟨hne, value, hstarts, hother⟩
    obtain ⟨high, low, hspelling, hhigh, -⟩ := exists_escapeToken_iff.mp ⟨value, rfl⟩
    rw [ne_eq, ← String.toList_inj, hspelling] at hother
    rw [hspelling] at hstarts
    simp only [List.prefix_cons_iff, List.prefix_nil] at hstarts
    -- Of the five prefixes of an escape token the first and the last are excluded.
    rcases hstarts with hnil | ⟨_, htoken, rfl | ⟨_, rfl, rfl | ⟨_, rfl, rfl | ⟨_, rfl, rfl⟩⟩⟩⟩
    · exact absurd (String.toList_eq_nil_iff.mp hnil) hne
    · exact Or.inl (String.toList_inj.mp htoken)
    · exact Or.inr (Or.inl (String.toList_inj.mp htoken))
    · exact Or.inr (Or.inr ⟨high, hhigh, htoken⟩)
    · exact absurd htoken hother
  · intro h
    -- Any digits may follow, for instance zeros.
    have hzero : HexByte.IsUpperDigit '0' := by decide
    have hstart : ∀ digit, HexByte.IsUpperDigit digit → token ≠ "" →
        token.toList <+: ['\\', 'h', digit] → IsEscapeStart token := by
      intro digit hdigit hne hstarts
      have hspelling : IsEscapeSpelling (String.ofList ['\\', 'h', digit, '0']) :=
        ⟨digit, '0', String.toList_ofList, hdigit, hzero⟩
      obtain ⟨value, hvalue⟩ := exists_escapeToken_iff.mpr hspelling
      refine ⟨hne, value, ?_, ?_⟩
      · rw [hvalue, String.toList_ofList]
        exact hstarts.trans (List.prefix_append ['\\', 'h', digit] ['0'])
      · rintro rfl
        have hlength := hstarts.length_le
        rw [length_escapeToken] at hlength
        exact absurd hlength (by simp)
    rcases h with rfl | rfl | ⟨digit, hdigit, htoken⟩
    · exact hstart '0' hzero (by decide) (by decide)
    · exact hstart '0' hzero (by decide) (by decide)
    · refine hstart digit hdigit ?_ (by rw [htoken])
      rintro rfl
      cases htoken

/-! ## Escape tokens among other tokens -/

namespace TableCompiler.EscapedTo

variable {compiler : TableCompiler} {table : TokenTable}

/-- Every token of the table is a user token or an escape token. -/
theorem mem_or_eq_escapeToken (h : compiler.EscapedTo table) {token : List Char}
    (htoken : (table.byte? token).isSome) :
    String.ofList token ∈ compiler.tokens ∨ ∃ value, (escapeToken value).toList = token := by
  by_contra hnone
  rw [not_or, not_exists] at hnone
  have hget := h.get?_of_notMem (String.ofList token) hnone.1 fun value heq =>
    hnone.2 value (by rw [heq, String.toList_ofList])
  rw [TokenTable.byte?, hget] at htoken
  cases htoken

theorem byte?_escapeToken (h : compiler.EscapedTo table) (value : UInt8) :
    table.byte? (escapeToken value).toList = some value := by
  rw [TokenTable.byte?, String.ofList_toList]
  exact h.get?_escapeToken value

theorem isSome_byte?_of_mem (h : compiler.EscapedTo table) {token : String}
    (hmem : token ∈ compiler.tokens) : (table.byte? token.toList).isSome := by
  rw [TokenTable.byte?, String.ofList_toList, h.get?_of_mem token hmem]
  exact Std.TreeMap.mem_iff_isSome_getElem?.mp hmem

theorem isFront_escapeToken (h : compiler.EscapedTo table) (value : UInt8) :
    IsFront table.byte? (escapeToken value).toList (escapeToken value).toList := by
  refine isFront_self ?_ (Option.isSome_of_eq_some (h.byte?_escapeToken value))
  exact List.ne_nil_of_length_eq_add_one (length_escapeToken value)

/-- With the shortest token first the escape tokens are taken exactly if none starts with
a user token. -/
theorem forall_alwaysTaken_shortest_iff (h : compiler.EscapedTo table) :
    (∀ value, AlwaysTaken table.byte? .shortest (escapeToken value).toList) ↔
      ∀ token ∈ compiler.tokens, ¬ IsEscapeStart token := by
  simp only [alwaysTaken_shortest_iff, isTaken_shortest_self_iff]
  constructor
  · rintro htaken token hmem ⟨hne, value, hstarts, hother⟩
    have hfront : IsFront table.byte? (escapeToken value).toList token.toList :=
      ⟨by simpa using hne, hstarts, h.isSome_byte?_of_mem hmem⟩
    exact hother (String.toList_inj.mp ((htaken value).2 token.toList hfront))
  · intro hfree value
    refine ⟨h.isFront_escapeToken value, fun shorter hshorter => ?_⟩
    rcases h.mem_or_eq_escapeToken hshorter.isToken with huser | ⟨other, rfl⟩
    · by_contra hother
      refine hfree _ huser ⟨by simpa using hshorter.ne_nil, value, ?_, ?_⟩
      · simpa using hshorter.starts
      · rintro heq
        rw [← heq, String.toList_ofList] at hother
        exact hother rfl
    · rw [escapeToken_eq_of_starts hshorter.starts]

/-- With the longest token first an escape token is taken if no longer user token starts
with it. -/
theorem alwaysTaken_longest (h : compiler.EscapedTo table)
    (hfree : ∀ token ∈ compiler.tokens, 4 < token.length →
      ∀ value, ¬ (escapeToken value).toList <+: token.toList) (value : UInt8) :
    AlwaysTaken table.byte? .longest (escapeToken value).toList := by
  refine alwaysTaken_longest_iff.mpr ⟨h.isFront_escapeToken value, fun longer hlonger hstarts => ?_⟩
  rcases h.mem_or_eq_escapeToken hlonger with huser | ⟨other, rfl⟩
  · have hlength : ¬ 4 < longer.length := by
      intro hlt
      refine hfree _ huser (by rwa [String.length_ofList]) value ?_
      rwa [String.toList_ofList]
    have hle : longer.length ≤ (escapeToken value).toList.length := by
      rw [length_escapeToken]
      exact Nat.le_of_not_lt hlength
    exact (hstarts.eq_of_length_le hle).symm
  · rw [escapeToken_eq_of_starts hstarts]

end TableCompiler.EscapedTo

/-! ## Encoding raw bytes -/

section

variable {compiler : TableCompiler} {table : TokenTable} {strategy : Strategy}

/-- Escape tokens that are always taken write any bytes. -/
theorem encode_escapeText (hbounded : table.Bounded) (hescaped : compiler.EscapedTo table)
    (terminator : Option UInt8)
    (htaken : ∀ value, AlwaysTaken table.byte? strategy (escapeToken value).toList)
    (bytes : List UInt8) :
    Encoder.encode ⟨table, strategy, terminator⟩ (escapeText bytes) =
      .ok (bytes ++ terminator.toList) := by
  apply Encoder.encode_join hbounded terminator
  · intro token htoken
    obtain ⟨value, -, rfl⟩ := List.mem_map.mp htoken
    exact htaken value
  · simp [hescaped.get?_escapeToken]

/-- An escape token alone is encoded to its byte exactly if it is taken from its text. -/
theorem encode_escapeToken_eq_ok_iff (hbounded : table.Bounded)
    (hescaped : compiler.EscapedTo table) (terminator : Option UInt8) (value : UInt8) :
    Encoder.encode ⟨table, strategy, terminator⟩ (escapeToken value) =
        .ok ([value] ++ terminator.toList) ↔
      IsTaken table.byte? strategy (escapeToken value).toList (escapeToken value).toList := by
  rw [← Encoder.encode_token_eq_ok_iff hbounded terminator (hescaped.byte?_escapeToken value),
    String.ofList_toList]

end

/-- How raw bytes are reached over a table with escape tokens.  With the shortest token
first all sequences of bytes can be written by their escape tokens exactly if no user token
is the start of an escape token.  With the longest first a single escape token always
gives its byte, and all sequences can be written if no user token of more than four
characters starts with an escape token. -/
theorem escapes_encode_raw_bytes {compiler : TableCompiler} {table : TokenTable}
    (hreach : compiler.Reachable) (hfinish : compiler.finishWithEscapes = .ok table)
    (terminator : Option UInt8) :
    ((∀ bytes, Encoder.encode ⟨table, .shortest, terminator⟩ (escapeText bytes) =
        .ok (bytes ++ terminator.toList)) ↔
      ∀ token ∈ compiler.tokens, ¬ IsEscapeStart token) ∧
    (∀ token, IsEscapeStart token ↔
      token = "\\" ∨ token = "\\h" ∨
        ∃ digit, HexByte.IsUpperDigit digit ∧ token.toList = ['\\', 'h', digit]) ∧
    (∀ value, Encoder.encode ⟨table, .longest, terminator⟩ (escapeToken value) =
      .ok ([value] ++ terminator.toList)) ∧
    ((∀ token ∈ compiler.tokens, 4 < token.length →
        ∀ value, ¬ (escapeToken value).toList <+: token.toList) →
      ∀ bytes, Encoder.encode ⟨table, .longest, terminator⟩ (escapeText bytes) =
        .ok (bytes ++ terminator.toList)) := by
  have hbounded : table.Bounded := (TokenTable.Built.finishWithEscapes hreach hfinish).bounded
  have hescaped := TableCompiler.escapedTo_of_finishWithEscapes hfinish
  refine ⟨?_, fun token => isEscapeStart_iff, ?_, ?_⟩
  · rw [← hescaped.forall_alwaysTaken_shortest_iff]
    constructor
    · intro hencode value
      -- Already a single byte needs its escape token to be taken.
      have hone := hencode [value]
      rw [show escapeText [value] = escapeToken value by simp [escapeText]] at hone
      exact alwaysTaken_shortest_iff.mpr
        ((encode_escapeToken_eq_ok_iff hbounded hescaped terminator value).mp hone)
    · exact encode_escapeText hbounded hescaped terminator
  · intro value
    exact (encode_escapeToken_eq_ok_iff hbounded hescaped terminator value).mpr
      (isTaken_longest_self (hescaped.isFront_escapeToken value))
  · intro hfree
    exact encode_escapeText hbounded hescaped terminator (hescaped.alwaysTaken_longest hfree)

/-- A backslash among the user tokens shadows the escape tokens if the shortest token is
taken first, and does nothing to them if the longest one is. -/
theorem escapes_encode_raw_bytes_backslash :
    let compiler := ((TableCompiler.start "t").addLines ["A=41", "\\=5C"]).2
    compiler.Reachable ∧ ∃ table, compiler.finishWithEscapes = .ok table ∧
      (¬ ∀ bytes, Encoder.encode ⟨table, .shortest, none⟩ (escapeText bytes) = .ok bytes) ∧
      ∀ bytes, Encoder.encode ⟨table, .longest, none⟩ (escapeText bytes) = .ok bytes := by
  intro compiler
  have hreach : compiler.Reachable := .addLines (.start "t") ["A=41", "\\=5C"]
  have hlengths : ∀ token ∈ compiler.tokens, token.length = 1 := by
    have hkeys : ∀ token ∈ compiler.tokens.keys, token.length = 1 := by decide +kernel
    exact fun token hmem => hkeys token (Std.TreeMap.mem_keys.mpr hmem)
  have hnew : ∀ value, escapeToken value ∉ compiler.tokens := by
    intro value hmem
    have hone := hlengths (escapeToken value) hmem
    rw [← String.length_toList, length_escapeToken] at hone
    cases hone
  obtain ⟨table, hfinish⟩ := TableCompiler.exists_finishWithEscapes_eq_ok_iff.mpr hnew
  obtain ⟨hshortest, -, -, hlongest⟩ := escapes_encode_raw_bytes hreach hfinish none
  simp only [Option.toList_none, List.append_nil] at hshortest hlongest
  refine ⟨hreach, table, hfinish, ?_, hlongest ?_⟩
  · rw [hshortest]
    intro hfree
    exact hfree "\\" (by decide +kernel) (isEscapeStart_iff.mpr (Or.inl rfl))
  · intro token hmem hlong
    rw [hlengths token hmem] at hlong
    exact absurd hlong (by decide)

end StringAssembler
