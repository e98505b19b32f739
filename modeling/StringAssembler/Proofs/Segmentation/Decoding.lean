import StringAssembler.Proofs.Segmentation.Greedy
import StringAssembler.Proofs.Text.Pieces

/-!
# Decoding

If the tokens of a table have distinct bytes, a byte names a token and bytes are decoded by
putting their tokens together (`TokenTable.decode?`).  With a terminator that stands for no
token the bytes of several texts are cut at the terminators first
(`TokenTable.decodeTexts?`).

The main statement is `decode_encode`: decoding gives back what was encoded, so no two texts
share their bytes, nor do two lists of texts.  It holds for any recorded length, also for
one that is too small, since it does not matter which tokens are taken.  Which texts can be
encoded at all is not taken up here.
-/

namespace StringAssembler

/-! ## Tokens of bytes -/

namespace TokenTable

/-- Tokens are told apart by their bytes. -/
def DistinctBytes (table : TokenTable) : Prop :=
  ∀ token other value, table.get? token = some value → table.get? other = some value →
    token = other

instance (table : TokenTable) : Decidable table.DistinctBytes :=
  decidable_of_iff
    (∀ entry ∈ table.toList, ∀ other ∈ table.toList, entry.2 = other.2 → entry.1 = other.1) (by
    constructor
    · intro h token other value htoken hother
      exact h (token, value) (mem_toList_iff.mpr htoken) (other, value)
        (mem_toList_iff.mpr hother) rfl
    · rintro h ⟨token, value⟩ hentry ⟨other, _⟩ hother rfl
      exact h token other value (mem_toList_iff.mp hentry) (mem_toList_iff.mp hother))

/-- A token with the given byte, if there is one. -/
def token? (table : TokenTable) (value : UInt8) : Option String :=
  (table.toList.find? (·.2 = value)).map Prod.fst

/-- The text that bytes stand for: the tokens of the bytes, put together in order. -/
def decode? (table : TokenTable) (bytes : List UInt8) : Option String :=
  (bytes.mapM table.token?).map String.join

/-- The texts that bytes stand for, each of them ended by the terminator. -/
def decodeTexts? (table : TokenTable) (terminator : UInt8) (bytes : List UInt8) :
    Option (List String) :=
  (bytes.splitOn terminator).dropLast.mapM table.decode?

section

variable {table : TokenTable} {value : UInt8} {token : String}

theorem DistinctBytes.token?_eq_some (hdistinct : table.DistinctBytes)
    (h : table.get? token = some value) : table.token? value = some token := by
  rw [token?, Option.map_eq_some_iff]
  cases hfind : table.toList.find? (·.2 = value) with
  | none => simpa using List.find?_eq_none.mp hfind _ (mem_toList_iff.mpr h)
  | some entry =>
      have hvalue : entry.2 = value := by simpa using List.find?_some hfind
      have hentry := mem_toList_iff.mp (List.mem_of_find?_eq_some hfind)
      rw [hvalue] at hentry
      exact ⟨entry, rfl, hdistinct _ _ _ hentry h⟩

/-- The bytes of tokens are decoded to the text of these tokens. -/
theorem DistinctBytes.decode?_eq_some (hdistinct : table.DistinctBytes) {tokens : List String}
    {values : List UInt8} (h : tokens.map table.get? = values.map some) :
    table.decode? values = some (String.join tokens) := by
  have hpairs : List.Forall₂ (fun token value => table.get? token = some value) tokens values := by
    rwa [← List.forall₂_eq_eq_eq, List.forall₂_map_left_iff, List.forall₂_map_right_iff] at h
  have htokens : List.Forall₂ (fun value token => table.token? value = some token) values tokens :=
    hpairs.flip.imp fun _ _ => hdistinct.token?_eq_some
  rw [decode?, Text.mapM_eq_some_of_forall₂ htokens]
  rfl

end
end TokenTable

/-! ## Tokens of encoded texts -/

/-- A text that is encoded is the text of some tokens, and the bytes are theirs. -/
theorem Encoder.exists_tokens_of_encode_eq_ok {encoder : Encoder} {text : String}
    {bytes : List UInt8} (h : encoder.encode text = .ok bytes) :
    ∃ (tokens : List String) (values : List UInt8), String.join tokens = text ∧
      tokens.map encoder.table.get? = values.map some ∧
      bytes = values ++ encoder.terminator.toList := by
  obtain ⟨hvalues, hwhole⟩ :
      (encoder.segment text).tokens.map encoder.table.byte? =
          (encoder.segment text).values.map some ∧
        ((encoder.segment text).unmatched = none →
          (encoder.segment text).tokens.flatten = text.toList) :=
    encoder.table.segmentFrom_tokens encoder.strategy 0 text.toList
  obtain ⟨hdone, hbytes⟩ := encode_eq_ok_iff.mp h
  refine ⟨(encoder.segment text).taken.map TokenMatch.token, _, ?_, ?_, hbytes.symm⟩
  · have htext := hwhole hdone
    rw [← String.toList_inj, String.toList_join, List.flatMap_map]
    rw [Segmentation.tokens, ← List.flatMap_def] at htext
    exact htext
  · simpa [Segmentation.tokens, TokenTable.byte?, Function.comp_def] using hvalues

/-! ## Decoding encoded texts -/

section

variable {table : TokenTable} {strategy : Strategy} {terminator : UInt8}

theorem TokenTable.DistinctBytes.decode?_of_encode (hdistinct : table.DistinctBytes)
    {text : String} {bytes : List UInt8}
    (h : Encoder.encode ⟨table, strategy, none⟩ text = .ok bytes) :
    table.decode? bytes = some text := by
  obtain ⟨tokens, values, rfl, hvalues, rfl⟩ := Encoder.exists_tokens_of_encode_eq_ok h
  simpa using hdistinct.decode?_eq_some hvalues

/-- The terminator stands at the end of encoded bytes and nowhere else. -/
theorem TokenTable.DistinctBytes.exists_decode?_of_encode (hdistinct : table.DistinctBytes)
    (hterminator : ∀ token, table.get? token ≠ some terminator) {text : String}
    {line : List UInt8}
    (h : Encoder.encode ⟨table, strategy, some terminator⟩ text = .ok line) :
    ∃ bytes, line = bytes ++ [terminator] ∧ terminator ∉ bytes ∧
      table.decode? bytes = some text := by
  obtain ⟨tokens, values, rfl, hvalues, rfl⟩ := Encoder.exists_tokens_of_encode_eq_ok h
  refine ⟨values, rfl, fun hmem => ?_, hdistinct.decode?_eq_some hvalues⟩
  have hmem' : some terminator ∈ tokens.map table.get? :=
    hvalues ▸ List.mem_map_of_mem hmem
  obtain ⟨token, -, htoken⟩ := List.mem_map.mp hmem'
  exact hterminator token htoken

/-- Encoded texts, one after the other, are decoded to these texts. -/
theorem TokenTable.DistinctBytes.decodeTexts?_flatten (hdistinct : table.DistinctBytes)
    (hterminator : ∀ token, table.get? token ≠ some terminator) {texts : List String}
    {lines : List (List UInt8)}
    (h : List.Forall₂ (fun text line =>
      Encoder.encode ⟨table, strategy, some terminator⟩ text = .ok line) texts lines) :
    table.decodeTexts? terminator lines.flatten = some texts := by
  have hparts : ∃ parts : List (List UInt8),
      lines.flatten = parts.flatMap (· ++ [terminator]) ∧
      (∀ part ∈ parts, terminator ∉ part) ∧
      List.Forall₂ (fun part text => table.decode? part = some text) parts texts := by
    induction h with
    | nil => exact ⟨[], rfl, by simp, .nil⟩
    | cons hline _ ih =>
        obtain ⟨bytes, rfl, hfree, hdecode⟩ := hdistinct.exists_decode?_of_encode hterminator hline
        obtain ⟨parts, hflatten, hparts, hdecodes⟩ := ih
        refine ⟨bytes :: parts, ?_, ?_, .cons hdecode hdecodes⟩
        · rw [List.flatten_cons, hflatten, List.flatMap_cons]
        · simpa using ⟨hfree, hparts⟩
  obtain ⟨parts, hflatten, hfree, hdecodes⟩ := hparts
  have hsplit := Text.splitOn_flatMap_concat_append hfree []
  rw [List.append_nil, List.splitOn_nil] at hsplit
  rw [decodeTexts?, hflatten, hsplit, List.dropLast_concat]
  exact Text.mapM_eq_some_of_forall₂ hdecodes

end

/-- Over a table whose tokens have distinct bytes, bytes are decoded to the text that they
encode, whatever the strategy; and with a terminator that no token stands for, encoded texts
one after the other are decoded to these texts.  So neither a text nor a list of texts
shares its bytes with another. -/
theorem decode_encode {table : TokenTable} (hdistinct : table.DistinctBytes)
    (strategy : Strategy) :
    (∀ text bytes, Encoder.encode ⟨table, strategy, none⟩ text = .ok bytes →
      table.decode? bytes = some text ∧
        ∀ other, Encoder.encode ⟨table, strategy, none⟩ other = .ok bytes → other = text) ∧
    ∀ terminator, (∀ token, table.get? token ≠ some terminator) → ∀ texts lines,
      List.Forall₂ (fun text line =>
        Encoder.encode ⟨table, strategy, some terminator⟩ text = .ok line) texts lines →
      table.decodeTexts? terminator lines.flatten = some texts ∧
        ∀ others lines', List.Forall₂ (fun text line =>
            Encoder.encode ⟨table, strategy, some terminator⟩ text = .ok line) others lines' →
          lines'.flatten = lines.flatten → others = texts := by
  constructor
  · intro text bytes hencode
    have hdecode := hdistinct.decode?_of_encode hencode
    refine ⟨hdecode, fun other hother => ?_⟩
    have hdecode' := hdistinct.decode?_of_encode hother
    rw [hdecode] at hdecode'
    exact (Option.some.inj hdecode').symm
  · intro terminator hterminator texts lines hencode
    have hdecode := hdistinct.decodeTexts?_flatten hterminator hencode
    refine ⟨hdecode, fun others lines' hother hflatten => ?_⟩
    have hdecode' := hdistinct.decodeTexts?_flatten hterminator hother
    rw [hflatten, hdecode] at hdecode'
    exact (Option.some.inj hdecode').symm

/-- Three texts over two tokens, one of them empty, and what their bytes are decoded to. -/
theorem decode_encode_threeTexts :
    let table := ((TableCompiler.start "t").addLines ["A=1", "AB=2"]).2.finish
    table.DistinctBytes ∧ (∀ token, table.get? token ≠ some 0) ∧
      List.Forall₂ (fun text line => Encoder.encode ⟨table, .longest, some 0⟩ text = .ok line)
        ["ABA", "", "AAB"] [[2, 1, 0], [0], [1, 2, 0]] ∧
      table.decodeTexts? 0 [2, 1, 0, 0, 1, 2, 0] = some ["ABA", "", "AAB"] := by
  intro table
  have hdistinct : table.DistinctBytes := by decide +kernel
  have hterminator : ∀ token, table.get? token ≠ some 0 := by
    have hlisted : ∀ entry ∈ table.toList, entry.2 ≠ 0 := by decide +kernel
    intro token htoken
    exact hlisted (token, 0) (TokenTable.mem_toList_iff.mpr htoken) rfl
  have hencode : List.Forall₂
      (fun text line => Encoder.encode ⟨table, .longest, some 0⟩ text = .ok line)
      ["ABA", "", "AAB"] [[2, 1, 0], [0], [1, 2, 0]] :=
    .cons (by decide +kernel) (.cons (by decide +kernel) (.cons (by decide +kernel) .nil))
  exact ⟨hdistinct, hterminator, hencode,
    ((decode_encode hdistinct .longest).2 0 hterminator _ _ hencode).1⟩

end StringAssembler
