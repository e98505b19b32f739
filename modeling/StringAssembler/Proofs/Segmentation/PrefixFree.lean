import StringAssembler.Proofs.Segmentation.Greedy

/-!
# Tokens that are always taken

Whether a strategy takes a token may depend on what stands behind it.  `AlwaysTaken` holds
of the tokens that are taken wherever they stand, and a text that is put together from
such tokens is cut into them again (`greedy_flatten`).  With the shortest token first they
are the tokens that do not start with another one, with the longest first those that no
other token starts with.

In a prefix-free table every token is of both kinds.  The main statement is
`strategies_agree_iff_prefixFree`: these are exactly the tables for which the strategies
cannot be told apart by any text.  How a table becomes prefix-free is not taken up here.
-/

namespace StringAssembler

/-- A token that is taken wherever it stands, whatever follows it. -/
def AlwaysTaken (lookup : List Char → Option UInt8) (strategy : Strategy)
    (token : List Char) : Prop :=
  ∀ rest, IsTaken lookup strategy (token ++ rest) token

section Rule

variable {lookup : List Char → Option UInt8} {strategy other : Strategy}
variable {text token left : List Char} {tokens : List (List Char)}

/-! ## Single tokens -/

/-- A token stands in front of itself. -/
theorem isFront_self (hne : token ≠ []) (htoken : (lookup token).isSome) :
    IsFront lookup token token :=
  ⟨hne, List.prefix_rfl, htoken⟩

theorem IsFront.append (h : IsFront lookup text token) (rest : List Char) :
    IsFront lookup (text ++ rest) token :=
  ⟨h.ne_nil, h.starts.trans (List.prefix_append text rest), h.isToken⟩

/-- The shortest token of a token's own text is that token if it starts with no other. -/
theorem isTaken_shortest_self_iff :
    IsTaken lookup .shortest token token ↔
      IsFront lookup token token ∧ ∀ shorter, IsFront lookup token shorter → shorter = token := by
  constructor
  · intro h
    refine ⟨h.front, fun shorter hshorter => ?_⟩
    exact hshorter.starts.eq_of_length_le (h.best shorter hshorter)
  · rintro ⟨hfront, honly⟩
    refine ⟨hfront, fun shorter hshorter => ?_⟩
    rw [honly shorter hshorter]
    exact Strategy.Prefers.refl _ _

/-- The longest token of a token's own text is that token. -/
theorem isTaken_longest_self (h : IsFront lookup token token) :
    IsTaken lookup .longest token token :=
  ⟨h, fun _ hother => hother.starts.length_le⟩

/-- With the shortest token first, what follows a text has no say in the token taken from
it. -/
theorem IsTaken.append_shortest (h : IsTaken lookup .shortest text token) (rest : List Char) :
    IsTaken lookup .shortest (text ++ rest) token := by
  refine ⟨h.front.append rest, fun shorter hshorter => ?_⟩
  by_contra hlength
  -- A shorter token would not reach the end of the text, so it would stand in front of it.
  have hle : shorter.length ≤ token.length := Nat.le_of_not_le hlength
  have hstarts : shorter <+: text :=
    List.prefix_of_prefix_length_le hshorter.starts (List.prefix_append text rest)
      (Nat.le_trans hle h.front.starts.length_le)
  exact hlength (h.best shorter ⟨hshorter.ne_nil, hstarts, hshorter.isToken⟩)

theorem alwaysTaken_shortest_iff :
    AlwaysTaken lookup .shortest token ↔ IsTaken lookup .shortest token token := by
  constructor
  · intro h
    simpa using h []
  · intro h rest
    exact h.append_shortest rest

/-- With the longest token first, what follows a token matters if it may go on to a longer
one. -/
theorem alwaysTaken_longest_iff :
    AlwaysTaken lookup .longest token ↔
      IsFront lookup token token ∧
        ∀ longer, (lookup longer).isSome → token <+: longer → longer = token := by
  constructor
  · intro h
    have hfront : IsFront lookup token token := by simpa using (h []).front
    refine ⟨hfront, ?_⟩
    rintro longer hlonger ⟨rest, rfl⟩
    have hne : token ++ rest ≠ [] := by simp [hfront.ne_nil]
    have hle : (token ++ rest).length ≤ token.length :=
      (h rest).best (token ++ rest) (isFront_self hne hlonger)
    exact ((List.prefix_append token rest).eq_of_length_le hle).symm
  · rintro ⟨hfront, honly⟩ rest
    refine ⟨hfront.append rest, fun longer hlonger => ?_⟩
    by_contra hlength
    have hle : token.length ≤ longer.length := Nat.le_of_not_le hlength
    have hstarts : token <+: longer :=
      List.prefix_of_prefix_length_le (List.prefix_append token rest) hlonger.starts hle
    rw [honly longer hlonger.isToken hstarts] at hlength
    exact hlength (Strategy.Prefers.refl _ _)

/-! ## Cuts -/

/-- Nothing is left to cut of the empty text. -/
theorem greedy_nil : Greedy lookup strategy [] [] [] :=
  .stop fun _ hfront => hfront.ne_nil (List.prefix_nil.mp hfront.starts)

/-- A text of tokens that are always taken is cut into these tokens. -/
theorem greedy_flatten (h : ∀ token ∈ tokens, AlwaysTaken lookup strategy token) :
    Greedy lookup strategy tokens.flatten tokens [] := by
  induction tokens with
  | nil => exact greedy_nil
  | cons token rest ih =>
      have hfirst : IsTaken lookup strategy (token ++ rest.flatten) token :=
        h token List.mem_cons_self rest.flatten
      exact .take hfirst (ih fun later hlater => h later (List.mem_cons_of_mem _ hlater))

/-- A text is cut into a single token exactly if it is itself the token taken. -/
theorem greedy_singleton_iff :
    Greedy lookup strategy text [token] [] ↔ IsTaken lookup strategy text token ∧ token = text := by
  constructor
  · intro h
    have htext : token = text := by simpa using h.flatten_append
    refine ⟨?_, htext⟩
    cases h with
    | take htaken _ => exact htaken
  · rintro ⟨htaken, rfl⟩
    have htaken' : IsTaken lookup strategy (token ++ []) token := by
      rwa [List.append_nil]
    simpa using Greedy.take htaken' greedy_nil

/-- A cut is one of another strategy as well if that strategy would take the same tokens. -/
theorem Greedy.of_isTaken (h : Greedy lookup strategy text tokens left)
    (htaken : ∀ text token, IsTaken lookup strategy text token →
      IsTaken lookup other text token) : Greedy lookup other text tokens left := by
  induction h with
  | stop hstop => exact .stop hstop
  | take hfirst _ ih => exact .take (htaken _ _ hfirst) ih

end Rule

/-! ## Tables -/

namespace TokenTable

variable {table : TokenTable} {token : List Char}

/-- Tokens have bytes. -/
theorem exists_values_of_contains {tokens : List String}
    (h : ∀ token ∈ tokens, table.contains token) :
    ∃ values : List UInt8, tokens.map table.get? = values.map some := by
  induction tokens with
  | nil => exact ⟨[], rfl⟩
  | cons token rest ih =>
      obtain ⟨value, hvalue⟩ := contains_iff.mp (h token List.mem_cons_self)
      obtain ⟨values, hvalues⟩ := ih fun later hlater => h later (List.mem_cons_of_mem _ hlater)
      exact ⟨value :: values, by rw [List.map_cons, List.map_cons, hvalue, hvalues]⟩

theorem contains_iff_isSome_byte? {token : String} :
    table.contains token ↔ (table.byte? token.toList).isSome := by
  rw [byte?, String.ofList_toList, get?, contains, Std.TreeMap.contains_eq_isSome_getElem?]

/-- A built table has no empty token. -/
theorem Built.ne_nil (built : table.Built) (htoken : (table.byte? token).isSome) :
    token ≠ [] := by
  rintro rfl
  have hmem : "" ∈ table.tokens := Std.TreeMap.mem_iff_isSome_getElem?.mpr htoken
  exact built.measured.ne_empty "" hmem rfl

/-- No token is a proper prefix of another one. -/
def PrefixFree (table : TokenTable) : Prop :=
  ∀ token other, table.contains token → table.contains other →
    token.toList <+: other.toList → token = other

theorem PrefixFree.eq_of_starts (hfree : table.PrefixFree) {other : List Char}
    (htoken : (table.byte? token).isSome) (hother : (table.byte? other).isSome)
    (hstarts : token <+: other) : token = other := by
  have heq : String.ofList token = String.ofList other := by
    apply hfree
    · simpa [contains_iff_isSome_byte?] using htoken
    · simpa [contains_iff_isSome_byte?] using hother
    · simpa using hstarts
  exact String.ofList_inj.mp heq

instance (table : TokenTable) : Decidable table.PrefixFree :=
  decidable_of_iff
    (∀ entry ∈ table.toList, ∀ other ∈ table.toList,
      entry.1.toList <+: other.1.toList → entry.1 = other.1) (by
    constructor
    · intro h token other htoken hother
      obtain ⟨value, hvalue⟩ := contains_iff.mp htoken
      obtain ⟨value', hvalue'⟩ := contains_iff.mp hother
      exact h _ (mem_toList_iff.mpr hvalue) _ (mem_toList_iff.mpr hvalue')
    · rintro h ⟨token, value⟩ hentry ⟨other, value'⟩ hother
      exact h token other (contains_iff.mpr ⟨value, mem_toList_iff.mp hentry⟩)
        (contains_iff.mpr ⟨value', mem_toList_iff.mp hother⟩))

/-- In a prefix-free table a strategy has no choice: what stands in front is taken. -/
theorem PrefixFree.isTaken (hfree : table.PrefixFree) {text : List Char}
    (hfront : IsFront table.byte? text token) (strategy : Strategy) :
    IsTaken table.byte? strategy text token := by
  refine ⟨hfront, fun other hother => ?_⟩
  have heq : token = other := by
    rcases List.prefix_or_prefix_of_prefix hfront.starts hother.starts with hstarts | hstarts
    · exact hfree.eq_of_starts hfront.isToken hother.isToken hstarts
    · exact (hfree.eq_of_starts hother.isToken hfront.isToken hstarts).symm
  rw [heq]
  exact Strategy.Prefers.refl _ _

theorem PrefixFree.alwaysTaken (hfree : table.PrefixFree) (hne : token ≠ [])
    (htoken : (table.byte? token).isSome) (strategy : Strategy) :
    AlwaysTaken table.byte? strategy token :=
  fun rest => hfree.isTaken ((isFront_self hne htoken).append rest) strategy

end TokenTable

namespace Encoder

variable {table : TokenTable} {strategy : Strategy}

theorem encode_ofList_of_greedy (hbounded : table.Bounded) (terminator : Option UInt8)
    {text left : List Char} {tokens : List (List Char)} {values : List UInt8}
    (hcut : Greedy table.byte? strategy text tokens left)
    (hvalues : tokens.map table.byte? = values.map some) :
    encode ⟨table, strategy, terminator⟩ (String.ofList text) =
      if left = [] then .ok (values ++ terminator.toList)
      else .error ⟨tokens.flatten.length, String.ofList left⟩ := by
  rw [← String.toList_ofList (l := text)] at hcut
  exact encode_of_greedy ⟨table, strategy, terminator⟩ hbounded hcut hvalues

/-- A text of tokens that are always taken is encoded token by token. -/
theorem encode_join (hbounded : table.Bounded) (terminator : Option UInt8)
    {tokens : List String} {values : List UInt8}
    (htaken : ∀ token ∈ tokens, AlwaysTaken table.byte? strategy token.toList)
    (hvalues : tokens.map table.get? = values.map some) :
    encode ⟨table, strategy, terminator⟩ (String.join tokens) =
      .ok (values ++ terminator.toList) := by
  have hcut : Greedy table.byte? strategy (tokens.map String.toList).flatten
      (tokens.map String.toList) [] := by
    apply greedy_flatten
    simpa using htaken
  have hbytes : (tokens.map String.toList).map table.byte? = values.map some := by
    simpa [Function.comp_def, TokenTable.byte?] using hvalues
  have htext : String.join tokens = String.ofList (tokens.map String.toList).flatten := by
    rw [← List.flatMap_def, ← String.toList_join, String.ofList_toList]
  rw [htext, encode_ofList_of_greedy hbounded terminator hcut hbytes, if_pos rfl]

/-- A token alone is encoded to its own byte exactly if it is taken from its text. -/
theorem encode_token_eq_ok_iff (hbounded : table.Bounded) (terminator : Option UInt8)
    {token : List Char} {value : UInt8} (hbyte : table.byte? token = some value) :
    encode ⟨table, strategy, terminator⟩ (String.ofList token) =
        .ok ([value] ++ terminator.toList) ↔
      IsTaken table.byte? strategy token token := by
  constructor
  · intro hencode
    obtain ⟨tokens, values, left, hcut, hvalues⟩ := hbounded.exists_greedy strategy token
    rw [encode_ofList_of_greedy hbounded terminator hcut hvalues] at hencode
    split at hencode
    case isFalse => cases hencode
    case isTrue hleft =>
      subst hleft
      -- One byte comes from one token, and that token is the whole text.
      have hvalue : values = [value] := List.append_cancel_right (Except.ok.inj hencode)
      rw [hvalue, List.map_singleton, List.map_eq_singleton_iff] at hvalues
      obtain ⟨first, rfl, -⟩ := hvalues
      obtain ⟨htaken, rfl⟩ := greedy_singleton_iff.mp hcut
      exact htaken
  · intro htaken
    have hcut : Greedy table.byte? strategy token [token] [] :=
      greedy_singleton_iff.mpr ⟨htaken, rfl⟩
    have hvalues : [token].map table.byte? = [value].map some := by simp [hbyte]
    rw [encode_ofList_of_greedy hbounded terminator hcut hvalues, if_pos rfl]

/-- The strategies agree on the texts of a prefix-free table. -/
theorem encode_shortest_eq_encode_longest (hbounded : table.Bounded) (hfree : table.PrefixFree)
    (terminator : Option UInt8) (text : String) :
    encode ⟨table, .shortest, terminator⟩ text = encode ⟨table, .longest, terminator⟩ text := by
  obtain ⟨tokens, values, left, hcut, hvalues⟩ :=
    hbounded.exists_greedy .shortest text.toList
  have hcut' : Greedy table.byte? .longest text.toList tokens left :=
    hcut.of_isTaken fun _ _ htaken => hfree.isTaken htaken.front .longest
  rw [encode_of_greedy ⟨table, .shortest, terminator⟩ hbounded hcut hvalues,
    encode_of_greedy ⟨table, .longest, terminator⟩ hbounded hcut' hvalues]

end Encoder

/-- The texts of a token are enough to tell the strategies apart unless the table is
prefix-free. -/
theorem TokenTable.Built.prefixFree_of_agree {table : TokenTable} (built : table.Built)
    {terminator : Option UInt8}
    (hagree : ∀ text, Encoder.encode ⟨table, .shortest, terminator⟩ text =
      Encoder.encode ⟨table, .longest, terminator⟩ text) : table.PrefixFree := by
  intro token other htoken hother hstarts
  rw [contains_iff_isSome_byte?] at htoken hother
  obtain ⟨value, hvalue⟩ := Option.isSome_iff_exists.mp hother
  have hself : IsFront table.byte? other.toList other.toList :=
    isFront_self (built.ne_nil hother) hother
  have hlongest := (Encoder.encode_token_eq_ok_iff built.bounded terminator hvalue).mpr
    (isTaken_longest_self hself)
  rw [← hagree] at hlongest
  have hshortest := (Encoder.encode_token_eq_ok_iff built.bounded terminator hvalue).mp hlongest
  -- The shorter token would be taken, unless it is not shorter.
  have heq := (isTaken_shortest_self_iff.mp hshortest).2 token.toList
    ⟨built.ne_nil htoken, hstarts, htoken⟩
  exact String.toList_inj.mp heq

/-- The strategies give the same result for every text exactly if no token is a proper
prefix of another one.  Then every text that is put together from tokens is encoded, to
the bytes of just these tokens and the terminator. -/
theorem strategies_agree_iff_prefixFree {table : TokenTable} (built : table.Built)
    (terminator : Option UInt8) :
    ((∀ text, Encoder.encode ⟨table, .shortest, terminator⟩ text =
        Encoder.encode ⟨table, .longest, terminator⟩ text) ↔ table.PrefixFree) ∧
    (table.PrefixFree → ∀ (strategy : Strategy) (tokens : List String),
      (∀ token ∈ tokens, table.contains token) →
      ∃ values : List UInt8, tokens.map table.get? = values.map some ∧
        Encoder.encode ⟨table, strategy, terminator⟩ (String.join tokens) =
          .ok (values ++ terminator.toList)) := by
  constructor
  · constructor
    · exact built.prefixFree_of_agree
    · intro hfree text
      exact Encoder.encode_shortest_eq_encode_longest built.bounded hfree terminator text
  · intro hfree strategy tokens htokens
    obtain ⟨values, hvalues⟩ := TokenTable.exists_values_of_contains htokens
    refine ⟨values, hvalues, Encoder.encode_join built.bounded terminator ?_ hvalues⟩
    intro token htoken
    have hbyte := TokenTable.contains_iff_isSome_byte?.mp (htokens token htoken)
    exact hfree.alwaysTaken (built.ne_nil hbyte) hbyte strategy

/-- Neither of `AB` and `B` starts with the other, so the text `BABB` is cut in one way. -/
theorem strategies_agree_iff_prefixFree_twoTokens :
    let table := ((TableCompiler.start "t").addLines ["AB=1", "B=2"]).2.finish
    table.Built ∧ table.PrefixFree ∧
      (∀ text, Encoder.encode ⟨table, .shortest, some 0⟩ text =
        Encoder.encode ⟨table, .longest, some 0⟩ text) ∧
      Encoder.encode ⟨table, .longest, some 0⟩ "BABB" = .ok [2, 1, 2, 0] := by
  intro table
  have hbuilt : table.Built := .finish (.addLines (.start "t") ["AB=1", "B=2"])
  have hfree : table.PrefixFree := by decide +kernel
  obtain ⟨hagree, htokens⟩ := strategies_agree_iff_prefixFree hbuilt (some 0)
  have hcontains : ∀ token ∈ ["B", "AB", "B"], table.contains token := by decide +kernel
  obtain ⟨values, hvalues, hencode⟩ := htokens hfree .longest ["B", "AB", "B"] hcontains
  have hbytes : ["B", "AB", "B"].map table.get? = [2, 1, 2].map some := by decide +kernel
  rw [hbytes, List.map_inj_right (fun _ _ => Option.some.inj)] at hvalues
  refine ⟨hbuilt, hfree, hagree.mpr hfree, ?_⟩
  rw [← hvalues] at hencode
  exact hencode

end StringAssembler
