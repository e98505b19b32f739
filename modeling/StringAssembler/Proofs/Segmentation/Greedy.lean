import Mathlib.Data.List.Basic
import StringAssembler.Encoder
import StringAssembler.Proofs.Table.Built

/-!
# Greedy segmentation

The rule by which a text is cut, stated without tables, lengths to be tried or a bound
on them.  `IsFront` holds of the non-empty tokens that a text starts with, `IsTaken` of
the one among them that a strategy takes, and `Greedy` repeats the step until no token
stands in front.  Only a look-up from characters to bytes enters.

The main statement is `encode_eq_greedy_cut`: over every table that can be built the
encoder follows this rule.  It needs one fact about the table, that no token is longer
than recorded (`TokenTable.Bounded`), because the encoder never tries a longer one.  That
the tokens taken have their bytes and add up to the text holds without it
(`segmentFrom_tokens`).

Two tables are compared by what they find in front of the rests of a text: if that is the same,
so are the cuts (`segmentFrom_eq_of_front?_eq`).
-/

namespace StringAssembler

/-! ## The rule -/

/-- A token that a text starts with, of any length but zero. -/
structure IsFront (lookup : List Char → Option UInt8) (text token : List Char) : Prop where
  ne_nil : token ≠ []
  starts : token <+: text
  isToken : (lookup token).isSome

/-- Whether a strategy takes a token of one length when it could take one of another. -/
def Strategy.Prefers : Strategy → Nat → Nat → Prop
  | .shortest, n, m => n ≤ m
  | .longest, n, m => m ≤ n

/-- The token that a strategy takes at the front of a text. -/
structure IsTaken (lookup : List Char → Option UInt8) (strategy : Strategy)
    (text token : List Char) : Prop where
  front : IsFront lookup text token
  best : ∀ other, IsFront lookup text other → strategy.Prefers token.length other.length

/-- The tokens that are taken from a text one after the other, and what is left of it
when no token stands in front any more. -/
inductive Greedy (lookup : List Char → Option UInt8) (strategy : Strategy) :
    List Char → List (List Char) → List Char → Prop
  | stop {text : List Char} (h : ∀ token, ¬ IsFront lookup text token) :
      Greedy lookup strategy text [] text
  | take {token rest : List Char} {tokens : List (List Char)} {left : List Char}
      (h : IsTaken lookup strategy (token ++ rest) token)
      (more : Greedy lookup strategy rest tokens left) :
      Greedy lookup strategy (token ++ rest) (token :: tokens) left

section Rule

variable {lookup : List Char → Option UInt8} {strategy : Strategy}
variable {text token other left left' : List Char} {tokens tokens' : List (List Char)}

theorem Strategy.Prefers.refl (strategy : Strategy) (n : Nat) : strategy.Prefers n n := by
  cases strategy with
  | shortest => exact Nat.le_refl n
  | longest => exact Nat.le_refl n

theorem Strategy.Prefers.antisymm {n m : Nat} (h : strategy.Prefers n m)
    (h' : strategy.Prefers m n) : n = m := by
  cases strategy with
  | shortest => exact Nat.le_antisymm h h'
  | longest => exact Nat.le_antisymm h' h

/-- The tokens at the front are told apart by their lengths. -/
theorem IsFront.eq_of_length_eq (h : IsFront lookup text token)
    (h' : IsFront lookup text other) (hlength : token.length = other.length) :
    token = other := by
  rw [List.prefix_iff_eq_take.mp h.starts, List.prefix_iff_eq_take.mp h'.starts, hlength]

/-- Whether a token that a text starts with is in front of it depends on its own look-up only. -/
theorem IsFront.of_isToken {lookup' : List Char → Option UInt8} (h : IsFront lookup text token)
    (htoken : (lookup' token).isSome) : IsFront lookup' text token :=
  ⟨h.ne_nil, h.starts, htoken⟩

theorem IsFront.length_bounds (h : IsFront lookup text token) :
    1 ≤ token.length ∧ token.length ≤ text.length :=
  ⟨List.length_pos_of_ne_nil h.ne_nil, h.starts.length_le⟩

/-- A prefix of a text, not the empty one, is at its front as soon as it is a token. -/
theorem isFront_take {n : Nat} (hpos : 1 ≤ n) (hle : n ≤ text.length)
    (htoken : (lookup (text.take n)).isSome) : IsFront lookup text (text.take n) where
  ne_nil := by
    intro hnil
    have := congrArg List.length hnil
    rw [List.length_take, List.length_nil] at this
    omega
  starts := List.take_prefix n text
  isToken := htoken

/-- At most one token is taken at a front. -/
theorem IsTaken.unique (h : IsTaken lookup strategy text token)
    (h' : IsTaken lookup strategy text other) : token = other :=
  h.front.eq_of_length_eq h'.front
    (Strategy.Prefers.antisymm (h.best other h'.front) (h'.best token h.front))

/-- The tokens taken and what is left give the text back. -/
theorem Greedy.flatten_append (h : Greedy lookup strategy text tokens left) :
    tokens.flatten ++ left = text := by
  induction h with
  | stop => rfl
  | take _ _ ih => rw [List.flatten_cons, List.append_assoc, ih]

/-- No token stands in front of what is left. -/
theorem Greedy.not_isFront (h : Greedy lookup strategy text tokens left) :
    ∀ token, ¬ IsFront lookup left token := by
  induction h with
  | stop hstop => exact hstop
  | take _ _ ih => exact ih

/-- The rule determines the cut. -/
theorem Greedy.unique (h : Greedy lookup strategy text tokens left)
    (h' : Greedy lookup strategy text tokens' left') : tokens' = tokens ∧ left' = left := by
  induction h generalizing tokens' left' with
  | stop hstop =>
      cases h' with
      | stop => exact ⟨rfl, rfl⟩
      | take htaken => exact absurd htaken.front (hstop _)
  | @take token rest tokens left htaken hmore ih =>
      generalize htext : token ++ rest = text at h' htaken
      cases h' with
      | stop hstop => exact absurd htaken.front (hstop _)
      | @take token' rest' _ _ htaken' hmore' =>
          obtain rfl := htaken.unique htaken'
          obtain rfl := List.append_cancel_left htext
          obtain ⟨rfl, rfl⟩ := ih hmore'
          exact ⟨rfl, rfl⟩

end Rule

/-! ## The step of a table -/

namespace Strategy

/-- Lengths are tried in the order of preference. -/
theorem pairwise_lengths (strategy : Strategy) (limit : Nat) :
    (strategy.lengths limit).Pairwise strategy.Prefers := by
  have hrange : (List.range' 1 limit).Pairwise (· ≤ ·) :=
    List.Pairwise.imp Nat.le_of_lt List.pairwise_lt_range'
  cases strategy with
  | shortest => exact hrange
  | longest => exact List.pairwise_reverse.mpr hrange

end Strategy

namespace TokenTable

/-- The byte that a table gives to characters. -/
def byte? (table : TokenTable) (token : List Char) : Option UInt8 :=
  table.get? (String.ofList token)

/-- No token is longer than the table records. -/
def Bounded (table : TokenTable) : Prop :=
  ∀ token value, table.byte? token = some value → token.length ≤ table.longest

theorem Built.bounded {table : TokenTable} (h : table.Built) : table.Bounded := by
  intro token value hbyte
  have := h.length_le hbyte
  rwa [String.length_ofList] at this

section Step

variable {table : TokenTable} {strategy : Strategy} {text token : List Char}

/-- The lengths of the tokens at the front are among those that are tried. -/
theorem Bounded.length_mem_lengths (hbounded : table.Bounded) (strategy : Strategy)
    (h : IsFront table.byte? text token) :
    token.length ∈ strategy.lengths (text.take table.longest).length := by
  obtain ⟨value, hvalue⟩ := Option.isSome_iff_exists.mp h.isToken
  have hlongest := hbounded token value hvalue
  have hlength := h.length_bounds
  rw [Strategy.mem_lengths, List.length_take]
  omega

/-- Nothing is found at a front exactly when no token stands there. -/
theorem Bounded.front?_eq_none_iff (hbounded : table.Bounded) :
    table.front? strategy text = none ↔ ∀ token, ¬ IsFront table.byte? text token := by
  unfold front?
  simp only [List.findSome?_eq_none_iff, Option.map_eq_none_iff]
  constructor
  · intro hnone token hfront
    have htried := hnone _ (hbounded.length_mem_lengths strategy hfront)
    rw [← List.prefix_iff_eq_take.mp hfront.starts] at htried
    have htoken := hfront.isToken
    rw [byte?, htried] at htoken
    cases htoken
  · intro hno n hn
    rw [Strategy.mem_lengths, List.length_take] at hn
    by_contra hsome
    exact hno _ (isFront_take hn.1 (by omega) (Option.isSome_iff_ne_none.mpr hsome))

/-- What is found at a front is a token. -/
theorem byte?_of_front? {n : Nat} {value : UInt8}
    (h : table.front? strategy text = some (n, value)) :
    table.byte? (text.take n) = some value := by
  obtain ⟨m, -, hhit⟩ := List.exists_of_findSome?_eq_some h
  obtain ⟨found, hfound, hpair⟩ := Option.map_eq_some_iff.mp hhit
  cases hpair
  exact hfound

/-- What is found at a front is the token that the rule takes there. -/
theorem Bounded.isTaken_of_front? (hbounded : table.Bounded) {n : Nat} {value : UInt8}
    (h : table.front? strategy text = some (n, value)) :
    IsTaken table.byte? strategy text (text.take n) := by
  have hbounds := front?_bounds h
  have htoken := Option.isSome_of_eq_some (byte?_of_front? h)
  obtain ⟨tried, m, untried, hlengths, hhit, hmiss⟩ := List.findSome?_eq_some_iff.mp h
  obtain ⟨_, -, hpair⟩ := Option.map_eq_some_iff.mp hhit
  obtain ⟨rfl, -⟩ := Prod.mk.inj hpair
  refine ⟨isFront_take hbounds.1 hbounds.2 htoken, fun other hother => ?_⟩
  rw [List.length_take, Nat.min_eq_left hbounds.2]
  have hmem := hbounded.length_mem_lengths strategy hother
  have hpairwise := strategy.pairwise_lengths (text.take table.longest).length
  rw [hlengths] at hmem hpairwise
  rcases List.mem_append.mp hmem with htried | hrest
  · -- A length before the hit was tried in vain, but `other` has it.
    have hnone := hmiss _ htried
    rw [← List.prefix_iff_eq_take.mp hother.starts, Option.map_eq_none_iff] at hnone
    have htoken := hother.isToken
    rw [byte?, hnone] at htoken
    cases htoken
  · rcases List.mem_cons.mp hrest with heq | huntried
    · rw [heq]
      exact Strategy.Prefers.refl _ _
    · exact (List.pairwise_cons.mp (List.pairwise_append.mp hpairwise).2.1).1 _ huntried

/-- At a front exactly the token is found that the rule takes there, by its length and its
byte. -/
theorem Bounded.front?_eq_some_iff (hbounded : table.Bounded) {n : Nat} {value : UInt8} :
    table.front? strategy text = some (n, value) ↔
      ∃ token, IsTaken table.byte? strategy text token ∧ token.length = n ∧
        table.byte? token = some value := by
  constructor
  · intro h
    refine ⟨text.take n, hbounded.isTaken_of_front? h, ?_, byte?_of_front? h⟩
    rw [List.length_take, Nat.min_eq_left (front?_bounds h).2]
  · rintro ⟨token, htaken, rfl, hvalue⟩
    cases hfront : table.front? strategy text with
    | none => exact absurd htaken.front (hbounded.front?_eq_none_iff.mp hfront token)
    | some found =>
        obtain ⟨n, value'⟩ := found
        -- The rule takes one token only, so the one that is found has its length and byte.
        obtain rfl := htaken.unique (hbounded.isTaken_of_front? hfront)
        obtain rfl := Option.some.inj (hvalue.symm.trans (byte?_of_front? hfront))
        rw [List.length_take, Nat.min_eq_left (front?_bounds hfront).2]

/-- Two tables find the same at a front if no token stands there for only the second one, and
if what the rule takes by the first one is also taken by the second, with the same byte. -/
theorem Bounded.front?_eq_of_isTaken {other : TokenTable} (hbounded : table.Bounded)
    (hbounded' : other.Bounded)
    (hfront : ∀ token, IsFront other.byte? text token → IsFront table.byte? text token)
    (htaken : ∀ token, IsTaken table.byte? strategy text token →
      IsTaken other.byte? strategy text token ∧ other.byte? token = table.byte? token) :
    table.front? strategy text = other.front? strategy text := by
  cases hfound : table.front? strategy text with
  | none =>
      rw [hbounded.front?_eq_none_iff] at hfound
      exact (hbounded'.front?_eq_none_iff.mpr fun token h => hfound token (hfront token h)).symm
  | some found =>
      obtain ⟨token, h, hlength, hvalue⟩ := hbounded.front?_eq_some_iff.mp hfound
      obtain ⟨h', hbyte⟩ := htaken token h
      exact (hbounded'.front?_eq_some_iff.mpr ⟨token, h', hlength, hbyte.trans hvalue⟩).symm

end Step
end TokenTable

/-! ## The whole cut -/

namespace Segmentation

/-- The tokens taken, as characters. -/
def tokens (cut : Segmentation) : List (List Char) :=
  cut.taken.map (·.token.toList)

/-- The bytes of the tokens taken. -/
def values (cut : Segmentation) : List UInt8 :=
  cut.taken.map TokenMatch.value

end Segmentation

namespace TokenTable

variable {table : TokenTable}

/-- The tokens taken have the bytes that are recorded with them, and they are the whole
text unless the cut got stuck. -/
theorem segmentFrom_tokens (table : TokenTable) (strategy : Strategy) (cursor : Nat)
    (text : List Char) :
    (table.segmentFrom strategy cursor text).tokens.map table.byte? =
        (table.segmentFrom strategy cursor text).values.map some ∧
      ((table.segmentFrom strategy cursor text).unmatched = none →
        (table.segmentFrom strategy cursor text).tokens.flatten = text) := by
  -- The recursion is that of the cut: along the text, each time behind a token.
  induction cursor, text using segmentFrom.induct table strategy with
  | case1 cursor text hfront =>
      rw [segmentFrom_of_front?_eq_none cursor hfront]
      refine ⟨rfl, fun hdone => ?_⟩
      by_cases htext : text = []
      · rw [htext]
        rfl
      · simp [htext] at hdone
  | case2 cursor text n value hfront ih =>
      obtain ⟨hvalues, hwhole⟩ := ih
      rw [segmentFrom_of_front?_eq_some cursor hfront]
      constructor
      · simpa [Segmentation.tokens, Segmentation.values, byte?_of_front? hfront] using hvalues
      · intro hdone
        have hrest := hwhole hdone
        simp only [Segmentation.tokens] at hrest
        simp [Segmentation.tokens, hrest]

/-- Two tables cut a text alike if they find the same at the front of every rest of it. -/
theorem segmentFrom_eq_of_front?_eq {other : TokenTable} {strategy : Strategy}
    {text : List Char}
    (hfront : ∀ rest, rest <:+ text → table.front? strategy rest = other.front? strategy rest)
    (cursor : Nat) :
    table.segmentFrom strategy cursor text = other.segmentFrom strategy cursor text := by
  induction cursor, text using segmentFrom.induct table strategy with
  | case1 cursor text hnone =>
      have hnone' := (hfront text List.suffix_rfl).symm.trans hnone
      rw [segmentFrom_of_front?_eq_none cursor hnone, segmentFrom_of_front?_eq_none cursor hnone']
  | case2 cursor text n value hsome ih =>
      have hsome' := (hfront text List.suffix_rfl).symm.trans hsome
      have hrest := ih fun rest hrest => hfront rest (hrest.trans (List.drop_suffix n text))
      rw [segmentFrom_of_front?_eq_some cursor hsome, segmentFrom_of_front?_eq_some cursor hsome',
        hrest]

/-- The segmentation of a text is the greedy cut; where it got stuck it counts the characters
taken. -/
theorem Bounded.segmentFrom_greedy (hbounded : table.Bounded) (strategy : Strategy)
    (cursor : Nat) (text : List Char) :
    ∃ left,
      Greedy table.byte? strategy text (table.segmentFrom strategy cursor text).tokens left ∧
      (table.segmentFrom strategy cursor text).unmatched =
        if left = [] then none
        else some
          ⟨cursor + (table.segmentFrom strategy cursor text).tokens.flatten.length,
            String.ofList left⟩ := by
  induction cursor, text using segmentFrom.induct table strategy with
  | case1 cursor text hfront =>
      rw [segmentFrom_of_front?_eq_none cursor hfront]
      exact ⟨text, .stop (hbounded.front?_eq_none_iff.mp hfront), rfl⟩
  | case2 cursor text n value hfront ih =>
      have htaken := hbounded.isTaken_of_front? hfront
      obtain ⟨left, hmore, hunmatched⟩ := ih
      have hsplit : text.take n ++ text.drop n = text := List.take_append_drop n text
      have hlength : (text.take n).length = n := by
        rw [List.length_take, Nat.min_eq_left (front?_bounds hfront).2]
      rw [segmentFrom_of_front?_eq_some cursor hfront]
      refine ⟨left, ?_, ?_⟩
      · have hfirst : IsTaken table.byte? strategy (text.take n ++ text.drop n)
            (text.take n) := by
          rw [hsplit]
          exact htaken
        have hcut := Greedy.take hfirst hmore
        rw [hsplit] at hcut
        simpa [Segmentation.tokens] using hcut
      · simpa [Segmentation.tokens, hlength, Nat.add_assoc] using hunmatched

/-- Every text has a greedy cut, and all tokens of it have bytes. -/
theorem Bounded.exists_greedy (hbounded : table.Bounded) (strategy : Strategy)
    (text : List Char) :
    ∃ (tokens : List (List Char)) (values : List UInt8) (left : List Char),
      Greedy table.byte? strategy text tokens left ∧
        tokens.map table.byte? = values.map some := by
  obtain ⟨left, hcut, -⟩ := hbounded.segmentFrom_greedy strategy 0 text
  exact ⟨_, _, left, hcut, (table.segmentFrom_tokens strategy 0 text).1⟩

end TokenTable

namespace Encoder

/-- A text is encoded if its cut reached the end, to the bytes of the tokens taken. -/
theorem encode_eq_ok_iff {encoder : Encoder} {text : String} {bytes : List UInt8} :
    encoder.encode text = .ok bytes ↔
      (encoder.segment text).unmatched = none ∧
        (encoder.segment text).values ++ encoder.terminator.toList = bytes := by
  unfold encode Segmentation.bytes Segmentation.values
  cases (encoder.segment text).unmatched with
  | none => simp
  | some place => simp

/-- A text is not encoded if its cut got stuck. -/
theorem encode_eq_error_iff {encoder : Encoder} {text : String} {place : Unmatched} :
    encoder.encode text = .error place ↔ (encoder.segment text).unmatched = some place := by
  unfold encode Segmentation.bytes
  cases (encoder.segment text).unmatched with
  | none => simp
  | some place' => simp

/-- The table and the strategy matter only through the cut of the text. -/
theorem encode_eq_of_segment_eq {encoder other : Encoder} {text : String}
    (hsegment : encoder.segment text = other.segment text)
    (hterminator : encoder.terminator = other.terminator) :
    encoder.encode text = other.encode text := by
  rw [encode, encode, hsegment, hterminator]

/-- The bytes or the failure that an encoder gives for a text, read off the greedy cut. -/
theorem encode_of_greedy (encoder : Encoder) (hbounded : encoder.table.Bounded)
    {text : String} {tokens : List (List Char)} {values : List UInt8} {left : List Char}
    (h : Greedy encoder.table.byte? encoder.strategy text.toList tokens left)
    (hvalues : tokens.map encoder.table.byte? = values.map some) :
    encoder.encode text =
      if left = [] then .ok (values ++ encoder.terminator.toList)
      else .error ⟨tokens.flatten.length, String.ofList left⟩ := by
  obtain ⟨left', hcut, hunmatched⟩ :=
    hbounded.segmentFrom_greedy encoder.strategy 0 text.toList
  have hbytes := (encoder.table.segmentFrom_tokens encoder.strategy 0 text.toList).1
  obtain ⟨htokens, rfl⟩ := h.unique hcut
  rw [htokens, hvalues, List.map_inj_right (fun _ _ => Option.some.inj)] at hbytes
  rw [htokens, Nat.zero_add] at hunmatched
  unfold encode Segmentation.bytes segment TokenTable.segment
  rw [hunmatched]
  by_cases hleft : left' = []
  · simp only [hleft, if_true]
    rw [hbytes]
    rfl
  · simp only [hleft, if_false]

end Encoder

/-- Encoding is greedy segmentation.  Over a table that can be built every text has
exactly one greedy cut; the encoder gives the bytes of its tokens and the terminator if
nothing is left of the text, and otherwise what is left, with the number of characters
before it.  A higher bound on the lengths that are tried changes nothing. -/
theorem encode_eq_greedy_cut {table : TokenTable} (built : table.Built)
    (strategy : Strategy) (terminator : Option UInt8) (text : String) :
    ∃ (tokens : List (List Char)) (values : List UInt8) (left : List Char),
      Greedy table.byte? strategy text.toList tokens left ∧
      (∀ tokens' left', Greedy table.byte? strategy text.toList tokens' left' →
        tokens' = tokens ∧ left' = left) ∧
      text.toList = tokens.flatten ++ left ∧
      tokens.map table.byte? = values.map some ∧
      (∀ token, ¬ IsFront table.byte? left token) ∧
      Encoder.encode ⟨table, strategy, terminator⟩ text =
        (if left = [] then .ok (values ++ terminator.toList)
          else .error ⟨tokens.flatten.length, String.ofList left⟩) ∧
      ∀ cap, table.longest ≤ cap →
        Encoder.encode ⟨{ table with longest := cap }, strategy, terminator⟩ text =
          Encoder.encode ⟨table, strategy, terminator⟩ text := by
  have hbounded := built.bounded
  obtain ⟨tokens, values, left, hcut, hvalues⟩ :=
    hbounded.exists_greedy strategy text.toList
  have hencode := Encoder.encode_of_greedy ⟨table, strategy, terminator⟩ hbounded hcut hvalues
  refine ⟨tokens, values, left, hcut, fun _ _ hcut' => hcut.unique hcut',
    hcut.flatten_append.symm, hvalues, hcut.not_isFront, hencode, ?_⟩
  intro cap hcap
  -- The rule does not know the recorded length, so the cut is that of the other table too.
  have hraised : TokenTable.Bounded { table with longest := cap } := fun token value hbyte =>
    Nat.le_trans (hbounded token value hbyte) hcap
  rw [hencode]
  exact Encoder.encode_of_greedy ⟨{ table with longest := cap }, strategy, terminator⟩
    hraised hcut hvalues

/-- The longest token is taken at the front of `ABA!`, then a shorter one, and the mark
is no token. -/
theorem encode_eq_greedy_cut_stuck :
    let table := ((TableCompiler.start "t").addLines ["A=1", "AB=2"]).2.finish
    table.Built ∧
      ∃ (tokens : List (List Char)) (left : List Char),
        Greedy table.byte? .longest "ABA!".toList tokens left ∧
        tokens.flatten.length = 3 ∧ left = ['!'] := by
  intro table
  have hbuilt : table.Built := .finish (.addLines (.start "t") ["A=1", "AB=2"])
  obtain ⟨tokens, values, left, hcut, -, -, -, -, hencode, -⟩ :=
    encode_eq_greedy_cut hbuilt .longest (some 0) "ABA!"
  have hstuck : Encoder.encode ⟨table, .longest, some 0⟩ "ABA!" = .error ⟨3, "!"⟩ := by
    decide +kernel
  refine ⟨hbuilt, tokens, left, hcut, ?_⟩
  rw [hstuck] at hencode
  split at hencode
  case isTrue => cases hencode
  case isFalse =>
    obtain ⟨hcursor, hremaining⟩ := Unmatched.mk.inj (Except.error.inj hencode)
    exact ⟨hcursor.symm, (String.ofList_inj.mp hremaining).symm⟩

end StringAssembler
