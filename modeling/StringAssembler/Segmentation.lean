import StringAssembler.Table.Basic

/-!
# Segmentation of a text into tokens

A text is cut into tokens from left to right.  At each place the strategy decides
between the tokens that start there: the shortest or the longest is taken, and what
was taken is never given back.  The cut ends at the end of the text or at a place
where no token starts; both outcomes keep the tokens taken before.

Bytes, diagnostics and log messages are all read off one segmentation, so they
cannot disagree.
-/

namespace StringAssembler

/-- Which of the tokens that start at a place is taken. -/
inductive Strategy where
  | shortest
  | longest
  deriving DecidableEq, Repr

namespace Strategy

/-- The token lengths from one up to a limit, in the order in which they are tried. -/
def lengths (limit : Nat) : Strategy → List Nat
  | .shortest => List.range' 1 limit
  | .longest => (List.range' 1 limit).reverse

/-- Every length that is tried lies between one and the limit. -/
theorem mem_lengths {strategy : Strategy} {limit n : Nat} :
    n ∈ strategy.lengths limit ↔ 1 ≤ n ∧ n ≤ limit := by
  cases strategy <;> simp [lengths, List.mem_range'_1] <;> omega

end Strategy

/-- A token taken from a text: the byte it stands for and the place where it starts,
counted in characters. -/
structure TokenMatch where
  token : String
  value : UInt8
  cursor : Nat
  deriving DecidableEq, Repr

/-- A place in a text where no token starts, and the text from there on. -/
structure Unmatched where
  cursor : Nat
  remaining : String
  deriving DecidableEq, Repr

/-- The diagnostic for a place where no token starts. -/
def Unmatched.message (e : Unmatched) : String :=
  "No table entry matches at character " ++ toString e.cursor ++ ": \"" ++
    e.remaining ++ "\""

/-- The tokens taken from a text in order, and the place where the cut got stuck
unless it reached the end. -/
structure Segmentation where
  taken : List TokenMatch
  unmatched : Option Unmatched
  deriving DecidableEq, Repr

namespace TokenTable

/-- The length and the byte of the token taken at the front of a text.  A token lies
within the first characters of the text, as many as the longest token has. -/
def front? (table : TokenTable) (strategy : Strategy) (text : List Char) :
    Option (Nat × UInt8) :=
  (strategy.lengths (text.take table.longest).length).findSome? fun n =>
    (table.get? (String.ofList (text.take n))).map fun value => (n, value)

/-- A token taken at the front of a text is not empty and lies within the text. -/
theorem front?_bounds {table : TokenTable} {strategy : Strategy} {text : List Char}
    {n : Nat} {value : UInt8} (h : table.front? strategy text = some (n, value)) :
    1 ≤ n ∧ n ≤ text.length := by
  obtain ⟨m, hm, hhit⟩ := List.exists_of_findSome?_eq_some h
  obtain ⟨_, _, hpair⟩ := Option.map_eq_some_iff.mp hhit
  obtain ⟨rfl, _⟩ := Prod.mk.inj hpair
  have := Strategy.mem_lengths.mp hm
  rw [List.length_take] at this
  omega

/-- Cuts the rest of a text that starts at the given place. -/
def segmentFrom (table : TokenTable) (strategy : Strategy) (cursor : Nat)
    (text : List Char) : Segmentation :=
  match _front : table.front? strategy text with
  | none =>
      ⟨[], if text = [] then none else some ⟨cursor, String.ofList text⟩⟩
  | some (n, value) =>
      let rest := table.segmentFrom strategy (cursor + n) (text.drop n)
      ⟨⟨String.ofList (text.take n), value, cursor⟩ :: rest.taken, rest.unmatched⟩
termination_by text.length
decreasing_by
  have := front?_bounds _front
  simp only [List.length_drop]
  omega

/-- The cut ends where no token starts, and it got stuck there if text is left. -/
theorem segmentFrom_of_front?_eq_none {table : TokenTable} {strategy : Strategy}
    {text : List Char} (cursor : Nat) (h : table.front? strategy text = none) :
    table.segmentFrom strategy cursor text =
      ⟨[], if text = [] then none else some ⟨cursor, String.ofList text⟩⟩ := by
  rw [segmentFrom]
  split
  · rfl
  · simp_all

/-- A token at the front is taken, and the cut goes on behind it. -/
theorem segmentFrom_of_front?_eq_some {table : TokenTable} {strategy : Strategy}
    {text : List Char} {n : Nat} {value : UInt8} (cursor : Nat)
    (h : table.front? strategy text = some (n, value)) :
    table.segmentFrom strategy cursor text =
      ⟨⟨String.ofList (text.take n), value, cursor⟩ ::
          (table.segmentFrom strategy (cursor + n) (text.drop n)).taken,
        (table.segmentFrom strategy (cursor + n) (text.drop n)).unmatched⟩ := by
  rw [segmentFrom]
  split
  · simp_all
  · simp_all

/-- Cuts a text into tokens of the table. -/
def segment (table : TokenTable) (strategy : Strategy) (text : String) : Segmentation :=
  table.segmentFrom strategy 0 text.toList

end TokenTable
end StringAssembler
