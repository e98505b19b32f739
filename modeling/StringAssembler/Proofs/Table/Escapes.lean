import StringAssembler.Proofs.HexByte.Literals
import StringAssembler.Proofs.Table.Attempts

/-!
# Escape tokens

The escape tokens are exactly the texts of a backslash, `h` and two upper-case digits
(`exists_escapeToken_iff`), one for each byte.  Adding them to a compiler fails at the
least byte whose escape token is there already; otherwise every token keeps its byte and
every escape token gets its own (`finishWithEscapes_adds_escapes`).

Texts that only resemble an escape token, with a lower-case digit or of another length,
are tokens like any other.
-/

namespace StringAssembler

/-! ## The spelling of escape tokens -/

/-- A digit as escape tokens have it, of upper case if it is a letter. -/
def HexByte.IsUpperDigit (c : Char) : Prop :=
  '0' ≤ c ∧ c ≤ '9' ∨ 'A' ≤ c ∧ c ≤ 'F'

instance : DecidablePred HexByte.IsUpperDigit := fun c =>
  inferInstanceAs (Decidable ('0' ≤ c ∧ c ≤ '9' ∨ 'A' ≤ c ∧ c ≤ 'F'))

/-- A text with the spelling of an escape token. -/
def IsEscapeSpelling (token : String) : Prop :=
  ∃ high low, token.toList = ['\\', 'h', high, low] ∧
    HexByte.IsUpperDigit high ∧ HexByte.IsUpperDigit low

theorem HexByte.isUpperDigit_upperDigit : ∀ n < 16, IsUpperDigit (upperDigit n) := by
  decide

theorem HexByte.exists_upperDigit_of_isUpperDigit {c : Char} (h : IsUpperDigit c) :
    ∃ n < 16, upperDigit n = c := by
  rcases h with ⟨hlow, hhigh⟩ | ⟨hlow, hhigh⟩
  · have hlast : c.toNat ≤ '0'.toNat + 9 := hhigh
    refine ⟨c.toNat - '0'.toNat, by omega, ?_⟩
    rw [upperDigit, if_pos (by omega), ofNat_distance_add hlow]
  · have hlast : c.toNat ≤ 'A'.toNat + 5 := hhigh
    refine ⟨c.toNat - 'A'.toNat + 10, by omega, ?_⟩
    rw [upperDigit, if_neg (by omega), Nat.add_sub_cancel, ofNat_distance_add hlow]

/-- The escape tokens are exactly the texts with their spelling. -/
theorem exists_escapeToken_iff {token : String} :
    (∃ value, escapeToken value = token) ↔ IsEscapeSpelling token := by
  constructor
  · rintro ⟨value, rfl⟩
    have hvalue := value.toNat_lt
    exact ⟨_, _, String.toList_ofList, HexByte.isUpperDigit_upperDigit _ (by omega),
      HexByte.isUpperDigit_upperDigit _ (by omega)⟩
  · rintro ⟨high, low, htoken, hhigh, hlow⟩
    obtain ⟨n, hn, rfl⟩ := HexByte.exists_upperDigit_of_isUpperDigit hhigh
    obtain ⟨m, hm, rfl⟩ := HexByte.exists_upperDigit_of_isUpperDigit hlow
    refine ⟨UInt8.ofNat (16 * n + m), ?_⟩
    have hvalue : (UInt8.ofNat (16 * n + m)).toNat = 16 * n + m := by
      rw [UInt8.toNat_ofNat']
      omega
    have hdiv : (16 * n + m) / 16 = n := by omega
    have hmod : (16 * n + m) % 16 = m := by omega
    rw [← String.toList_inj, escapeToken, String.toList_ofList, htoken, HexByte.upperDigits,
      hvalue, hdiv, hmod]

example : ¬ IsEscapeSpelling "\\hff" := by
  rintro ⟨high, low, htoken, hhigh, -⟩
  cases htoken
  exact absurd hhigh (by decide)

theorem length_escapeToken (value : UInt8) : (escapeToken value).toList.length = 4 := by
  simp [escapeToken, HexByte.upperDigits]

theorem escapeToken_injective : Function.Injective escapeToken := by
  intro a b h
  have hdigits := congrArg String.toList h
  simp only [escapeToken, String.toList_ofList, List.cons.injEq, true_and] at hdigits
  have hvalue := congrArg HexByte.ofDigits? hdigits
  rw [HexByte.ofDigits?_upperDigits, HexByte.ofDigits?_upperDigits] at hvalue
  exact Option.some.inj hvalue

namespace TableCompiler

/-! ## Adding escape tokens -/

theorem mem_allBytes (value : UInt8) : value ∈ allBytes :=
  List.mem_map.mpr ⟨value.toNat, List.mem_range.mpr value.toNat_lt, UInt8.ofNat_toNat⟩

theorem pairwise_allBytes : allBytes.Pairwise (· < ·) := by
  refine List.pairwise_map.mpr (List.pairwise_lt_range.imp_of_mem ?_)
  intro n m hn hm hlt
  rw [List.mem_range] at hn hm
  rw [UInt8.lt_iff_toNat_lt, UInt8.toNat_ofNat', UInt8.toNat_ofNat']
  omega

variable {compiler : TableCompiler} {values before after : List UInt8} {value : UInt8}

/-- A new escape token is added, and the rest behind it. -/
theorem addEscapes_cons_of_new (hnew : escapeToken value ∉ compiler.tokens) :
    ∃ next : TableCompiler, next.source = compiler.source ∧
      next.tokens = compiler.tokens.insert (escapeToken value) value ∧
      ∀ rest, compiler.addEscapes (value :: rest) = next.addEscapes rest := by
  refine ⟨{ compiler with
    tokens := compiler.tokens.insert (escapeToken value) value
    longest := max compiler.longest (escapeToken value).length }, rfl, rfl, fun rest => ?_⟩
  rw [addEscapes, register?_eq_some_iff.mpr ⟨hnew, rfl⟩]

/-- The escape token of another byte is there when it has been there before. -/
theorem escapeToken_mem_insert_iff {tokens : TokenMap} {other : UInt8} (hne : value ≠ other) :
    escapeToken other ∈ tokens.insert (escapeToken value) value ↔
      escapeToken other ∈ tokens := by
  rw [Std.TreeMap.mem_insert, Std.compare_eq_iff_eq, escapeToken_injective.eq_iff]
  simp [hne]

/-- Escape tokens that are all new are added, and nothing else changes. -/
theorem addEscapes_of_new (hnodup : values.Nodup)
    (hnew : ∀ value ∈ values, escapeToken value ∉ compiler.tokens) :
    ∃ extended, compiler.addEscapes values = .ok extended ∧
      extended.tokens.size = compiler.tokens.size + values.length ∧
      (∀ value ∈ values, extended.tokens[escapeToken value]? = some value) ∧
      ∀ token, (∀ value ∈ values, escapeToken value ≠ token) →
        extended.tokens[token]? = compiler.tokens[token]? := by
  induction values generalizing compiler with
  | nil => exact ⟨compiler, rfl, rfl, by simp, fun _ _ => rfl⟩
  | cons value rest ih =>
      obtain ⟨hvalue, hrest⟩ := List.nodup_cons.mp hnodup
      have hfirst : escapeToken value ∉ compiler.tokens := hnew value List.mem_cons_self
      obtain ⟨next, -, htokens, hnext⟩ := addEscapes_cons_of_new hfirst
      have hnewRest : ∀ other ∈ rest, escapeToken other ∉ next.tokens := by
        intro other hother
        have hne : value ≠ other := fun heq => hvalue (heq ▸ hother)
        rw [htokens, escapeToken_mem_insert_iff hne]
        exact hnew other (List.mem_cons_of_mem _ hother)
      obtain ⟨extended, hextended, hsize, hescapes, hkept⟩ := ih hrest hnewRest
      refine ⟨extended, (hnext rest).trans hextended, ?_, ?_, ?_⟩
      · rw [hsize, htokens, TokenMap.size_insert_of_notMem hfirst, List.length_cons]
        omega
      · intro other hother
        rcases List.mem_cons.mp hother with rfl | hother
        · -- The tokens that follow are those of other bytes.
          rw [hkept, htokens, TokenMap.getElem?_insert, if_pos rfl]
          intro later hlater heq
          exact hvalue (escapeToken_injective heq ▸ hlater)
        · exact hescapes other hother
      · intro token htoken
        rw [hkept token fun later hlater => htoken later (List.mem_cons_of_mem _ hlater),
          htokens, TokenMap.getElem?_insert, if_neg (htoken value List.mem_cons_self)]

/-- The first escape token that is there already is reported. -/
theorem addEscapes_of_clash (hnodup : (before ++ value :: after).Nodup)
    (hnew : ∀ earlier ∈ before, escapeToken earlier ∉ compiler.tokens)
    (hclash : escapeToken value ∈ compiler.tokens) :
    compiler.addEscapes (before ++ value :: after) =
      .error (.escapeClash compiler.source (escapeToken value)) := by
  induction before generalizing compiler with
  | nil => rw [List.nil_append, addEscapes, register?_eq_none_iff.mpr hclash]
  | cons first rest ih =>
      rw [List.cons_append, List.nodup_cons] at hnodup
      obtain ⟨hfirst, hrest⟩ := hnodup
      obtain ⟨next, hsource, htokens, hnext⟩ :=
        addEscapes_cons_of_new (hnew first List.mem_cons_self)
      have hne : ∀ other ∈ rest ++ value :: after, first ≠ other :=
        fun other hother heq => hfirst (heq ▸ hother)
      rw [List.cons_append, hnext, ih hrest, hsource]
      · intro earlier hearlier
        rw [htokens, escapeToken_mem_insert_iff (hne earlier (by simp [hearlier]))]
        exact hnew earlier (List.mem_cons_of_mem _ hearlier)
      · rw [htokens, escapeToken_mem_insert_iff (hne value (by simp))]
        exact hclash

/-! ## Finishing with escape tokens -/

/-- The bytes before one in the list of all bytes are those that are smaller. -/
theorem mem_before_iff {smaller : UInt8} (hsplit : allBytes = before ++ value :: after) :
    smaller ∈ before ↔ smaller < value := by
  have hpairwise := pairwise_allBytes
  rw [hsplit, List.pairwise_append, List.pairwise_cons] at hpairwise
  obtain ⟨-, ⟨hafter, -⟩, hbefore⟩ := hpairwise
  refine ⟨fun h => hbefore smaller h value List.mem_cons_self, fun hlt => ?_⟩
  have hmem := mem_allBytes smaller
  rw [hsplit, List.mem_append, List.mem_cons] at hmem
  rcases hmem with hmem | rfl | hmem
  · exact hmem
  · exact absurd hlt (UInt8.lt_irrefl smaller)
  · exact absurd hlt (UInt8.lt_asymm (hafter smaller hmem))

theorem nodup_allBytes : allBytes.Nodup :=
  pairwise_allBytes.imp UInt8.ne_of_lt

/-- No escape token is there, or there is one of a least byte. -/
theorem new_or_exists_least (compiler : TableCompiler) :
    (∀ value, escapeToken value ∉ compiler.tokens) ∨
      ∃ value, escapeToken value ∈ compiler.tokens ∧
        ∀ smaller < value, escapeToken smaller ∉ compiler.tokens := by
  cases hfind : allBytes.find? fun value => compiler.tokens.contains (escapeToken value) with
  | none =>
      left
      intro value hmem
      exact List.find?_eq_none.mp hfind value (mem_allBytes value)
        (Std.TreeMap.contains_iff_mem.mpr hmem)
  | some value =>
      right
      obtain ⟨hclash, before, after, hsplit, hnew⟩ := List.find?_eq_some_iff_append.mp hfind
      refine ⟨value, Std.TreeMap.contains_iff_mem.mp hclash, ?_⟩
      intro smaller hlt hmem
      simpa [Std.TreeMap.contains_iff_mem.mpr hmem] using
        hnew smaller ((mem_before_iff hsplit).mpr hlt)

/-- What a table holds that a compiler is finished to with the escape tokens: the tokens
of the compiler with their bytes, the escape token of every byte, and nothing else. -/
structure EscapedTo (compiler : TableCompiler) (table : TokenTable) : Prop where
  hasEscapes : table.hasEscapes = true
  size_eq : table.size = compiler.tokens.size + 256
  get?_of_mem : ∀ token ∈ compiler.tokens, table.get? token = compiler.tokens[token]?
  get?_escapeToken : ∀ value, table.get? (escapeToken value) = some value
  get?_of_notMem : ∀ token, token ∉ compiler.tokens → (∀ value, escapeToken value ≠ token) →
    table.get? token = none

theorem exists_escapedTo_of_new (hnew : ∀ value, escapeToken value ∉ compiler.tokens) :
    ∃ table, compiler.finishWithEscapes = .ok table ∧ compiler.EscapedTo table := by
  obtain ⟨extended, hextended, hsize, hescapes, hkept⟩ :=
    addEscapes_of_new nodup_allBytes fun value _ => hnew value
  refine ⟨_, finishWithEscapes_eq_ok_iff.mpr ⟨extended, hextended, rfl⟩, rfl, ?_, ?_, ?_, ?_⟩
  · have hlength : allBytes.length = 256 := by simp [allBytes]
    rw [← hlength]
    exact hsize
  · intro token hmem
    apply hkept
    rintro value - rfl
    exact hnew value hmem
  · exact fun value => hescapes value (mem_allBytes value)
  · intro token hmem hother
    exact (hkept token fun value _ => hother value).trans (Std.TreeMap.getElem?_eq_none hmem)

theorem finishWithEscapes_of_least (hclash : escapeToken value ∈ compiler.tokens)
    (hleast : ∀ smaller < value, escapeToken smaller ∉ compiler.tokens) :
    compiler.finishWithEscapes = .error (.escapeClash compiler.source (escapeToken value)) := by
  obtain ⟨before, after, hsplit⟩ := List.append_of_mem (mem_allBytes value)
  have hnew : ∀ earlier ∈ before, escapeToken earlier ∉ compiler.tokens :=
    fun earlier hearlier => hleast earlier ((mem_before_iff hsplit).mp hearlier)
  have hnodup := nodup_allBytes
  rw [hsplit] at hnodup
  rw [finishWithEscapes, hsplit, addEscapes_of_clash hnodup hnew hclash]

theorem exists_finishWithEscapes_eq_ok_iff :
    (∃ table, compiler.finishWithEscapes = .ok table) ↔
      ∀ value, escapeToken value ∉ compiler.tokens := by
  constructor
  · rintro ⟨table, hok⟩
    rcases compiler.new_or_exists_least with hnew | ⟨value, hclash, hleast⟩
    · exact hnew
    · rw [finishWithEscapes_of_least hclash hleast] at hok
      cases hok
  · intro hnew
    obtain ⟨table, hok, -⟩ := exists_escapedTo_of_new hnew
    exact ⟨table, hok⟩

theorem escapedTo_of_finishWithEscapes {table : TokenTable}
    (h : compiler.finishWithEscapes = .ok table) : compiler.EscapedTo table := by
  obtain ⟨made, hmade, hescaped⟩ :=
    exists_escapedTo_of_new (exists_finishWithEscapes_eq_ok_iff.mp ⟨table, h⟩)
  rw [h] at hmade
  cases hmade
  exact hescaped

theorem finishWithEscapes_eq_error_iff {e : TableError} :
    compiler.finishWithEscapes = .error e ↔
      ∃ value, escapeToken value ∈ compiler.tokens ∧
        (∀ smaller < value, escapeToken smaller ∉ compiler.tokens) ∧
        e = .escapeClash compiler.source (escapeToken value) := by
  constructor
  · intro herror
    rcases compiler.new_or_exists_least with hnew | ⟨value, hclash, hleast⟩
    · obtain ⟨table, hok, -⟩ := exists_escapedTo_of_new hnew
      rw [hok] at herror
      cases herror
    · rw [finishWithEscapes_of_least hclash hleast] at herror
      cases herror
      exact ⟨value, hclash, hleast, rfl⟩
  · rintro ⟨value, hclash, hleast, rfl⟩
    exact finishWithEscapes_of_least hclash hleast

end TableCompiler

/-- Finishing with escape tokens succeeds exactly when none of them is a token already, and
then adds just them; otherwise the escape token of the least byte that is there is
reported.  Only texts with the exact spelling of an escape token can be in the way, so a
token that merely resembles one keeps its byte. -/
theorem finishWithEscapes_adds_escapes (compiler : TableCompiler) :
    ((∃ table, compiler.finishWithEscapes = .ok table) ↔
      ∀ value, escapeToken value ∉ compiler.tokens) ∧
    (∀ table, compiler.finishWithEscapes = .ok table → compiler.EscapedTo table) ∧
    (∀ e, compiler.finishWithEscapes = .error e ↔
      ∃ value, escapeToken value ∈ compiler.tokens ∧
        (∀ smaller < value, escapeToken smaller ∉ compiler.tokens) ∧
        e = .escapeClash compiler.source (escapeToken value)) ∧
    (∀ token, (∃ value, escapeToken value = token) ↔ IsEscapeSpelling token) ∧
    ∀ token ∈ compiler.tokens, ¬ IsEscapeSpelling token →
      match compiler.finishWithEscapes with
      | .ok table => table.get? token = compiler.tokens[token]?
      | .error e => e ≠ .escapeClash compiler.source token := by
  refine ⟨TableCompiler.exists_finishWithEscapes_eq_ok_iff,
    fun table => TableCompiler.escapedTo_of_finishWithEscapes,
    fun e => TableCompiler.finishWithEscapes_eq_error_iff,
    fun token => exists_escapeToken_iff, ?_⟩
  intro token hmem hspelling
  cases hfinish : compiler.finishWithEscapes with
  | ok table =>
      exact (TableCompiler.escapedTo_of_finishWithEscapes hfinish).get?_of_mem token hmem
  | error e =>
      -- The token that is reported is an escape token.
      obtain ⟨value, -, -, rfl⟩ := TableCompiler.finishWithEscapes_eq_error_iff.mp hfinish
      intro heq
      cases heq
      exact hspelling (exists_escapeToken_iff.mp ⟨value, rfl⟩)

end StringAssembler
