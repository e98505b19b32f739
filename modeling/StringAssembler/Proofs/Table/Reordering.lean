import StringAssembler.Proofs.Table.Compilation
import StringAssembler.Proofs.Table.Equality
import StringAssembler.Proofs.Table.Escapes
import StringAssembler.Proofs.Table.LineGrammar

/-!
# Table lines in another order

Of lines that all state entries a table keeps the entries and nothing else: whether there is
a table, and which byte a token has, depends on the entries alone and not on their order
(`TokenTable.exists_compile_eq_ok_iff_tabular`, `TokenTable.get?_of_compile_eq_ok`).  The
literals of the lines can be spelled differently, since they are part of no entry
(`TableLine.parse?_append_of_mem_spellings`).

So lines in another order and with other spellings make an equal table, or none if the others
make none (`compile_eq_of_perm`).  Which line is reported if there is no table does depend on
the order, and nothing is said of it.
-/

namespace StringAssembler

/-! ## Spellings of a line -/

namespace TableLine

/-- A line with any spelling of a byte behind a token states the token with this byte. -/
theorem parse?_append_of_mem_spellings {token : String} (hne : token ≠ "") {value : UInt8}
    {literal : List Char} (h : literal ∈ HexByte.spellings value) :
    parse? (token ++ "=" ++ String.ofList literal) = some ⟨token, value⟩ := by
  rw [parse?_append_eq_some_iff hne, String.toList_ofList]
  exact HexByte.ofChars?_eq_some_iff.mp (HexByte.ofChars?_of_mem_spellings h)

/-! ## The order of lines -/

variable {lines others : List String}

/-- Lines make a table in every order. -/
theorem tabular_iff_of_perm (hlines : ∀ line ∈ lines, (parse? line).isSome)
    (hothers : ∀ line ∈ others, (parse? line).isSome)
    (hperm : (entries lines).Perm (entries others)) : Tabular lines ↔ Tabular others := by
  have hnodup : (tokens lines).Nodup ↔ (tokens others).Nodup := (hperm.map token).nodup_iff
  constructor
  · intro h
    exact ⟨hothers, hnodup.mp h.nodup_tokens⟩
  · intro h
    exact ⟨hlines, hnodup.mpr h.nodup_tokens⟩

end TableLine

/-! ## Compilation -/

namespace TokenTable

variable {source : String} {lines : List String} {table : TokenTable} {escapes : Bool}

/-- Lines that make a table are fed to a compiler that has seen them all, and it is finished
as asked. -/
theorem exists_compile_eq_finishAs (h : TableLine.Tabular lines) (source : String)
    (escapes : Bool) :
    ∃ compiler : TableCompiler, compiler.HasSeen source lines ∧
      compile source lines escapes = compiler.finishAs escapes := by
  obtain ⟨hok, hseen⟩ := (TableCompiler.hasSeen_start source).addLines_of_faultless
    (TableLine.faultless_iff_tabular.mpr h)
  rw [List.nil_append] at hseen
  exact ⟨_, hseen, by rw [compile_eq, hok]⟩

theorem tabular_of_compile_eq_ok (h : compile source lines escapes = .ok table) :
    TableLine.Tabular lines := by
  have hok : ((TableCompiler.start source).addLines lines).1 = .ok () := by
    rw [compile_eq] at h
    split at h
    case h_1 hlines => exact hlines
    case h_2 => cases h
  have hfaultless : Faultless (TableLine.Fault source) lines :=
    (TableCompiler.hasSeen_start source).addLines_eq_ok_iff.mp hok
  exact TableLine.faultless_iff_tabular.mp hfaultless

/-- Lines are compiled to a table when they make one and, if the escape tokens are asked for,
state none of them. -/
theorem exists_compile_eq_ok_iff_tabular :
    (∃ table, compile source lines escapes = .ok table) ↔
      TableLine.Tabular lines ∧
        (escapes = true → ∀ value, escapeToken value ∉ TableLine.tokens lines) := by
  have hfinish : ∀ compiler : TableCompiler, compiler.HasSeen source lines →
      ((∃ table, compiler.finishAs escapes = .ok table) ↔
        (escapes = true → ∀ value, escapeToken value ∉ TableLine.tokens lines)) := by
    intro compiler hseen
    cases escapes with
    | false => simp [TableCompiler.finishAs]
    | true =>
        simp only [TableCompiler.finishAs, if_true, true_imp_iff, ← hseen.mem_tokens_iff]
        exact TableCompiler.exists_finishWithEscapes_eq_ok_iff
  constructor
  · rintro ⟨table, hok⟩
    have htabular := tabular_of_compile_eq_ok hok
    obtain ⟨compiler, hseen, heq⟩ := exists_compile_eq_finishAs htabular source escapes
    exact ⟨htabular, (hfinish compiler hseen).mp ⟨table, heq.symm.trans hok⟩⟩
  · rintro ⟨htabular, hnew⟩
    obtain ⟨compiler, hseen, heq⟩ := exists_compile_eq_finishAs htabular source escapes
    rw [heq]
    exact (hfinish compiler hseen).mpr hnew

/-- A compiled table holds the entries of its lines and, if they were asked for, the escape
tokens. -/
theorem get?_of_compile_eq_ok (h : compile source lines escapes = .ok table) (token : String)
    (value : UInt8) :
    table.get? token = some value ↔
      ⟨token, value⟩ ∈ TableLine.entries lines ∨ escapes = true ∧ escapeToken value = token := by
  have htabular := tabular_of_compile_eq_ok h
  obtain ⟨compiler, hseen, heq⟩ := exists_compile_eq_finishAs htabular source escapes
  have hentry : compiler.tokens[token]? = some value ↔
      ⟨token, value⟩ ∈ TableLine.entries lines := by
    rw [hseen.getElem?_tokens, htabular.firstValue?_eq_some_iff, TableLine.mem_entries_iff]
  rw [← hentry]
  rw [heq] at h
  cases escapes with
  | false =>
      cases h
      simp only [Bool.false_eq_true, false_and, or_false]
      rfl
  | true =>
      have hescaped := TableCompiler.escapedTo_of_finishWithEscapes h
      have hnew := TableCompiler.exists_finishWithEscapes_eq_ok_iff.mp ⟨table, h⟩
      simp only [true_and]
      by_cases hmem : token ∈ compiler.tokens
      · have hother : escapeToken value ≠ token := by
          rintro rfl
          exact hnew value hmem
        rw [hescaped.get?_of_mem token hmem, or_iff_left hother]
      · rw [Std.TreeMap.getElem?_eq_none hmem]
        simp only [reduceCtorEq, false_or]
        by_cases hescape : ∃ found, escapeToken found = token
        · obtain ⟨found, rfl⟩ := hescape
          rw [hescaped.get?_escapeToken, Option.some.injEq, escapeToken_injective.eq_iff, eq_comm]
        · rw [not_exists] at hescape
          rw [hescaped.get?_of_notMem token hmem hescape]
          simp [hescape value]

theorem contains_of_compile_eq_ok_iff (h : compile source lines escapes = .ok table)
    {token : String} :
    table.contains token ↔
      token ∈ TableLine.tokens lines ∨ escapes = true ∧ ∃ value, escapeToken value = token := by
  simp only [contains_iff, get?_of_compile_eq_ok h, exists_or, exists_and_left,
    TableLine.mem_tokens_iff]
  refine or_congr_left ⟨?_, ?_⟩
  · rintro ⟨value, hentry⟩
    exact ⟨_, hentry, rfl⟩
  · rintro ⟨entry, hentry, rfl⟩
    exact ⟨entry.value, hentry⟩

theorem hasEscapes_of_compile_eq_ok (h : compile source lines escapes = .ok table) :
    table.hasEscapes = escapes := by
  obtain ⟨compiler, -, heq⟩ :=
    exists_compile_eq_finishAs (tabular_of_compile_eq_ok h) source escapes
  rw [heq] at h
  cases escapes with
  | false =>
      cases h
      rfl
  | true => exact (TableCompiler.escapedTo_of_finishWithEscapes h).hasEscapes

end TokenTable

/-- The order of table lines does not matter, nor does the spelling of their literals.  Lines
that all state entries make a table, with the escape tokens or without them, exactly if the
same entries in another order do; the two tables are equal, and they encode definitions to
the same strings, with the same failures and the same events.  Every spelling of a byte
behind a token states the same entry. -/
theorem compile_eq_of_perm {lines others : List String}
    (hlines : ∀ line ∈ lines, (TableLine.parse? line).isSome)
    (hothers : ∀ line ∈ others, (TableLine.parse? line).isSome)
    (hperm : (TableLine.entries lines).Perm (TableLine.entries others)) :
    (∀ (source source' : String) (escapes : Bool),
      ((∃ table, TokenTable.compile source lines escapes = .ok table) ↔
        ∃ other, TokenTable.compile source' others escapes = .ok other) ∧
      ∀ table other, TokenTable.compile source lines escapes = .ok table →
        TokenTable.compile source' others escapes = .ok other →
        (table == other) = true ∧
          ∀ strategy terminator file text,
            Encoder.encodeDefinitions ⟨table, strategy, terminator⟩ file text =
              Encoder.encodeDefinitions ⟨other, strategy, terminator⟩ file text) ∧
    ∀ token, token ≠ "" → ∀ value, ∀ literal ∈ HexByte.spellings value,
      TableLine.parse? (token ++ "=" ++ String.ofList literal) = some ⟨token, value⟩ := by
  refine ⟨fun source source' escapes => ⟨?_, ?_⟩,
    fun token hne value literal => TableLine.parse?_append_of_mem_spellings hne⟩
  · rw [TokenTable.exists_compile_eq_ok_iff_tabular, TokenTable.exists_compile_eq_ok_iff_tabular,
      TableLine.tabular_iff_of_perm hlines hothers hperm]
    simp only [TableLine.mem_tokens_iff, hperm.mem_iff]
  · intro table other htable hother
    have hget : ∀ token, table.get? token = other.get? token := by
      intro token
      apply Option.ext
      intro value
      rw [TokenTable.get?_of_compile_eq_ok htable, TokenTable.get?_of_compile_eq_ok hother,
        hperm.mem_iff]
    have hescapes : table.hasEscapes = other.hasEscapes := by
      rw [TokenTable.hasEscapes_of_compile_eq_ok htable,
        TokenTable.hasEscapes_of_compile_eq_ok hother]
    have built := TokenTable.Built.of_compile htable
    have built' := TokenTable.Built.of_compile hother
    refine ⟨(built.beq_iff built').mpr ⟨hescapes, hget⟩, ?_⟩
    intro strategy terminator file text
    exact Encoder.encodeDefinitions_eq_of_get?_eq hget (built.longest_eq built' hget) strategy
      terminator file text

/-- Three lines in another order, two of them with other spellings. -/
theorem compile_eq_of_perm_threeLines :
    let lines := ["A=1", "AB=0x2c", "==3D"]
    let others := ["==0X3d", "A=01", "AB=2C"]
    (∀ line ∈ lines, (TableLine.parse? line).isSome) ∧
      (∀ line ∈ others, (TableLine.parse? line).isSome) ∧
      (TableLine.entries lines).Perm (TableLine.entries others) ∧
      ∃ table other, TokenTable.compile "t" lines true = .ok table ∧
        TokenTable.compile "u" others true = .ok other ∧ (table == other) = true := by
  intro lines others
  have hlines : ∀ line ∈ lines, (TableLine.parse? line).isSome := by decide +kernel
  have hothers : ∀ line ∈ others, (TableLine.parse? line).isSome := by decide +kernel
  have hperm : (TableLine.entries lines).Perm (TableLine.entries others) := by decide +kernel
  have hshort : ∀ token ∈ TableLine.tokens lines, token.length ≤ 2 := by decide +kernel
  have hnew : ∀ value, escapeToken value ∉ TableLine.tokens lines := by
    intro value hmem
    have hlength := hshort _ hmem
    rw [escapeToken, String.length_ofList] at hlength
    simp [HexByte.upperDigits] at hlength
  have htable : ∃ table, TokenTable.compile "t" lines true = .ok table :=
    TokenTable.exists_compile_eq_ok_iff_tabular.mpr
      ⟨⟨hlines, by decide +kernel⟩, fun _ => hnew⟩
  obtain ⟨hiff, hequal⟩ := (compile_eq_of_perm hlines hothers hperm).1 "t" "u" true
  obtain ⟨table, htable⟩ := htable
  obtain ⟨other, hother⟩ := hiff.mp ⟨table, htable⟩
  exact ⟨hlines, hothers, hperm, table, other, htable, hother,
    (hequal table other htable hother).1⟩

end StringAssembler
