import StringAssembler.Proofs.Segmentation.Greedy
import StringAssembler.Proofs.Table.Escapes

/-!
# What a cut depends on

All that is looked up while a text is cut are parts of the text.  So two tables that give the
same bytes to the parts of a text cut it alike, into the same tokens and up to the same place
(`TokenTable.Built.segment_eq_of_agree`), however far the lengths that are tried reach in
each of them.

The main statement is `encode_depends_on_substrings`, with what it says of the escape tokens:
they change nothing in a text that contains none of their spellings.  The converse is not
claimed, since a part that is never taken may have different bytes.
-/

namespace StringAssembler

/-! ## The rule -/

section Rule

variable {lookup lookup' : List Char → Option UInt8} {strategy : Strategy}
variable {text token : List Char}

/-- What stands in front of a text is a part of it. -/
theorem IsFront.of_agree
    (hagree : ∀ part, part ≠ [] → part <+: text → lookup part = lookup' part)
    (h : IsFront lookup text token) : IsFront lookup' text token := by
  apply h.of_isToken
  rw [← hagree token h.ne_nil h.starts]
  exact h.isToken

/-- What is taken from a text depends on the parts at its front. -/
theorem IsTaken.of_agree
    (hagree : ∀ part, part ≠ [] → part <+: text → lookup part = lookup' part)
    (h : IsTaken lookup strategy text token) : IsTaken lookup' strategy text token where
  front := h.front.of_agree hagree
  best other hother :=
    h.best other (hother.of_agree fun part hne hstarts => (hagree part hne hstarts).symm)

end Rule

/-! ## Tables -/

namespace TokenTable

variable {table other : TokenTable} {strategy : Strategy} {text : List Char}

theorem Bounded.front?_eq_of_agree (hbounded : table.Bounded) (hbounded' : other.Bounded)
    (hagree : ∀ part, part ≠ [] → part <+: text → table.byte? part = other.byte? part) :
    table.front? strategy text = other.front? strategy text := by
  refine hbounded.front?_eq_of_isTaken hbounded' (fun token hfront => ?_) fun token htaken => ?_
  · exact hfront.of_agree fun part hne hstarts => (hagree part hne hstarts).symm
  · exact ⟨htaken.of_agree hagree, (hagree token htaken.front.ne_nil htaken.front.starts).symm⟩

/-- Tables that give the same bytes to the parts of a text cut it alike. -/
theorem Built.segment_eq_of_agree (built : table.Built) (built' : other.Built) {text : String}
    (hagree : ∀ part : String, part ≠ "" → part.toList <:+: text.toList →
      table.get? part = other.get? part) (strategy : Strategy) :
    table.segment strategy text = other.segment strategy text := by
  refine segmentFrom_eq_of_front?_eq (fun rest hrest => ?_) 0
  refine built.bounded.front?_eq_of_agree built'.bounded fun part hne hstarts => ?_
  apply hagree
  · rwa [ne_eq, String.ofList_eq_empty_iff]
  · rw [String.toList_ofList]
    exact hstarts.isInfix.trans hrest.isInfix

end TokenTable

/-! ## Escape tokens -/

/-- The escape tokens give no byte to another text, and take none away. -/
theorem TableCompiler.EscapedTo.get?_eq {compiler : TableCompiler} {table : TokenTable}
    (h : compiler.EscapedTo table) {part : String} (hpart : ¬ IsEscapeSpelling part) :
    compiler.finish.get? part = table.get? part := by
  by_cases hmem : part ∈ compiler.tokens
  · exact (h.get?_of_mem part hmem).symm
  · have hother : ∀ value, escapeToken value ≠ part := fun value heq =>
      hpart (exists_escapeToken_iff.mp ⟨value, heq⟩)
    rw [h.get?_of_notMem part hmem hother]
    exact Std.TreeMap.getElem?_eq_none hmem

/-- Encoding depends on a table through the bytes of the parts of the text.  Tables that agree
on these take the same tokens from it and encode it to the same bytes, or get stuck at the
same place.  So the escape tokens matter to no text that contains none of their spellings. -/
theorem encode_depends_on_substrings :
    (∀ table other : TokenTable, table.Built → other.Built → ∀ text : String,
      (∀ part : String, part ≠ "" → part.toList <:+: text.toList →
        table.get? part = other.get? part) →
      ∀ strategy : Strategy, table.segment strategy text = other.segment strategy text ∧
        ∀ terminator, Encoder.encode ⟨table, strategy, terminator⟩ text =
          Encoder.encode ⟨other, strategy, terminator⟩ text) ∧
    ∀ (compiler : TableCompiler) (escaped : TokenTable), compiler.Reachable →
      compiler.finishWithEscapes = .ok escaped → ∀ text : String,
      (∀ part, IsEscapeSpelling part → ¬ part.toList <:+: text.toList) →
      ∀ strategy : Strategy,
        compiler.finish.segment strategy text = escaped.segment strategy text ∧
        ∀ terminator, Encoder.encode ⟨compiler.finish, strategy, terminator⟩ text =
          Encoder.encode ⟨escaped, strategy, terminator⟩ text := by
  constructor
  · intro table other built built' text hagree strategy
    have hsegment := built.segment_eq_of_agree built' hagree strategy
    exact ⟨hsegment, fun _ => Encoder.encode_eq_of_segment_eq hsegment rfl⟩
  · intro compiler escaped hreach hfinish text hfree strategy
    have hescaped := TableCompiler.escapedTo_of_finishWithEscapes hfinish
    have hagree : ∀ part : String, part ≠ "" → part.toList <:+: text.toList →
        compiler.finish.get? part = escaped.get? part :=
      fun part _ hpart => hescaped.get?_eq fun hspelling => hfree part hspelling hpart
    have built : compiler.finish.Built := .finish hreach
    have hsegment :=
      built.segment_eq_of_agree (.finishWithEscapes hreach hfinish) hagree strategy
    exact ⟨hsegment, fun _ => Encoder.encode_eq_of_segment_eq hsegment rfl⟩

/-- A third token that is no part of `ABAB!` leaves its cut alone, and so do the escape tokens
that of `A\hff`, which has one of their spellings but for the case of the digits. -/
theorem encode_depends_on_substrings_twoTexts :
    let table := ((TableCompiler.start "t").addLines ["A=1", "AB=2"]).2.finish
    let other := ((TableCompiler.start "t").addLines ["A=1", "AB=2", "ABC=3"]).2.finish
    let compiler := ((TableCompiler.start "t").addLines ["A=41", "\\=5C", "hf=68", "f=66"]).2
    (table.Built ∧ other.Built ∧
      (∀ part : String, part ≠ "" → part.toList <:+: "ABAB!".toList →
        table.get? part = other.get? part) ∧
      Encoder.encode ⟨other, .longest, some 0⟩ "ABAB!" = .error ⟨4, "!"⟩) ∧
    ∃ escaped, compiler.Reachable ∧ compiler.finishWithEscapes = .ok escaped ∧
      (∀ part, IsEscapeSpelling part → ¬ part.toList <:+: "A\\hff".toList) ∧
      Encoder.encode ⟨escaped, .longest, none⟩ "A\\hff" = .ok [0x41, 0x5C, 0x68, 0x66] := by
  intro table other compiler
  obtain ⟨hagreeing, hescaping⟩ := encode_depends_on_substrings
  constructor
  · have hbuilt : table.Built := .finish (.addLines (.start "t") ["A=1", "AB=2"])
    have hbuilt' : other.Built := .finish (.addLines (.start "t") ["A=1", "AB=2", "ABC=3"])
    have hkept : ∀ entry ∈ table.toList, entry ∈ other.toList := by decide +kernel
    have hadded : ∀ entry ∈ other.toList,
        entry ∈ table.toList ∨ ¬ entry.1.toList <:+: "ABAB!".toList := by decide +kernel
    have hagree : ∀ part : String, part ≠ "" → part.toList <:+: "ABAB!".toList →
        table.get? part = other.get? part := by
      intro part _ hpart
      apply Option.ext
      intro value
      rw [← TokenTable.mem_toList_iff, ← TokenTable.mem_toList_iff]
      exact ⟨hkept _, fun hmem => (hadded _ hmem).resolve_right (not_not.mpr hpart)⟩
    have hstuck : Encoder.encode ⟨table, .longest, some 0⟩ "ABAB!" = .error ⟨4, "!"⟩ := by
      decide +kernel
    refine ⟨hbuilt, hbuilt', hagree, ?_⟩
    rw [← (hagreeing table other hbuilt hbuilt' "ABAB!" hagree .longest).2, hstuck]
  · have hreach : compiler.Reachable := .addLines (.start "t") ["A=41", "\\=5C", "hf=68", "f=66"]
    have hshort : ∀ token ∈ compiler.tokens.keys, token.length ≤ 2 := by decide +kernel
    have hnew : ∀ value, escapeToken value ∉ compiler.tokens := by
      intro value hmem
      have hlength := hshort _ (Std.TreeMap.mem_keys.mpr hmem)
      rw [← String.length_toList, length_escapeToken] at hlength
      exact absurd hlength (by decide)
    obtain ⟨escaped, hfinish⟩ := TableCompiler.exists_finishWithEscapes_eq_ok_iff.mpr hnew
    have hfree : ∀ part, IsEscapeSpelling part → ¬ part.toList <:+: "A\\hff".toList := by
      rintro part ⟨high, low, hpart, hhigh, -⟩ hinfix
      rw [hpart] at hinfix
      obtain ⟨rfl, -⟩ : high = 'f' ∧ low = 'f' := by simpa [List.infix_cons_iff] using hinfix
      exact absurd hhigh (by decide)
    have hencode : Encoder.encode ⟨compiler.finish, .longest, none⟩ "A\\hff" =
        .ok [0x41, 0x5C, 0x68, 0x66] := by decide +kernel
    refine ⟨escaped, hreach, hfinish, hfree, ?_⟩
    rw [← (hescaping compiler escaped hreach hfinish "A\\hff" hfree .longest).2, hencode]

end StringAssembler
