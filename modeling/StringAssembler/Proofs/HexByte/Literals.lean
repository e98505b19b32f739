import StringAssembler.HexByte

/-!
# Written bytes are literals

Reading a written byte gives the byte back (`ofChars?_format`).  Both the digits and the
reader go through values below sixteen, so the round trip of a byte is that of its two
digits.  A literal holds no character but digits and a marker; in particular it holds
no comma, no colon and no newline (`isLiteralChar_of_mem`).

A byte can be spelled in other ways than it is written: with digits of the other case, with
a single digit, with another marker or none (`ofChars?_of_mem_spellings`).
-/

namespace StringAssembler
namespace HexByte

/-! ## Round trip -/

theorem digitValue?_upperDigit : ∀ n < 16, digitValue? (upperDigit n) = some n := by
  decide

theorem ofDigits?_upperDigits (value : UInt8) : ofDigits? (upperDigits value) = some value := by
  have hvalue := value.toNat_lt
  have hhigh := digitValue?_upperDigit (value.toNat / 16) (by omega)
  have hlow := digitValue?_upperDigit (value.toNat % 16) (by omega)
  simp only [upperDigits, ofDigits?, hhigh, hlow, Nat.div_add_mod, UInt8.ofNat_toNat]

/-- A written byte is a literal for itself. -/
theorem ofChars?_format (value : UInt8) : ofChars? (format value).toList = some value := by
  rw [format, String.toList_ofList]
  exact ofDigits?_upperDigits value

theorem parse?_format (value : UInt8) : parse? (format value) = some value :=
  ofChars?_format value

/-! ## The characters of literals -/

/-- A character is known by its distance from one that does not come behind it. -/
theorem ofNat_distance_add {first c : Char} (h : first ≤ c) :
    Char.ofNat (c.toNat - first.toNat + first.toNat) = c := by
  have hle : first.toNat ≤ c.toNat := h
  rw [Nat.sub_add_cancel hle, Char.ofNat_toNat]

/-- The characters that a literal may hold. -/
def IsLiteralChar (c : Char) : Prop :=
  c = 'x' ∨ c = 'X' ∨ (digitValue? c).isSome

instance : DecidablePred IsLiteralChar := fun c =>
  inferInstanceAs (Decidable (c = 'x' ∨ c = 'X' ∨ (digitValue? c).isSome))

theorem isSome_digitValue?_of_mem {digits : List Char} {value : UInt8}
    (h : ofDigits? digits = some value) : ∀ c ∈ digits, (digitValue? c).isSome := by
  intro c hc
  match digits, h with
  | [low], h =>
      obtain ⟨n, hn, -⟩ := Option.map_eq_some_iff.mp h
      rw [List.mem_singleton.mp hc, hn]
      rfl
  | [high, low], h =>
      simp only [ofDigits?] at h
      split at h
      case h_1 _ _ hhigh hlow =>
        rcases List.mem_cons.mp hc with rfl | hlast
        · rw [hhigh]
          rfl
        · rw [List.mem_singleton.mp hlast, hlow]
          rfl
      case h_2 => cases h

theorem isLiteralChar_of_mem_dropMarker {literal : List Char}
    (h : ∀ c ∈ dropMarker literal, (digitValue? c).isSome) :
    ∀ c ∈ literal, IsLiteralChar c := by
  intro c hc
  unfold dropMarker at h
  split at h
  case h_1 digits =>
    rcases List.mem_cons.mp hc with rfl | hrest
    · decide
    · rcases List.mem_cons.mp hrest with rfl | hdigits
      · decide
      · exact Or.inr (Or.inr (h c hdigits))
  case h_2 digits =>
    rcases List.mem_cons.mp hc with rfl | hrest
    · decide
    · rcases List.mem_cons.mp hrest with rfl | hdigits
      · decide
      · exact Or.inr (Or.inr (h c hdigits))
  case h_3 => exact Or.inr (Or.inr (h c hc))

/-- A literal holds digits and at most a marker. -/
theorem isLiteralChar_of_mem {literal : List Char} {value : UInt8}
    (h : ofChars? literal = some value) : ∀ c ∈ literal, IsLiteralChar c :=
  isLiteralChar_of_mem_dropMarker (isSome_digitValue?_of_mem h)

/-- A written byte holds literal characters only. -/
theorem isLiteralChar_of_mem_format {value : UInt8} :
    ∀ c ∈ (format value).toList, IsLiteralChar c :=
  isLiteralChar_of_mem (ofChars?_format value)

/-! ## Spellings -/

/-- What may stand before the digits of a literal. -/
def markers : List (List Char) := [[], ['0', 'x'], ['0', 'X']]

/-- The literals that stand for a byte: its digits in either case, without a leading zero if
there is one, and behind a marker or without one. -/
def spellings (value : UInt8) : List (List Char) :=
  let digits := fun n => [upperDigit n, (upperDigit n).toLower]
  let high := digits (value.toNat / 16)
  let low := digits (value.toNat % 16)
  let two := high.flatMap fun h => low.map fun l => [h, l]
  let one := if value.toNat / 16 = 0 then low.map fun l => [l] else []
  markers.flatMap fun marker => (two ++ one).map (marker ++ ·)

theorem digitValue?_toLower_upperDigit :
    ∀ n < 16, digitValue? (upperDigit n).toLower = some n := by
  decide

/-- Digits do not start with a marker. -/
theorem dropMarker_of_isSome {digits : List Char} (h : ∀ c ∈ digits, (digitValue? c).isSome) :
    dropMarker digits = digits := by
  unfold dropMarker
  split
  case h_1 => exact absurd (h 'x' (by simp)) (by decide)
  case h_2 => exact absurd (h 'X' (by simp)) (by decide)
  case h_3 => rfl

/-- A marker before digits changes nothing. -/
theorem ofChars?_marker_append {marker digits : List Char} {value : UInt8}
    (hmarker : marker ∈ markers) (h : ofDigits? digits = some value) :
    ofChars? (marker ++ digits) = some value := by
  simp only [markers, List.mem_cons, List.not_mem_nil, or_false] at hmarker
  rcases hmarker with rfl | rfl | rfl
  · rw [List.nil_append, ofChars?, dropMarker_of_isSome (isSome_digitValue?_of_mem h), h]
  · exact h
  · exact h

/-- Every spelling of a byte is a literal for it. -/
theorem ofChars?_of_mem_spellings {literal : List Char} {value : UInt8}
    (h : literal ∈ spellings value) : ofChars? literal = some value := by
  have hvalue := value.toNat_lt
  have hdigit : ∀ n < 16, ∀ c ∈ [upperDigit n, (upperDigit n).toLower],
      digitValue? c = some n := by
    intro n hn c hc
    simp only [List.mem_cons, List.not_mem_nil, or_false] at hc
    rcases hc with rfl | rfl
    · exact digitValue?_upperDigit n hn
    · exact digitValue?_toLower_upperDigit n hn
  obtain ⟨marker, hmarker, hliteral⟩ := List.mem_flatMap.mp h
  obtain ⟨digits, hdigits, rfl⟩ := List.mem_map.mp hliteral
  refine ofChars?_marker_append hmarker ?_
  rcases List.mem_append.mp hdigits with htwo | hone
  · obtain ⟨high, hhigh, hrest⟩ := List.mem_flatMap.mp htwo
    obtain ⟨low, hlow, rfl⟩ := List.mem_map.mp hrest
    simp only [ofDigits?, hdigit _ (by omega) _ hhigh, hdigit _ (by omega) _ hlow,
      Nat.div_add_mod, UInt8.ofNat_toNat]
  · -- A single digit is the whole value.
    split at hone
    case isTrue hsmall =>
      obtain ⟨low, hlow, rfl⟩ := List.mem_map.mp hone
      have hmod : value.toNat % 16 = value.toNat := by omega
      simp only [ofDigits?, hdigit _ (by omega) _ hlow, hmod, Option.map_some, UInt8.ofNat_toNat]
    case isFalse => cases hone

example : "A".toList ∈ spellings 10 ∧ "0X0a".toList ∈ spellings 10 := by decide

end HexByte
end StringAssembler
