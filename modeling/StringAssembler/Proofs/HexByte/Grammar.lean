import Mathlib.Data.Nat.Digits.Defs
import StringAssembler.Proofs.HexByte.Literals

/-!
# The grammar of byte literals

A literal is one or two hexadecimal digits of either case, behind `0x`, behind `0X` or
without a marker, and it stands for the value of its digits in base sixteen
(`IsLiteral`).  The reader accepts these texts and no other, with these values
(`ofChars?_eq_some_iff`).

The grammar does not say where a marker ends and the digits start.  It need not: no marker
can be read as digits, so a literal has one reading only.
-/

namespace StringAssembler
namespace HexByte

/-! ## Digits -/

/-- The digits with their letters in lower case, each at the place of its value. -/
def lowerCaseDigits : List Char := "0123456789abcdef".toList

/-- The digits with their letters in upper case, each at the place of its value. -/
def upperCaseDigits : List Char := "0123456789ABCDEF".toList

/-- A character that is the digit of a value, in either case. -/
def IsDigit (c : Char) (n : Nat) : Prop :=
  lowerCaseDigits[n]? = some c ∨ upperCaseDigits[n]? = some c

theorem isDigit_of_digitValue? {c : Char} {n : Nat} (h : digitValue? c = some n) :
    IsDigit c n := by
  -- The three ranges of digits are runs of the two lists.
  have hnumeral : ∀ k ≤ 9, lowerCaseDigits[k]? = some (Char.ofNat (k + '0'.toNat)) := by decide
  have hlower : ∀ k ≤ 5, lowerCaseDigits[k + 10]? = some (Char.ofNat (k + 'a'.toNat)) := by decide
  have hupper : ∀ k ≤ 5, upperCaseDigits[k + 10]? = some (Char.ofNat (k + 'A'.toNat)) := by decide
  unfold digitValue? at h
  split at h
  case isTrue hrange =>
    have hlast : c.toNat ≤ '0'.toNat + 9 := hrange.2
    cases h
    left
    rw [hnumeral _ (by omega), ofNat_distance_add hrange.1]
  case isFalse =>
    split at h
    case isTrue hrange =>
      have hlast : c.toNat ≤ 'a'.toNat + 5 := hrange.2
      cases h
      left
      rw [hlower _ (by omega), ofNat_distance_add hrange.1]
    case isFalse =>
      split at h
      case isTrue hrange =>
        have hlast : c.toNat ≤ 'A'.toNat + 5 := hrange.2
        cases h
        right
        rw [hupper _ (by omega), ofNat_distance_add hrange.1]
      case isFalse => cases h

theorem digitValue?_of_isDigit {c : Char} {n : Nat} (h : IsDigit c n) :
    digitValue? c = some n := by
  have hlower : ∀ k (hk : k < lowerCaseDigits.length),
      digitValue? lowerCaseDigits[k] = some k := by decide
  have hupper : ∀ k (hk : k < upperCaseDigits.length),
      digitValue? upperCaseDigits[k] = some k := by decide
  rcases h with h | h
  · obtain ⟨hk, rfl⟩ := List.getElem?_eq_some_iff.mp h
    exact hlower n hk
  · obtain ⟨hk, rfl⟩ := List.getElem?_eq_some_iff.mp h
    exact hupper n hk

/-- The reader knows the digits and their values. -/
theorem digitValue?_eq_some_iff {c : Char} {n : Nat} : digitValue? c = some n ↔ IsDigit c n :=
  ⟨isDigit_of_digitValue?, digitValue?_of_isDigit⟩

theorem IsDigit.lt {c : Char} {n : Nat} (h : IsDigit c n) : n < 16 := by
  rcases h with h | h
  · exact (List.getElem?_eq_some_iff.mp h).1
  · exact (List.getElem?_eq_some_iff.mp h).1

/-! ## Literals -/

/-- One or two digits that write a byte in base sixteen, the most significant one first. -/
structure IsNumeral (digits : List Char) (value : UInt8) : Prop where
  length_eq : digits.length = 1 ∨ digits.length = 2
  exists_values : ∃ values, List.Forall₂ IsDigit digits values ∧
    Nat.ofDigits 16 values.reverse = value.toNat

/-- A literal for a byte: its digits, with or without a marker before them. -/
def IsLiteral (literal : List Char) (value : UInt8) : Prop :=
  ∃ marker ∈ markers, ∃ digits, literal = marker ++ digits ∧ IsNumeral digits value

theorem ofDigits_reverse_pair (m l : Nat) : Nat.ofDigits 16 [m, l].reverse = 16 * m + l := by
  simp [Nat.ofDigits_cons, Nat.add_comm]

theorem isNumeral_of_ofDigits? {digits : List Char} {value : UInt8}
    (h : ofDigits? digits = some value) : IsNumeral digits value := by
  match digits, h with
  | [low], h =>
      obtain ⟨l, hl, rfl⟩ := Option.map_eq_some_iff.mp h
      have hlow := digitValue?_eq_some_iff.mp hl
      have hlt := hlow.lt
      have hvalue : (UInt8.ofNat l).toNat = l := by
        rw [UInt8.toNat_ofNat']
        omega
      refine ⟨Or.inl rfl, [l], .cons hlow .nil, ?_⟩
      rw [hvalue, List.reverse_singleton, Nat.ofDigits_singleton]
  | [high, low], h =>
      simp only [ofDigits?] at h
      split at h
      case h_1 m l hm hl =>
        cases h
        have hhigh := digitValue?_eq_some_iff.mp hm
        have hlow := digitValue?_eq_some_iff.mp hl
        have hlt := hhigh.lt
        have hlt' := hlow.lt
        have hvalue : (UInt8.ofNat (16 * m + l)).toNat = 16 * m + l := by
          rw [UInt8.toNat_ofNat']
          omega
        refine ⟨Or.inr rfl, [m, l], .cons hhigh (.cons hlow .nil), ?_⟩
        rw [hvalue, ofDigits_reverse_pair]
      case h_2 => cases h

theorem IsNumeral.ofDigits?_eq {digits : List Char} {value : UInt8} (h : IsNumeral digits value) :
    ofDigits? digits = some value := by
  obtain ⟨hlength, values, hdigits, hvalue⟩ := h
  cases hdigits with
  | nil => simp at hlength
  | @cons first m _ _ hfirst hrest =>
      cases hrest with
      | nil =>
          -- A single digit is the whole value.
          rw [List.reverse_singleton, Nat.ofDigits_singleton] at hvalue
          simp only [ofDigits?, digitValue?_eq_some_iff.mpr hfirst, Option.map_some, hvalue,
            UInt8.ofNat_toNat]
      | @cons low l _ _ hlow hmore =>
          cases hmore with
          | nil =>
              rw [ofDigits_reverse_pair] at hvalue
              simp only [ofDigits?, digitValue?_eq_some_iff.mpr hfirst,
                digitValue?_eq_some_iff.mpr hlow, hvalue, UInt8.ofNat_toNat]
          | cons => simp at hlength

theorem exists_marker_append_dropMarker (literal : List Char) :
    ∃ marker ∈ markers, literal = marker ++ dropMarker literal := by
  unfold dropMarker
  split
  case h_1 digits => exact ⟨['0', 'x'], by decide, rfl⟩
  case h_2 digits => exact ⟨['0', 'X'], by decide, rfl⟩
  case h_3 => exact ⟨[], by decide, rfl⟩

/-- A text is read as a byte exactly if it is a literal for this byte. -/
theorem ofChars?_eq_some_iff {literal : List Char} {value : UInt8} :
    ofChars? literal = some value ↔ IsLiteral literal value := by
  constructor
  · intro h
    obtain ⟨marker, hmarker, hliteral⟩ := exists_marker_append_dropMarker literal
    exact ⟨marker, hmarker, dropMarker literal, hliteral, isNumeral_of_ofDigits? h⟩
  · rintro ⟨marker, hmarker, digits, rfl, hdigits⟩
    exact ofChars?_marker_append hmarker hdigits.ofDigits?_eq

example : ofChars? "0x".toList = none ∧ ofChars? "0x0".toList = some 0 ∧
    ofChars? "0x0x0".toList = none := by decide

end HexByte
end StringAssembler
