/-!
# First faults

Items are judged one after the other, each behind those before it.  `FaultAt` says what
is wrong with the item at a number, counted from one, and `FirstFault` adds that nothing
is wrong with an item of a smaller number.

The first fault is the one behind a faultless part (`firstFault_iff`), items have one
unless they are faultless (`faultless_or_exists_firstFault`), and the items behind it play
no part (`FirstFault.of_take_eq`).  Nothing is said here about what counts as a fault; table
lines and definitions are judged by rules of their own.
-/

namespace StringAssembler

variable {α ε : Type}

/-- The fault `e` of the item at a number, counted from one, where `fault before item e`
judges an item behind the items before it. -/
def FaultAt (fault : List α → α → ε → Prop) (items : List α) (number : Nat) (e : ε) : Prop :=
  ∃ before item after, items = before ++ item :: after ∧ before.length + 1 = number ∧
    fault before item e

/-- No item has a fault. -/
def Faultless (fault : List α → α → ε → Prop) (items : List α) : Prop :=
  ∀ number e, ¬ FaultAt fault items number e

/-- The fault at a number with no fault at a smaller one. -/
structure FirstFault (fault : List α → α → ε → Prop) (items : List α) (number : Nat)
    (e : ε) : Prop where
  here : FaultAt fault items number e
  none_before : ∀ smaller < number, ∀ e', ¬ FaultAt fault items smaller e'

section

variable {fault : List α → α → ε → Prop} {before after items other : List α} {item : α}
  {number : Nat} {e : ε}

theorem faultless_nil : Faultless fault ([] : List α) := by
  rintro number e ⟨before, item, after, hitems, -, -⟩
  cases before <;> cases hitems

/-- A fault stands in the first part, or in the second one behind it. -/
theorem faultAt_append_iff :
    FaultAt fault (items ++ other) number e ↔
      FaultAt fault items number e ∨
        ∃ inner, items.length + inner = number ∧
          FaultAt (fun before => fault (items ++ before)) other inner e := by
  constructor
  · rintro ⟨before, item, after, hitems, rfl, hfault⟩
    rcases List.append_eq_append_iff.mp hitems with ⟨extra, rfl, hother⟩ | ⟨extra, rfl, hrest⟩
    · refine Or.inr ⟨extra.length + 1, ?_, extra, item, after, hother, rfl, hfault⟩
      rw [List.length_append, Nat.add_assoc]
    · cases extra with
      | nil =>
          rw [List.append_nil] at *
          exact Or.inr ⟨1, rfl, [], item, after, hrest.symm, rfl, by simpa using hfault⟩
      | cons first rest =>
          cases hrest
          exact Or.inl ⟨before, item, rest, rfl, rfl, hfault⟩
  · rintro (⟨before, item, after, rfl, rfl, hfault⟩ |
      ⟨_, rfl, before, item, after, rfl, rfl, hfault⟩)
    · exact ⟨before, item, after ++ other, by simp, rfl, hfault⟩
    · exact ⟨items ++ before, item, after, by simp, by simp [Nat.add_assoc], hfault⟩

theorem FaultAt.bounds (h : FaultAt fault items number e) :
    1 ≤ number ∧ number ≤ items.length := by
  obtain ⟨before, item, after, rfl, rfl, -⟩ := h
  rw [List.length_append, List.length_cons]
  omega

/-! ## Faultless items -/

theorem faultless_append_iff :
    Faultless fault (items ++ other) ↔
      Faultless fault items ∧ Faultless (fun before => fault (items ++ before)) other := by
  unfold Faultless
  simp only [faultAt_append_iff, not_or, not_exists, not_and, forall_and]
  constructor
  · rintro ⟨hitems, hother⟩
    exact ⟨hitems, fun inner e => hother _ e inner rfl⟩
  · rintro ⟨hitems, hother⟩
    exact ⟨hitems, fun number e inner _ => hother inner e⟩

theorem faultless_singleton_iff : Faultless fault [item] ↔ ∀ e, ¬ fault [] item e := by
  constructor
  · intro h e hfault
    exact h 1 e ⟨[], item, [], rfl, rfl, hfault⟩
  · rintro h number e ⟨before, other, after, hitems, -, hfault⟩
    cases before with
    | nil =>
        cases hitems
        exact h e hfault
    | cons first rest => cases rest <;> cases hitems

theorem faultless_cons_iff :
    Faultless fault (item :: items) ↔
      (∀ e, ¬ fault [] item e) ∧ Faultless (fun before => fault (item :: before)) items := by
  rw [← List.singleton_append, faultless_append_iff, faultless_singleton_iff]
  rfl

/-! ## The first fault -/

/-- The first fault is that of an item behind a faultless part. -/
theorem firstFault_iff :
    FirstFault fault items number e ↔
      ∃ before item after, items = before ++ item :: after ∧ before.length + 1 = number ∧
        Faultless fault before ∧ fault before item e := by
  constructor
  · rintro ⟨⟨before, item, after, rfl, rfl, hfault⟩, hnone⟩
    refine ⟨before, item, after, rfl, rfl, ?_, hfault⟩
    intro smaller e' hbefore
    exact hnone smaller (Nat.lt_succ_of_le hbefore.bounds.2) e'
      (faultAt_append_iff.mpr (Or.inl hbefore))
  · rintro ⟨before, item, after, rfl, rfl, hbefore, hfault⟩
    refine ⟨⟨before, item, after, rfl, rfl, hfault⟩, ?_⟩
    intro smaller hsmaller e' hfault'
    rcases faultAt_append_iff.mp hfault' with hfirst | ⟨inner, rfl, hinner⟩
    · exact hbefore smaller e' hfirst
    · have := hinner.bounds.1
      omega

/-- Items have a first fault or none at all. -/
theorem faultless_or_exists_firstFault (fault : List α → α → ε → Prop) (items : List α) :
    Faultless fault items ∨
      ∃ before item after e, items = before ++ item :: after ∧ Faultless fault before ∧
        fault before item e := by
  induction items generalizing fault with
  | nil => exact Or.inl faultless_nil
  | cons first rest ih =>
      by_cases hfirst : ∃ e, fault [] first e
      · obtain ⟨e, hfault⟩ := hfirst
        exact Or.inr ⟨[], first, rest, e, rfl, faultless_nil, hfault⟩
      · rw [not_exists] at hfirst
        -- The rest is judged with the first item before it.
        rcases ih fun before => fault (first :: before) with
          hrest | ⟨before, item, after, e, rfl, hbefore, hfault⟩
        · exact Or.inl (faultless_cons_iff.mpr ⟨hfirst, hrest⟩)
        · exact Or.inr ⟨first :: before, item, after, e, rfl,
            faultless_cons_iff.mpr ⟨hfirst, hbefore⟩, hfault⟩

/-- The items behind the first fault play no part. -/
theorem FirstFault.of_take_eq (h : FirstFault fault items number e)
    (htake : other.take number = items.take number) : FirstFault fault other number e := by
  obtain ⟨before, item, after, rfl, rfl, hbefore, hfault⟩ := firstFault_iff.mp h
  refine firstFault_iff.mpr ⟨before, item, other.drop (before.length + 1), ?_, rfl, hbefore,
    hfault⟩
  have hother := List.take_append_drop (before.length + 1) other
  rw [htake, List.take_append, List.take_of_length_le (Nat.le_succ _),
    Nat.add_sub_cancel_left] at hother
  rw [← hother]
  simp

end
end StringAssembler
