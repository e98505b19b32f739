import StringAssembler.Proofs.Files.Rewriting

/-!
# What a path looks at

Following a path looks at a few places only: each name is looked for in the directory that
the names before it lead to, and the search ends where a name leads to no directory
(`FileTree.passedBy`).  A change at any other place goes unnoticed: the path leads where it
led before, reads what it read before and opens the file that it opened before
(`SameExceptAt.resolve_eq`, `SameExceptAt.target_eq`).

The second part is the equality of trees.  Two trees with the same entries may be balanced
differently inside, so trees are compared by their entries (`FileTree.Same`); for those, a
file that is written twice keeps what came last, and files at different places can be
written in either order.
-/

namespace StringAssembler
namespace FileTree

variable {tree other : FileTree} {path name : String} {here there place changed : List String}

/-! ## The places of a path -/

/-- The places that names look at from a directory.  A dot name is looked for nowhere, but no
file ever stands at the place that is put down for it. -/
def passed (tree : FileTree) (here : List String) : List String → List (List String)
  | [] => []
  | name :: rest =>
      (here ++ [name]) ::
        match tree.enter here name with
        | .ok (there, .directory) => tree.passed there rest
        | _ => []

/-- The places that a path looks at, none if the path has a fault of form. -/
def passedBy (tree : FileTree) (path : String) : List (List String) :=
  match checkPath path with
  | .ok _ => tree.passed (tree.start path) (Path.names path)
  | .error _ => []

/-- Names behind others are looked for where those lead to. -/
theorem mem_passed_append_right {before rest : List String}
    (hwalk : tree.walk here before = .ok there) (h : place ∈ tree.passed there rest) :
    place ∈ tree.passed here (before ++ rest) := by
  induction before generalizing here with
  | nil =>
      cases hwalk
      exact h
  | cons name names ih =>
      rw [walk] at hwalk
      rw [List.cons_append, passed]
      split at hwalk
      case h_1 next henter =>
        rw [henter]
        exact List.mem_cons_of_mem _ (ih hwalk)
      case h_2 => cases hwalk
      case h_3 => cases hwalk

theorem mem_passed_append_left {before rest : List String} (h : place ∈ tree.passed here before) :
    place ∈ tree.passed here (before ++ rest) := by
  induction before generalizing here with
  | nil => cases h
  | cons name names ih =>
      rw [List.cons_append, passed] at *
      rcases List.mem_cons.mp h with rfl | hlater
      · exact List.mem_cons_self
      · refine List.mem_cons_of_mem _ ?_
        split at hlater
        case h_1 next henter => exact ih hlater
        case h_2 => cases hlater

/-- The names of a path up to the last one. -/
theorem names_eq_of_getLast? (h : (Path.names path).getLast? = some name) :
    Path.names path = (Path.names path).dropLast ++ [name] := by
  obtain ⟨before, hnames⟩ := List.getLast?_eq_some_iff.mp h
  rw [hnames, List.dropLast_concat]

/-- A path that opens a file looks at its place. -/
theorem Opens.mem_passedBy (h : tree.Opens path here name) :
    here ++ [name] ∈ tree.passedBy path := by
  rw [passedBy, h.check, names_eq_of_getLast? h.last]
  exact mem_passed_append_right h.walk List.mem_cons_self

/-! ## Changes at other places -/

namespace SameExceptAt

theorem enter_eq (h : SameExceptAt changed tree other) (hoff : here ++ [name] ≠ changed) :
    other.enter here name = tree.enter here name := by
  rw [enter, enter, h.find?_eq _ hoff]

theorem walk_eq (h : SameExceptAt changed tree other) {names : List String}
    (hoff : changed ∉ tree.passed here names) : other.walk here names = tree.walk here names := by
  induction names generalizing here with
  | nil => rfl
  | cons name rest ih =>
      rw [passed, List.mem_cons, not_or] at hoff
      rw [walk, walk, h.enter_eq (Ne.symm hoff.1)]
      split
      case h_1 next henter =>
        rw [henter] at hoff
        exact ih hoff.2
      case h_2 => rfl
      case h_3 => rfl

variable (h : SameExceptAt changed tree other) (hoff : changed ∉ tree.passedBy path)

include h hoff

/-- The names of a path lead where they led before, and so does the last one. -/
theorem walk_enter_eq (hcheck : checkPath path = .ok ())
    (hlast : (Path.names path).getLast? = some name) :
    other.walk (tree.start path) (Path.names path).dropLast =
        tree.walk (tree.start path) (Path.names path).dropLast ∧
      ∀ here, tree.walk (tree.start path) (Path.names path).dropLast = .ok here →
        other.enter here name = tree.enter here name := by
  rw [passedBy, hcheck, names_eq_of_getLast? hlast] at hoff
  refine ⟨h.walk_eq fun hpassed => hoff (mem_passed_append_left hpassed), ?_⟩
  intro here hwalk
  refine h.enter_eq ?_
  rintro rfl
  exact hoff (mem_passed_append_right hwalk List.mem_cons_self)

/-- The path leads where it led before. -/
theorem resolve_eq : other.resolve path = tree.resolve path := by
  unfold resolve locate
  cases hcheck : checkPath path with
  | error e => rfl
  | ok _ =>
      cases hlast : (Path.names path).getLast? with
      | none => simp only [start_eq h.home_eq]
      | some name =>
          obtain ⟨hwalk, henter⟩ := h.walk_enter_eq hoff hcheck hlast
          simp only [bind, Except.bind, start_eq h.home_eq, hwalk]
          cases hhere : tree.walk (tree.start path) (Path.names path).dropLast with
          | error e => rfl
          | ok here => simp only [henter here hhere]

/-- The path opens the file that it opened before, if any. -/
theorem target_eq : other.target path = tree.target path := by
  unfold target
  cases hcheck : checkPath path with
  | error e => rfl
  | ok _ =>
      cases hlast : (Path.names path).getLast? with
      | none => rfl
      | some name =>
          obtain ⟨hwalk, henter⟩ := h.walk_enter_eq hoff hcheck hlast
          simp only [bind, Except.bind, start_eq h.home_eq, hwalk]
          cases hhere : tree.walk (tree.start path) (Path.names path).dropLast with
          | error e => rfl
          | ok here => simp only [henter here hhere]

theorem read_eq : other.read path = tree.read path :=
  read_eq_of_resolve_eq (h.resolve_eq hoff)

theorem isBlank_eq : other.isBlank path = tree.isBlank path :=
  isBlank_eq_of_resolve_eq (h.resolve_eq hoff)

end SameExceptAt

/-! ## Trees with the same entries -/

/-- Two trees hold the same at the same places, around one working directory. -/
structure Same (tree other : FileTree) : Prop where
  home_eq : other.home = tree.home
  entries_equiv : tree.entries.Equiv other.entries

namespace Same

theorem refl (tree : FileTree) : Same tree tree :=
  ⟨rfl, .rfl⟩

/-- A file that is written twice holds what was written last. -/
theorem insert_insert (tree : FileTree) (place : List String) (entry entry' : FileEntry) :
    Same (tree.insert place entry') ((tree.insert place entry).insert place entry') where
  home_eq := rfl
  entries_equiv := by
    refine Std.TreeMap.Equiv.of_forall_constGet?_eq fun there => ?_
    simp only [insert, Std.TreeMap.getElem?_insert]
    split <;> rfl

/-- Files at different places can be written in either order. -/
theorem insert_comm (tree : FileTree) {place place' : List String} (hne : place ≠ place')
    (entry entry' : FileEntry) :
    Same ((tree.insert place entry).insert place' entry')
      ((tree.insert place' entry').insert place entry) where
  home_eq := rfl
  entries_equiv := by
    refine Std.TreeMap.Equiv.of_forall_constGet?_eq fun there => ?_
    simp only [insert, Std.TreeMap.getElem?_insert, Std.compare_eq_iff_eq]
    split
    case isTrue hthere' =>
      rw [if_neg]
      rintro rfl
      exact hne hthere'.symm
    case isFalse => rfl

end Same
end FileTree
end StringAssembler
