import StringAssembler.Proofs.Files.Writing

/-!
# Rewriting a file

Where a path leads is a matter of the shape of a tree alone: of the places where it has
directories and where it has files, whatever these hold (`SameShape`).  A path opens the same
file for writing in all trees of one shape (`SameShape.target_eq`), and reads the same unless
it is the content of this very file that differs (`SameShape.resolve_eq`).

A file that is there can be replaced, and then just the paths that open it read the new bytes
(`exists_rewritten`, `Rewritten.read_eq_of_target_eq`).
-/

namespace StringAssembler

/-- Whether an entry is a directory. -/
def FileEntry.isDirectory : FileEntry → Bool
  | .file _ => false
  | .directory => true

namespace FileTree

variable {tree other next : FileTree} {path name : String} {here place : List String}
  {content bytes : ByteArray}

/-- Two trees have files at the same places, directories at the same places, and one
working directory. -/
structure SameShape (tree other : FileTree) : Prop where
  home_eq : other.home = tree.home
  kind_eq : ∀ place, (other.find? place).map FileEntry.isDirectory =
    (tree.find? place).map FileEntry.isDirectory

theorem SameShape.trans (h : SameShape tree other) (hnext : SameShape other next) :
    SameShape tree next where
  home_eq := hnext.home_eq.trans h.home_eq
  kind_eq place := (hnext.kind_eq place).trans (h.kind_eq place)

/-- Another content of a file leaves the shape. -/
theorem sameShape_insert (hfile : tree.find? place = some (.file content)) (bytes : ByteArray) :
    SameShape tree (tree.insert place (.file bytes)) where
  home_eq := rfl
  kind_eq there := by
    by_cases hthere : there = place
    · subst hthere
      have hplace : ¬ there <+: tree.home := not_prefix_home (by simp [hfile])
      rw [find?_insert_self hplace, hfile]
      rfl
    · rw [find?_insert_of_ne hthere]

/-! ## Paths in trees of one shape -/

/-- A name leads to the same in trees of one shape, or to a file whose content is free. -/
theorem SameShape.enter_cases (h : SameShape tree other) (here : List String) (name : String) :
    other.enter here name = tree.enter here name ∨
      ∃ content content', tree.enter here name = .ok (here ++ [name], .file content) ∧
        other.enter here name = .ok (here ++ [name], .file content') := by
  by_cases hdot : name = "."
  · simp [enter, hdot]
  by_cases hup : name = ".."
  · simp [enter, hup]
  by_cases hlong : nameLimit < name.utf8ByteSize
  · simp [enter, hdot, hup, hlong]
  rw [enter_eq_find? hdot hup (Nat.not_lt.mp hlong), enter_eq_find? hdot hup (Nat.not_lt.mp hlong)]
  have hentry := h.kind_eq (here ++ [name])
  cases hfind : tree.find? (here ++ [name]) with
  | none =>
      rw [hfind, Option.map_none, Option.map_eq_none_iff] at hentry
      exact Or.inl (by rw [hentry])
  | some entry =>
      rw [hfind] at hentry
      obtain ⟨entry', hfind', hkind⟩ := Option.map_eq_some_iff.mp hentry
      rw [hfind']
      cases entry with
      | directory =>
          cases entry' with
          | directory => exact Or.inl rfl
          | file content' => cases hkind
      | file content =>
          cases entry' with
          | directory => cases hkind
          | file content' => exact Or.inr ⟨content, content', rfl, rfl⟩

theorem SameShape.walk_eq (h : SameShape tree other) (here : List String) (names : List String) :
    other.walk here names = tree.walk here names := by
  induction names generalizing here with
  | nil => rfl
  | cons name rest ih =>
      rw [walk, walk]
      rcases h.enter_cases here name with heq | ⟨_, _, htree, hother⟩
      · rw [heq]
        simp only [ih]
      · rw [htree, hother]

/-- A path opens the same file for writing in trees of one shape. -/
theorem SameShape.target_eq (h : SameShape tree other) (path : String) :
    other.target path = tree.target path := by
  unfold target
  cases checkPath path with
  | error e => rfl
  | ok _ =>
      cases hlast : (Path.names path).getLast? with
      | none => rfl
      | some name =>
          simp only [bind, Except.bind, start_eq h.home_eq, h.walk_eq]
          cases tree.walk (tree.start path) (Path.names path).dropLast with
          | error e => rfl
          | ok here =>
              rcases h.enter_cases here name with heq | ⟨_, _, htree, hother⟩
              · simp only [heq]
              · simp only [htree, hother]

/-- A path without a final slash that leads to a file opens this file. -/
theorem opens_of_enter (hcheck : checkPath path = .ok ())
    (hlast : (Path.names path).getLast? = some name)
    (hwalk : tree.walk (tree.start path) (Path.names path).dropLast = .ok here)
    (hslash : Path.endsInSlash path = false)
    (henter : tree.enter here name = .ok (place, .file content)) :
    tree.Opens path here name ∧ tree.find? (here ++ [name]) = some (.file content) := by
  rcases enter_eq_ok_cases henter with ⟨hdirectory, -⟩ | ⟨hdot, hup, hshort, rfl, hfind⟩
  · cases hdirectory
  · exact ⟨⟨hcheck, hlast, hwalk, hslash, hdot, hup, hshort, by simp [hfind]⟩, hfind⟩

/-- A path leads to the same in trees of one shape, if it is not the file that it opens
whose content differs. -/
theorem SameShape.resolve_eq (h : SameShape tree other)
    (hsame : ∀ place, tree.target path = .ok place → other.find? place = tree.find? place) :
    other.resolve path = tree.resolve path := by
  unfold resolve locate
  cases hcheck : checkPath path with
  | error e => rfl
  | ok _ =>
      cases hlast : (Path.names path).getLast? with
      | none => simp only [start_eq h.home_eq]
      | some name =>
          simp only [bind, Except.bind, start_eq h.home_eq, h.walk_eq]
          cases hwalk : tree.walk (tree.start path) (Path.names path).dropLast with
          | error e => rfl
          | ok here =>
              rcases h.enter_cases here name with heq | ⟨content, content', htree, hother⟩
              · simp only [heq]
              · simp only [htree, hother]
                cases hslash : Path.endsInSlash path with
                | true => rfl
                | false =>
                    -- Both contents are those at the one place that the path opens.
                    obtain ⟨hopens, hfind⟩ := opens_of_enter hcheck hlast hwalk hslash htree
                    have hwalk' : other.walk (other.start path) (Path.names path).dropLast =
                        .ok here := by
                      rw [start_eq h.home_eq, h.walk_eq, hwalk]
                    obtain ⟨-, hfind'⟩ := opens_of_enter hcheck hlast hwalk' hslash hother
                    rw [hsame _ (target_of_opens hopens), hfind] at hfind'
                    cases hfind'
                    rfl

theorem read_eq_of_resolve_eq (h : other.resolve path = tree.resolve path) :
    other.read path = tree.read path := by
  rw [read, read, h]

theorem isBlank_eq_of_resolve_eq (h : other.resolve path = tree.resolve path) :
    other.isBlank path = tree.isBlank path := by
  rw [isBlank, isBlank, h]

/-! ## Replacing a file -/

/-- A path that reads bytes opens the file that holds them. -/
theorem opens_of_read (h : tree.read path = .ok content) :
    ∃ here name, tree.Opens path here name ∧
      tree.find? (here ++ [name]) = some (.file content) := by
  have hresolve : tree.resolve path = .ok (.file content) := by
    unfold read at h
    split at h
    case h_1 found hfound =>
      cases h
      exact hfound
    case h_2 => cases h
    case h_3 => cases h
  unfold resolve locate at hresolve
  cases hcheck : checkPath path with
  | error e => simp [hcheck, bind, Except.bind] at hresolve
  | ok _ =>
      cases hlast : (Path.names path).getLast? with
      | none => simp [hcheck, hlast, bind, Except.bind, pure, Except.pure] at hresolve
      | some name =>
          cases hwalk : tree.walk (tree.start path) (Path.names path).dropLast with
          | error e => simp [hcheck, hlast, hwalk, bind, Except.bind] at hresolve
          | ok here =>
              simp only [hcheck, hlast, hwalk, bind, Except.bind] at hresolve
              split at hresolve
              case h_1 => cases hresolve
              case h_2 found henter =>
                split at hresolve
                case h_1 => cases hresolve
                case h_2 =>
                  cases hslash : Path.endsInSlash path with
                  | true => simp [hslash, throw, throwThe, MonadExceptOf.throw] at hresolve
                  | false =>
                      simp only [hslash, Bool.false_eq_true, if_false] at hresolve
                      cases hresolve
                      exact ⟨here, name, opens_of_enter hcheck hlast hwalk hslash henter⟩

/-- A tree in which a file that a path opens has been given other bytes. -/
structure Rewritten (tree : FileTree) (path : String) (bytes : ByteArray) (next : FileTree) :
    Prop where
  shape : SameShape tree next
  read_self : next.read path = .ok bytes
  changes : ∃ place, tree.target path = .ok place ∧ SameExceptAt place tree next

/-- A file that can be read can be replaced. -/
theorem exists_rewritten (h : tree.read path = .ok content) (bytes : ByteArray) :
    ∃ next, tree.write path false bytes = .ok next ∧ tree.Rewritten path bytes next := by
  obtain ⟨here, name, hopens, hfind⟩ := opens_of_read h
  rcases tree.write_cases path false bytes with ⟨e, htarget, -⟩ | ⟨here', name', hopens', hwrite⟩
  · rw [target_of_opens hopens] at htarget
    cases htarget
  · have hplace : here' ++ [name'] = here ++ [name] :=
      Except.ok.inj ((target_of_opens hopens').symm.trans (target_of_opens hopens))
    rw [if_neg Bool.false_ne_true, ByteArray.empty_append, hplace] at hwrite
    exact ⟨_, hwrite, sameShape_insert hfind bytes, hopens.read_insert,
      here ++ [name], target_of_opens hopens, sameExceptAt_insert _ _ _⟩

/-- Two paths that open one file read the same. -/
theorem read_eq_of_target_eq {path' : String} (h : tree.target path = .ok place)
    (h' : tree.target path' = .ok place) : tree.read path' = tree.read path := by
  obtain ⟨here, name, hopens, rfl⟩ := opens_of_target h
  obtain ⟨here', name', hopens', hplace⟩ := opens_of_target h'
  rw [hopens.read_eq, hopens'.read_eq, hplace]

example :
    let tree := empty.putFile "d/o" "x".toUTF8
    tree.read "/work/d/o" = .ok "x".toUTF8 ∧ tree.read "../work/./d/o" = .ok "x".toUTF8 ∧
      tree.read "/d/o" = .error .notFound :=
  ⟨rfl, rfl, rfl⟩

namespace Rewritten

/-- A path that opens another file leads where it led before, and so does one that opens
no file. -/
theorem resolve_eq (h : tree.Rewritten path bytes next) {path' : String}
    (hother : tree.target path' ≠ tree.target path) : next.resolve path' = tree.resolve path' := by
  obtain ⟨place, htarget, hsame⟩ := h.changes
  refine h.shape.resolve_eq fun place' htarget' => hsame.find?_eq place' ?_
  rintro rfl
  exact hother (htarget'.trans htarget.symm)

/-- A path that opens the file reads the new bytes. -/
theorem read_eq_of_target_eq (h : tree.Rewritten path bytes next) {path' : String}
    (hsame : tree.target path' = tree.target path) : next.read path' = .ok bytes := by
  obtain ⟨place, htarget, -⟩ := h.changes
  rw [← h.read_self]
  apply FileTree.read_eq_of_target_eq
  · rw [h.shape.target_eq, htarget]
  · rw [h.shape.target_eq, hsame, htarget]

/-- A path that opens another file, or none, reads what it read before. -/
theorem read_eq_of_target_ne (h : tree.Rewritten path bytes next) {path' : String}
    (hother : tree.target path' ≠ tree.target path) : next.read path' = tree.read path' :=
  read_eq_of_resolve_eq (h.resolve_eq hother)

end Rewritten
end FileTree
end StringAssembler
