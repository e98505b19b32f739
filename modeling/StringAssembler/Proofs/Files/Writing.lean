import Std.Data.TreeMap.Lemmas
import StringAssembler.Files.Tree

/-!
# Writing to a file tree

Where a path opens a file for writing (`FileTree.target`), reading the path gives what
stands there, and writing changes that place and no other.  A path is followed through
directories only and a write never takes one away, so behind a write every path that
opened a file for writing still does, at the same place (`Opens.of_keepsDirectories`), and
reading the written path gives what was written (`Opens.read_insert`).

Two paths with different spellings may open the same place; nothing here depends on
the spelling.
-/

namespace StringAssembler
namespace FileTree

variable {tree other : FileTree} {path name : String} {here there place : List String}
variable {entry : FileEntry}

/-! ## Places -/

theorem find?_insert_of_ne {changed : List String} (h : place ≠ changed) :
    (tree.insert changed entry).find? place = tree.find? place := by
  unfold find? insert
  split
  · -- The working directory and those above it are no entries.
    rfl
  · rw [Std.TreeMap.getElem?_insert, if_neg]
    intro heq
    exact h (Std.compare_eq_iff_eq.mp heq).symm

theorem find?_insert_self (h : ¬ place <+: tree.home) :
    (tree.insert place entry).find? place = some entry := by
  unfold find? insert
  rw [if_neg h, Std.TreeMap.getElem?_insert_self]

/-- The working directory and those above it are directories, so no other place is one of
them. -/
theorem not_prefix_home (h : tree.find? place ≠ some .directory) : ¬ place <+: tree.home :=
  fun hprefix => h (if_pos hprefix)

/-- Where a path starts is a matter of the working directory alone. -/
theorem start_eq (h : other.home = tree.home) (path : String) :
    other.start path = tree.start path := by
  rw [start, start, h]

/-! ## Following names -/

/-- A name that is not too long and is none of the two dot names leads down. -/
theorem enter_eq_find? (hdot : name ≠ ".") (hup : name ≠ "..")
    (hshort : name.utf8ByteSize ≤ nameLimit) :
    tree.enter here name =
      match tree.find? (here ++ [name]) with
      | some entry => .ok (here ++ [name], entry)
      | none => .error .notFound := by
  unfold enter
  exact (if_neg hdot).trans ((if_neg hup).trans (if_neg (Nat.not_lt.mpr hshort)))

/-- A name that leads anywhere is a dot name, which leads to the same directory in every
tree, or it leads down. -/
theorem enter_eq_ok_cases (h : tree.enter here name = .ok (there, entry)) :
    (entry = .directory ∧
        ∀ any : FileTree, any.enter here name = .ok (there, .directory)) ∨
      (name ≠ "." ∧ name ≠ ".." ∧ name.utf8ByteSize ≤ nameLimit ∧
        there = here ++ [name] ∧ tree.find? there = some entry) := by
  by_cases hdot : name = "."
  · simp only [enter, hdot, if_true, Except.ok.injEq, Prod.mk.injEq] at h ⊢
    exact Or.inl ⟨h.2.symm, fun _ => ⟨h.1, trivial⟩⟩
  by_cases hup : name = ".."
  · simp only [enter, hup, String.reduceEq, if_true, if_false, Except.ok.injEq,
      Prod.mk.injEq] at h ⊢
    exact Or.inl ⟨h.2.symm, fun _ => ⟨h.1, trivial⟩⟩
  by_cases hlong : nameLimit < name.utf8ByteSize
  · simp [enter, hdot, hup, hlong] at h
  have hshort := Nat.not_lt.mp hlong
  rw [enter_eq_find? hdot hup hshort] at h
  split at h
  case h_1 found hfind =>
    obtain ⟨rfl, rfl⟩ := Prod.mk.inj (Except.ok.inj h)
    exact Or.inr ⟨hdot, hup, hshort, rfl, hfind⟩
  case h_2 => cases h

/-- Every directory of one tree is a directory of another, and both have one working
directory. -/
structure KeepsDirectories (tree other : FileTree) : Prop where
  home_eq : other.home = tree.home
  find?_eq : ∀ place, tree.find? place = some .directory → other.find? place = some .directory

theorem enter_of_keepsDirectories (hkeep : KeepsDirectories tree other)
    (h : tree.enter here name = .ok (there, .directory)) :
    other.enter here name = .ok (there, .directory) := by
  rcases enter_eq_ok_cases h with ⟨-, hany⟩ | ⟨hdot, hup, hshort, rfl, hfind⟩
  · exact hany other
  · rw [enter_eq_find? hdot hup hshort, hkeep.find?_eq _ hfind]

/-- Names lead through directories only, so they lead to the same place in every tree
that keeps these. -/
theorem walk_of_keepsDirectories (hkeep : KeepsDirectories tree other)
    {names : List String} (h : tree.walk here names = .ok there) :
    other.walk here names = .ok there := by
  induction names generalizing here with
  | nil => exact h
  | cons name rest ih =>
      rw [walk] at h ⊢
      split at h
      case h_1 next henter =>
        rw [enter_of_keepsDirectories hkeep henter]
        exact ih h
      case h_2 => cases h
      case h_3 => cases h

/-! ## Opening a file for writing -/

/-- A path that opens a file for writing: it is well formed, all its names but the last
lead through directories, and the last leads down to a place without a directory. -/
structure Opens (tree : FileTree) (path : String) (here : List String) (name : String) :
    Prop where
  check : checkPath path = .ok ()
  last : (Path.names path).getLast? = some name
  walk : tree.walk (tree.start path) (Path.names path).dropLast = .ok here
  noSlash : Path.endsInSlash path = false
  ne_dot : name ≠ "."
  ne_up : name ≠ ".."
  short : name.utf8ByteSize ≤ nameLimit
  free : tree.find? (here ++ [name]) ≠ some .directory

theorem target_of_opens (h : tree.Opens path here name) :
    tree.target path = .ok (here ++ [name]) := by
  have hform : (Path.endsInSlash path || decide (name = ".") || decide (name = "..")) = false := by
    simp [h.noSlash, h.ne_dot, h.ne_up]
  simp only [target, h.check, h.last, h.walk, hform, bind, Except.bind,
    enter_eq_find? h.ne_dot h.ne_up h.short]
  cases hfind : tree.find? (here ++ [name]) with
  | none => rfl
  | some entry =>
      cases entry with
      | file content => rfl
      | directory => exact absurd hfind h.free

theorem opens_of_target (h : tree.target path = .ok place) :
    ∃ here name, tree.Opens path here name ∧ place = here ++ [name] := by
  unfold target at h
  cases hcheck : checkPath path with
  | error e => simp [hcheck, bind, Except.bind] at h
  | ok _ =>
      cases hlast : (Path.names path).getLast? with
      | none =>
          simp [hcheck, hlast, bind, Except.bind, throw, throwThe, MonadExceptOf.throw] at h
      | some name =>
          cases hwalk : tree.walk (tree.start path) (Path.names path).dropLast with
          | error e => simp [hcheck, hlast, hwalk, bind, Except.bind] at h
          | ok here =>
              simp only [hcheck, hlast, hwalk, bind, Except.bind] at h
              split at h
              case isTrue => cases h
              case isFalse hform =>
                simp only [Bool.or_eq_true, decide_eq_true_eq, not_or, Bool.not_eq_true] at hform
                -- A name that is too long is refused with a failure of its own, so it is
                -- not taken for one that is free.
                have hshort : name.utf8ByteSize ≤ nameLimit := by
                  refine Nat.not_lt.mp fun hlong => ?_
                  simp [enter, hform, hlong, throw, throwThe, MonadExceptOf.throw] at h
                rw [enter_eq_find? hform.1.2 hform.2 hshort] at h
                refine ⟨here, name, ⟨hcheck, hlast, hwalk, hform.1.1, hform.1.2, hform.2,
                  hshort, ?_⟩, ?_⟩
                · intro hdirectory
                  rw [hdirectory] at h
                  cases h
                · cases hfind : tree.find? (here ++ [name]) with
                  | none =>
                      rw [hfind] at h
                      exact (Except.ok.inj h).symm
                  | some entry =>
                      rw [hfind] at h
                      cases entry with
                      | file content => exact (Except.ok.inj h).symm
                      | directory => cases h

/-- A path that opens one place in two trees is followed alike in both. -/
theorem Opens.of_target_eq (h : tree.Opens path here name)
    (htarget : other.target path = tree.target path) : other.Opens path here name := by
  obtain ⟨here', name', hopens, hplace⟩ := opens_of_target (htarget.trans (target_of_opens h))
  obtain ⟨rfl, hname⟩ := List.append_inj' hplace rfl
  cases hname
  exact hopens

/-! ## The view through a path that opens a file -/

namespace Opens

theorem not_prefix_home (h : tree.Opens path here name) : ¬ here ++ [name] <+: tree.home :=
  FileTree.not_prefix_home h.free

/-- What stands at the end of the path: the file, if it is there. -/
theorem resolve_eq (h : tree.Opens path here name) :
    tree.resolve path =
      match tree.find? (here ++ [name]) with
      | some entry => .ok entry
      | none => .error .notFound := by
  simp only [resolve, locate, h.check, h.last, h.walk, bind, Except.bind,
    enter_eq_find? h.ne_dot h.ne_up h.short]
  cases hfind : tree.find? (here ++ [name]) with
  | none => rfl
  | some entry =>
      cases entry with
      | file content => simp [h.noSlash, pure, Except.pure]
      | directory => rfl

/-- Reading the path gives the bytes of the file, if it is there. -/
theorem read_eq (h : tree.Opens path here name) :
    tree.read path =
      match tree.find? (here ++ [name]) with
      | some (.file content) => .ok content
      | _ => .error .notFound := by
  unfold read
  rw [h.resolve_eq]
  cases hfind : tree.find? (here ++ [name]) with
  | none => rfl
  | some entry =>
      cases entry with
      | file content => rfl
      | directory => exact absurd hfind h.free

/-- The path opens a file at the same place in every tree that keeps the directories and
has none at that place. -/
theorem of_keepsDirectories (h : tree.Opens path here name)
    (hkeep : KeepsDirectories tree other)
    (hfree : other.find? (here ++ [name]) ≠ some .directory) :
    other.Opens path here name :=
  { h with
    walk := by
      rw [start_eq hkeep.home_eq]
      exact walk_of_keepsDirectories hkeep h.walk
    free := hfree }

end Opens

/-! ## What a write changes -/

/-- Two trees differ at most at one place, and have one working directory. -/
structure SameExceptAt (changed : List String) (before after : FileTree) : Prop where
  home_eq : after.home = before.home
  find?_eq : ∀ place, place ≠ changed → after.find? place = before.find? place

theorem sameExceptAt_insert (tree : FileTree) (place : List String) (entry : FileEntry) :
    SameExceptAt place tree (tree.insert place entry) where
  home_eq := rfl
  find?_eq _ hne := find?_insert_of_ne hne

namespace Opens

variable {content : ByteArray}

/-- A write keeps all directories, because none stood at its place. -/
theorem keepsDirectories_insert (h : tree.Opens path here name) :
    KeepsDirectories tree (tree.insert (here ++ [name]) entry) where
  home_eq := rfl
  find?_eq place hplace := by
    rw [find?_insert_of_ne]
    · exact hplace
    · rintro rfl
      exact h.free hplace

/-- Behind a write the path opens the same file. -/
theorem insert (h : tree.Opens path here name) :
    (tree.insert (here ++ [name]) (.file content)).Opens path here name := by
  refine h.of_keepsDirectories h.keepsDirectories_insert ?_
  rw [find?_insert_self h.not_prefix_home]
  simp

/-- Behind a write the path reads what was written. -/
theorem read_insert (h : tree.Opens path here name) :
    (tree.insert (here ++ [name]) (.file content)).read path = .ok content := by
  have hinsert : (tree.insert (here ++ [name]) (.file content)).Opens path here name :=
    h.insert
  rw [hinsert.read_eq, find?_insert_self h.not_prefix_home]

end Opens

/-- The bytes that a path reads, none if it reads nothing. -/
def contentOf (tree : FileTree) (path : String) : ByteArray :=
  match tree.read path with
  | .ok content => content
  | .error _ => ByteArray.empty

theorem contentOf_eq_of_read {content : ByteArray} (h : tree.read path = .ok content) :
    tree.contentOf path = content := by
  rw [contentOf, h]

namespace Opens

/-- The place of the file and the path that opens it have the same bytes. -/
theorem contentAt_eq (h : tree.Opens path here name) :
    tree.contentAt (here ++ [name]) = tree.contentOf path := by
  unfold contentAt contentOf
  rw [h.read_eq]
  cases hfind : tree.find? (here ++ [name]) with
  | none => rfl
  | some entry =>
      cases entry with
      | file content => rfl
      | directory => rfl

/-- A file that can be opened is blank when it is missing or has no bytes. -/
theorem isBlank_iff (h : tree.Opens path here name) :
    tree.isBlank path = true ↔ tree.contentOf path = ByteArray.empty := by
  unfold isBlank contentOf
  rw [h.resolve_eq, h.read_eq]
  cases hfind : tree.find? (here ++ [name]) with
  | none => simp
  | some entry =>
      cases entry with
      | file content => simp [ByteArray.size_eq_zero_iff]
      | directory => exact absurd hfind h.free

end Opens

/-- A write to a path that opens a file fills its place with what is kept of the old bytes
and the new ones. -/
theorem Opens.write_eq (h : tree.Opens path here name) (append : Bool) (bytes : ByteArray) :
    tree.write path append bytes =
      .ok (tree.insert (here ++ [name])
        (.file ((if append then tree.contentOf path else ByteArray.empty) ++ bytes))) := by
  simp only [write, target_of_opens h, h.contentAt_eq]

/-- What became of a write: the path opens no file, or exactly the place of its file is
filled with what is kept of the old bytes and the new ones. -/
theorem write_cases (tree : FileTree) (path : String) (append : Bool) (bytes : ByteArray) :
    (∃ e, tree.target path = .error e ∧ tree.write path append bytes = .error e) ∨
      ∃ here name, tree.Opens path here name ∧
        tree.write path append bytes =
          .ok (tree.insert (here ++ [name])
            (.file ((if append then tree.contentOf path else ByteArray.empty) ++ bytes))) := by
  cases htarget : tree.target path with
  | error e => exact Or.inl ⟨e, rfl, by rw [write, htarget]⟩
  | ok place =>
      obtain ⟨here, name, hopens, rfl⟩ := opens_of_target htarget
      exact Or.inr ⟨here, name, hopens, hopens.write_eq append bytes⟩

end FileTree
end StringAssembler
