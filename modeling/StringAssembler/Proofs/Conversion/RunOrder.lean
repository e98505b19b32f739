import Mathlib.Data.List.Basic
import StringAssembler.Proofs.Conversion.Effects
import StringAssembler.Proofs.Files.Passing

/-!
# Runs one after the other

A run looks at the places of its three paths and changes at most the one place that its
output opens.  So a run takes no notice of a change that its paths keep off
(`ConversionOptions.runsAlike_of_sameExceptAt`), and a run that replaces its output takes
no notice of what this held (`ConversionOptions.runsAlike_of_replaced`).  From the first
follows that runs that keep off each other's output can go in either order, from the
second that a run that replaces its output can be repeated (`runs_repeat_and_commute`).

Keeping off is a matter of places, not of spelling: a path that names another output in
other words, or that passes through it, does not keep off it.
-/

namespace StringAssembler
namespace ConversionOptions

variable {options one two : ConversionOptions} {tree other : FileTree} {changed : List String}

/-- A run that replaces its output does not ask whether this starts blank. -/
theorem render_eq_of_replaces {sources others : ConversionSources}
    (happend : options.append = false) (htable : others.table = sources.table)
    (hinput : others.input = sources.input) :
    options.render others = options.render sources := by
  have hfresh : ∀ blank, options.fresh blank = true := by
    intro blank
    rw [fresh, happend]
    rfl
  simp only [render, block, htable, hinput, hfresh]

/-- The paths of a run look at other places only. -/
structure Avoids (options : ConversionOptions) (tree : FileTree) (place : List String) :
    Prop where
  table : place ∉ tree.passedBy options.table
  input : place ∉ tree.passedBy options.input
  output : place ∉ tree.passedBy options.output

/-- No path of a run names the file that the output of another run opens, or passes
through it. -/
def KeepsOff (options other : ConversionOptions) (tree : FileTree) : Prop :=
  ∀ place, tree.target other.output = .ok place → options.Avoids tree place

/-- A run takes no notice of a change at a place that it does not look at. -/
theorem runsAlike_of_sameExceptAt (hchange : FileTree.SameExceptAt changed tree other)
    (hoff : options.Avoids tree changed) : options.RunsAlike tree other := by
  refine runsAlike_of_render_eq ?_ (hchange.target_eq hoff.output) fun _ => ?_
  · rw [sources, sources, hchange.read_eq hoff.table, hchange.read_eq hoff.input,
      hchange.isBlank_eq hoff.output]
  · rw [FileTree.contentOf, FileTree.contentOf, hchange.read_eq hoff.output]

/-- A run that replaces its output takes no notice of another content of it. -/
theorem runsAlike_of_replaced {here : List String} {name : String} {content : ByteArray}
    (happend : options.append = false) (hopens : tree.Opens options.output here name)
    (htable : here ++ [name] ∉ tree.passedBy options.table)
    (hinput : here ++ [name] ∉ tree.passedBy options.input) :
    options.RunsAlike tree (tree.insert (here ++ [name]) (.file content)) := by
  have hchange := FileTree.sameExceptAt_insert tree (here ++ [name]) (.file content)
  refine runsAlike_of_render_eq ?_ ?_ fun happends => ?_
  · exact render_eq_of_replaces happend (hchange.read_eq htable) (hchange.read_eq hinput)
  · rw [FileTree.target_of_opens hopens, FileTree.target_of_opens hopens.insert]
  · rw [happend] at happends
    cases happends

/-- A run that replaces its output, which is neither of its sources, can be repeated. -/
theorem run_run (happend : options.append = false)
    (hoff : ∀ place, tree.target options.output = .ok place →
      place ∉ tree.passedBy options.table ∧ place ∉ tree.passedBy options.input) :
    options.RunsAlike tree (options.run tree).tree ∧
      FileTree.Same (options.run tree).tree (options.run (options.run tree).tree).tree := by
  rcases (RunsAlike.refl options tree).effect with ⟨htree, -⟩ | ⟨_, _, _, hopens, htree, -⟩
  · rw [htree, htree]
    exact ⟨.refl options tree, .refl tree⟩
  · obtain ⟨htable, hinput⟩ := hoff _ (FileTree.target_of_opens hopens)
    have halike : options.RunsAlike tree (options.run tree).tree := by
      rw [htree]
      exact runsAlike_of_replaced happend hopens htable hinput
    refine ⟨halike, ?_⟩
    rcases halike.effect with ⟨hleft, hagain⟩ | ⟨_, _, _, -, hwritten, hagain⟩
    · rw [hagain]
      exact .refl _
    · -- The second run puts the same file at the same place once more.
      rw [hagain, hwritten]
      exact .insert_insert _ _ _ _

/-- Behind a run that another keeps off, the other does what it would have done before. -/
theorem runsAlike_behind (hoff : two.KeepsOff one tree) :
    two.RunsAlike tree (one.run tree).tree := by
  rcases (RunsAlike.refl one tree).effect with ⟨htree, -⟩ | ⟨_, _, _, hopens, htree, -⟩
  · rw [htree]
    exact .refl two tree
  · rw [htree]
    exact runsAlike_of_sameExceptAt (FileTree.sameExceptAt_insert _ _ _)
      (hoff _ (FileTree.target_of_opens hopens))

/-- Two runs that keep off each other's output leave the same tree in either order. -/
theorem run_run_comm (hone : one.KeepsOff two tree) (htwo : two.KeepsOff one tree) :
    FileTree.Same (two.run (one.run tree).tree).tree (one.run (two.run tree).tree).tree := by
  rcases (runsAlike_behind hone).effect with
    ⟨honeTree, honeBehind⟩ | ⟨here, name, content, hopens, honeTree, honeBehind⟩
  · -- The first run leaves every tree alone, so only the second one counts.
    rw [honeBehind, honeTree]
    exact .refl _
  rcases (runsAlike_behind htwo).effect with
    ⟨htwoTree, htwoBehind⟩ | ⟨here', name', content', hopens', htwoTree, htwoBehind⟩
  · rw [htwoBehind, htwoTree]
    exact .refl _
  have hplaces : here ++ [name] ≠ here' ++ [name'] := by
    intro hplace
    have hoff := (hone _ (FileTree.target_of_opens hopens')).output
    rw [← hplace] at hoff
    exact hoff hopens.mem_passedBy
  rw [htwoBehind, honeBehind, honeTree, htwoTree]
  exact .insert_comm tree hplaces _ _

end ConversionOptions

/-- Runs repeat and commute.  A run that replaces its output and whose sources keep off it
gives the same result a second time and leaves the same tree.  Two runs of any kind, failing
ones included, that keep off each other's output give the same results in either order and
leave the same tree. -/
theorem runs_repeat_and_commute (tree : FileTree) :
    (∀ options : ConversionOptions, options.append = false →
      (∀ place, tree.target options.output = .ok place →
        place ∉ tree.passedBy options.table ∧ place ∉ tree.passedBy options.input) →
      let first := options.run tree
      let second := options.run first.tree
      second.outcome = first.outcome ∧ second.events = first.events ∧
        FileTree.Same first.tree second.tree) ∧
    ∀ one two : ConversionOptions, one.KeepsOff two tree → two.KeepsOff one tree →
      let oneFirst := one.run tree
      let twoFirst := two.run tree
      let oneThen := one.run twoFirst.tree
      let twoThen := two.run oneFirst.tree
      oneThen.outcome = oneFirst.outcome ∧ oneThen.events = oneFirst.events ∧
        twoThen.outcome = twoFirst.outcome ∧ twoThen.events = twoFirst.events ∧
        FileTree.Same twoThen.tree oneThen.tree := by
  constructor
  · intro options happend hoff first second
    obtain ⟨halike, hsame⟩ := ConversionOptions.run_run happend hoff
    exact ⟨halike.outcome, halike.events, hsame⟩
  · intro one two hone htwo oneFirst twoFirst oneThen twoThen
    have honeAlike : one.RunsAlike tree twoFirst.tree := ConversionOptions.runsAlike_behind hone
    have htwoAlike : two.RunsAlike tree oneFirst.tree := ConversionOptions.runsAlike_behind htwo
    exact ⟨honeAlike.outcome, honeAlike.events, htwoAlike.outcome, htwoAlike.events,
      ConversionOptions.run_run_comm hone htwo⟩

/-- A run with a table from the root and a failing run out of another directory, with a way up
in between. -/
theorem runs_repeat_and_commute_twoRuns :
    let tree := ((FileTree.empty.putFile "t" "A=1\n".toUTF8).putFile "i" "x=A\n".toUTF8).putFile
      "d/i" "y=A?\n".toUTF8
    let one : ConversionOptions := ⟨"/work/t", "i", "o", false, false, .shortest, none⟩
    let two : ConversionOptions := ⟨"d/../t", "d/i", "d/../p", true, false, .longest, some 0⟩
    one.KeepsOff two tree ∧ two.KeepsOff one tree ∧
      (one.run (two.run tree).tree).outcome = .ok ⟨1, 1⟩ ∧
      (two.run (one.run tree).tree).outcome = .error (.encoding "d/i" 1 "y" ⟨1, "?"⟩) ∧
      (one.run (one.run tree).tree).outcome = .ok ⟨1, 1⟩ ∧
      FileTree.Same (one.run tree).tree (one.run (one.run tree).tree).tree ∧
      FileTree.Same (two.run (one.run tree).tree).tree (one.run (two.run tree).tree).tree := by
  intro tree one two
  have honeOutput : tree.target one.output = .ok ["work", "o"] := by decide +kernel
  have htwoOutput : tree.target two.output = .ok ["work", "p"] := by decide +kernel
  have hone : one.KeepsOff two tree := by
    intro place hplace
    cases htwoOutput.symm.trans hplace
    exact ⟨by decide +kernel, by decide +kernel, by decide +kernel⟩
  have htwo : two.KeepsOff one tree := by
    intro place hplace
    cases honeOutput.symm.trans hplace
    exact ⟨by decide +kernel, by decide +kernel, by decide +kernel⟩
  obtain ⟨hagain, heither⟩ := runs_repeat_and_commute tree
  have hsources : ∀ place, tree.target one.output = .ok place →
      place ∉ tree.passedBy one.table ∧ place ∉ tree.passedBy one.input := by
    intro place hplace
    cases honeOutput.symm.trans hplace
    exact ⟨by decide +kernel, by decide +kernel⟩
  obtain ⟨honeAgain, -, hsame⟩ := hagain one rfl hsources
  obtain ⟨honeBehind, -, htwoBehind, -, hcomm⟩ := heither one two hone htwo
  have honeFirst : (one.run tree).outcome = .ok ⟨1, 1⟩ := by decide +kernel
  have htwoFirst : (two.run tree).outcome = .error (.encoding "d/i" 1 "y" ⟨1, "?"⟩) := by
    decide +kernel
  exact ⟨hone, htwo, honeBehind.trans honeFirst, htwoBehind.trans htwoFirst,
    honeAgain.trans honeFirst, hsame, hcomm⟩

end StringAssembler
