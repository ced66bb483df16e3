/-!
# Edit scripts

How one list of lines becomes another: stretches that both have, and between them lines that were
replaced. The script is found by the longest stretch that both lists have, and then by the same rule
before it and after it; of several longest stretches the one that starts first in the old list is
taken, and of those the one that starts first in the new list.
-/

namespace NqcBlocks.Diff

inductive Segment where
  | same (lines : List String)
  | change (removed added : List String)
  deriving DecidableEq, Repr

namespace Segment

def old : Segment → List String
  | .same lines => lines
  | .change removed _ => removed

def new : Segment → List String
  | .same lines => lines
  | .change _ added => added

def isSame : Segment → Bool
  | .same _ => true
  | .change _ _ => false

end Segment

def oldLines (script : List Segment) : List String := script.flatMap Segment.old

def newLines (script : List Segment) : List String := script.flatMap Segment.new

def commonHead : List String → List String → Nat
  | a :: as, b :: bs => if a == b then commonHead as bs + 1 else 0
  | _, _ => 0

structure Match where
  old : Nat := 0
  new : Nat := 0
  size : Nat := 0
  deriving DecidableEq, Repr

def Match.better (best : Match) (i j : Nat) (as bs : List String) : Match :=
  let size := commonHead as bs
  if best.size < size then ⟨i, j, size⟩ else best

def bestAgainst (i : Nat) (as : List String) (j : Nat) (best : Match) : List String → Match
  | [] => best
  | b :: bs => bestAgainst i as (j + 1) (best.better i j as (b :: bs)) bs

def bestFrom (new : List String) (i : Nat) (best : Match) : List String → Match
  | [] => best
  | a :: as => bestFrom new (i + 1) (bestAgainst i (a :: as) 0 best new) as

def longest (old new : List String) : Match := bestFrom new 0 {} old

def changed (old new : List String) : List Segment :=
  if old.isEmpty && new.isEmpty then [] else [.change old new]

def scriptWithin : Nat → List String → List String → List Segment
  | 0, old, new => changed old new
  | fuel + 1, old, new =>
    let m := longest old new
    if m.size = 0 then changed old new
    else
      let stretch := (old.drop m.old).take m.size
      if stretch = (new.drop m.new).take m.size then
        scriptWithin fuel (old.take m.old) (new.take m.new)
          ++ .same stretch
          :: scriptWithin fuel (old.drop (m.old + m.size)) (new.drop (m.new + m.size))
      else changed old new

/-- **The script from one list of lines to another.** Every split takes away a line of the old list, so
its length bounds their nesting. -/
def script (old new : List String) : List Segment := scriptWithin old.length old new

/-! ## A script keeps both lists -/

theorem oldLines_changed (old new : List String) : oldLines (changed old new) = old := by
  unfold changed
  split
  · simp_all [oldLines]
  · simp [oldLines, Segment.old]

theorem newLines_changed (old new : List String) : newLines (changed old new) = new := by
  unfold changed
  split
  · simp_all [newLines]
  · simp [newLines, Segment.new]

/-- A list is what stands before a stretch, the stretch and what stands after it. -/
theorem take_append_stretch (l : List String) (i k : Nat) :
    l.take i ++ ((l.drop i).take k ++ l.drop (i + k)) = l := by
  rw [← List.drop_drop, List.take_append_drop, List.take_append_drop]

theorem oldLines_scriptWithin (fuel : Nat) (old new : List String) :
    oldLines (scriptWithin fuel old new) = old := by
  induction fuel generalizing old new with
  | zero => exact oldLines_changed old new
  | succ fuel ih =>
    simp only [scriptWithin]
    split
    · exact oldLines_changed old new
    · split
      · have h := fun o n => ih o n
        simp only [oldLines] at h ⊢
        simp only [List.flatMap_append, List.flatMap_cons, h, Segment.old]
        exact take_append_stretch old _ _
      · exact oldLines_changed old new

theorem newLines_scriptWithin (fuel : Nat) (old new : List String) :
    newLines (scriptWithin fuel old new) = new := by
  induction fuel generalizing old new with
  | zero => exact newLines_changed old new
  | succ fuel ih =>
    simp only [scriptWithin]
    split
    · exact newLines_changed old new
    · split
      · next hs =>
        have h := fun o n => ih o n
        simp only [newLines] at h ⊢
        simp only [List.flatMap_append, List.flatMap_cons, h, Segment.new, hs]
        exact take_append_stretch new _ _
      · exact newLines_changed old new

theorem oldLines_script (old new : List String) : oldLines (script old new) = old :=
  oldLines_scriptWithin _ old new

theorem newLines_script (old new : List String) : newLines (script old new) = new :=
  newLines_scriptWithin _ old new

end NqcBlocks.Diff
