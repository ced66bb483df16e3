import NqcBlocks.Decimal.Number
import NqcBlocks.Diff.Script

/-!
# Unified differences

The usual account of how a text changed: hunks of changed lines with a few unchanged lines around
them, each under a header that says which lines of the old and of the new text it covers.
-/

namespace NqcBlocks.Diff

def contextLines : Nat := 3

/-- **A hunk**: stretches of a script that stand together, and how many lines of either list come
before them. -/
structure Hunk where
  oldStart : Nat := 0
  newStart : Nat := 0
  segments : List Segment := []
  deriving DecidableEq, Repr

namespace Hunk

def push (h : Hunk) (s : Segment) : Hunk := { h with segments := h.segments ++ [s] }

def isSame (h : Hunk) : Bool := h.segments.all Segment.isSame

def range (start length : Nat) : String :=
  if length = 1 then Number.natText (start + 1)
  else
    let first := if length = 0 then start else start + 1
    Number.natText first ++ "," ++ Number.natText length

def header (h : Hunk) : String :=
  "@@ -" ++ range h.oldStart (oldLines h.segments).length
    ++ " +" ++ range h.newStart (newLines h.segments).length ++ " @@"

def segmentLines : Segment → List String
  | .same lines => lines.map (" " ++ ·)
  | .change removed added => removed.map ("-" ++ ·) ++ added.map ("+" ++ ·)

def lines (h : Hunk) : List String := h.header :: h.segments.flatMap segmentLines

end Hunk

def hunksFrom (h : Hunk) (old new : Nat) : List Segment → List Hunk
  | [] => if h.isSame then [] else [h]
  | .same lines :: rest =>
    let n := lines.length
    if 2 * contextLines < n then
      h.push (.same (lines.take contextLines))
        :: hunksFrom
          { oldStart := old + (n - contextLines), newStart := new + (n - contextLines)
            segments := [.same (lines.drop (n - contextLines))] }
          (old + n) (new + n) rest
    else hunksFrom (h.push (.same lines)) (old + n) (new + n) rest
  | .change removed added :: rest =>
    hunksFrom (h.push (.change removed added)) (old + removed.length) (new + added.length) rest

def trimEnd : List Segment → List Segment
  | [] => []
  | [.same lines] => [.same (lines.take contextLines)]
  | s :: rest => s :: trimEnd rest

def hunks (script : List Segment) : List Hunk :=
  match trimEnd script with
  | .same lines :: rest =>
    let n := lines.length - contextLines
    hunksFrom { oldStart := n, newStart := n } n n (.same (lines.drop n) :: rest)
  | script => hunksFrom {} 0 0 script

/-- **The unified difference** of two lists of lines, under the names given to them; no lines at all
where nothing changed. -/
def unified (oldName newName : String) (old new : List String) : List String :=
  match hunks (script old new) with
  | [] => []
  | hs => ("--- " ++ oldName) :: ("+++ " ++ newName) :: hs.flatMap Hunk.lines

end NqcBlocks.Diff
