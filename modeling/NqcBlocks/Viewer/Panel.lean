import NqcBlocks.Viewer.Phase
import NqcBlocks.Viewer.Styled.Text
import NqcBlocks.Viewer.WarningTable

/-!
# Panels

A panel shows one of its parts under a title, or is hidden. A hidden panel keeps the part it showed
last. Its border shows the first line of the title, in the styles that tags in the title ask for; a
title whose tags cannot be read leaves the border as it was.
-/

namespace NqcBlocks.Viewer

/-- **A panel.** -/
structure Panel where
  title : String
  border : String := title
  content : PanelContent := .hidden
  shown : PanelContent := .blockTree
  hidden : Bool := true
  warnings : WarningTable := {}
  deriving Inhabited

namespace Panel

def retitle (p : Panel) (title : String) : Panel × Except MarkupError Unit :=
  if p.title = title then (p, .ok ())
  else match borderLine title with
    | .error e => ({ p with title }, .error e)
    | .ok border => ({ p with title, border }, .ok ())

def ask (p : Panel) (content : PanelContent) : Panel × Except String Unit :=
  if p.content = content then (p, .ok ())
  else
    let p := { p with content }
    match content with
    | .hidden => ({ p with hidden := true }, .ok ())
    | .other name =>
      if name.isEmpty then (p, .ok ()) else ({ p with hidden := false }, .error name)
    | known => ({ p with shown := known, hidden := false }, .ok ())

def showing (p : Panel) (content : PanelContent) : Panel := (p.ask content).1

end Panel

inductive Side where
  | left
  | right
  deriving DecidableEq, Repr

end NqcBlocks.Viewer
