import NqcBlocks.Validation

/-!
# Editing under supervision

An editor holds a graph, the validators that watch it and the log of what happened to its blocks. A
**command** is one edit; performing it changes the graph, logs the events and lets every validator
apply the rules again after each event about a task. A refused command changes nothing, unless it
stopped half way for a block that is gone.
-/

namespace NqcBlocks

structure Editor where
  graph : Graph := .empty
  validators : Nat := 0
  log : List Event := []
  deriving Inhabited

inductive Command where
  | create (tag : String) (init : Graph.BlockInit)
  | delete (node : Handle)
  | clear
  | setField (node : Handle) (name : String) (value : Json)
  | setComment (node : Handle) (comment : Json)
  | setEnabled (node : Handle) (enabled : Bool)
  | connectValue (parent : Handle) (slot : String) (child : Handle)
  | connectStatement (parent : Handle) (slot : String) (child : Handle)
  | connectNext (previous child : Handle)
  | disconnect (node : Handle)

namespace Editor

def revalidate : Nat → Graph → Graph
  | 0, g => g
  | count + 1, g => revalidate count g.validate.1

def tell (e : Editor) (event : Event) : Editor :=
  { e with
    graph := if event.kind.isTask then revalidate e.validators e.graph else e.graph
    log := e.log ++ [event] }

def commit (e : Editor) (edit : Edit) : Editor :=
  (edit.notices.map (·.event)).foldl tell { e with graph := edit.graph }

def apply (e : Editor) (edit : Graph → Except GraphError Edit) :
    Editor × Except GraphError Unit :=
  match edit e.graph with
  | .error cause => (e, .error cause)
  | .ok edit => (e.commit edit, match edit.lost with
    | none => .ok ()
    | some lost => .error (.lost lost))

def deleteAll (e : Editor) : List Handle → Editor × Except GraphError Unit
  | [] => (e, .ok ())
  | h :: rest => match e.apply (·.delete h) with
    | (e, .ok ()) => e.deleteAll rest
    | refused => refused

def create (e : Editor) (tag : String) (init : Graph.BlockInit := {}) :
    Except GraphError (Handle × Editor) :=
  (e.graph.create tag init).map fun (h, edit) => (h, e.commit edit)

def perform (e : Editor) : Command → Editor × Except GraphError Unit
  | .create tag init => match e.create tag init with
    | .error cause => (e, .error cause)
    | .ok (_, e) => (e, .ok ())
  | .delete h => e.apply (·.delete h)
  | .clear => e.deleteAll (e.graph.topBlocks.map (·.handle))
  | .setField h name value => e.apply (·.setField h name value)
  | .setComment h comment => e.apply (·.setComment h comment)
  | .setEnabled h enabled => e.apply (·.setEnabled h enabled)
  | .connectValue p slot c => e.apply (·.connectValue p slot c)
  | .connectStatement p slot c => e.apply (·.connectStatement p slot c)
  | .connectNext p c => e.apply (·.connectNext p c)
  | .disconnect h => e.apply (·.disconnect h)

def attempt (e : Editor) (c : Command) : Editor := (e.perform c).1

def run (e : Editor) (cs : List Command) : Editor := cs.foldl attempt e

def attachValidator (e : Editor) : Editor :=
  { e with graph := e.graph.validate.1, validators := e.validators + 1 }

def detachValidator (e : Editor) : Editor :=
  { e with validators := e.validators - 1 }

end Editor

end NqcBlocks
