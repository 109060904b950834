import ShaderAnalysis.Traversal.Outline

/-!
Walking over a source tree with hooks. A hook runs when a node is entered, and may have the node
passed over; another runs when it is left. Both are optional, and either may break off the walk,
in whatever way its monad has for that.
-/

namespace ShaderAnalysis

/-- What is done at the nodes of a tree. Entering tells whether to go on inside the node; a node
that is passed over is not left either. -/
structure Hooks (m : Type → Type) where
  enter : Option (Node → m Bool) := none
  leave : Option (Node → m Unit) := none

namespace Hooks

variable {m : Type → Type} [Monad m]

def onEnter (h : Hooks m) (n : Node) : m Bool :=
  match h.enter with
  | some f => f n
  | none => pure true

def onLeave (h : Hooks m) (n : Node) : m Unit :=
  match h.leave with
  | some f => f n
  | none => pure ()

mutual
/-- Walks over a node and what is inside it. -/
def walk (h : Hooks m) : Outline → m Unit
  | .node self inside => do
    if ← h.onEnter self then
      h.walkAll inside
      h.onLeave self

/-- Walks over nodes in order. -/
def walkAll (h : Hooks m) : List Outline → m Unit
  | [] => pure ()
  | o :: os => do
    h.walk o
    h.walkAll os
end

/-- Walks over the declarations of a source unit. -/
def walkUnit (h : Hooks m) (unit : SourceUnit) : m Unit :=
  h.walkAll (unit.map TopLevel.outline)

end Hooks

end ShaderAnalysis
