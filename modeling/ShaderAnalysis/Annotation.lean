import ShaderAnalysis.Table
import ShaderAnalysis.Effects
import ShaderAnalysis.Reflection.Basic

/-!
The results of the analysis for single nodes, kept under their numbers.
-/

namespace ShaderAnalysis

/-- What a selection turned out to be. -/
inductive SelectionKind where
  | member | method | swizzle
deriving DecidableEq, Repr

/-- What the analysis found out about a node. The type is that of an expression, a parameter, a
struct definition or a prototype's result; `builtin` is set for calls, and says whether a
constructor or a builtin function is meant; the aggregate type is the one that a declaration gives
to an initializer in braces. -/
structure Annotation where
  effects : Effects := {}
  ty : Option Ty := none
  selection : Option SelectionKind := none
  builtin : Option Bool := none
  var : Option VarId := none
  reflection : Option ReflectionId := none
  aggregate : Option Ty := none
deriving DecidableEq, Inhabited

/-- The annotations of all nodes that have one. -/
structure Annotations where
  table : Table NodeId Annotation := {}
deriving DecidableEq

namespace Annotations

/-- The annotation of a node; a node without one has an empty one. -/
def ofNode (t : Annotations) (id : NodeId) : Annotation :=
  (t.table.get? id).getD {}

/-- Changes the annotation of a node, which has one afterwards. -/
def update (t : Annotations) (id : NodeId) (f : Annotation → Annotation) : Annotations :=
  ⟨t.table.set id (f (t.ofNode id))⟩

theorem ofNode_update (t : Annotations) (id id' : NodeId) (f : Annotation → Annotation) :
    (t.update id f).ofNode id' = if id = id' then f (t.ofNode id) else t.ofNode id' := by
  simp only [ofNode, update, Table.get?_set]
  split <;> rfl

/-- Two changes of one annotation are one change. -/
theorem update_update (t : Annotations) (id : NodeId) (f g : Annotation → Annotation) :
    (t.update id f).update id g = t.update id fun a => g (f a) := by
  simp [update, ofNode]

/-- The nodes that have an annotation, by ascending number. -/
def nodes (t : Annotations) : List NodeId :=
  t.table.keys.mergeSort fun a b => a.index ≤ b.index

end Annotations

end ShaderAnalysis
