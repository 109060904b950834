/-!
Where a node of a source tree is: the number under which results about it are kept, and its place
in the source text.
-/

namespace ShaderAnalysis

/-- The number of a node. Results of the analysis are kept under it. -/
structure NodeId where
  index : Nat
deriving DecidableEq, Repr, Inhabited

/-- A place in the source text. Lines and columns count from one; `0:0` is no place. -/
structure Span where
  line : Nat := 0
  column : Nat := 0
deriving DecidableEq, Repr, Inhabited

/-- The form `line:column`. -/
def Span.render (s : Span) : String :=
  toString s.line ++ ":" ++ toString s.column

/-- What every node of a source tree carries besides its content. -/
structure Mark where
  id : NodeId
  span : Span
deriving DecidableEq, Repr, Inhabited

end ShaderAnalysis
