import ShaderAnalysis.Tree.Stmt
import ShaderAnalysis.Annotation
import ShaderAnalysis.Builtin.Catalog

/-!
The nodes of a source tree, of all sorts, and the effects of each: its own, and those that flow into
it from nodes directly inside it.
-/

namespace ShaderAnalysis

/-- A node of a source tree. -/
inductive Node where
  | expr (e : Expr)
  | stmt (s : Stmt)
  | declarator (d : Declarator)
  | struct (s : StructSpec)
  | parameter (p : Parameter)
  | prototype (p : Prototype)
  | function (f : FunctionDef)
  | switchBody (b : SwitchBody)
  | case (c : Case)
  | layout (l : InputLayout)

namespace Node

def mark : Node → Mark
  | .expr e => e.mark
  | .stmt s => s.mark
  | .declarator d => d.mark
  | .struct s => s.mark
  | .parameter p => p.mark
  | .prototype p => p.mark
  | .function f => f.mark
  | .switchBody b => b.mark
  | .case c => c.mark
  | .layout l => l.mark

def id (n : Node) : NodeId :=
  n.mark.id

def span (n : Node) : Span :=
  n.mark.span

end Node

/-! ### Effects of a node's own -/

def Expr.ownEffects : Expr → Effects
  | .assign .. => { general := true }
  | .unary _ op _ => { general := op.mutates }
  | .call _ name _ => { emitsVertex := name == Builtin.emitVertex }
  | _ => {}

def Stmt.ownEffects : Stmt → Effects
  | .jump _ .discards => { discards := true }
  | _ => {}

/-- The effects that a node has apart from what is inside it. -/
def Node.ownEffects : Node → Effects
  | .expr e => e.ownEffects
  | .stmt s => s.ownEffects
  | .function _ => { general := true }
  | _ => {}

/-! ### Effects from inside -/

/-- The value in a label, if it has one. -/
def Label.value? : Label → Option Expr
  | .value e => some e
  | .fallback => none

/-- The value that a jump returns, if it does. -/
def Jump.value? : Jump → Option Expr
  | .returns e => e
  | _ => none

def Stmt.effectSources : Stmt → List NodeId
  | .compound _ _ body => body.map Stmt.id
  | .declare _ list => list.names.map (·.mark.id)
  | .block .. => []
  | .expr _ e => e.toList.map Expr.id
  | .ifElse _ test onTrue onFalse => test.id :: onTrue.id :: onFalse.toList.map Stmt.id
  | .switch _ test body => [test.id, body.mark.id]
  | .loop _ _ init test step body =>
    init.toList.map Stmt.id ++ test.toList.map Expr.id ++ body.id :: step.toList.map Expr.id
  | .jump _ j => j.value?.toList.map Expr.id

/-- The nodes directly inside a node whose effects flow into it. Type specifiers, parameters and
prototypes have no effects. -/
def Node.effectSources : Node → List NodeId
  | .expr e => e.parts.map Expr.id
  | .stmt s => s.effectSources
  | .declarator d => d.init.toList.map Expr.id
  | .function f => [f.body.id]
  | .switchBody b => b.cases.map (·.mark.id)
  | .case c => (c.labels.filterMap Label.value?).map Expr.id ++ c.body.map Stmt.id
  | .struct _ | .parameter _ | .prototype _ | .layout _ => []

namespace Annotations

/-- The effects of a node, given those of the nodes directly inside it. -/
def effectsOf (t : Annotations) (n : Node) : Effects :=
  n.effectSources.foldl (fun acc id => acc.union (t.ofNode id).effects) n.ownEffects

/-- Notes the effects of a node, once those of the nodes inside it are noted. -/
def noteEffects (t : Annotations) (n : Node) : Annotations :=
  t.update n.id fun a => { a with effects := t.effectsOf n }

end Annotations

end ShaderAnalysis
