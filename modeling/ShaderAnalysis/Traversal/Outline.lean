import ShaderAnalysis.Traversal.Node

/-!
The order in which a source tree is visited. The outline of a node has the outlines of the nodes
that are visited directly inside it, in the order of the visit: the test of a loop comes before its
body, and the step after it. Array dimensions and the type of a constructor are not visited, nor are
the members of a struct definition, apart from the struct definitions inside their types.
-/

namespace ShaderAnalysis

/-- A node and the outlines of the nodes visited inside it. -/
inductive Outline where
  | node (self : Node) (inside : List Outline)

mutual
def Expr.outline : Expr → Outline
  | .ident m n => .node (.expr (.ident m n)) []
  | .int m v => .node (.expr (.int m v)) []
  | .uint m v => .node (.expr (.uint m v)) []
  | .float m v => .node (.expr (.float m v)) []
  | .bool m v => .node (.expr (.bool m v)) []
  | .unary m o a => .node (.expr (.unary m o a)) [a.outline]
  | .binary m o a b => .node (.expr (.binary m o a b)) [a.outline, b.outline]
  | .assign m o a b => .node (.expr (.assign m o a b)) [a.outline, b.outline]
  | .cond m a b c => .node (.expr (.cond m a b c)) [a.outline, b.outline, c.outline]
  | .index m a b => .node (.expr (.index m a b)) [a.outline, b.outline]
  | .field m a n => .node (.expr (.field m a n)) [a.outline]
  | .method m a n as => .node (.expr (.method m a n as)) (a.outline :: Expr.outlines as)
  | .call m n as => .node (.expr (.call m n as)) (Expr.outlines as)
  | .construct m t as => .node (.expr (.construct m t as)) (Expr.outlines as)
  | .seq m es => .node (.expr (.seq m es)) (Expr.outlines es)
  | .aggregate m es => .node (.expr (.aggregate m es)) (Expr.outlines es)

def Expr.outlines : List Expr → List Outline
  | [] => []
  | e :: es => e.outline :: Expr.outlines es
end

theorem Expr.outlines_eq_map (es : List Expr) : Expr.outlines es = es.map Expr.outline := by
  induction es with
  | nil => simp [Expr.outlines]
  | cons e es ih => simp [Expr.outlines, ih]

theorem Expr.outline_eq (e : Expr) : e.outline = .node (.expr e) (e.parts.map Expr.outline) := by
  cases e <;> simp [Expr.outline, Expr.parts, Expr.outlines_eq_map]

mutual
/-- The outline of the struct definition in a type, if it has one. -/
def TypeSpec.outlines : TypeSpec → List Outline
  | ⟨.named _, _⟩ => []
  | ⟨.struct s, _⟩ => [s.outline]

def StructSpec.outline : StructSpec → Outline
  | ⟨m, n, members⟩ => .node (.struct ⟨m, n, members⟩) (DeclList.memberOutlines members)

/-- The outlines of the struct definitions in the types of members. -/
def DeclList.memberOutlines : List DeclList → List Outline
  | [] => []
  | ⟨_, type, _, _⟩ :: rest => type.outlines ++ DeclList.memberOutlines rest
end

def Declarator.outline (d : Declarator) : Outline :=
  .node (.declarator d) (d.init.toList.map Expr.outline)

mutual
def Stmt.outline : Stmt → Outline
  | .compound m n body => .node (.stmt (.compound m n body)) (Stmt.outlines body)
  | .declare m list =>
    .node (.stmt (.declare m list)) (list.type.outlines ++ list.names.map Declarator.outline)
  | .block m b => .node (.stmt (.block m b)) (DeclList.memberOutlines b.members)
  | .expr m e => .node (.stmt (.expr m e)) (e.toList.map Expr.outline)
  | .ifElse m test onTrue none =>
    .node (.stmt (.ifElse m test onTrue none)) [test.outline, onTrue.outline]
  | .ifElse m test onTrue (some onFalse) =>
    .node (.stmt (.ifElse m test onTrue (some onFalse)))
      [test.outline, onTrue.outline, onFalse.outline]
  | .switch m test body => .node (.stmt (.switch m test body)) [test.outline, body.outline]
  | .loop m mode init test step body =>
    .node (.stmt (.loop m mode init test step body))
      (Stmt.optionOutlines init ++ test.toList.map Expr.outline
        ++ body.outline :: step.toList.map Expr.outline)
  | .jump m j => .node (.stmt (.jump m j)) (j.value?.toList.map Expr.outline)

def Stmt.outlines : List Stmt → List Outline
  | [] => []
  | s :: ss => s.outline :: Stmt.outlines ss

def Stmt.optionOutlines : Option Stmt → List Outline
  | none => []
  | some s => [s.outline]

def SwitchBody.outline : SwitchBody → Outline
  | ⟨m, cases⟩ => .node (.switchBody ⟨m, cases⟩) (Case.outlines cases)

def Case.outline : Case → Outline
  | ⟨m, labels, body⟩ =>
    .node (.case ⟨m, labels, body⟩)
      ((labels.filterMap Label.value?).map Expr.outline ++ Stmt.outlines body)

def Case.outlines : List Case → List Outline
  | [] => []
  | c :: cs => c.outline :: Case.outlines cs
end

def Parameter.outline (p : Parameter) : Outline :=
  .node (.parameter p) p.type.outlines

def Prototype.outline (p : Prototype) : Outline :=
  .node (.prototype p) (p.returns.outlines ++ p.params.map Parameter.outline)

def FunctionDef.outline (f : FunctionDef) : Outline :=
  .node (.function f) [f.prototype.outline, f.body.outline]

def InputLayout.outline (l : InputLayout) : Outline :=
  .node (.layout l) []

def TopLevel.outline : TopLevel → Outline
  | .declaration s => s.outline
  | .prototype p => p.outline
  | .function f => f.outline
  | .layout l => l.outline

end ShaderAnalysis
