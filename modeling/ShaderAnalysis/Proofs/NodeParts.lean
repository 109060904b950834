import ShaderAnalysis.Traversal.Outline

/-!
The nodes directly inside a node. Two lists of them are made in different places: the outline of a
node says what a visit comes to, in order, and the sources of its effects say which effects are
joined. The first has the second one, behind the struct definitions, parameters and prototypes
(`Node.outline_eq`, `Node.filter_children`). What is inside a struct definition are others
(`StructSpec.byInner`), and the nodes of a unit that are visited are those of its outlines
(`SourceUnit.nodes`).
-/

namespace ShaderAnalysis

/-! ### Nodes directly inside -/

def Stmt.effectChildren : Stmt → List Node
  | .compound _ _ body => body.map .stmt
  | .declare _ list => list.names.map .declarator
  | .block .. => []
  | .expr _ e => e.toList.map .expr
  | .ifElse _ test onTrue onFalse => .expr test :: .stmt onTrue :: onFalse.toList.map .stmt
  | .switch _ test body => [.expr test, .switchBody body]
  | .loop _ _ init test step body =>
    init.toList.map .stmt ++ test.toList.map .expr ++ .stmt body :: step.toList.map .expr
  | .jump _ j => j.value?.toList.map .expr

/-- The nodes directly inside a node whose effects flow into it. -/
def Node.effectChildren : Node → List Node
  | .expr e => e.parts.map .expr
  | .stmt s => s.effectChildren
  | .declarator d => d.init.toList.map .expr
  | .function f => [.stmt f.body]
  | .switchBody b => b.cases.map .case
  | .case c => (c.labels.filterMap Label.value?).map .expr ++ c.body.map .stmt
  | .struct _ | .parameter _ | .prototype _ | .layout _ => []

theorem Node.effectSources_eq (n : Node) : n.effectSources = n.effectChildren.map Node.id := by
  have ofExpr : Node.id ∘ Node.expr = Expr.id := rfl
  have ofStmt : Node.id ∘ Node.stmt = Stmt.id := rfl
  cases n with
  | stmt s =>
    cases s <;> simp [effectSources, effectChildren, Stmt.effectSources, Stmt.effectChildren,
      ofExpr, ofStmt] <;> simp [Node.id, Node.mark, Expr.id, Stmt.id]
  | function f => rfl
  | switchBody b => simp [effectSources, effectChildren, Node.id, Node.mark]
  | declarator d => simp [effectSources, effectChildren, ofExpr]
  | expr e => simp [effectSources, effectChildren, ofExpr]
  | case c => simp [effectSources, effectChildren, ofExpr, ofStmt]
  | struct | parameter | prototype | layout => rfl

/-- The struct definition that a type stands for, if it does. -/
def TypeSpec.structs (t : TypeSpec) : List StructSpec :=
  match t.head with
  | .named _ => []
  | .struct s => [s]

/-- The struct definitions directly inside a struct definition. -/
def StructSpec.inner (s : StructSpec) : List StructSpec :=
  s.members.flatMap (·.type.structs)

theorem StructSpec.sizeOf_lt_of_mem_inner {s r : StructSpec} (h : r ∈ s.inner) :
    sizeOf r < sizeOf s := by
  obtain ⟨⟨q, ⟨head, dims⟩, i, names⟩, listed, mem⟩ := List.mem_flatMap.mp h
  have inside := List.sizeOf_lt_of_mem listed
  cases head with
  | named name => simp [TypeSpec.structs] at mem
  | struct t =>
    obtain rfl := List.mem_singleton.mp mem
    obtain ⟨mark, name, members⟩ := s
    simp only [DeclList.mk.sizeOf_spec, TypeSpec.mk.sizeOf_spec, TypeHead.struct.sizeOf_spec,
      StructSpec.mk.sizeOf_spec] at inside ⊢
    omega

/-- Induction on a struct definition by way of those directly inside it. -/
theorem StructSpec.byInner {P : StructSpec → Prop} (step : ∀ s, (∀ r ∈ s.inner, P r) → P s)
    (s : StructSpec) : P s :=
  step s fun r _ => StructSpec.byInner step r
termination_by sizeOf s
decreasing_by exact StructSpec.sizeOf_lt_of_mem_inner ‹_›

def Outline.self : Outline → Node
  | .node n _ => n

def Outline.inside : Outline → List Outline
  | .node _ os => os

def Node.outline : Node → Outline
  | .expr e => e.outline
  | .stmt s => s.outline
  | .declarator d => d.outline
  | .struct s => s.outline
  | .parameter p => p.outline
  | .prototype p => p.outline
  | .function f => f.outline
  | .switchBody b => b.outline
  | .case c => c.outline
  | .layout l => l.outline

def TopLevel.node : TopLevel → Node
  | .declaration s => .stmt s
  | .prototype p => .prototype p
  | .function f => .function f
  | .layout l => .layout l

theorem TopLevel.outline_eq (d : TopLevel) : d.outline = d.node.outline := by
  cases d <;> rfl

/-- The nodes directly inside a node that are struct definitions, parameters or prototypes. -/
def Node.quietChildren : Node → List Node
  | .stmt (.declare _ list) => list.type.structs.map .struct
  | .stmt (.block _ b) => (b.members.flatMap (·.type.structs)).map .struct
  | .struct s => (s.members.flatMap (·.type.structs)).map .struct
  | .parameter p => p.type.structs.map .struct
  | .prototype p => p.returns.structs.map .struct ++ p.params.map .parameter
  | .function f => [.prototype f.prototype]
  | _ => []

/-- The nodes directly inside a node, in order. -/
def Node.children (n : Node) : List Node :=
  n.quietChildren ++ n.effectChildren

/-- Whether the effects of a node may flow into the one around it. -/
def Node.carriesEffects : Node → Bool
  | .struct _ | .parameter _ | .prototype _ => false
  | _ => true

theorem TypeSpec.outlines_eq (t : TypeSpec) : t.outlines = t.structs.map StructSpec.outline := by
  obtain ⟨_ | s, dims⟩ := t <;> rfl

theorem DeclList.memberOutlines_eq (ls : List DeclList) :
    memberOutlines ls = (ls.flatMap (·.type.structs)).map StructSpec.outline := by
  induction ls with
  | nil => rfl
  | cons list ls ih =>
    obtain ⟨_, type, _, _⟩ := list
    rw [memberOutlines, ih, type.outlines_eq, List.flatMap_cons, List.map_append]

theorem Stmt.outlines_eq_map (ss : List Stmt) : outlines ss = ss.map outline := by
  induction ss with
  | nil => rfl
  | cons s ss ih => rw [outlines, ih, List.map_cons]

theorem Case.outlines_eq_map (cs : List Case) : outlines cs = cs.map outline := by
  induction cs with
  | nil => rfl
  | cons c cs ih => rw [outlines, ih, List.map_cons]

/-- The outline of a node has the outlines of the nodes directly inside it, in order. -/
theorem Node.outline_eq (n : Node) : n.outline = .node n (n.children.map outline) := by
  -- What is inside a node of most sorts is listed as nodes of one sort, mapped to their outlines.
  have expr : outline ∘ Node.expr = Expr.outline := rfl
  have stmt : outline ∘ Node.stmt = Stmt.outline := rfl
  have struct : outline ∘ Node.struct = StructSpec.outline := rfl
  have declarator : outline ∘ Node.declarator = Declarator.outline := rfl
  have parameter : outline ∘ Node.parameter = Parameter.outline := rfl
  have case : outline ∘ Node.case = Case.outline := rfl
  cases n with
  | expr e => simp [outline, children, quietChildren, effectChildren, Expr.outline_eq e, expr]
  | stmt s =>
    cases s with
    | ifElse m test onTrue onFalse =>
      cases onFalse <;> simp [outline, children, quietChildren, effectChildren,
        Stmt.effectChildren, Stmt.outline]
    | loop m mode init test step body =>
      cases init <;> simp [outline, children, quietChildren, effectChildren,
        Stmt.effectChildren, Stmt.outline, Stmt.optionOutlines, expr]
    | _ =>
      simp [outline, children, quietChildren, effectChildren, Stmt.effectChildren, Stmt.outline,
        expr, stmt, struct, declarator, TypeSpec.outlines_eq, DeclList.memberOutlines_eq,
        Stmt.outlines_eq_map]
  | declarator d =>
    simp [outline, children, quietChildren, effectChildren, Declarator.outline, expr]
  | struct s =>
    obtain ⟨m, name, members⟩ := s
    simp [outline, children, quietChildren, effectChildren, StructSpec.outline,
      DeclList.memberOutlines_eq, struct]
  | parameter p =>
    simp [outline, children, quietChildren, effectChildren, Parameter.outline,
      TypeSpec.outlines_eq, struct]
  | prototype p =>
    simp [outline, children, quietChildren, effectChildren, Prototype.outline,
      TypeSpec.outlines_eq, struct, parameter]
  | function f => rfl
  | switchBody b =>
    obtain ⟨m, cs⟩ := b
    simp [outline, children, quietChildren, effectChildren, SwitchBody.outline,
      Case.outlines_eq_map, case]
  | case c =>
    obtain ⟨m, labels, body⟩ := c
    simp [outline, children, quietChildren, effectChildren, Case.outline, Stmt.outlines_eq_map,
      expr, stmt]
  | layout l => rfl

theorem Node.self_outline (n : Node) : n.outline.self = n := by
  rw [n.outline_eq]
  rfl

theorem Node.map_self_inside (n : Node) : n.outline.inside.map Outline.self = n.children := by
  have same : Outline.self ∘ outline = fun m => m := funext self_outline
  rw [n.outline_eq, Outline.inside, List.map_map, same, List.map_id']

theorem Node.carriesEffects_quietChildren (n : Node) :
    ∀ m ∈ n.quietChildren, m.carriesEffects = false := by
  intro m mem
  cases n with
  | stmt s =>
    cases s with
    | declare | block =>
      obtain ⟨s, _, rfl⟩ := List.mem_map.mp mem
      rfl
    | _ => cases mem
  | struct | parameter =>
    obtain ⟨s, _, rfl⟩ := List.mem_map.mp mem
    rfl
  | prototype p =>
    rcases List.mem_append.mp mem with struct | parameter
    · obtain ⟨s, _, rfl⟩ := List.mem_map.mp struct
      rfl
    · obtain ⟨q, _, rfl⟩ := List.mem_map.mp parameter
      rfl
  | function f =>
    cases List.mem_singleton.mp mem
    rfl
  | _ => cases mem

theorem Node.carriesEffects_effectChildren (n : Node) :
    ∀ m ∈ n.effectChildren, m.carriesEffects = true := by
  intro m mem
  cases n with
  | stmt s =>
    revert m
    cases s <;> simp [effectChildren, Stmt.effectChildren, carriesEffects, or_imp, forall_and]
  | case c =>
    rcases List.mem_append.mp mem with value | stmt
    · obtain ⟨e, _, rfl⟩ := List.mem_map.mp value
      rfl
    · obtain ⟨s, _, rfl⟩ := List.mem_map.mp stmt
      rfl
  | _ =>
    revert m
    simp [effectChildren, carriesEffects]

/-- The effects of the nodes directly inside a node flow into it, apart from those of struct
definitions, parameters and prototypes. -/
theorem Node.filter_children (n : Node) : n.children.filter carriesEffects = n.effectChildren := by
  have quiet : n.quietChildren.filter carriesEffects = [] := by
    simpa using n.carriesEffects_quietChildren
  have carrying : n.effectChildren.filter carriesEffects = n.effectChildren := by
    simpa using n.carriesEffects_effectChildren
  rw [children, List.filter_append, quiet, carrying, List.nil_append]

/-! ### Visited nodes -/

mutual
/-- The nodes of an outline, those inside first. -/
def Outline.nodes : Outline → List Node
  | .node self inside => Outline.listNodes inside ++ [self]

def Outline.listNodes : List Outline → List Node
  | [] => []
  | o :: os => o.nodes ++ Outline.listNodes os
end

theorem Outline.listNodes_eq (os : List Outline) : listNodes os = os.flatMap nodes := by
  induction os with
  | nil => simp [listNodes]
  | cons o os ih => simp [listNodes, ih]

/-- The nodes of a unit that are visited. -/
def SourceUnit.nodes (unit : SourceUnit) : List Node :=
  unit.flatMap fun d => d.outline.nodes

theorem Outline.listNodes_append (os ps : List Outline) :
    listNodes (os ++ ps) = listNodes os ++ listNodes ps := by
  simp [listNodes_eq]

theorem Outline.mem_listNodes_node {n m : Node} {os : List Outline} :
    m ∈ listNodes [.node n os] ↔ m ∈ listNodes os ∨ m = n := by
  simp [listNodes, nodes]

theorem Node.mem_nodes_outline (n : Node) : n ∈ n.outline.nodes := by
  rw [n.outline_eq, Outline.nodes]
  exact List.mem_append_right _ (List.mem_singleton_self n)

theorem SourceUnit.nodes_eq (unit : SourceUnit) :
    unit.nodes = Outline.listNodes (unit.map TopLevel.outline) := by
  rw [nodes, Outline.listNodes_eq, List.flatMap_map]

end ShaderAnalysis
