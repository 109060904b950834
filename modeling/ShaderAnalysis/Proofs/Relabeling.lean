import Mathlib.Logic.Function.Basic
import ShaderAnalysis.Proofs.Agenda

/-!
Other marks for the same tree. A relabeling numbers nodes anew and moves them to other places, and
may put other values into literals of floating point, which the analysis does not look at. Nothing
else of a tree changes; its agenda is the relabeled one (`agenda_relabel`).
-/

namespace ShaderAnalysis

/-- Other numbers and places for nodes, and other values for literals of floating point. Numbers
that are distinct stay so, and what is at no place stays there. -/
structure Relabeling where
  node : NodeId → NodeId
  place : Span → Span
  literal : Float32 → Float32
  injective : Function.Injective node
  nowhere : place {} = {}

namespace Relabeling

attribute [simp] nowhere

@[simp] theorem node_inj (r : Relabeling) {i j : NodeId} : r.node i = r.node j ↔ i = j :=
  r.injective.eq_iff

end Relabeling

def Mark.relabel (r : Relabeling) (m : Mark) : Mark :=
  { id := r.node m.id, span := r.place m.span }

@[simp] theorem Mark.id_relabel (r : Relabeling) (m : Mark) : (m.relabel r).id = r.node m.id := rfl

@[simp] theorem Mark.span_relabel (r : Relabeling) (m : Mark) :
    (m.relabel r).span = r.place m.span := rfl

/-! ### Trees -/

/-- What is done to a list by doing something to its elements in turn. -/
theorem map_of_cons {α : Type} {f : α → α} {each : List α → List α} (nil : each [] = [])
    (cons : ∀ a as, each (a :: as) = f a :: each as) (as : List α) : each as = as.map f := by
  induction as with
  | nil => exact nil
  | cons a as ih => rw [cons, ih, List.map_cons]

mutual
/-- The expression with other marks, on itself and on all nodes inside it. -/
def Expr.relabel (r : Relabeling) : Expr → Expr
  | .ident m n => .ident (m.relabel r) n
  | .int m v => .int (m.relabel r) v
  | .uint m v => .uint (m.relabel r) v
  | .float m v => .float (m.relabel r) (r.literal v)
  | .bool m v => .bool (m.relabel r) v
  | .unary m o a => .unary (m.relabel r) o (a.relabel r)
  | .binary m o a b => .binary (m.relabel r) o (a.relabel r) (b.relabel r)
  | .assign m o a b => .assign (m.relabel r) o (a.relabel r) (b.relabel r)
  | .cond m a b c => .cond (m.relabel r) (a.relabel r) (b.relabel r) (c.relabel r)
  | .index m a b => .index (m.relabel r) (a.relabel r) (b.relabel r)
  | .field m a n => .field (m.relabel r) (a.relabel r) n
  | .method m a n as => .method (m.relabel r) (a.relabel r) n (Expr.relabelList r as)
  | .call m n as => .call (m.relabel r) n (Expr.relabelList r as)
  | .construct m t as => .construct (m.relabel r) (t.relabel r) (Expr.relabelList r as)
  | .seq m es => .seq (m.relabel r) (Expr.relabelList r es)
  | .aggregate m es => .aggregate (m.relabel r) (Expr.relabelList r es)

def Expr.relabelList (r : Relabeling) : List Expr → List Expr
  | [] => []
  | e :: es => e.relabel r :: Expr.relabelList r es

def Expr.relabelOption (r : Relabeling) : Option Expr → Option Expr
  | none => none
  | some e => some (e.relabel r)

def Dim.relabel (r : Relabeling) : Dim → Dim
  | .unsized => .unsized
  | .sized e => .sized (e.relabel r)

def Dim.relabelList (r : Relabeling) : List Dim → List Dim
  | [] => []
  | d :: ds => d.relabel r :: Dim.relabelList r ds

def Dim.relabelSpec (r : Relabeling) : Option (List Dim) → Option (List Dim)
  | none => none
  | some ds => some (Dim.relabelList r ds)

def TypeHead.relabel (r : Relabeling) : TypeHead → TypeHead
  | .named n => .named n
  | .struct s => .struct (s.relabel r)

def TypeSpec.relabel (r : Relabeling) : TypeSpec → TypeSpec
  | ⟨head, dims⟩ => ⟨head.relabel r, Dim.relabelSpec r dims⟩

def StructSpec.relabel (r : Relabeling) : StructSpec → StructSpec
  | ⟨m, n, members⟩ => ⟨m.relabel r, n, DeclList.relabelList r members⟩

def DeclList.relabel (r : Relabeling) : DeclList → DeclList
  | ⟨q, type, invariant, names⟩ => ⟨q, type.relabel r, invariant, Declarator.relabelList r names⟩

def DeclList.relabelList (r : Relabeling) : List DeclList → List DeclList
  | [] => []
  | l :: ls => l.relabel r :: DeclList.relabelList r ls

def Declarator.relabel (r : Relabeling) : Declarator → Declarator
  | ⟨m, n, dims, init⟩ => ⟨m.relabel r, n, Dim.relabelSpec r dims, Expr.relabelOption r init⟩

def Declarator.relabelList (r : Relabeling) : List Declarator → List Declarator
  | [] => []
  | d :: ds => d.relabel r :: Declarator.relabelList r ds
end

section

variable (r : Relabeling)

@[simp] theorem Expr.relabelList_eq (es : List Expr) :
    Expr.relabelList r es = es.map (Expr.relabel r) :=
  map_of_cons rfl (fun _ _ => rfl) es

@[simp] theorem Expr.relabelOption_eq (e : Option Expr) :
    Expr.relabelOption r e = e.map (Expr.relabel r) := by
  cases e <;> rfl

@[simp] theorem Dim.relabelList_eq (ds : List Dim) :
    Dim.relabelList r ds = ds.map (Dim.relabel r) :=
  map_of_cons rfl (fun _ _ => rfl) ds

@[simp] theorem Dim.relabelSpec_eq (ds : Option (List Dim)) :
    Dim.relabelSpec r ds = ds.map (List.map (Dim.relabel r)) := by
  cases ds <;> simp [relabelSpec]

@[simp] theorem DeclList.relabelList_eq (ls : List DeclList) :
    DeclList.relabelList r ls = ls.map (DeclList.relabel r) :=
  map_of_cons rfl (fun _ _ => rfl) ls

@[simp] theorem Declarator.relabelList_eq (ds : List Declarator) :
    Declarator.relabelList r ds = ds.map (Declarator.relabel r) :=
  map_of_cons rfl (fun _ _ => rfl) ds

end

def BlockDecl.relabel (r : Relabeling) (b : BlockDecl) : BlockDecl :=
  { b with
    dims := b.dims.map (List.map (Dim.relabel r))
    members := b.members.map (DeclList.relabel r) }

def Jump.relabel (r : Relabeling) : Jump → Jump
  | .continues => .continues
  | .breaks => .breaks
  | .discards => .discards
  | .returns e => .returns (e.map (Expr.relabel r))

def Label.relabel (r : Relabeling) : Label → Label
  | .value e => .value (e.relabel r)
  | .fallback => .fallback

mutual
def Stmt.relabel (r : Relabeling) : Stmt → Stmt
  | .compound m n body => .compound (m.relabel r) n (Stmt.relabelList r body)
  | .declare m list => .declare (m.relabel r) (list.relabel r)
  | .block m b => .block (m.relabel r) (b.relabel r)
  | .expr m e => .expr (m.relabel r) (e.map (Expr.relabel r))
  | .ifElse m test onTrue onFalse =>
    .ifElse (m.relabel r) (test.relabel r) (onTrue.relabel r) (Stmt.relabelOption r onFalse)
  | .switch m test body => .switch (m.relabel r) (test.relabel r) (body.relabel r)
  | .loop m mode init test step body =>
    .loop (m.relabel r) mode (Stmt.relabelOption r init) (test.map (Expr.relabel r))
      (step.map (Expr.relabel r)) (body.relabel r)
  | .jump m j => .jump (m.relabel r) (j.relabel r)

def Stmt.relabelList (r : Relabeling) : List Stmt → List Stmt
  | [] => []
  | s :: ss => s.relabel r :: Stmt.relabelList r ss

def Stmt.relabelOption (r : Relabeling) : Option Stmt → Option Stmt
  | none => none
  | some s => some (s.relabel r)

def SwitchBody.relabel (r : Relabeling) : SwitchBody → SwitchBody
  | ⟨m, cases⟩ => ⟨m.relabel r, Case.relabelList r cases⟩

def Case.relabel (r : Relabeling) : Case → Case
  | ⟨m, labels, body⟩ => ⟨m.relabel r, labels.map (Label.relabel r), Stmt.relabelList r body⟩

def Case.relabelList (r : Relabeling) : List Case → List Case
  | [] => []
  | c :: cs => c.relabel r :: Case.relabelList r cs
end

section

variable (r : Relabeling)

@[simp] theorem Stmt.relabelList_eq (ss : List Stmt) :
    Stmt.relabelList r ss = ss.map (Stmt.relabel r) :=
  map_of_cons rfl (fun _ _ => rfl) ss

@[simp] theorem Stmt.relabelOption_eq (s : Option Stmt) :
    Stmt.relabelOption r s = s.map (Stmt.relabel r) := by
  cases s <;> rfl

@[simp] theorem Case.relabelList_eq (cs : List Case) :
    Case.relabelList r cs = cs.map (Case.relabel r) :=
  map_of_cons rfl (fun _ _ => rfl) cs

end

def Parameter.relabel (r : Relabeling) (p : Parameter) : Parameter :=
  { p with
    mark := p.mark.relabel r
    type := p.type.relabel r
    dims := p.dims.map (List.map (Dim.relabel r)) }

def Prototype.relabel (r : Relabeling) (p : Prototype) : Prototype :=
  { p with
    mark := p.mark.relabel r
    returns := p.returns.relabel r
    params := p.params.map (Parameter.relabel r) }

def FunctionDef.relabel (r : Relabeling) (f : FunctionDef) : FunctionDef :=
  { mark := f.mark.relabel r, prototype := f.prototype.relabel r, body := f.body.relabel r }

def InputLayout.relabel (r : Relabeling) (l : InputLayout) : InputLayout :=
  { l with mark := l.mark.relabel r }

def TopLevel.relabel (r : Relabeling) : TopLevel → TopLevel
  | .declaration s => .declaration (s.relabel r)
  | .prototype p => .prototype (p.relabel r)
  | .function f => .function (f.relabel r)
  | .layout l => .layout (l.relabel r)

def SourceUnit.relabel (r : Relabeling) (unit : SourceUnit) : SourceUnit :=
  unit.map (TopLevel.relabel r)

def Node.relabel (r : Relabeling) : Node → Node
  | .expr e => .expr (e.relabel r)
  | .stmt s => .stmt (s.relabel r)
  | .declarator d => .declarator (d.relabel r)
  | .struct s => .struct (s.relabel r)
  | .parameter p => .parameter (p.relabel r)
  | .prototype p => .prototype (p.relabel r)
  | .function f => .function (f.relabel r)
  | .switchBody b => .switchBody (b.relabel r)
  | .case c => .case (c.relabel r)
  | .layout l => .layout (l.relabel r)

/-! ### What is read off a relabeled tree -/

section

variable (r : Relabeling)

@[simp] theorem Expr.mark_relabel (e : Expr) : (e.relabel r).mark = e.mark.relabel r := by
  cases e <;> rfl

@[simp] theorem Expr.id_relabel (e : Expr) : (e.relabel r).id = r.node e.id := by
  simp [Expr.id]

@[simp] theorem Expr.span_relabel (e : Expr) : (e.relabel r).span = r.place e.span := by
  simp [Expr.span]

@[simp] theorem Expr.parts_relabel (e : Expr) :
    (e.relabel r).parts = e.parts.map (Expr.relabel r) := by
  cases e <;> simp [relabel, parts]

@[simp] theorem Expr.intConstant?_relabel (e : Expr) :
    (e.relabel r).intConstant? = e.intConstant? := by
  cases e <;> rfl

@[simp] theorem Expr.ownEffects_relabel (e : Expr) : (e.relabel r).ownEffects = e.ownEffects := by
  cases e <;> rfl

@[simp] theorem TypeSpec.head_relabel (t : TypeSpec) :
    (t.relabel r).head = t.head.relabel r := by
  cases t; rfl

@[simp] theorem TypeSpec.dimList_relabel (t : TypeSpec) :
    (t.relabel r).dimList = t.dimList.map (Dim.relabel r) := by
  obtain ⟨head, dims⟩ := t
  cases dims <;> simp [relabel, dimList]

@[simp] theorem StructSpec.mark_relabel (s : StructSpec) :
    (s.relabel r).mark = s.mark.relabel r := by
  cases s; rfl

@[simp] theorem StructSpec.name_relabel (s : StructSpec) : (s.relabel r).name = s.name := by
  cases s; rfl

@[simp] theorem StructSpec.members_relabel (s : StructSpec) :
    (s.relabel r).members = s.members.map (DeclList.relabel r) := by
  cases s; exact DeclList.relabelList_eq r _

@[simp] theorem DeclList.qualifiers_relabel (l : DeclList) :
    (l.relabel r).qualifiers = l.qualifiers := by
  cases l; rfl

@[simp] theorem DeclList.type_relabel (l : DeclList) :
    (l.relabel r).type = l.type.relabel r := by
  cases l; rfl

@[simp] theorem DeclList.invariant_relabel (l : DeclList) :
    (l.relabel r).invariant = l.invariant := by
  cases l; rfl

@[simp] theorem DeclList.names_relabel (l : DeclList) :
    (l.relabel r).names = l.names.map (Declarator.relabel r) := by
  cases l; exact Declarator.relabelList_eq r _

@[simp] theorem DeclList.declarators_relabel (ls : List DeclList) :
    DeclList.declarators (ls.map (DeclList.relabel r))
      = (DeclList.declarators ls).map (Declarator.relabel r) := by
  simp [declarators, List.flatMap_map, List.map_flatMap]

@[simp] theorem Declarator.mark_relabel (d : Declarator) :
    (d.relabel r).mark = d.mark.relabel r := by
  cases d; rfl

@[simp] theorem Declarator.name_relabel (d : Declarator) : (d.relabel r).name = d.name := by
  cases d; rfl

@[simp] theorem Declarator.dimList_relabel (d : Declarator) :
    (d.relabel r).dimList = d.dimList.map (Dim.relabel r) := by
  obtain ⟨mark, name, dims, init⟩ := d
  cases dims <;> simp [relabel, dimList]

@[simp] theorem Declarator.init_relabel (d : Declarator) :
    (d.relabel r).init = d.init.map (Expr.relabel r) := by
  cases d; exact Expr.relabelOption_eq r _

@[simp] theorem BlockDecl.qualifiers_relabel (b : BlockDecl) :
    (b.relabel r).qualifiers = b.qualifiers := by
  cases b; rfl

@[simp] theorem BlockDecl.name_relabel (b : BlockDecl) : (b.relabel r).name = b.name := rfl

@[simp] theorem BlockDecl.instanceName_relabel (b : BlockDecl) :
    (b.relabel r).instanceName = b.instanceName := rfl

@[simp] theorem BlockDecl.members_relabel (b : BlockDecl) :
    (b.relabel r).members = b.members.map (DeclList.relabel r) := rfl

@[simp] theorem BlockDecl.dimList_relabel (b : BlockDecl) :
    (b.relabel r).dimList = b.dimList.map (Dim.relabel r) := by
  cases h : b.dims <;> simp [relabel, dimList, h]

@[simp] theorem Parameter.mark_relabel (p : Parameter) :
    (p.relabel r).mark = p.mark.relabel r := rfl

@[simp] theorem Prototype.mark_relabel (p : Prototype) :
    (p.relabel r).mark = p.mark.relabel r := rfl

@[simp] theorem Parameter.type_relabel (p : Parameter) :
    (p.relabel r).type = p.type.relabel r := rfl

@[simp] theorem Parameter.name_relabel (p : Parameter) : (p.relabel r).name = p.name := rfl

@[simp] theorem Parameter.qualifiers_relabel (p : Parameter) :
    (p.relabel r).qualifiers = p.qualifiers := by
  cases p; rfl

@[simp] theorem Parameter.formal_relabel (p : Parameter) : (p.relabel r).formal = p.formal := by
  cases p; rfl

@[simp] theorem Parameter.dimList_relabel (p : Parameter) :
    (p.relabel r).dimList = p.dimList.map (Dim.relabel r) := by
  cases h : p.dims <;> simp [relabel, dimList, h]

@[simp] theorem Jump.value?_relabel (j : Jump) :
    (j.relabel r).value? = j.value?.map (Expr.relabel r) := by
  cases j <;> rfl

@[simp] theorem Label.value?_relabel (l : Label) :
    (l.relabel r).value? = l.value?.map (Expr.relabel r) := by
  cases l <;> rfl

theorem Label.values_relabel (labels : List Label) :
    (labels.map (Label.relabel r)).filterMap Label.value?
      = (labels.filterMap Label.value?).map (Expr.relabel r) := by
  rw [List.filterMap_map, List.map_filterMap]
  exact congrArg (labels.filterMap ·) (funext fun l => l.value?_relabel r)

@[simp] theorem Stmt.mark_relabel (s : Stmt) : (s.relabel r).mark = s.mark.relabel r := by
  cases s <;> rfl

@[simp] theorem Stmt.id_relabel (s : Stmt) : (s.relabel r).id = r.node s.id := by
  simp [Stmt.id]

@[simp] theorem Stmt.ownEffects_relabel (s : Stmt) : (s.relabel r).ownEffects = s.ownEffects := by
  cases s with
  | jump m j => cases j <;> rfl
  | _ => rfl

@[simp] theorem SwitchBody.mark_relabel (b : SwitchBody) :
    (b.relabel r).mark = b.mark.relabel r := by
  cases b; rfl

@[simp] theorem Case.mark_relabel (c : Case) : (c.relabel r).mark = c.mark.relabel r := by
  cases c; rfl

/-! ### Effects -/

@[simp] theorem Node.id_relabel (n : Node) : (n.relabel r).id = r.node n.id := by
  cases n <;>
    simp [relabel, Node.id, Node.mark, Prototype.relabel, FunctionDef.relabel, InputLayout.relabel]

@[simp] theorem Node.ownEffects_relabel (n : Node) : (n.relabel r).ownEffects = n.ownEffects := by
  cases n <;> simp [relabel, ownEffects]

theorem Stmt.effectSources_relabel (s : Stmt) :
    (s.relabel r).effectSources = s.effectSources.map r.node := by
  cases s with
  | ifElse m test onTrue onFalse => cases onFalse <;> simp [relabel, effectSources]
  | loop m mode init test step body =>
    cases init <;> cases test <;> cases step <;> simp [relabel, effectSources]
  | expr m e => cases e <;> simp [relabel, effectSources]
  | jump m j => cases h : j.value? <;> simp [relabel, effectSources, h]
  | _ => simp [relabel, effectSources, Function.comp_def]

@[simp] theorem Node.effectSources_relabel (n : Node) :
    (n.relabel r).effectSources = n.effectSources.map r.node := by
  cases n with
  | stmt s => exact s.effectSources_relabel r
  | declarator d => cases h : d.init <;> simp [relabel, effectSources, h]
  | case c =>
    obtain ⟨m, labels, body⟩ := c
    simp only [relabel, Case.relabel, effectSources, Label.values_relabel]
    simp [Function.comp_def]
  | switchBody b =>
    obtain ⟨m, cases⟩ := b
    simp [relabel, SwitchBody.relabel, effectSources, Function.comp_def]
  | _ => simp [relabel, effectSources, FunctionDef.relabel, Function.comp_def]

/-! ### Agendas -/

def Region.relabel (g : Region) : Region :=
  { g with owner := r.node g.owner }

def Action.relabel : Action → Action
  | .openScope g => .openScope (g.relabel r)
  | .closeScope => .closeScope
  | .check e => .check (e.relabel r)
  | .enterStruct span => .enterStruct (r.place span)
  | .leaveStruct => .leaveStruct
  | .bindStruct s => .bindStruct (s.relabel r)
  | .typeList span list => .typeList (r.place span) (list.relabel r)
  | .typeName d => .typeName (d.relabel r)
  | .bindName list d => .bindName (list.relabel r) (d.relabel r)
  | .bindBlock m b => .bindBlock (m.relabel r) (b.relabel r)
  | .bindParameter p => .bindParameter (p.relabel r)
  | .saveFunction p => .saveFunction (p.relabel r)
  | .applyLayout l => .applyLayout (l.relabel r)
  | .leave n => .leave (n.relabel r)

/-- The agendas of parts make up that of the whole. -/
theorem agenda_relabel_flatMap {α : Type} {f : α → α} {agenda agenda' : α → List Action}
    {l : List α} (each : ∀ a ∈ l, agenda' (f a) = (agenda a).map (Action.relabel r)) :
    (l.map f).flatMap agenda' = (l.flatMap agenda).map (Action.relabel r) := by
  simp only [List.flatMap_def, List.map_map, List.map_flatten]
  exact congrArg List.flatten (List.map_congr_left each)

@[simp] theorem Mark.region_relabel (m : Mark) : (m.relabel r).region = m.region.relabel r := rfl

@[simp] theorem Mark.elseRegion_relabel (m : Mark) :
    (m.relabel r).elseRegion = m.elseRegion.relabel r := rfl

@[simp] theorem Region.map_enclose (g : Region) (as : List Action) :
    (g.enclose as).map (Action.relabel r)
      = (g.relabel r).enclose (as.map (Action.relabel r)) := by
  simp [enclose, Action.relabel]

@[simp] theorem Region.encloseIf_relabel (g : Region) (own : Bool) (as : List Action) :
    (g.encloseIf own as).map (Action.relabel r)
      = (g.relabel r).encloseIf own (as.map (Action.relabel r)) := by
  cases own <;> simp [encloseIf]

@[simp] theorem Expr.agenda_relabel (e : Expr) :
    (e.relabel r).agenda = e.agenda.map (Action.relabel r) := by
  induction e using Expr.byParts with
  | step e parts =>
    rw [Expr.agenda_eq, Expr.agenda_eq e, parts_relabel, agenda_relabel_flatMap r parts]
    simp [Expr.own, Action.relabel, Node.relabel]

theorem Expr.agendas_relabel (es : List Expr) :
    (es.map (Expr.relabel r)).flatMap Expr.agenda
      = (es.flatMap Expr.agenda).map (Action.relabel r) :=
  agenda_relabel_flatMap r fun e _ => e.agenda_relabel r

@[simp] theorem Expr.optionAgenda_relabel (e : Option Expr) :
    (e.map (Expr.relabel r)).toList.flatMap Expr.agenda
      = (e.toList.flatMap Expr.agenda).map (Action.relabel r) := by
  rw [← Expr.agendas_relabel]
  cases e <;> rfl

mutual
@[simp] theorem TypeSpec.agenda_relabel : ∀ t : TypeSpec,
    (t.relabel r).agenda = t.agenda.map (Action.relabel r)
  | ⟨.named _, _⟩ => rfl
  | ⟨.struct s, _⟩ => StructSpec.agenda_relabel s

theorem StructSpec.agenda_relabel : ∀ s : StructSpec,
    (s.relabel r).agenda = s.agenda.map (Action.relabel r)
  | ⟨m, name, members⟩ => by
    have inside := DeclList.memberAgenda_relabel members
    simp [StructSpec.relabel, StructSpec.agenda, inside, Action.relabel, Node.relabel]

@[simp] theorem DeclList.memberAgenda_relabel : ∀ lists : List DeclList,
    DeclList.memberAgenda (lists.map (DeclList.relabel r))
      = (DeclList.memberAgenda lists).map (Action.relabel r)
  | [] => rfl
  | ⟨q, type, invariant, names⟩ :: rest => by
    have first := TypeSpec.agenda_relabel type
    have others := DeclList.memberAgenda_relabel rest
    simp [DeclList.relabel, DeclList.memberAgenda, first, others]
end

theorem Declarator.agenda_relabel (list : DeclList) (d : Declarator) :
    (d.relabel r).agenda (list.relabel r) = (d.agenda list).map (Action.relabel r) := by
  simp [agenda, Action.relabel, Node.relabel]

@[simp] theorem DeclList.agenda_relabel (span : Span) (list : DeclList) :
    (list.relabel r).agenda (r.place span) = (list.agenda span).map (Action.relabel r) := by
  have names := agenda_relabel_flatMap r fun d (_ : d ∈ list.names) => d.agenda_relabel r list
  simp [agenda, names, Action.relabel]

@[simp] theorem BlockDecl.agenda_relabel (m : Mark) (b : BlockDecl) :
    (b.relabel r).agenda (m.relabel r) = (b.agenda m).map (Action.relabel r) := by
  simp [agenda, relabel, Action.relabel]

theorem Parameter.agenda_relabel (p : Parameter) :
    (p.relabel r).agenda = p.agenda.map (Action.relabel r) := by
  simp [agenda, relabel, Action.relabel, Node.relabel]

theorem Prototype.signatureAgenda_relabel (p : Prototype) :
    (p.relabel r).signatureAgenda = p.signatureAgenda.map (Action.relabel r) := by
  have params := agenda_relabel_flatMap r fun q (_ : q ∈ p.params) => q.agenda_relabel r
  simp [signatureAgenda, relabel, params, Action.relabel]

mutual
theorem Stmt.agenda_relabel : ∀ s : Stmt, (s.relabel r).agenda = s.agenda.map (Action.relabel r)
  | .compound m true body => by
    simp [Stmt.relabel, Stmt.agenda, Stmt.agendas_relabel body, Action.relabel, Node.relabel]
  | .compound m false body => by
    simp [Stmt.relabel, Stmt.agenda, Stmt.agendas_relabel body, Action.relabel, Node.relabel]
  | .declare m list => by
    simp [Stmt.relabel, Stmt.agenda, Action.relabel, Node.relabel]
  | .block m b => by
    simp [Stmt.relabel, Stmt.agenda, Action.relabel, Node.relabel]
  | .expr m e => by
    simp [Stmt.relabel, Stmt.agenda, Action.relabel, Node.relabel]
  | .ifElse m test onTrue none => by
    simp [Stmt.relabel, Stmt.agenda, Stmt.agenda_relabel onTrue, Action.relabel, Node.relabel]
  | .ifElse m test onTrue (some onFalse) => by
    simp [Stmt.relabel, Stmt.agenda, Stmt.agenda_relabel onTrue, Stmt.agenda_relabel onFalse,
      Action.relabel, Node.relabel]
  | .switch m test body => by
    simp [Stmt.relabel, Stmt.agenda, SwitchBody.agenda_relabel body, Action.relabel, Node.relabel]
  | .loop m mode init test step body => by
    simp [Stmt.relabel, Stmt.agenda, Stmt.optionAgenda_relabel init, Stmt.agenda_relabel body,
      Action.relabel, Node.relabel]
  | .jump m j => by
    simp [Stmt.relabel, Stmt.agenda, Action.relabel, Node.relabel]

theorem Stmt.agendas_relabel : ∀ ss : List Stmt,
    Stmt.agendas (ss.map (Stmt.relabel r)) = (Stmt.agendas ss).map (Action.relabel r)
  | [] => rfl
  | s :: ss => by
    simp [Stmt.agendas, Stmt.agenda_relabel s, Stmt.agendas_relabel ss]

theorem Stmt.optionAgenda_relabel : ∀ s : Option Stmt,
    Stmt.optionAgenda (s.map (Stmt.relabel r)) = (Stmt.optionAgenda s).map (Action.relabel r)
  | none => rfl
  | some s => Stmt.agenda_relabel s

theorem SwitchBody.agenda_relabel : ∀ b : SwitchBody,
    (b.relabel r).agenda = b.agenda.map (Action.relabel r)
  | ⟨m, cases⟩ => by
    have inside := Case.agendas_relabel cases
    simp [SwitchBody.relabel, SwitchBody.agenda, inside, Action.relabel, Node.relabel]

theorem Case.agenda_relabel : ∀ c : Case, (c.relabel r).agenda = c.agenda.map (Action.relabel r)
  | ⟨m, labels, body⟩ => by
    have inside := Stmt.agendas_relabel body
    simp only [Case.relabel, Case.agenda, Label.values_relabel, Expr.agendas_relabel]
    simp [Case.relabel, inside, Action.relabel, Node.relabel]

theorem Case.agendas_relabel : ∀ cs : List Case,
    Case.agendas (cs.map (Case.relabel r)) = (Case.agendas cs).map (Action.relabel r)
  | [] => rfl
  | c :: cs => by
    simp [Case.agendas, Case.agenda_relabel c, Case.agendas_relabel cs]
end

theorem TopLevel.agenda_relabel (d : TopLevel) :
    (d.relabel r).agenda = d.agenda.map (Action.relabel r) := by
  cases d with
  | declaration s => exact s.agenda_relabel r
  | prototype p =>
    have inside := p.signatureAgenda_relabel r
    simp [relabel, agenda, Prototype.agenda, inside, Action.relabel, Node.relabel]
  | function f =>
    have signature := f.prototype.signatureAgenda_relabel r
    have body := f.body.agenda_relabel r
    simp [relabel, agenda, FunctionDef.agenda, FunctionDef.relabel, signature, body, Action.relabel,
      Node.relabel]
  | layout l => rfl

theorem SourceUnit.agenda_relabel (unit : SourceUnit) :
    (unit.relabel r).agenda = unit.agenda.map (Action.relabel r) :=
  agenda_relabel_flatMap r fun d _ => d.agenda_relabel r

end

end ShaderAnalysis
