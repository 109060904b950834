import Mathlib.Data.List.Nodup
import ShaderAnalysis.Proofs.Footprint

/-!
The numbers of all nodes of a source tree, visited or not: also those of array dimensions, of struct
members and of the types of constructors. Each kind of action works at every node at most once
(`nodup_homes`), so that in a tree whose numbers are distinct nothing is written twice by actions
of one kind.
-/

namespace ShaderAnalysis

mutual
def Expr.ids : Expr → List NodeId
  | .ident m _ | .int m _ | .uint m _ | .float m _ | .bool m _ => [m.id]
  | .unary m _ a => a.ids ++ [m.id]
  | .binary m _ a b | .assign m _ a b | .index m a b => a.ids ++ b.ids ++ [m.id]
  | .cond m a b c => a.ids ++ b.ids ++ c.ids ++ [m.id]
  | .field m a _ => a.ids ++ [m.id]
  | .method m a _ as => a.ids ++ Expr.listIds as ++ [m.id]
  | .call m _ as => Expr.listIds as ++ [m.id]
  | .construct m t as => t.ids ++ Expr.listIds as ++ [m.id]
  | .seq m es | .aggregate m es => Expr.listIds es ++ [m.id]

def Expr.listIds : List Expr → List NodeId
  | [] => []
  | e :: es => e.ids ++ Expr.listIds es

def Expr.optionIds : Option Expr → List NodeId
  | none => []
  | some e => e.ids

def Dim.ids : Dim → List NodeId
  | .unsized => []
  | .sized e => e.ids

def Dim.listIds : List Dim → List NodeId
  | [] => []
  | d :: ds => d.ids ++ Dim.listIds ds

def Dim.optionIds : Option (List Dim) → List NodeId
  | none => []
  | some ds => Dim.listIds ds

def TypeHead.ids : TypeHead → List NodeId
  | .named _ => []
  | .struct s => s.ids

def TypeSpec.ids : TypeSpec → List NodeId
  | ⟨head, dims⟩ => head.ids ++ Dim.optionIds dims

def StructSpec.ids : StructSpec → List NodeId
  | ⟨m, _, lists⟩ => DeclList.typeIds lists ++ DeclList.nameIds lists ++ [m.id]

/-- The numbers in the types of members. -/
def DeclList.typeIds : List DeclList → List NodeId
  | [] => []
  | ⟨_, type, _, _⟩ :: rest => type.ids ++ DeclList.typeIds rest

/-- The numbers in the names of members. -/
def DeclList.nameIds : List DeclList → List NodeId
  | [] => []
  | ⟨_, _, _, names⟩ :: rest => Declarator.listIds names ++ DeclList.nameIds rest

def Declarator.ids : Declarator → List NodeId
  | ⟨m, _, dims, init⟩ => Dim.optionIds dims ++ Expr.optionIds init ++ [m.id]

def Declarator.listIds : List Declarator → List NodeId
  | [] => []
  | d :: ds => d.ids ++ Declarator.listIds ds
end

def DeclList.ids (list : DeclList) : List NodeId :=
  list.type.ids ++ Declarator.listIds list.names

def BlockDecl.ids (b : BlockDecl) : List NodeId :=
  DeclList.typeIds b.members ++ DeclList.nameIds b.members ++ Dim.optionIds b.dims

def Jump.ids (j : Jump) : List NodeId :=
  Expr.optionIds j.value?

def Parameter.ids (p : Parameter) : List NodeId :=
  p.type.ids ++ Dim.optionIds p.dims ++ [p.mark.id]

def Prototype.ids (p : Prototype) : List NodeId :=
  p.returns.ids ++ p.params.flatMap Parameter.ids ++ [p.mark.id]

mutual
def Stmt.ids : Stmt → List NodeId
  | .compound m _ body => Stmt.listIds body ++ [m.id]
  | .declare m list => list.ids ++ [m.id]
  | .block m b => b.ids ++ [m.id]
  | .expr m e => Expr.optionIds e ++ [m.id]
  | .ifElse m test onTrue none => test.ids ++ onTrue.ids ++ [m.id]
  | .ifElse m test onTrue (some onFalse) => test.ids ++ onTrue.ids ++ onFalse.ids ++ [m.id]
  | .switch m test body => test.ids ++ body.ids ++ [m.id]
  | .loop m _ init test step body =>
    Stmt.optionIds init ++ Expr.optionIds test ++ body.ids ++ Expr.optionIds step ++ [m.id]
  | .jump m j => j.ids ++ [m.id]

def Stmt.listIds : List Stmt → List NodeId
  | [] => []
  | s :: ss => s.ids ++ Stmt.listIds ss

def Stmt.optionIds : Option Stmt → List NodeId
  | none => []
  | some s => s.ids

def SwitchBody.ids : SwitchBody → List NodeId
  | ⟨m, cases⟩ => Case.listIds cases ++ [m.id]

def Case.ids : Case → List NodeId
  | ⟨m, labels, body⟩ =>
    (labels.filterMap Label.value?).flatMap Expr.ids ++ Stmt.listIds body ++ [m.id]

def Case.listIds : List Case → List NodeId
  | [] => []
  | c :: cs => c.ids ++ Case.listIds cs
end

def FunctionDef.ids (f : FunctionDef) : List NodeId :=
  f.prototype.ids ++ f.body.ids ++ [f.mark.id]

def TopLevel.ids : TopLevel → List NodeId
  | .declaration s => s.ids
  | .prototype p => p.ids
  | .function f => f.ids
  | .layout l => [l.mark.id]

def SourceUnit.ids (unit : SourceUnit) : List NodeId :=
  unit.flatMap TopLevel.ids

/-! ### Where actions work -/

/-- The kinds of actions that work at nodes: opening the scope of a node, or of the second branch of
a condition; finding out what a node is; and noting the effects of a node that is left. -/
inductive Phase where
  | opening | openingElse | finding | leaving
deriving DecidableEq, Repr

namespace Action

def phase : Action → Phase
  | .openScope r => if r.isElse then .openingElse else .opening
  | .leave _ => .leaving
  | _ => .finding

/-- The nodes that an action works at. -/
def homes : Action → List NodeId
  | .openScope r => [r.owner]
  | .check e => [e.id]
  | .bindStruct s => [s.mark.id]
  | .bindName _ d => [d.mark.id]
  | .bindBlock m b => b.binders m
  | .bindParameter p => [p.mark.id]
  | .saveFunction p => [p.mark.id]
  | .applyLayout l => [l.mark.id]
  | .leave n => [n.id]
  | .closeScope | .enterStruct _ | .leaveStruct | .typeList .. | .typeName _ => []

/-- The nodes that an action works at, if it is of a kind. -/
def homesIn (k : Phase) (a : Action) : List NodeId :=
  if a.phase = k then a.homes else []

end Action

/-- The nodes that actions of one kind work at, in order. -/
def homes (k : Phase) (as : List Action) : List NodeId :=
  as.flatMap (Action.homesIn k)

@[simp] theorem homes_nil (k : Phase) : homes k [] = [] := rfl

theorem homes_cons (k : Phase) (a : Action) (as : List Action) :
    homes k (a :: as) = a.homesIn k ++ homes k as := rfl

theorem homes_append (k : Phase) (as bs : List Action) :
    homes k (as ++ bs) = homes k as ++ homes k bs := by
  simp [homes]

/-- A choice of nodes for each action, in which the actions at a construct have only the nodes of
that construct to share: itself, and at a record the names of its members. -/
structure Apportions (f : Action → List NodeId) : Prop where
  closeScope : f .closeScope = []
  typeList (span : Span) (list : DeclList) : f (.typeList span list) = []
  /-- Opening the scopes of a node, and leaving it. -/
  node (m : Mark) (n : Node) (same : n.id = m.id) (x : NodeId) : (f (.openScope m.region)).count x
    + (f (.openScope m.elseRegion)).count x + (f (.leave n)).count x ≤ [m.id].count x
  expr (e : Expr) (x : NodeId) : (e.own.flatMap f).count x ≤ [e.id].count x
  struct (s : StructSpec) (x : NodeId) : ([.enterStruct s.mark.span, .leaveStruct, .bindStruct s,
    .leave (.struct s)].flatMap f).count x ≤ (DeclList.nameIds s.members ++ [s.mark.id]).count x
  declarator (list : DeclList) (d : Declarator) (x : NodeId) :
    ([.typeName d, .bindName list d, .leave (.declarator d)].flatMap f).count x
      ≤ [d.mark.id].count x
  block (m : Mark) (b : BlockDecl) (x : NodeId) :
    ([.bindBlock m b, .leave (.stmt (.block m b))].flatMap f).count x
      ≤ (DeclList.nameIds b.members ++ [m.id]).count x
  parameter (p : Parameter) (x : NodeId) :
    ([.bindParameter p, .leave (.parameter p)].flatMap f).count x ≤ [p.mark.id].count x
  prototype (p : Prototype) (x : NodeId) :
    ([.openScope p.mark.region, .saveFunction p, .leave (.prototype p)].flatMap f).count x
      ≤ [p.mark.id].count x
  layout (l : InputLayout) (x : NodeId) : (l.agenda.flatMap f).count x ≤ [l.mark.id].count x

/-! ### Nodes of actions are among the numbers of the tree -/

/-- Actions have nodes of these numbers, and none more often than its number occurs. -/
def Within (f : Action → List NodeId) (as : List Action) (ids : List NodeId) : Prop :=
  ∀ x, (as.flatMap f).count x ≤ ids.count x

namespace Within

variable {f : Action → List NodeId} {as bs : List Action} {ids ids' : List NodeId}

theorem nil : Within f [] ids := by
  intro x
  simp

theorem append (h : Within f as ids) (h' : Within f bs ids') :
    Within f (as ++ bs) (ids ++ ids') := by
  intro x
  have first := h x
  have second := h' x
  simp only [List.flatMap_append, List.count_append]
  omega

theorem flatMap {α : Type} {g : α → List Action} {g' : α → List NodeId} {l : List α}
    (h : ∀ a ∈ l, Within f (g a) (g' a)) : Within f (l.flatMap g) (l.flatMap g') := by
  induction l with
  | nil => exact nil
  | cons a xs ih =>
    simp only [List.flatMap_cons]
    exact (h a (by simp)).append (ih fun b hb => h b (by simp [hb]))

end Within

theorem Expr.listIds_eq (es : List Expr) : Expr.listIds es = es.flatMap Expr.ids := by
  induction es with
  | nil => simp [Expr.listIds]
  | cons e es ih => simp [Expr.listIds, ih]

theorem Expr.optionIds_eq (e : Option Expr) : Expr.optionIds e = e.toList.flatMap Expr.ids := by
  cases e <;> simp [Expr.optionIds]

theorem Declarator.listIds_eq (ds : List Declarator) :
    Declarator.listIds ds = ds.flatMap Declarator.ids := by
  induction ds with
  | nil => simp [Declarator.listIds]
  | cons d ds ih => simp [Declarator.listIds, ih]

theorem Expr.count_parts_le (e : Expr) (x : NodeId) :
    (e.parts.flatMap Expr.ids).count x + [e.id].count x ≤ e.ids.count x := by
  cases e <;> simp [Expr.ids, Expr.parts, Expr.id, Expr.mark, Expr.listIds_eq] <;> omega

namespace Within

variable {f : Action → List NodeId}

theorem enclose (shared : Apportions f) (r : Region) (as : List Action) :
    (r.enclose as).flatMap f = f (.openScope r) ++ as.flatMap f := by
  simp [Region.enclose, shared.closeScope]

theorem leave (shared : Apportions f) {m : Mark} {n : Node} (same : n.id = m.id) :
    Within f [.leave n] [m.id] := by
  intro x
  have := shared.node m n same x
  simp only [List.flatMap_singleton]
  omega

/-- A node with a scope of its own, behind what else is inside the node. -/
theorem enclosing (shared : Apportions f) (m : Mark) (n : Node) (same : n.id = m.id) (own : Bool)
    {as bs : List Action} {ids ids' : List NodeId} (h : Within f as ids) (h' : Within f bs ids') :
    Within f (as ++ m.region.encloseIf own bs ++ [.leave n]) (ids ++ ids' ++ [m.id]) := by
  intro x
  have outside := h x
  have inside := h' x
  have around := shared.node m n same x
  cases own with
  | true =>
    simp only [Region.encloseIf, ↓reduceIte, List.flatMap_append, enclose shared,
      List.flatMap_singleton, List.count_append]
    omega
  | false =>
    simp only [Region.encloseIf, Bool.false_eq_true, ↓reduceIte, List.flatMap_append,
      List.flatMap_singleton, List.count_append]
    omega

theorem expr (shared : Apportions f) (e : Expr) : Within f e.agenda e.ids := by
  induction e using Expr.byParts with
  | step e parts =>
    intro x
    have inside := flatMap parts x
    have all := e.count_parts_le x
    have own := shared.expr e x
    rw [Expr.agenda_eq, List.flatMap_append, List.count_append]
    omega

theorem exprs (shared : Apportions f) (es : List Expr) :
    Within f (es.flatMap Expr.agenda) (es.flatMap Expr.ids) :=
  flatMap fun e _ => expr shared e

theorem expr? (shared : Apportions f) (e : Option Expr) :
    Within f (e.toList.flatMap Expr.agenda) (Expr.optionIds e) := by
  rw [Expr.optionIds_eq]
  exact exprs shared _

mutual
theorem spec (shared : Apportions f) : ∀ t : TypeSpec, Within f t.agenda t.ids
  | ⟨.named _, _⟩ => nil
  | ⟨.struct s, dims⟩ => by
    intro x
    have inside := struct shared s x
    simp only [TypeSpec.agenda, TypeSpec.ids, TypeHead.ids, List.count_append]
    omega

theorem struct (shared : Apportions f) : ∀ s : StructSpec, Within f s.agenda s.ids
  | ⟨m, name, lists⟩ => by
    intro x
    have inside := types shared lists x
    have own := shared.struct ⟨m, name, lists⟩ x
    simp only [StructSpec.agenda, StructSpec.ids, List.flatMap_append, List.flatMap_cons,
      List.flatMap_nil, List.append_nil, List.cons_append, List.count_append] at own ⊢
    omega

theorem types (shared : Apportions f) : ∀ lists : List DeclList,
    Within f (DeclList.memberAgenda lists) (DeclList.typeIds lists)
  | [] => nil
  | ⟨_, type, _, _⟩ :: rest => (spec shared type).append (types shared rest)
end

theorem declarator (shared : Apportions f) (list : DeclList) (d : Declarator) :
    Within f (d.agenda list) d.ids := by
  obtain ⟨m, name, dims, init⟩ := d
  intro x
  have inside := expr? shared init x
  have own := shared.declarator list ⟨m, name, dims, init⟩ x
  simp only [Declarator.agenda, Declarator.ids, List.flatMap_append, List.flatMap_cons,
    List.flatMap_nil, List.append_nil, List.cons_append, List.count_append] at own ⊢
  omega

theorem declList (shared : Apportions f) (span : Span) (list : DeclList) :
    Within f (list.agenda span) list.ids := by
  have names : Within f (list.names.flatMap (Declarator.agenda list))
      (list.names.flatMap Declarator.ids) := flatMap fun d _ => declarator shared list d
  have typed : Within f [.typeList span list] [] := by
    intro x
    simp [shared.typeList]
  rw [DeclList.ids, Declarator.listIds_eq]
  exact (spec shared list.type).append (typed.append names)

theorem block (shared : Apportions f) (m : Mark) (b : BlockDecl) :
    Within f (b.agenda m ++ [.leave (.stmt (.block m b))]) (b.ids ++ [m.id]) := by
  intro x
  have inside := types shared b.members x
  have own := shared.block m b x
  simp only [BlockDecl.agenda, BlockDecl.ids, List.flatMap_append, List.flatMap_cons,
    List.flatMap_nil, List.append_nil, List.count_append] at own ⊢
  omega

theorem parameter (shared : Apportions f) (p : Parameter) : Within f p.agenda p.ids := by
  intro x
  have inside := spec shared p.type x
  have own := shared.parameter p x
  simp only [Parameter.agenda, Parameter.ids, List.flatMap_append, List.count_append]
  omega

/-- A prototype's own number is free in its types and parameters. -/
theorem signature (shared : Apportions f) (p : Prototype) (x : NodeId) :
    (p.signatureAgenda.flatMap f).count x + (f (.openScope p.mark.region)).count x
      + (f (.leave (.prototype p))).count x ≤ p.ids.count x := by
  have returned := spec shared p.returns x
  have given := flatMap (f := f) (l := p.params) (fun q _ => parameter shared q) x
  have own := shared.prototype p x
  simp only [Prototype.signatureAgenda, Prototype.ids, List.flatMap_append, List.flatMap_cons,
    List.flatMap_nil, List.append_nil, List.count_append] at own ⊢
  omega

theorem prototype (shared : Apportions f) (p : Prototype) : Within f p.agenda p.ids := by
  intro x
  have inside := signature shared p x
  simp only [Prototype.agenda, List.flatMap_append, enclose shared, List.flatMap_singleton,
    List.count_append]
  omega

mutual
theorem stmt (shared : Apportions f) : ∀ s : Stmt, Within f s.agenda s.ids
  | .compound m true body => by
    have none : Within f [] [] := nil
    simpa [Stmt.agenda, Stmt.ids, Region.encloseIf] using
      enclosing shared m (.stmt (.compound m true body)) rfl true none (stmts shared body)
  | .compound _ false body => (stmts shared body).append (leave shared rfl)
  | .declare m list => (declList shared m.span list).append (leave shared rfl)
  | .block m b => block shared m b
  | .expr _ e => (expr? shared e).append (leave shared rfl)
  | .ifElse m test onTrue none => by
    rw [Stmt.agenda, Stmt.ids]
    exact enclosing shared m _ rfl true (expr shared test) (stmt shared onTrue)
  | .ifElse m test onTrue (some onFalse) => by
    intro x
    have tested := expr shared test x
    have first := stmt shared onTrue x
    have second := stmt shared onFalse x
    have own := shared.node m (.stmt (.ifElse m test onTrue (some onFalse))) rfl x
    simp only [Stmt.agenda, Stmt.ids, List.flatMap_append, enclose shared,
      List.flatMap_singleton, List.count_append]
    omega
  | .switch m test body => by
    rw [Stmt.agenda, Stmt.ids]
    exact enclosing shared m _ rfl true (expr shared test) (switchBody shared body)
  | .loop m mode init test step body => by
    have inside := (((stmt? shared init).append (expr? shared test)).append
      (stmt shared body)).append (expr? shared step)
    have none : Within f [] [] := nil
    rw [Stmt.agenda, Stmt.ids]
    exact enclosing shared m _ rfl mode.hasScope none inside
  | .jump _ j => (expr? shared j.value?).append (leave shared rfl)

theorem stmts (shared : Apportions f) :
    ∀ ss : List Stmt, Within f (Stmt.agendas ss) (Stmt.listIds ss)
  | [] => nil
  | s :: ss => (stmt shared s).append (stmts shared ss)

theorem stmt? (shared : Apportions f) :
    ∀ s : Option Stmt, Within f (Stmt.optionAgenda s) (Stmt.optionIds s)
  | none => nil
  | some s => stmt shared s

theorem switchBody (shared : Apportions f) : ∀ b : SwitchBody, Within f b.agenda b.ids
  | ⟨_, cs⟩ => (cases shared cs).append (leave shared rfl)

theorem case (shared : Apportions f) : ∀ c : Case, Within f c.agenda c.ids
  | ⟨_, labels, body⟩ =>
    ((exprs shared (labels.filterMap Label.value?)).append (stmts shared body)).append
      (leave shared rfl)

theorem cases (shared : Apportions f) :
    ∀ cs : List Case, Within f (Case.agendas cs) (Case.listIds cs)
  | [] => nil
  | c :: cs => (case shared c).append (cases shared cs)
end

theorem function (shared : Apportions f) (d : FunctionDef) (x : NodeId) :
    (d.agenda.flatMap f).count x + (f (.leave (.prototype d.prototype))).count x
      ≤ d.ids.count x := by
  have declared := signature shared d.prototype x
  have inside := stmt shared d.body x
  have own := shared.node d.mark (.function d) rfl x
  simp only [FunctionDef.agenda, FunctionDef.ids, List.flatMap_append, enclose shared,
    List.flatMap_singleton, List.count_append]
  omega

theorem topLevel (shared : Apportions f) : ∀ d : TopLevel, Within f d.agenda d.ids
  | .declaration s => stmt shared s
  | .prototype p => prototype shared p
  | .function d => by
    intro x
    have all := function shared d x
    simp only [TopLevel.agenda, TopLevel.ids]
    omega
  | .layout l => shared.layout l

theorem unit (shared : Apportions f) (unit : SourceUnit) : Within f unit.agenda unit.ids :=
  flatMap fun d _ => topLevel shared d

/-- In a tree whose numbers are distinct, no node is chosen twice. -/
theorem nodup (shared : Apportions f) {unit : SourceUnit} (distinct : unit.ids.Nodup) :
    (unit.agenda.flatMap f).Nodup := by
  rw [List.nodup_iff_count] at distinct ⊢
  exact fun x => Nat.le_trans (Within.unit shared unit x) (distinct x)

end Within

/-! ### Homes of one kind -/

theorem DeclList.count_names_le (lists : List DeclList) (x : NodeId) :
    ((declarators lists).map (·.mark.id)).count x ≤ (nameIds lists).count x := by
  induction lists with
  | nil => simp [declarators, nameIds]
  | cons l ls ih =>
    obtain ⟨_, _, _, ds⟩ := l
    have here : (ds.map (·.mark.id)).count x ≤ (Declarator.listIds ds).count x := by
      induction ds with
      | nil => simp
      | cons d ds ih =>
        obtain ⟨mark, _, _, _⟩ := d
        simp only [List.map_cons, Declarator.listIds, Declarator.ids, List.count_append,
          List.count_cons, List.count_nil]
        omega
    simp only [declarators, nameIds, List.flatMap_cons, List.map_append, List.count_append] at ih ⊢
    omega

theorem BlockDecl.count_binders_le (m : Mark) (b : BlockDecl) (x : NodeId) :
    (b.binders m).count x ≤ (DeclList.nameIds b.members ++ [m.id]).count x := by
  have members := DeclList.count_names_le b.members x
  rw [List.count_append]
  unfold binders
  split
  · omega
  · omega

theorem Action.apportions_homesIn (k : Phase) : Apportions (homesIn k) where
  closeScope := by simp [homesIn, homes]
  typeList := by simp [homesIn, homes]
  node m n same x := by
    cases k <;> simp [homesIn, phase, homes, Mark.region, Mark.elseRegion, same]
  expr e x := by
    cases k <;> simp [Expr.own, homesIn, phase, homes, Node.id, Node.mark, Expr.id]
  struct s x := by
    rw [List.count_append]
    refine Nat.le_trans ?_ (Nat.le_add_left _ _)
    cases k <;> simp [homesIn, phase, homes, Node.id, Node.mark]
  declarator list d x := by
    cases k <;> simp [homesIn, phase, homes, Node.id, Node.mark]
  block m b x := by
    have bound := b.count_binders_le m x
    cases k with
    | finding => simpa [homesIn, phase, homes] using bound
    | leaving =>
      rw [List.count_append]
      refine Nat.le_trans ?_ (Nat.le_add_left _ _)
      simp [homesIn, phase, homes, Node.id, Node.mark, Stmt.mark]
    | opening | openingElse => simp [homesIn, phase]
  parameter p x := by
    cases k <;> simp [homesIn, phase, homes, Node.id, Node.mark]
  prototype p x := by
    cases k <;> simp [homesIn, phase, homes, Node.id, Node.mark, Mark.region]
  layout l x := by
    cases k <;> simp [InputLayout.agenda, homesIn, phase, homes, Node.id, Node.mark]

/-- In a tree whose numbers are distinct, the actions of one kind work at no node twice. -/
theorem nodup_homes {unit : SourceUnit} (distinct : unit.ids.Nodup) (k : Phase) :
    (homes k unit.agenda).Nodup :=
  Within.nodup (Action.apportions_homesIn k) distinct

/-- Actions of one kind that come later work elsewhere. -/
theorem disjoint_homes {unit : SourceUnit} (distinct : unit.ids.Nodup) (k : Phase)
    {done rest : List Action} (agenda : unit.agenda = done ++ rest) :
    (homes k done).Disjoint (homes k rest) := by
  have once := nodup_homes distinct k
  rw [agenda, homes_append] at once
  exact List.disjoint_of_nodup_append once

/-- What comes after an action works elsewhere. -/
theorem disjoint_homesIn {unit : SourceUnit} (distinct : unit.ids.Nodup) (k : Phase)
    {done rest : List Action} {a : Action} (agenda : unit.agenda = done ++ a :: rest) :
    (a.homesIn k).Disjoint (homes k rest) := by
  have once := nodup_homes distinct k
  rw [agenda, homes_append, homes_cons] at once
  exact List.disjoint_of_nodup_append once.of_append_right

/-! ### What is written at homes -/

/-- An action gives variables and types to nodes that it works at only. -/
theorem Action.mem_homes_of_touches {a : Action} {id : NodeId} {n : SlotName}
    (found : n = .var ∨ n = .ty) (mem : .slot id n ∈ a.touches) : id ∈ a.homesIn .finding := by
  cases a with
  | check e =>
    rcases found with rfl | rfl <;> cases e <;>
      simp_all [touches, Expr.touches, homesIn, phase, homes, Expr.id, Expr.mark]
  | bindBlock m b =>
    rcases found with rfl | rfl
    · simpa [touches, bindingTouches, homesIn, phase, homes] using mem
    · simp [touches, bindingTouches] at mem
  | _ => rcases found with rfl | rfl <;> simp_all [touches, bindingTouches, homesIn, phase, homes]

/-- Actions leave the variables and types of the nodes alone that they do not work at. -/
theorem agree_reached_perform {env : Env} {as : List Action} {base : Ty} {id : NodeId}
    {n : SlotName} (found : n = .var ∨ n = .ty) (elsewhere : id ∉ homes .finding as)
    (ctx : Context) : n.Agree (ctx.annotations.ofNode id)
      ((Context.reached (perform env as base ctx)).annotations.ofNode id) := by
  refine (confined_perform env as base ctx).agree fun mem => elsewhere ?_
  obtain ⟨a, inside, touched⟩ := List.mem_flatMap.mp mem
  exact List.mem_flatMap.mpr ⟨a, inside, Action.mem_homes_of_touches found touched⟩

theorem agree_of_perform {env : Env} {as : List Action} {base b : Ty} {ctx ctx' : Context}
    (run : perform env as base ctx = .ok b ctx') {id : NodeId} {n : SlotName}
    (found : n = .var ∨ n = .ty) (elsewhere : id ∉ homes .finding as) :
    n.Agree (ctx.annotations.ofNode id) (ctx'.annotations.ofNode id) := by
  have agree : n.Agree (ctx.annotations.ofNode id)
      ((Context.reached (perform env as base ctx)).annotations.ofNode id) :=
    agree_reached_perform found elsewhere ctx
  rwa [run] at agree

/-! ### What is found out about -/

/-- The nodes that an action finds something out about: where it works, and at a struct also the
names of its members. -/
def Action.subjects : Action → List NodeId
  | .bindStruct s => s.mark.id :: (DeclList.declarators s.members).map (·.mark.id)
  | a => a.homesIn .finding

theorem Action.apportions_subjects : Apportions subjects where
  __ := apportions_homesIn .finding
  struct s x := by
    have members := DeclList.count_names_le s.members x
    simp only [List.flatMap_cons, List.flatMap_nil, subjects, homesIn, phase, homes,
      List.count_append, List.count_cons, List.count_nil]
    simp only [reduceCtorEq, ↓reduceIte, List.count_nil]
    omega

/-- Linking a node to a variable or to an entry is finding something out about it. -/
theorem Action.mem_subjects_of_touches {a : Action} {id : NodeId} {n : SlotName}
    (found : n = .var ∨ n = .reflection) (mem : .slot id n ∈ a.touches) : id ∈ a.subjects := by
  cases a with
  | check e =>
    rcases found with rfl | rfl <;> cases e <;>
      simp_all [touches, Expr.touches, subjects, homesIn, phase, homes, Expr.id, Expr.mark]
  | bindStruct s => rcases found with rfl | rfl <;> simp_all [touches, subjects]
  | bindBlock m b =>
    rcases found with rfl | rfl <;>
      simpa [touches, bindingTouches, subjects, homesIn, phase, homes] using mem
  | _ =>
    rcases found with rfl | rfl <;>
      simp_all [touches, bindingTouches, subjects, homesIn, phase, homes]

/-- Before an action, the nodes that it finds something out about are linked to nothing. -/
theorem unlinked_of_perform {env : Env} {unit : SourceUnit} (distinct : unit.ids.Nodup)
    {done rest : List Action} {a : Action} (agenda : unit.agenda = done ++ a :: rest) {b : Ty}
    {ctx : Context} (run : perform env done .void (.initial env.options) = .ok b ctx) {id : NodeId}
    (mem : id ∈ a.subjects) :
    (ctx.annotations.ofNode id).var = none ∧ (ctx.annotations.ofNode id).reflection = none := by
  have once := Within.nodup Action.apportions_subjects distinct
  rw [agenda, List.flatMap_append, List.flatMap_cons] at once
  have changes := changes_of_perform run
  have untouched : ∀ n, n = .var ∨ n = .reflection → .slot id n ∉ done.flatMap Action.touches := by
    intro n found touched
    obtain ⟨c, earlier, there⟩ := List.mem_flatMap.mp touched
    exact List.disjoint_of_nodup_append once
      (List.mem_flatMap.mpr ⟨c, earlier, Action.mem_subjects_of_touches found there⟩)
      (List.mem_append_left _ mem)
  have var := changes.agree (n := .var) (untouched .var (.inl rfl))
  have entry := changes.agree (n := .reflection) (untouched .reflection (.inr rfl))
  rw [Context.annotations_initial] at var entry
  exact ⟨var, entry⟩

/-- Behind an action, the nodes that it finds something out about are linked to nothing else. -/
theorem untouched_behind {unit : SourceUnit} (distinct : unit.ids.Nodup) {done rest : List Action}
    {a : Action} (agenda : unit.agenda = done ++ a :: rest) {id : NodeId} (mem : id ∈ a.subjects)
    {n : SlotName} (found : n = .var ∨ n = .reflection) :
    .slot id n ∉ rest.flatMap Action.touches := by
  have once := Within.nodup Action.apportions_subjects distinct
  rw [agenda, List.flatMap_append, List.flatMap_cons] at once
  intro touched
  obtain ⟨c, later, there⟩ := List.mem_flatMap.mp touched
  exact List.disjoint_of_nodup_append once.of_append_right mem
    (List.mem_flatMap.mpr ⟨c, later, Action.mem_subjects_of_touches found there⟩)

end ShaderAnalysis
