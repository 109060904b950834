import Mathlib.Data.List.Induction
import ShaderAnalysis.Proofs.Change

/-!
The analysis as a list of actions. The visits call one another as deeply as the tree is nested, but
what they do, and in which order, depends on the tree alone: it is the agenda of the tree. What
holds of single actions, and is kept from one to the next, holds at every point of an analysis, and
what comes before what can be read off the agenda.
-/

namespace ShaderAnalysis

/-- The part of a tree that a scope belongs to: a function, a lone prototype, a compound statement,
a branch of a condition, the body of a switch or a loop. A condition has a second one. -/
structure Region where
  owner : NodeId
  isElse : Bool := false
deriving DecidableEq, Repr

/-- The region of a node that has one. -/
def Mark.region (m : Mark) : Region :=
  { owner := m.id }

/-- The region of the second branch of a condition. -/
def Mark.elseRegion (m : Mark) : Region :=
  { owner := m.id, isElse := true }

/-- What the analysis does at one point of a tree. The type of a declaration is worked out once, and
stays at hand for the names declared with it. -/
inductive Action where
  | openScope (r : Region)
  | closeScope
  /-- An expression is resolved or classified, and typed. -/
  | check (e : Expr)
  | enterStruct (span : Span)
  | leaveStruct
  | bindStruct (s : StructSpec)
  /-- The type of a declaration is worked out. -/
  | typeList (span : Span) (list : DeclList)
  /-- The type of a declared name is worked out, and given to its initializer. -/
  | typeName (d : Declarator)
  | bindName (list : DeclList) (d : Declarator)
  | bindBlock (m : Mark) (b : BlockDecl)
  | bindParameter (p : Parameter)
  | saveFunction (p : Prototype)
  | applyLayout (l : InputLayout)
  | leave (n : Node)

namespace Analysis

/-- What is done at an expression, apart from noting its effects. -/
def checkExpr (env : Env) (e : Expr) : AnalysisM Unit := do
  prepare env e
  let ty ← Update.noting (e.typeOf env (← get))
  Update.annotate e.id fun a => { a with ty := some ty }
  if let .index m base place := e then
    recordAccess m base place

theorem finishExpr_eq (env : Env) (e : Expr) :
    finishExpr env e = (do checkExpr env e; Update.leave (.expr e)) := by
  cases e <;> simp [finishExpr, checkExpr]

/-- The type of a declared name, which its initializer is given. -/
def typeDeclarator (env : Env) (base : Ty) (d : Declarator) : AnalysisM Unit := do
  let ty ← Update.noting (base.withDimensions env.options d.dimList d.mark.span)
  if let some init := d.init then
    modify fun ctx => { ctx with annotations := ctx.annotations.typeAggregate ty init }

/-- Binds a declared name, given the type of its declaration. -/
def bindDeclarator (env : Env) (list : DeclList) (base : Ty) (d : Declarator) : AnalysisM Unit := do
  let ty := (base.withDimensions env.options d.dimList d.mark.span).value
  let _ ← d.bind env.options list.qualifiers list.invariant ty

end Analysis

open Analysis

/-- Performs an action, given the type of the declaration that is open, and gives the type of the
one that is open then. -/
def Action.act (env : Env) (base : Ty) : Action → AnalysisM Ty
  | .openScope _ => do Analysis.openScope; return base
  | .closeScope => do Analysis.closeScope; return base
  | .check e => do checkExpr env e; return base
  | .enterStruct span => do Update.enterStruct env.options span; return base
  | .leaveStruct => do Update.leaveStruct; return base
  | .bindStruct s => do let _ ← s.bind env.options; return base
  | .typeList span list => do Update.noting (list.type.resolve env.options (← get) span)
  | .typeName d => do typeDeclarator env base d; return base
  | .bindName list d => do bindDeclarator env list base d; return base
  | .bindBlock m b => do b.bind env.options m; return base
  | .bindParameter p => do let _ ← p.bind env.options; return base
  | .saveFunction p => do p.save env.options; return base
  | .applyLayout l => do l.apply; return base
  | .leave n => do Update.leave n; return base

/-- Performs actions in order. -/
def perform (env : Env) : List Action → Ty → AnalysisM Ty
  | [], base => pure base
  | a :: as, base => do perform env as (← a.act env base)

@[simp] theorem perform_nil (env : Env) (base : Ty) : perform env [] base = pure base := rfl

theorem perform_cons (env : Env) (a : Action) (as : List Action) (base : Ty) :
    perform env (a :: as) base = (do perform env as (← a.act env base)) := rfl

theorem perform_append (env : Env) (as bs : List Action) (base : Ty) :
    perform env (as ++ bs) base = (do perform env bs (← perform env as base)) := by
  induction as generalizing base with
  | nil => simp
  | cons a as ih => simp [perform_cons, ih]

/-- A list of actions goes well if its parts do, one after the other. -/
theorem perform_append_ok {env : Env} {as bs : List Action} {base b : Ty} {ctx ctx' : Context}
    (run : perform env (as ++ bs) base ctx = .ok b ctx') :
    ∃ c between, perform env as base ctx = .ok c between ∧
      perform env bs c between = .ok b ctx' := by
  rw [perform_append] at run
  exact AnalysisM.run_bind_ok run

theorem perform_cons_ok {env : Env} {a : Action} {as : List Action} {base b : Ty}
    {ctx ctx' : Context} (run : perform env (a :: as) base ctx = .ok b ctx') :
    ∃ c between, a.act env base ctx = .ok c between ∧ perform env as c between = .ok b ctx' := by
  rw [perform_cons] at run
  exact AnalysisM.run_bind_ok run

/-- A list of actions that goes well, as it comes to one of them and goes on. -/
theorem perform_split_ok {env : Env} {done rest : List Action} {a : Action} {base b : Ty}
    {ctx ctx' : Context} (run : perform env (done ++ a :: rest) base ctx = .ok b ctx') :
    ∃ c before d after, perform env done base ctx = .ok c before ∧
      a.act env c before = .ok d after ∧ perform env rest d after = .ok b ctx' := by
  obtain ⟨c, before, first, run⟩ := perform_append_ok run
  obtain ⟨d, after, act, last⟩ := perform_cons_ok run
  exact ⟨c, before, d, after, first, act, last⟩

/-- One action more. -/
theorem perform_append_act {env : Env} {done : List Action} {a : Action} {base b c : Ty}
    {ctx before after : Context} (run : perform env done base ctx = .ok b before)
    (act : a.act env b before = .ok c after) :
    perform env (done ++ [a]) base ctx = .ok c after := by
  rw [perform_append, AnalysisM.run_bind_of_ok run, perform_cons, AnalysisM.run_bind_of_ok act]
  rfl

/-- What holds before a list of actions, and is kept by each that goes well, holds all the way. -/
theorem perform_induction {env : Env} {plan : List Action} {base : Ty} {start : Context}
    {I : List Action → Ty → Context → Prop} (initial : I [] base start)
    (step : ∀ {done rest : List Action} {a : Action} {b c : Ty} {ctx after : Context},
      plan = done ++ a :: rest → perform env done base start = .ok b ctx →
      a.act env b ctx = .ok c after → I done b ctx → I (done ++ [a]) c after)
    {done rest : List Action} (split : plan = done ++ rest) {b : Ty} {ctx : Context}
    (run : perform env done base start = .ok b ctx) : I done b ctx := by
  induction done using List.reverseRecOn generalizing rest b ctx with
  | nil =>
    cases run
    exact initial
  | append_singleton done a ih =>
    obtain ⟨c, between, first, last⟩ := perform_append_ok run
    obtain ⟨d, after, act, left⟩ := perform_cons_ok last
    cases left
    rw [List.append_assoc, List.singleton_append] at split
    exact step split first act (ih split first)

/-! ### Agendas -/

/-- Actions in a scope of their own. -/
def Region.enclose (r : Region) (as : List Action) : List Action :=
  .openScope r :: as ++ [.closeScope]

/-- Actions in a scope of their own if there is to be one. -/
def Region.encloseIf (r : Region) (own : Bool) (as : List Action) : List Action :=
  if own then r.enclose as else as

theorem Expr.sizeOf_lt_of_mem_parts {e p : Expr} (h : p ∈ e.parts) : sizeOf p < sizeOf e := by
  cases e with
  | ident | int | uint | float | bool => simp [parts] at h
  | unary | field | binary | assign | index | cond =>
    simp only [parts, List.mem_cons, List.not_mem_nil, or_false] at h
    grind
  | method m a n args =>
    rcases List.mem_cons.mp h with rfl | h
    · simp; omega
    · have := List.sizeOf_lt_of_mem h
      simp; omega
  | call _ _ es | construct _ _ es | seq _ es | aggregate _ es =>
    have := List.sizeOf_lt_of_mem (show p ∈ es from h)
    simp; omega

/-- Induction on an expression by way of its parts. -/
theorem Expr.byParts {P : Expr → Prop} (step : ∀ e, (∀ p ∈ e.parts, P p) → P e) (e : Expr) : P e :=
  step e fun p _ => Expr.byParts step p
termination_by sizeOf e
decreasing_by exact Expr.sizeOf_lt_of_mem_parts ‹_›

mutual
/-- An expression and all the expressions inside it, each after its parts. -/
def Expr.postorder : Expr → List Expr
  | .ident m n => [.ident m n]
  | .int m v => [.int m v]
  | .uint m v => [.uint m v]
  | .float m v => [.float m v]
  | .bool m v => [.bool m v]
  | .unary m o a => a.postorder ++ [.unary m o a]
  | .binary m o a b => a.postorder ++ b.postorder ++ [.binary m o a b]
  | .assign m o a b => a.postorder ++ b.postorder ++ [.assign m o a b]
  | .cond m a b c => a.postorder ++ b.postorder ++ c.postorder ++ [.cond m a b c]
  | .index m a b => a.postorder ++ b.postorder ++ [.index m a b]
  | .field m a n => a.postorder ++ [.field m a n]
  | .method m a n as => a.postorder ++ Expr.postorders as ++ [.method m a n as]
  | .call m n as => Expr.postorders as ++ [.call m n as]
  | .construct m t as => Expr.postorders as ++ [.construct m t as]
  | .seq m es => Expr.postorders es ++ [.seq m es]
  | .aggregate m es => Expr.postorders es ++ [.aggregate m es]

def Expr.postorders : List Expr → List Expr
  | [] => []
  | e :: es => e.postorder ++ Expr.postorders es
end

theorem Expr.postorders_eq (es : List Expr) : Expr.postorders es = es.flatMap Expr.postorder := by
  induction es with
  | nil => simp [Expr.postorders]
  | cons e es ih => simp [Expr.postorders, ih]

theorem Expr.postorder_eq (e : Expr) : e.postorder = e.parts.flatMap Expr.postorder ++ [e] := by
  cases e <;> simp [Expr.postorder, Expr.parts, Expr.postorders_eq]

/-- What is done at a single expression. -/
def Expr.own (e : Expr) : List Action :=
  [.check e, .leave (.expr e)]

def Expr.agenda (e : Expr) : List Action :=
  e.postorder.flatMap Expr.own

theorem Expr.agenda_eq (e : Expr) : e.agenda = e.parts.flatMap Expr.agenda ++ e.own := by
  rw [Expr.agenda, Expr.postorder_eq]
  simp only [List.flatMap_append, List.flatMap_assoc, List.flatMap_singleton]
  rfl

mutual
def TypeSpec.agenda : TypeSpec → List Action
  | ⟨.named _, _⟩ => []
  | ⟨.struct s, _⟩ => s.agenda

def StructSpec.agenda : StructSpec → List Action
  | ⟨mark, name, members⟩ =>
    .enterStruct mark.span :: DeclList.memberAgenda members
      ++ [.leaveStruct, .bindStruct ⟨mark, name, members⟩, .leave (.struct ⟨mark, name, members⟩)]

/-- What is done for the struct definitions in the types of members. -/
def DeclList.memberAgenda : List DeclList → List Action
  | [] => []
  | ⟨_, type, _, _⟩ :: rest => type.agenda ++ DeclList.memberAgenda rest
end

def Declarator.agenda (list : DeclList) (d : Declarator) : List Action :=
  .typeName d :: d.init.toList.flatMap Expr.agenda ++ [.bindName list d, .leave (.declarator d)]

def DeclList.agenda (span : Span) (list : DeclList) : List Action :=
  list.type.agenda ++ .typeList span list :: list.names.flatMap (Declarator.agenda list)

/-- The nodes at which a block binds names: its own if it has an instance, or else its members. -/
def BlockDecl.binders (mark : Mark) (b : BlockDecl) : List NodeId :=
  match b.instanceName with
  | some _ => [mark.id]
  | none => (DeclList.declarators b.members).map (·.mark.id)

def BlockDecl.agenda (mark : Mark) (b : BlockDecl) : List Action :=
  DeclList.memberAgenda b.members ++ [.bindBlock mark b]

def Parameter.agenda (p : Parameter) : List Action :=
  p.type.agenda ++ [.bindParameter p, .leave (.parameter p)]

/-- What is done for the types and parameters of a prototype. -/
def Prototype.signatureAgenda (p : Prototype) : List Action :=
  p.returns.agenda ++ p.params.flatMap Parameter.agenda ++ [.saveFunction p]

mutual
def Stmt.agenda : Stmt → List Action
  | .compound m true body =>
    m.region.enclose (Stmt.agendas body) ++ [.leave (.stmt (.compound m true body))]
  | .compound m false body => Stmt.agendas body ++ [.leave (.stmt (.compound m false body))]
  | .declare m list => list.agenda m.span ++ [.leave (.stmt (.declare m list))]
  | .block m b => b.agenda m ++ [.leave (.stmt (.block m b))]
  | .expr m e => e.toList.flatMap Expr.agenda ++ [.leave (.stmt (.expr m e))]
  | .ifElse m test onTrue none =>
    test.agenda ++ m.region.enclose onTrue.agenda
      ++ [.leave (.stmt (.ifElse m test onTrue none))]
  | .ifElse m test onTrue (some onFalse) =>
    test.agenda ++ m.region.enclose onTrue.agenda ++ m.elseRegion.enclose onFalse.agenda
      ++ [.leave (.stmt (.ifElse m test onTrue (some onFalse)))]
  | .switch m test body =>
    test.agenda ++ m.region.enclose body.agenda ++ [.leave (.stmt (.switch m test body))]
  | .loop m mode init test step body =>
    m.region.encloseIf mode.hasScope
        (Stmt.optionAgenda init ++ test.toList.flatMap Expr.agenda ++ body.agenda
          ++ step.toList.flatMap Expr.agenda)
      ++ [.leave (.stmt (.loop m mode init test step body))]
  | .jump m j => j.value?.toList.flatMap Expr.agenda ++ [.leave (.stmt (.jump m j))]

def Stmt.agendas : List Stmt → List Action
  | [] => []
  | s :: ss => s.agenda ++ Stmt.agendas ss

def Stmt.optionAgenda : Option Stmt → List Action
  | none => []
  | some s => s.agenda

def SwitchBody.agenda : SwitchBody → List Action
  | ⟨m, cases⟩ => Case.agendas cases ++ [.leave (.switchBody ⟨m, cases⟩)]

def Case.agenda : Case → List Action
  | ⟨m, labels, body⟩ =>
    (labels.filterMap Label.value?).flatMap Expr.agenda ++ Stmt.agendas body
      ++ [.leave (.case ⟨m, labels, body⟩)]

def Case.agendas : List Case → List Action
  | [] => []
  | c :: cs => c.agenda ++ Case.agendas cs
end

def Prototype.agenda (p : Prototype) : List Action :=
  p.mark.region.enclose p.signatureAgenda ++ [.leave (.prototype p)]

def FunctionDef.agenda (f : FunctionDef) : List Action :=
  f.mark.region.enclose (f.prototype.signatureAgenda ++ f.body.agenda) ++ [.leave (.function f)]

def InputLayout.agenda (l : InputLayout) : List Action :=
  [.applyLayout l, .leave (.layout l)]

def TopLevel.agenda : TopLevel → List Action
  | .declaration s => s.agenda
  | .prototype p => p.agenda
  | .function f => f.agenda
  | .layout l => l.agenda

def SourceUnit.agenda (unit : SourceUnit) : List Action :=
  unit.flatMap TopLevel.agenda

end ShaderAnalysis
