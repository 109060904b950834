import ShaderAnalysis.Proofs.FatalConditions

/-!
Typing as a function of expressions: `Expr.judge` takes names, functions and the types of
initializers from a state, and all other types from what it finds for the parts of an expression.
The analysis does not work that way. It reads what was noted for the parts in a state that every
node changes; here is what either side reads, and what no node changes.
-/

namespace ShaderAnalysis

open Analysis

/-! ### Typing as a function -/

/-- What typing finds out about an expression: its type, what it selects if it is a selection, and
whether it means something builtin if it is a call. -/
structure Finding where
  ty : Ty
  selection : Option SelectionKind := none
  builtin : Option Bool := none

/-- What is found for a selection on a type. -/
def Finding.ofSelection (o : Options) (m : Mark) (base : Ty) (name : String) (withArgs : Bool) :
    Except Fatal Finding :=
  if base.isError then .ok { ty := .error }
  else
    match SelectionKind.classify base withArgs o.relaxedScalarSwizzle with
    | some kind => .ok { ty := (kind.typeOf base name m.span).value, selection := some kind }
    | none => .error (.unclassifiedSelection name base m.span)

mutual
/-- The typing of an expression in a state, by recursion on the expression. A name without a
variable and a selection that reads as nothing are fatal. -/
def Expr.judge (env : Env) (s : Context) : Expr → Except Fatal Finding
  | .ident m name =>
    match s.visible? name with
    | some (_, v) => .ok { ty := v.ty }
    | none => .error (.undefinedVariable name m.span)
  | .int .. => .ok { ty := .scalar .int }
  | .uint .. => .ok { ty := .scalar .uint }
  | .float .. => .ok { ty := .scalar .float }
  | .bool .. => .ok { ty := .scalar .bool }
  | .unary _ op a => do
    let operand ← a.judge env s
    return { ty := if op = .logicalNot then .scalar .bool else operand.ty }
  | .binary _ op a b => do
    let left ← a.judge env s
    let right ← b.judge env s
    return { ty := op.typeOf left.ty right.ty }
  | .assign _ _ a b => do
    let target ← a.judge env s
    let _ ← b.judge env s
    return { ty := target.ty }
  | .cond _ a b c => do
    let _ ← a.judge env s
    let onTrue ← b.judge env s
    let _ ← c.judge env s
    return { ty := onTrue.ty }
  | .index _ a b => do
    let base ← a.judge env s
    let _ ← b.judge env s
    return { ty := base.ty.indexed }
  | .field m a name => do
    let base ← a.judge env s
    Finding.ofSelection env.options m base.ty name false
  | .method m a name args => do
    let base ← a.judge env s
    let _ ← Expr.judges env s args
    Finding.ofSelection env.options m base.ty name true
  | .call m name args => do
    let types := (← Expr.judges env s args).map (·.ty)
    return { ty := (env.typeOfCall s name types m.span).value
             builtin := some (env.isBuiltinCall s name types) }
  | .construct m type args => do
    let _ ← Expr.judges env s args
    return { ty := (type.resolve env.options s m.span).value.sizedTo args.length
             builtin := some true }
  | .seq _ es => do
    let elements ← Expr.judges env s es
    return { ty := elements.getLast?.elim .error (·.ty) }
  | .aggregate m es => do
    let _ ← Expr.judges env s es
    return { ty := (s.annotations.ofNode m.id).aggregate.getD .error }

/-- The typing of expressions in order, up to the first that is fatal. -/
def Expr.judges (env : Env) (s : Context) : List Expr → Except Fatal (List Finding)
  | [] => .ok []
  | e :: es => do
    let first ← e.judge env s
    let rest ← Expr.judges env s es
    return first :: rest
end

/-- The typing of an expression fails as that of its parts does. -/
theorem Expr.judge_parts (env : Env) (s : Context) (e : Expr) :
    (do let _ ← Expr.judges env s e.parts; e.judge env s) = e.judge env s := by
  cases e with
  | ident | int | uint | float | bool => rfl
  | unary m op a | field m a name =>
    simp only [parts, judges, judge]
    cases a.judge env s <;> rfl
  | binary m op a b | assign m op a b | index m a b =>
    simp only [parts, judges, judge]
    cases a.judge env s <;> cases b.judge env s <;> rfl
  | cond m a b c =>
    simp only [parts, judges, judge]
    cases a.judge env s <;> cases b.judge env s <;> cases c.judge env s <;> rfl
  | method m a name args =>
    simp only [parts, judges, judge]
    cases a.judge env s <;> cases judges env s args <;> rfl
  | call m name es | construct m type es | seq m es | aggregate m es =>
    simp only [parts, judge]
    cases judges env s es <;> rfl

/-! ### Findings at nodes -/

/-- A finding is noted at a node. -/
structure Finding.NotedAt (f : Finding) (ctx : Context) (id : NodeId) : Prop where
  ty : (ctx.annotations.ofNode id).ty = some f.ty
  selection : (ctx.annotations.ofNode id).selection = f.selection
  builtin : (ctx.annotations.ofNode id).builtin = f.builtin

/-- Nothing is noted at a node, unless a type that a declaration gives to an initializer. -/
def Context.Unannotated (s : Context) (id : NodeId) : Prop :=
  s.annotations.ofNode id = { aggregate := (s.annotations.ofNode id).aggregate }

/-! ### Outcomes -/

/-- A step ends as a computation does: with the same fatal condition, or else in a state that suits
its value. -/
def EndsAs {α : Type} (r : Except Fatal α) (good : α → Context → Prop) :
    EStateM.Result Fatal Context Unit → Prop
  | .ok _ after => ∃ a, r = .ok a ∧ good a after
  | .error fatal _ => r = .error fatal

namespace EndsAs

variable {α β : Type} {r : Except Fatal α} {good : α → Context → Prop} {m k : AnalysisM Unit}
  {ctx : Context}

theorem bind {f : α → Except Fatal β} {good' : β → Context → Prop} (first : EndsAs r good (m ctx))
    (rest : ∀ a between, good a between → EndsAs (f a) good' (k between)) :
    EndsAs (r >>= f) good' ((do m; k) ctx) := by
  cases outcome : m ctx with
  | ok u between =>
    rw [outcome] at first
    obtain ⟨a, rfl, suits⟩ := first
    rw [AnalysisM.run_bind_of_ok outcome]
    exact rest a between suits
  | error fatal failed =>
    rw [outcome] at first
    rw [AnalysisM.run_bind_of_error outcome, show r = .error fatal from first]
    rfl

theorem map {f : α → β} {good' : β → Context → Prop} {outcome : EStateM.Result Fatal Context Unit}
    (h : EndsAs r good outcome) (suits : ∀ a after, good a after → good' (f a) after) :
    EndsAs (do return f (← r)) good' outcome := by
  cases outcome with
  | ok u after =>
    obtain ⟨a, rfl, given⟩ := h
    exact ⟨f a, rfl, suits a after given⟩
  | error fatal failed =>
    rw [show r = .error fatal from h]
    rfl

theorem ok_iff (h : EndsAs r good (m ctx)) : (∃ a, r = .ok a) ↔ ∃ after, m ctx = .ok () after := by
  cases outcome : m ctx with
  | ok u after =>
    rw [outcome] at h
    obtain ⟨a, same, _⟩ := h
    exact ⟨fun _ => ⟨after, rfl⟩, fun _ => ⟨a, same⟩⟩
  | error fatal failed =>
    rw [outcome] at h
    have same : r = .error fatal := h
    simp [same]

theorem error_iff (h : EndsAs r good (m ctx)) (fatal : Fatal) :
    r = .error fatal ↔ ∃ failed, m ctx = .error fatal failed := by
  cases outcome : m ctx with
  | ok u after =>
    rw [outcome] at h
    obtain ⟨a, same, _⟩ := h
    simp [same]
  | error fatal' failed =>
    rw [outcome] at h
    have same : r = .error fatal' := h
    simp [same]

end EndsAs

/-! ### What no node of an expression changes -/

/-- What typing reads of a state besides notes at nodes is what it was in another. -/
structure Context.ReadsAs (s ctx : Context) : Prop where
  scopes : ctx.scopes = s.scopes
  functions : ctx.functions = s.functions
  vars : ∀ id, (ctx.vars.get? id).map (·.ty) = (s.vars.get? id).map (·.ty)

/-- A thing that typing does not read, or a slot of a node. -/
def Touch.AtNode : Touch → Prop
  | .diagnostics | .reflection | .access | .slot .. => True
  | _ => False

theorem Changes.readsAs {ts : List Touch} {s ctx : Context} (h : Changes ts s ctx)
    (atNodes : ∀ t ∈ ts, t.AtNode) : s.ReadsAs ctx := by
  constructor
  · refine h.same (·.scopes) fun c mem _ => ?_
    cases c with
    | bindVariable | bindType | openScope | closeScope => exact absurd (atNodes _ mem) id
    | _ => rfl
  · refine h.same (·.functions) fun c mem _ => ?_
    cases c with
    | addFunction => exact absurd (atNodes _ mem) id
    | _ => rfl
  · intro i
    refine h.same (fun ctx => (ctx.vars.get? i).map (·.ty)) fun c mem ctx => ?_
    cases c with
    | allocate | alter => exact absurd (atNodes _ mem) id
    | access j k =>
      rw [Change.apply, Variables.get?_modify]
      split
      · rename_i same
        subst same
        rw [Option.map_map]
        rfl
      · rfl
    | _ => rfl

namespace Expr

/-- What visiting single expressions touches, without their parts. -/
def footprint (es : List Expr) : List Touch :=
  (es.flatMap own).flatMap Action.touches

theorem footprint_append (es fs : List Expr) :
    footprint (es ++ fs) = footprint es ++ footprint fs := by
  simp [footprint]

theorem atNode_of_mem_footprint {es : List Expr} {t : Touch} (mem : t ∈ footprint es) :
    t.AtNode := by
  rw [footprint, List.flatMap_assoc] at mem
  obtain ⟨e, _, touched⟩ := List.mem_flatMap.mp mem
  have all : ∀ u ∈ e.own.flatMap Action.touches, u.AtNode := by
    cases e <;> simp [own, Action.touches, touches, Touch.AtNode]
  exact all t touched

/-- Of the slots of nodes, only those of the expressions are touched, and not the type that a
declaration gives to an initializer. -/
theorem slot_of_mem_footprint {es : List Expr} {id : NodeId} {n : SlotName}
    (mem : .slot id n ∈ footprint es) : id ∈ es.map Expr.id ∧ n ≠ .aggregate := by
  rw [footprint, List.flatMap_assoc] at mem
  obtain ⟨e, inside, touched⟩ := List.mem_flatMap.mp mem
  have here : e.id = id ∧ n ≠ .aggregate := by
    cases e <;>
      simp [own, Action.touches, touches, Node.id, Node.mark, Expr.id, Expr.mark] at touched ⊢ <;>
        grind
  exact ⟨List.mem_map.mpr ⟨e, inside, here.1⟩, here.2⟩

end Expr

end ShaderAnalysis
