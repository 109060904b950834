import ShaderAnalysis.Typing.Expression
import ShaderAnalysis.Traversal.Node

/-!
The analysis of expressions: after the parts of an expression, its identifier is resolved or its
selection classified, it is typed, and constant indices are checked. An identifier is resolved once
for each node, and each resolution makes a reflection entry.
-/

namespace ShaderAnalysis

namespace Update

/-- Notes the effects of a node that has been visited. -/
def leave (n : Node) : Update Unit :=
  modify fun ctx => { ctx with annotations := ctx.annotations.noteEffects n }

end Update

/-- The number of places that an index of a type has, if it is known. -/
def Ty.indexBound? : Ty → Option Nat
  | .array _ n => n
  | .vector _ n => some n
  | .matrix _ c _ => some c
  | _ => none

namespace Analysis

/-- Resolves an identifier in the open scopes, unless its node has been resolved before. -/
def resolveIdentifier (o : Options) (mark : Mark) (name : String) : AnalysisM Unit := do
  let ctx ← get
  if (ctx.annotations.ofNode mark.id).var.isNone then
    match ctx.visible? name with
    | none => throw (.undefinedVariable name mark.span)
    | some (id, v) =>
      let entry ← Update.reflect fun r => r.describe v o.stage
      Update.annotate mark.id fun a =>
        { a with var := some id, reflection := a.reflection.or (some entry) }

/-- Finds out what a selection is. On a base of the error type it is nothing in particular. -/
def classifySelection (o : Options) (mark : Mark) (base : Expr) (name : String) (withArgs : Bool) :
    AnalysisM Unit := do
  let ty := (← get).typeOf base.id
  if !ty.isError then
    match SelectionKind.classify ty withArgs o.relaxedScalarSwizzle with
    | some kind => Update.annotate mark.id fun a => { a with selection := some kind }
    | none => throw (.unclassifiedSelection name ty mark.span)

/-- Notes whether a call means a builtin function. -/
def classifyCall (env : Env) (mark : Mark) (name : String) (args : List Expr) : Update Unit := do
  let ctx ← get
  let builtin := env.isBuiltinCall ctx name (args.map (ctx.typeOf ·.id))
  Update.annotate mark.id fun a => { a with builtin := some builtin }

/-- Checks a constant index into a type. A negative one is reported where it stands, and one that is
too large where the whole access stands. -/
def checkIndex (access place : Span) (base : Ty) (k : Int) : Reported Unit :=
  if k < 0 then Reported.report place (.negativeIndex k)
  else if base.indexBound?.any (· ≤ k.toNat) then
    Reported.report access (.indexOutOfBounds k.toNat base)
  else pure ()

/-- Counts an access to the variable that an expression names, if it is an identifier. -/
def raiseAccess (k : Nat) : Expr → Update Unit
  | .ident mark _ => do
    match ((← get).annotations.ofNode mark.id).var with
    | some id => Update.modifyVariable id fun v => { v with maxAccess := max v.maxAccess k }
    | none => pure ()
  | _ => pure ()

/-- Checks a constant index against its base. One that is not negative counts as an access to the
variable that the base names, also where it is too large. -/
def recordAccess (mark : Mark) (base place : Expr) : Update Unit := do
  match place.intConstant? with
  | none => pure ()
  | some k =>
    Update.noting (checkIndex mark.span place.span ((← get).typeOf base.id) k)
    if 0 ≤ k then raiseAccess k.toNat base

/-- What has to be known of an expression before it is typed. -/
def prepare (env : Env) : Expr → AnalysisM Unit
  | .ident m name => resolveIdentifier env.options m name
  | .field m base name => classifySelection env.options m base name false
  | .method m base name _ => classifySelection env.options m base name true
  | .call m name args => classifyCall env m name args
  | .construct m _ _ => Update.annotate m.id fun a => { a with builtin := some true }
  | _ => pure ()

/-- Finishes an expression whose parts have been visited. -/
def finishExpr (env : Env) (e : Expr) : AnalysisM Unit := do
  prepare env e
  let ty ← Update.noting (e.typeOf env (← get))
  Update.annotate e.id fun a => { a with ty := some ty }
  if let .index m base place := e then
    recordAccess m base place
  Update.leave (.expr e)

mutual
/-- Visits an expression. -/
def visitExpr (env : Env) : Expr → AnalysisM Unit
  | .ident m n => finishExpr env (.ident m n)
  | .int m v => finishExpr env (.int m v)
  | .uint m v => finishExpr env (.uint m v)
  | .float m v => finishExpr env (.float m v)
  | .bool m v => finishExpr env (.bool m v)
  | .unary m o a => do
    visitExpr env a
    finishExpr env (.unary m o a)
  | .binary m o a b => do
    visitExpr env a
    visitExpr env b
    finishExpr env (.binary m o a b)
  | .assign m o a b => do
    visitExpr env a
    visitExpr env b
    finishExpr env (.assign m o a b)
  | .cond m a b c => do
    visitExpr env a
    visitExpr env b
    visitExpr env c
    finishExpr env (.cond m a b c)
  | .index m a b => do
    visitExpr env a
    visitExpr env b
    finishExpr env (.index m a b)
  | .field m a n => do
    visitExpr env a
    finishExpr env (.field m a n)
  | .method m a n as => do
    visitExpr env a
    visitExprs env as
    finishExpr env (.method m a n as)
  | .call m n as => do
    visitExprs env as
    finishExpr env (.call m n as)
  | .construct m t as => do
    visitExprs env as
    finishExpr env (.construct m t as)
  | .seq m es => do
    visitExprs env es
    finishExpr env (.seq m es)
  | .aggregate m es => do
    visitExprs env es
    finishExpr env (.aggregate m es)

/-- Visits expressions in order. -/
def visitExprs (env : Env) : List Expr → AnalysisM Unit
  | [] => pure ()
  | e :: es => do
    visitExpr env e
    visitExprs env es
end

/-- An expression is visited after its parts, whatever it is. -/
theorem visitExpr_eq (env : Env) (e : Expr) :
    visitExpr env e = (do visitExprs env e.parts; finishExpr env e) := by
  cases e <;> simp [visitExpr, visitExprs, Expr.parts]

/-- Visits an expression that may be missing. -/
def visitExpr? (env : Env) : Option Expr → AnalysisM Unit
  | some e => visitExpr env e
  | none => pure ()

end Analysis

end ShaderAnalysis
