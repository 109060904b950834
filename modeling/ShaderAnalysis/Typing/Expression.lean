import ShaderAnalysis.Typing.Specifier
import ShaderAnalysis.Ty.Swizzle

/-!
The types of expressions, from those of the expressions directly inside them. What cannot be typed
is reported once and has the error type, which goes through everything above it in silence.
-/

namespace ShaderAnalysis

namespace SelectionKind

/-- How a selection on a type reads, if it does: on a record it is a member, with arguments it is a
method, and otherwise a swizzle of a vector, or of a scalar where the language has that. -/
def classify (base : Ty) (withArgs relaxedScalars : Bool) : Option SelectionKind :=
  if base.isRecord then some .member
  else if withArgs then some .method
  else if base.isVector || (relaxedScalars && base.isScalar) then some .swizzle
  else none

/-- The type of a selection. -/
def typeOf (base : Ty) (name : String) (span : Span) : SelectionKind → Reported Ty
  | .member =>
    match base.record?.bind (·.field? name) with
    | some f => pure f.ty
    | none => Reported.reject span (.noSuchField base name)
  | .method =>
    if name = "length" && (base.isArray || base.isVector || base.isMatrix) then
      pure (.scalar .int)
    else
      Reported.reject span (.unknownMethod base name)
  | .swizzle =>
    match Swizzle.select? base name with
    | some ty => pure ty
    | none => Reported.reject span (.invalidSwizzle base name)

end SelectionKind

/-- The type of an element of an array, a component of a vector or a column of a matrix. -/
def Ty.indexed : Ty → Ty
  | .array e _ => e
  | .vector k _ => .scalar k
  | .matrix k _ r => .vector k r
  | _ => .error

/-- The type of an operation on two operands. -/
def BinaryOp.typeOf (op : BinaryOp) (l r : Ty) : Ty :=
  if l.isError || r.isError then .error
  else if op.isComparison || op.isLogical then .scalar .bool
  else
    match op, l.product? r with
    | .mul, some ty => ty
    | _, _ => l.elementwise r

/-- The type of a call: that of a declared function if one matches, else that of a builtin one. -/
def Env.typeOfCall (env : Env) (ctx : Context) (name : String) (args : List Ty) (span : Span) :
    Reported Ty :=
  if args.any Ty.isError then pure .error
  else
    match ctx.functions.find? name args with
    | some s => pure s.returns
    | none =>
      match env.builtins name args with
      | some ty => pure ty
      | none => Reported.reject span (.unknownFunction name args)

/-- Whether a call means a builtin function. -/
def Env.isBuiltinCall (env : Env) (ctx : Context) (name : String) (args : List Ty) : Bool :=
  (ctx.functions.find? name args).isNone && (env.builtins name args).isSome

namespace Expr

/-- The type of a selection that may not have been classified. -/
def typeOfSelection (ctx : Context) (mark : Mark) (base : Expr) (name : String) : Reported Ty :=
  match (ctx.annotations.ofNode mark.id).selection with
  | some kind => kind.typeOf (ctx.typeOf base.id) name mark.span
  | none => pure .error

/-- The type of an expression whose parts have been typed. -/
def typeOf (env : Env) (ctx : Context) : Expr → Reported Ty
  | .ident m _ => pure ((ctx.variableOf? m.id).elim .error (·.ty))
  | .int .. => pure (.scalar .int)
  | .uint .. => pure (.scalar .uint)
  | .float .. => pure (.scalar .float)
  | .bool .. => pure (.scalar .bool)
  | .unary _ .logicalNot _ => pure (.scalar .bool)
  | .unary _ _ a => pure (ctx.typeOf a.id)
  | .binary _ op l r => pure (op.typeOf (ctx.typeOf l.id) (ctx.typeOf r.id))
  | .assign _ _ target _ => pure (ctx.typeOf target.id)
  | .cond _ _ onTrue _ => pure (ctx.typeOf onTrue.id)
  | .index _ base _ => pure (ctx.typeOf base.id).indexed
  | .field m base name => typeOfSelection ctx m base name
  | .method m base name _ => typeOfSelection ctx m base name
  | .call m name args => env.typeOfCall ctx name (args.map (ctx.typeOf ·.id)) m.span
  | .construct m type args => do
    let ty ← type.resolve env.options ctx m.span
    return ty.sizedTo args.length
  | .seq _ es => pure (es.getLast?.elim .error (ctx.typeOf ·.id))
  | .aggregate m _ => pure ((ctx.annotations.ofNode m.id).aggregate.getD .error)

end Expr

end ShaderAnalysis
