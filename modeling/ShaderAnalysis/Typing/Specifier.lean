import ShaderAnalysis.Typing.Dimensions
import ShaderAnalysis.Context

/-!
The types that specifiers name. A builtin name wins over a declared one; a struct definition has the
type that was found for it when it was visited.
-/

namespace ShaderAnalysis

/-- The type that a specifier names before its dimensions. -/
def TypeHead.resolve (ctx : Context) (span : Span) : TypeHead → Reported Ty
  | .named name =>
    match (Ty.ofName? name).or (ctx.scopes.findType? name) with
    | some ty => pure ty
    | none => Reported.reject span (.unknownType name)
  | .struct s => pure (ctx.typeOf s.mark.id)

/-- The type of a specifier, with the dimensions written on it. -/
def TypeSpec.resolve (o : Options) (ctx : Context) (t : TypeSpec) (span : Span) : Reported Ty := do
  let base ← t.head.resolve ctx span
  base.withDimensions o t.dimList span

end ShaderAnalysis
