import ShaderAnalysis.Typing.Layout

/-!
What the qualifiers of a declaration make of its variable: where it lives, how it is interpolated,
and what may be done with it.
-/

namespace ShaderAnalysis

namespace Qualifiers

/-- Where a parameter lives. -/
def parameterStorage (q : Qualifiers) : Storage :=
  if q.inout then .paramInout
  else if q.output then .paramOut
  else if q.const then .paramConst
  else .paramIn

/-- Where a variable lives that is no parameter. A storage that the stage does not have is
reported. -/
def variableStorage (o : Options) (q : Qualifiers) (span : Span) : Reported Storage :=
  if q.attrib then do
    if o.stage ≠ .vertex then Reported.report span (.attributeStage o.stage)
    return .shaderIn
  else if q.varying then
    match o.stage with
    | .vertex => pure .shaderOut
    | .fragment => pure .shaderIn
    | stage => do
      Reported.report span (.varyingStage stage)
      return .auto
  else if q.uniform then pure .uniform
  else if q.inout then do
    Reported.report span .inoutVariable
    return .auto
  else if q.input then pure .shaderIn
  else if q.output then pure .shaderOut
  else pure .auto

/-- Where a declared name lives. -/
def storage (o : Options) (q : Qualifiers) (isParameter : Bool) (span : Span) : Reported Storage :=
  if isParameter then pure q.parameterStorage else q.variableStorage o span

end Qualifiers

/-- A variable with the qualifiers of its declaration. -/
def Variable.qualify (o : Options) (q : Qualifiers) (invariant isParameter : Bool) (v : Variable) :
    Reported Variable := do
  let storage ← q.storage o isParameter v.span
  let interpolation ← q.checkedInterpolation o storage v.span
  return { v with
    storage := storage
    interpolation := interpolation
    invariant := invariant || q.invariant
    constant := v.constant || q.const
    readOnly := v.readOnly || q.const
    centroid := q.centroid
    sample := q.sample
    location := q.location }

end ShaderAnalysis
