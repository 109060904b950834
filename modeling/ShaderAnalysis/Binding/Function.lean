import ShaderAnalysis.Binding.Declarator

/-!
Binding parameters and function signatures. A parameter's type is noted even where no variable is
bound, so that the signature is known to calls; a parameter of type `void` stands for none.
-/

namespace ShaderAnalysis

namespace Parameter

/-- The type of a parameter, with its own dimensions. -/
def declaredType (o : Options) (ctx : Context) (p : Parameter) : Reported Ty := do
  let base ← p.type.resolve o ctx p.mark.span
  let ty ← base.withDimensions o p.dimList p.mark.span
  if ty.isUnsizedArray then Reported.reject p.mark.span .unsizedParameter else return ty

/-- The variable of a named parameter. -/
def toVariable (o : Options) (p : Parameter) (name : String) (ty : Ty) : Reported Variable := do
  let q := p.qualifiers
  let fresh : Variable := { name := name, ty := ty, storage := .paramIn, span := p.mark.span }
  let v ← fresh.qualify o q false true
  if q.uniform || q.attrib || q.varying then
    Reported.report p.mark.span (.parameterStorage name)
  return v

/-- The variable of a parameter is what its qualifiers make of it, whatever is reported. -/
theorem value_toVariable (o : Options) (p : Parameter) (name : String) (ty : Ty) :
    (p.toVariable o name ty).value =
      { name := name
        ty := ty
        storage := p.qualifiers.parameterStorage
        span := p.mark.span
        interpolation := p.qualifiers.interpolation
        readOnly := p.qualifiers.const
        constant := p.qualifiers.const
        invariant := p.qualifiers.invariant
        centroid := p.qualifiers.centroid
        sample := p.qualifiers.sample
        location := p.qualifiers.location } := by
  simp only [toVariable, Reported.value_bind]
  split <;> simp [Variable.qualify, Qualifiers.storage, Qualifiers.checkedInterpolation]

/-- Binds a parameter in the innermost scope. -/
def bind (o : Options) (p : Parameter) : Update (Option VarId) := do
  let ty ← Update.noting (p.declaredType o (← get))
  Update.annotate p.mark.id fun a => { a with ty := some ty }
  if ty.isVoid then
    return none
  else
    match p.name with
    | none =>
      if !p.formal then Update.report p.mark.span .unnamedParameter
      return none
    | some name =>
      Update.reflectDeclared p.mark.id name (.ofParameter p.qualifiers)
        (.ofQualifiers p.qualifiers false) ty
      let v ← Update.noting (p.toVariable o name ty)
      let _ ← Update.noting (checkName name p.mark.span)
      return some (← Update.declare v p.mark.id)

end Parameter

namespace Prototype

/-- The types of the parameters that have been bound. -/
def paramTypes (ctx : Context) (p : Prototype) : List Ty :=
  (p.params.filterMap fun q => (ctx.annotations.ofNode q.mark.id).ty).filter fun ty => !ty.isVoid

/-- Makes a function known to calls. Its parameters have been bound. -/
def save (o : Options) (p : Prototype) : Update Unit := do
  let returns ← Update.noting (p.returns.resolve o (← get) p.mark.span)
  let params := p.paramTypes (← get)
  Update.annotate p.mark.id fun a => { a with ty := some returns }
  modify fun ctx =>
    let s : Signature := { name := p.name, params := params, returns := returns }
    { ctx with functions := ctx.functions.declare s }

end Prototype

end ShaderAnalysis
