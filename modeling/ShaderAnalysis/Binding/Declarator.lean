import ShaderAnalysis.Binding.Qualify
import ShaderAnalysis.Binding.GeometryInput

/-!
Binding declared names. Each declarator gets a reflection entry first, whatever becomes of it; then
a variable, unless its type is `void` or did not resolve. A name may be declared again in one scope
to give an unsized array its size, or, at global scope, to change the qualifiers of some builtin
variables. Any other second declaration is reported, and the first binding stays.
-/

namespace ShaderAnalysis

/-! ### Redeclaration -/

/-- What declaring a name again does to the variable that has it. -/
inductive Redeclaration where
  /-- The name is new, or may not be declared again. -/
  | unrelated
  /-- An unsized array gets its size. -/
  | sizes
  /-- An unsized array would get a size below an access already made. -/
  | tooShort (length maxAccess : Nat)
  /-- A builtin variable gets other qualifiers. -/
  | requalifies
deriving DecidableEq

namespace Variable

/-- What declaring a variable again in its scope does to it. -/
def redeclaredBy (earlier v : Variable) (atGlobal : Bool) : Redeclaration :=
  match earlier.ty, v.ty with
  | .array e none, .array e' (some n) =>
    if e = e' then
      if n ≤ earlier.maxAccess then .tooShort n earlier.maxAccess else .sizes
    else .unrelated
  | _, _ =>
    if earlier.builtin && atGlobal && Builtin.redeclarable.contains v.name then .requalifies
    else .unrelated

/-- A builtin variable with what a later declaration of it adds. -/
def requalify (earlier v : Variable) : Variable :=
  { earlier with
    interpolation := if v.interpolation = .auto then earlier.interpolation else v.interpolation
    invariant := earlier.invariant || v.invariant
    centroid := earlier.centroid || v.centroid
    sample := earlier.sample || v.sample }

end Variable

namespace Update

/-- The earlier variable of the innermost scope that a variable declares again, after the changes
that this makes to it. -/
def redeclare (v : Variable) : Update (Option VarId) := do
  let ctx ← get
  let some id := ctx.scopes.findLocal? v.name | return none
  let some earlier := ctx.vars.get? id | return none
  match earlier.redeclaredBy v ctx.scopes.isGlobal with
  | .unrelated => return none
  | .sizes =>
    modifyVariable id fun earlier => { earlier with ty := v.ty }
    return some id
  | .tooShort length maxAccess =>
    report v.span (.redeclaredTooShort length v.name maxAccess)
    return some id
  | .requalifies =>
    modifyVariable id fun earlier => earlier.requalify v
    return some id

/-! ### Declaration -/

/-- Puts a variable into the store, and into the list of inputs if it is one. -/
def allocate (v : Variable) : Update VarId :=
  modifyGet fun ctx =>
    let id := ctx.vars.nextId
    (id, { ctx with
      vars := ctx.vars.push v
      inputs := if v.storage = Storage.shaderIn then ctx.inputs ++ [id] else ctx.inputs })

/-- Makes a variable, binds its name in the innermost scope and links it to a node. If the name is
taken, the variable is made all the same and the earlier binding stays. -/
def declare (v : Variable) (node : NodeId) : Update VarId := do
  let id ← allocate v
  match (← get).scopes.declareVariable? v.name id with
  | some scopes => modify fun ctx => { ctx with scopes := scopes }
  | none => report v.span (.nameTaken v.name)
  annotate node fun a => { a with var := some id }
  return id

/-- Makes the reflection entry of a declared name and links it to a node. -/
def reflectDeclared (node : NodeId) (name : String) (role : Role) (m : Modifier) (ty : Ty) :
    Update Unit := do
  let id ← reflect fun r => r.declare name role m ty
  annotate node fun a => { a with reflection := some id }

end Update

/-- The type of a declarator: an unsized array takes the length of its initializer, if that is an
array of the same elements. -/
def Declarator.sizedByInit (ctx : Context) (d : Declarator) (ty : Ty) : Ty :=
  match ty, d.init with
  | .array e none, some init =>
    let a := ctx.annotations.ofNode init.id
    match a.aggregate.or a.ty with
    | some (.array e' (some n)) => if e' = e then .array e (some n) else ty
    | _ => ty
  | _, _ => ty

/-- The variable of a declarator, with its qualifiers and, if it is a geometry input, its size. -/
def Declarator.toVariable (o : Options) (ctx : Context) (q : Qualifiers) (invariant : Bool)
    (ty : Ty) (d : Declarator) : Reported Variable := do
  let fresh : Variable := { name := d.name, ty := ty, storage := .auto, span := d.mark.span }
  let v ← fresh.qualify o q invariant false
  if q.hasMatrixLayout then Reported.report d.mark.span .matrixLayoutOutsideBlock
  if v.storage = .shaderIn then
    let input := { v with readOnly := true }
    if o.isGeometry then input.sizeAsGeometryInput ctx.inputVertices? else return input
  else
    return v

/-- What the qualifiers of its declaration make of a declarator. An input may only be read. -/
def Declarator.qualified (o : Options) (q : Qualifiers) (invariant : Bool) (ty : Ty)
    (d : Declarator) : Variable :=
  { name := d.name
    ty := ty
    storage := (q.storage o false d.mark.span).value
    span := d.mark.span
    interpolation := q.interpolation
    readOnly := q.const || (q.storage o false d.mark.span).value = .shaderIn
    constant := q.const
    invariant := invariant || q.invariant
    centroid := q.centroid
    sample := q.sample
    location := q.location }

/-- The variable of a declarator, apart from what is reported about it. -/
theorem Declarator.toVariable_eq (o : Options) (ctx : Context) (q : Qualifiers) (invariant : Bool)
    (ty : Ty) (d : Declarator) :
    (d.toVariable o ctx q invariant ty).value =
      if (d.qualified o q invariant ty).storage = .shaderIn ∧ o.isGeometry then
        ((d.qualified o q invariant ty).sizeAsGeometryInput ctx.inputVertices?).value
      else d.qualified o q invariant ty := by
  by_cases input : (q.storage o false d.mark.span).value = .shaderIn <;>
    by_cases geometry : o.isGeometry = true <;> cases matrix : q.hasMatrixLayout <;>
    simp [toVariable, Variable.qualify, qualified, Qualifiers.checkedInterpolation, input, geometry,
      matrix]

/-- All but the type is what the qualifiers make of it. -/
theorem Declarator.value_toVariable (o : Options) (ctx : Context) (q : Qualifiers)
    (invariant : Bool) (ty : Ty) (d : Declarator) :
    (d.toVariable o ctx q invariant ty).value =
      { d.qualified o q invariant ty with
        ty := (d.toVariable o ctx q invariant ty).value.ty } := by
  rw [toVariable_eq]
  split
  · exact Variable.value_sizeAsGeometryInput _ _
  · rfl

/-- Binds one name of a declaration. The type has the name's own dimensions already. -/
def Declarator.bind (o : Options) (q : Qualifiers) (invariant : Bool) (d : Declarator) (ty : Ty) :
    Update (Option VarId) := do
  let ty := d.sizedByInit (← get) ty
  Update.reflectDeclared d.mark.id d.name (.ofQualifiers q o.stage) (.ofQualifiers q invariant) ty
  if ty.isVoid then
    Update.report d.mark.span (.voidVariable d.name)
    return none
  else if ty.isError then
    return none
  else
    let v ← Update.noting (d.toVariable o (← get) q invariant ty)
    match ← Update.redeclare v with
    | some id =>
      Update.annotate d.mark.id fun a => { a with var := some id }
      return some id
    | none =>
      let _ ← Update.noting (checkName d.name d.mark.span)
      return some (← Update.declare v d.mark.id)

end ShaderAnalysis
