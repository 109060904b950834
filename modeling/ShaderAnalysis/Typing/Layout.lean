import ShaderAnalysis.Typing.Specifier

/-!
The members of records, and the checks on their qualifiers and names. A member list has one type,
which is resolved once, and one field for each of its names.
-/

namespace ShaderAnalysis

/-! ### Checks -/

/-- What is wrong with an interpolation for a storage. Inputs and outputs are interpolated between
the stages, so neither vertex inputs nor fragment outputs are. -/
def Interpolation.problem? (o : Options) (storage : Storage) (i : Interpolation) : Option Problem :=
  if i = .auto then none
  else if storage ≠ .shaderIn ∧ storage ≠ .shaderOut then some (.interpolationStorage i)
  else if o.stage = .vertex ∧ storage = .shaderIn then some (.interpolationOfVertexInput i)
  else if o.stage = .fragment ∧ storage = .shaderOut then some (.interpolationOfFragmentOutput i)
  else none

namespace Qualifiers

/-- The interpolation asked for, which is kept even where it is reported. -/
def checkedInterpolation (o : Options) (q : Qualifiers) (storage : Storage) (span : Span) :
    Reported Interpolation :=
  { value := q.interpolation
    problems := ((q.interpolation.problem? o storage).map (Diagnostic.mk span)).toList }

/-- What is wrong with the matrix order of a member of a type. Only members of a uniform block, and
those that are uniform themselves, are looked at. -/
def matrixLayoutProblem? (q : Qualifiers) (ty : Ty) (inUniform : Bool) : Option Problem :=
  if !q.hasMatrixLayout || !(inUniform || q.uniform) then none
  else if q.conflictingMatrixLayout then some .matrixLayoutConflict
  else if !ty.isMatrixOrMatrixArray && !ty.withoutArray.isRecord && !ty.isError then
    some .matrixLayoutOfNonMatrix
  else none

/-- Reports what is wrong with the matrix order of a member. -/
def checkMatrixLayout (q : Qualifiers) (ty : Ty) (inUniform : Bool) (span : Span) : Reported Unit :=
  { value := ()
    problems := ((q.matrixLayoutProblem? ty inUniform).map (Diagnostic.mk span)).toList }

end Qualifiers

/-- Whether a text has two underscores in a row. -/
def hasDoubleUnderscore : List Char → Bool
  | '_' :: '_' :: _ => true
  | _ :: cs => hasDoubleUnderscore cs
  | [] => false

/-- What is wrong with a name that is to be declared. -/
def nameProblem? (name : String) : Option Problem :=
  if "gl_".toList.isPrefixOf name.toList then some (.reservedStart name)
  else if hasDoubleUnderscore name.toList then some (.reservedSequence name)
  else none

/-- Reports what is wrong with a name, and tells whether it may be declared. -/
def checkName (name : String) (span : Span) : Reported Bool :=
  { value := !((nameProblem? name).any (·.isError))
    problems := ((nameProblem? name).map (Diagnostic.mk span)).toList }

/-! ### Fields -/

/-- Where the members of a record belong: whether the block they are in stores matrices by rows,
and the storage of that block, which a struct has none of. -/
structure MemberContext where
  rowMajor : Bool := false
  storage : Option Storage := none

/-- The field of one name of a member list. A member of type `void` becomes one of the error
type. -/
def Declarator.field (o : Options) (place : MemberContext) (q : Qualifiers) (base : Ty)
    (d : Declarator) : Reported Field := do
  let _ ← checkName d.name d.mark.span
  let wrapped ← base.withDimensions o d.dimList d.mark.span
  let ty ← if wrapped.isVoid then Reported.reject d.mark.span (.voidMember d.name) else pure wrapped
  q.checkMatrixLayout ty (place.storage = some .uniform) d.mark.span
  let interpolation ← match place.storage with
    | some storage => q.checkedInterpolation o storage d.mark.span
    | none => pure q.interpolation
  return { name := d.name, ty := ty
           layout := { location := q.location.getD (-1), interpolation := interpolation,
                       centroid := q.centroid, sample := q.sample,
                       rowMajor := q.rowMajorFor ty place.rowMajor } }

/-- The fields of the names of a member list, in order. -/
def Declarator.fields (o : Options) (place : MemberContext) (q : Qualifiers) (base : Ty) :
    List Declarator → Reported (List Field)
  | [] => pure []
  | d :: ds => do
    let f ← d.field o place q base
    let fs ← Declarator.fields o place q base ds
    return f :: fs

/-- Where the type of a member list is looked up: at its first name. -/
def DeclList.typeSpan (l : DeclList) : Span :=
  match l.names with
  | d :: _ => d.mark.span
  | [] => {}

/-- The fields of member lists, in the order of the source. -/
def DeclList.fields (o : Options) (ctx : Context) (place : MemberContext) :
    List DeclList → Reported (List Field)
  | [] => pure []
  | l :: ls => do
    let base ← l.type.resolve o ctx l.typeSpan
    let fs ← Declarator.fields o place l.qualifiers base l.names
    let rest ← DeclList.fields o ctx place ls
    return fs ++ rest

end ShaderAnalysis
