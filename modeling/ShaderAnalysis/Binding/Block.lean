import ShaderAnalysis.Binding.Declarator

/-!
Binding interface blocks. A block with an instance name has one variable, of the block's record
type; the members of a block without one are variables of their own.
-/

namespace ShaderAnalysis

/-- Where the variables of a block live. Blocks are uniform, or inputs or outputs; nothing else. -/
def Qualifiers.blockStorage? (q : Qualifiers) : Option Storage :=
  if q.uniform then some .uniform
  else if q.inout then none
  else if q.input then some .shaderIn
  else if q.output then some .shaderOut
  else none

/-- The record type of a block. -/
def BlockDecl.body (o : Options) (ctx : Context) (b : BlockDecl) (storage : Storage) (span : Span) :
    Reported Record := do
  if b.qualifiers.conflictingMatrixLayout then Reported.report span .matrixLayoutConflict
  let place : MemberContext := { rowMajor := b.qualifiers.rowMajor, storage := some storage }
  let fields ← DeclList.fields o ctx place b.members
  return { name := b.name, kind := .block, fields := fields }

/-- The variable of a block instance. -/
def Variable.ofInstance (o : Options) (vertices : Option Nat) (name : String) (ty : Ty)
    (storage : Storage) (span : Span) : Reported Variable :=
  let v : Variable :=
    { name := name, ty := ty, storage := storage, span := span, readOnly := storage ≠ .shaderOut }
  if storage = .shaderIn && o.isGeometry then v.sizeAsGeometryInput vertices else pure v

/-- The variable of a member of a block without an instance name. -/
def Variable.ofMember (storage : Storage) (span : Span) (f : Field) : Variable :=
  { name := f.name, ty := f.ty, storage := storage, span := span, readOnly := storage ≠ .shaderOut
    interpolation := f.layout.interpolation, centroid := f.layout.centroid
    sample := f.layout.sample
    location := if f.layout.location ≥ 0 then some f.layout.location else none }

namespace Update

/-- Binds the instance of a block. -/
def bindInstance (o : Options) (mark : Mark) (b : BlockDecl) (body : Record) (storage : Storage)
    (name : String) : Update Unit := do
  let ty ← noting (Ty.withDimensions o (.record body) b.dimList mark.span)
  reflectDeclared mark.id name (.ofQualifiers b.qualifiers o.stage)
    (.ofQualifiers b.qualifiers false) ty
  if !ty.isError then
    let ctx ← get
    let v ← noting (Variable.ofInstance o ctx.inputVertices? name ty storage mark.span)
    let _ ← noting (checkName name mark.span)
    let _ ← declare v mark.id

/-- Binds the members of a block without an instance name. -/
def bindMembers (o : Options) (q : Qualifiers) (storage : Storage) :
    List Declarator → List Field → Update Unit
  | d :: ds, f :: fs => do
    reflectDeclared d.mark.id f.name (.ofQualifiers q o.stage) (.ofQualifiers q false) f.ty
    if !f.ty.isError then
      let _ ← noting (checkName f.name d.mark.span)
      let _ ← declare (.ofMember storage d.mark.span f) d.mark.id
    bindMembers o q storage ds fs
  | _, _ => pure ()

end Update

/-- Binds an interface block. The structs defined inside it have been bound. -/
def BlockDecl.bind (o : Options) (mark : Mark) (b : BlockDecl) : AnalysisM Unit := do
  match b.qualifiers.blockStorage? with
  | none => Update.report mark.span (.blockStorage b.name)
  | some storage =>
    let body ← Update.noting (b.body o (← get) storage mark.span)
    modify fun ctx => { ctx with blocks := ctx.blocks ++ [body] }
    match b.instanceName with
    | some name => Update.bindInstance o mark b body storage name
    | none =>
      let members := DeclList.declarators b.members
      if members.length ≠ body.fields.length then
        throw (.blockMemberMismatch b.name mark.span)
      Update.bindMembers o b.qualifiers storage members body.fields

end ShaderAnalysis
