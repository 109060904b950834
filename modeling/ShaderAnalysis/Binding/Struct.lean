import ShaderAnalysis.Binding.Declarator

/-!
Binding struct definitions. A struct has a record type, and a reflection entry with a child for each
member; its name, if it has one, is bound in the innermost scope.
-/

namespace ShaderAnalysis

namespace Update

/-- Links the nodes of members to the reflection entries of their fields, one by one. -/
def linkMembers : List Declarator → List ReflectionId → Update Unit
  | d :: ds, id :: ids => do
    annotate d.mark.id fun a => { a with reflection := some id }
    linkMembers ds ids
  | _, _ => pure ()

/-- Binds the name of a struct, unless it is taken. -/
def declareStruct (span : Span) (body : Record) : Update Unit := do
  let ctx ← get
  match ctx.scopes.declareType? body.name (.record body) with
  | some scopes => set { ctx with scopes := scopes, structures := ctx.structures ++ [body] }
  | none => report span (.structRedefined body.name)

/-- Opens a struct definition, which may not stand inside another in most versions. -/
def enterStruct (o : Options) (span : Span) : Update Unit := do
  if (← get).structDepth ≠ 0 && !o.allowsEmbeddedStructs then report span .embeddedStruct
  modify fun ctx => { ctx with structDepth := ctx.structDepth + 1 }

/-- Closes a struct definition. -/
def leaveStruct : Update Unit :=
  modify fun ctx => { ctx with structDepth := ctx.structDepth - 1 }

end Update

/-- The record type of a struct definition. The structs defined inside it have been bound. -/
def StructSpec.body (o : Options) (ctx : Context) (s : StructSpec) : Reported Record := do
  if !s.name.isEmpty then
    let _ ← checkName s.name s.mark.span
  let fields ← DeclList.fields o ctx {} s.members
  return { name := s.name, kind := .struct, fields := fields }

/-- Binds a struct definition, and gives its type. -/
def StructSpec.bind (o : Options) (s : StructSpec) : AnalysisM Ty := do
  let body ← Update.noting (s.body o (← get))
  let id ← Update.reflect fun r => r.declareStruct body
  let children := ((← get).reflection.get? id).elim [] (·.fields)
  let members := DeclList.declarators s.members
  if members.length ≠ children.length || members.length ≠ body.fields.length then
    throw (.structMemberMismatch s.name members.length body.fields.length s.mark.span)
  Update.linkMembers members children
  Update.annotate s.mark.id fun a => { a with ty := some (.record body), reflection := some id }
  if !s.name.isEmpty then
    Update.declareStruct s.mark.span body
  return .record body

end ShaderAnalysis
