import ShaderAnalysis.Analysis.Expression
import ShaderAnalysis.Typing.Aggregate
import ShaderAnalysis.Binding.Struct
import ShaderAnalysis.Binding.Block
import ShaderAnalysis.Binding.Function

/-!
The analysis of declarations. Struct definitions inside a type are bound before the type is used; a
declared name is bound after its own initializer, and the names before it in the same list are
visible there.
-/

namespace ShaderAnalysis.Analysis

mutual
/-- Visits the struct definition in a type, if it has one. -/
def visitSpec (env : Env) : TypeSpec → AnalysisM Unit
  | ⟨.named _, _⟩ => pure ()
  | ⟨.struct s, _⟩ => visitStruct env s

/-- Visits a struct definition: first those inside the types of its members, then itself. -/
def visitStruct (env : Env) : StructSpec → AnalysisM Unit
  | ⟨mark, name, members⟩ => do
    Update.enterStruct env.options mark.span
    visitMembers env members
    Update.leaveStruct
    let _ ← StructSpec.bind env.options ⟨mark, name, members⟩
    Update.leave (.struct ⟨mark, name, members⟩)

/-- Visits the struct definitions in the types of members. -/
def visitMembers (env : Env) : List DeclList → AnalysisM Unit
  | [] => pure ()
  | ⟨_, type, _, _⟩ :: rest => do
    visitSpec env type
    visitMembers env rest
end

/-- Visits a declared name: its initializer, which its type is given to, and then the name. -/
def visitDeclarator (env : Env) (list : DeclList) (base : Ty) (d : Declarator) :
    AnalysisM Unit := do
  let ty ← Update.noting (base.withDimensions env.options d.dimList d.mark.span)
  if let some init := d.init then
    modify fun ctx => { ctx with annotations := ctx.annotations.typeAggregate ty init }
    visitExpr env init
  let _ ← d.bind env.options list.qualifiers list.invariant ty
  Update.leave (.declarator d)

/-- Visits declared names in order. -/
def visitDeclarators (env : Env) (list : DeclList) (base : Ty) : List Declarator → AnalysisM Unit
  | [] => pure ()
  | d :: ds => do
    visitDeclarator env list base d
    visitDeclarators env list base ds

/-- Visits the type and the names of a declaration. -/
def visitDeclList (env : Env) (span : Span) (list : DeclList) : AnalysisM Unit := do
  visitSpec env list.type
  let base ← Update.noting (list.type.resolve env.options (← get) span)
  visitDeclarators env list base list.names

/-- Visits an interface block. -/
def visitBlock (env : Env) (mark : Mark) (b : BlockDecl) : AnalysisM Unit := do
  visitMembers env b.members
  b.bind env.options mark

/-- Visits a parameter. -/
def visitParameter (env : Env) (p : Parameter) : AnalysisM Unit := do
  visitSpec env p.type
  let _ ← p.bind env.options
  Update.leave (.parameter p)

/-- Visits parameters in order. -/
def visitParameters (env : Env) : List Parameter → AnalysisM Unit
  | [] => pure ()
  | p :: ps => do
    visitParameter env p
    visitParameters env ps

/-- Visits the types and parameters of a prototype, in the scope that is open, and makes the
function known. -/
def visitSignature (env : Env) (p : Prototype) : AnalysisM Unit := do
  visitSpec env p.returns
  visitParameters env p.params
  p.save env.options

end ShaderAnalysis.Analysis
