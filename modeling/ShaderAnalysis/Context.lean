import ShaderAnalysis.Reported
import ShaderAnalysis.Scopes
import ShaderAnalysis.Signature
import ShaderAnalysis.Annotation
import ShaderAnalysis.Builtin.Catalog
import ShaderAnalysis.Builtin.Variables

/-!
The state of an analysis, and the two kinds of steps on it: updates, which cannot fail, and steps of
the analysis proper, which may end in a fatal condition and keep what was reached until then.
-/

namespace ShaderAnalysis

/-- What an analysis is given besides the source: the options, and the builtin functions, as the
result type of a call. -/
structure Env where
  options : Options := {}
  builtins : String → List Ty → Option Ty

/-- The builtin functions that a catalog knows. -/
def Overloads.resultType? (o : Overloads) (name : String) (args : List Ty) : Option Ty :=
  (o.find? name args).map (·.returns)

/-- The environment with the builtin functions of the language. -/
def Env.standard (options : Options) : Env :=
  { options := options, builtins := Builtin.catalog.resultType? }

/-- All that an analysis has found out so far. The inputs are the shader inputs of the source, which
a geometry layout may size after their scopes have closed. -/
structure Context where
  scopes : Scopes := {}
  vars : Variables := {}
  inputs : List VarId := []
  structures : List Record := []
  blocks : List Record := []
  functions : Overloads := {}
  structDepth : Nat := 0
  primitive : Option InputPrimitive := none
  reflection : Reflection := {}
  annotations : Annotations := {}
  diagnostics : List Diagnostic := []
deriving DecidableEq

/-- A step that cannot fail. -/
abbrev Update := StateM Context

/-- A step that may end the analysis. What was reached by then is kept. -/
abbrev AnalysisM := EStateM Fatal Context

/-- An update is a step that happens not to fail. -/
def Update.toAnalysis {α : Type} (u : Update α) : AnalysisM α := fun ctx =>
  let (a, ctx) := u ctx
  .ok a ctx

instance : MonadLift Update AnalysisM where
  monadLift := Update.toAnalysis

@[simp] theorem Update.run_liftM {α : Type} (u : Update α) (ctx : Context) :
    (liftM u : AnalysisM α) ctx = .ok (u ctx).1 (u ctx).2 := rfl

namespace Context

/-- The number of vertices that the input layout gives a geometry input, once it is known. -/
def inputVertices? (ctx : Context) : Option Nat :=
  ctx.primitive.map (·.vertices)

def errorCount (ctx : Context) : Nat :=
  ctx.diagnostics.countP (·.isError)

/-- The visible variable of a name. -/
def visible? (ctx : Context) (name : String) : Option (VarId × Variable) := do
  let id ← ctx.scopes.findVariable? name
  let v ← ctx.vars.get? id
  return (id, v)

theorem visible?_eq_some {ctx : Context} {name : String} {id : VarId} {v : Variable} :
    ctx.visible? name = some (id, v) ↔
      ctx.scopes.findVariable? name = some id ∧ ctx.vars.get? id = some v := by
  cases found : ctx.scopes.findVariable? name with
  | none => simp [visible?, found]
  | some i => cases stored : ctx.vars.get? i <;> grind [visible?]

/-- The type found for a node; the error type if there is none. -/
def typeOf (ctx : Context) (id : NodeId) : Ty :=
  (ctx.annotations.ofNode id).ty.getD .error

/-- The variable found for a node. -/
def variableOf? (ctx : Context) (id : NodeId) : Option Variable :=
  (ctx.annotations.ofNode id).var.bind ctx.vars.get?

/-- Adds a builtin variable to the global scope. -/
def predeclare (ctx : Context) (v : Variable) : Context :=
  { ctx with
    vars := ctx.vars.push v
    scopes := (ctx.scopes.declareVariable? v.name ctx.vars.nextId).getD ctx.scopes }

/-- The state before any source is seen: only the builtin variables of the stage. -/
def initial (options : Options) : Context :=
  (Builtin.stageVariables options.stage).foldl predeclare {}

end Context

namespace Update

/-- Takes a value and notes what was found wrong on the way to it. -/
def noting {α : Type} (r : Reported α) : Update α :=
  modifyGet fun ctx => (r.value, { ctx with diagnostics := ctx.diagnostics ++ r.problems })

/-- Notes a problem. -/
def report (span : Span) (p : Problem) : Update Unit :=
  noting (Reported.report span p)

/-- Changes the annotation of a node. -/
def annotate (id : NodeId) (f : Annotation → Annotation) : Update Unit :=
  modify fun ctx => { ctx with annotations := ctx.annotations.update id f }

/-- Changes the variable of a number. -/
def modifyVariable (id : VarId) (f : Variable → Variable) : Update Unit :=
  modify fun ctx => { ctx with vars := ctx.vars.modify id f }

/-- Makes a reflection entry by one of the operations that do. -/
def reflect (f : Reflection → Reflection × ReflectionId) : Update ReflectionId :=
  modifyGet fun ctx =>
    let (r, id) := f ctx.reflection
    (id, { ctx with reflection := r })

end Update

end ShaderAnalysis
