import ShaderAnalysis.Analysis.Statement

/-!
The analysis of a source unit. Faults of the source are reported and the analysis goes on; only a
tree that makes no sense ends it.
-/

namespace ShaderAnalysis

namespace Analysis

/-- Visits a prototype that stands alone. Its parameters go out of scope with it. -/
def visitPrototype (env : Env) (p : Prototype) : AnalysisM Unit := do
  inScope (visitSignature env p)
  Update.leave (.prototype p)

/-- Visits a function, the body in the scope of the parameters. -/
def visitFunction (env : Env) (f : FunctionDef) : AnalysisM Unit := do
  inScope do
    visitSignature env f.prototype
    visitStmt env f.body
  Update.leave (.function f)

/-- Visits an input layout. -/
def visitLayout (l : InputLayout) : AnalysisM Unit := do
  l.apply
  Update.leave (.layout l)

/-- Visits a declaration at the top of a unit. -/
def visitTopLevel (env : Env) : TopLevel → AnalysisM Unit
  | .declaration s => visitStmt env s
  | .prototype p => visitPrototype env p
  | .function f => visitFunction env f
  | .layout l => visitLayout l

/-- Visits the declarations of a unit in order. -/
def visitUnit (env : Env) : SourceUnit → AnalysisM Unit
  | [] => pure ()
  | d :: ds => do
    visitTopLevel env d
    visitUnit env ds

end Analysis

/-- The analysis of a source unit, from a state in which only the builtin variables are known. What
was reached before a fatal condition is part of the result. -/
def analyze (env : Env) (unit : SourceUnit) : EStateM.Result Fatal Context Unit :=
  (Analysis.visitUnit env unit).run (Context.initial env.options)

/-- Whether a unit is free of errors, with the builtin functions of the language. -/
def check (o : Options) (unit : SourceUnit) : Except Fatal Bool :=
  match analyze (.standard o) unit with
  | .ok _ ctx => .ok (ctx.errorCount = 0)
  | .error fatal _ => .error fatal

end ShaderAnalysis
