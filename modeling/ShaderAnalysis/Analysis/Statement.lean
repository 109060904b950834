import ShaderAnalysis.Analysis.Declaration

/-!
The analysis of statements, with the scopes that they open. Each branch of a condition has a scope
of its own, and so have the body of a switch and a loop with its test in front, but a loop with its
test behind has none.
-/

namespace ShaderAnalysis

/-- Whether a loop has a scope of its own. -/
def LoopMode.hasScope (mode : LoopMode) : Bool :=
  mode != .doWhile

namespace Analysis

/-- Opens a scope. -/
def openScope : Update Unit :=
  modify fun ctx => { ctx with scopes := ctx.scopes.push }

/-- Closes the innermost scope. -/
def closeScope : AnalysisM Unit := do
  let ctx ← get
  match ctx.scopes.pop? with
  | some (_, scopes) => set { ctx with scopes := scopes }
  | none => throw .globalScopeClosed

/-- Does something in a scope of its own. A fatal condition leaves the scope open. -/
def inScope (body : AnalysisM Unit) : AnalysisM Unit := do
  openScope
  body
  closeScope

/-- Does something, in a scope of its own if it is to have one. -/
def inScopeIf (own : Bool) (body : AnalysisM Unit) : AnalysisM Unit :=
  if own then inScope body else body

mutual
/-- Visits a statement. -/
def visitStmt (env : Env) : Stmt → AnalysisM Unit
  | .compound m true body => do
    inScope (visitStmts env body)
    Update.leave (.stmt (.compound m true body))
  | .compound m false body => do
    visitStmts env body
    Update.leave (.stmt (.compound m false body))
  | .declare m list => do
    visitDeclList env m.span list
    Update.leave (.stmt (.declare m list))
  | .block m b => do
    visitBlock env m b
    Update.leave (.stmt (.block m b))
  | .expr m e => do
    visitExpr? env e
    Update.leave (.stmt (.expr m e))
  | .ifElse m test onTrue none => do
    visitExpr env test
    inScope (visitStmt env onTrue)
    Update.leave (.stmt (.ifElse m test onTrue none))
  | .ifElse m test onTrue (some onFalse) => do
    visitExpr env test
    inScope (visitStmt env onTrue)
    inScope (visitStmt env onFalse)
    Update.leave (.stmt (.ifElse m test onTrue (some onFalse)))
  | .switch m test body => do
    visitExpr env test
    inScope (visitSwitchBody env body)
    Update.leave (.stmt (.switch m test body))
  | .loop m mode init test step body => do
    inScopeIf mode.hasScope do
      visitStmt? env init
      visitExpr? env test
      visitStmt env body
      visitExpr? env step
    Update.leave (.stmt (.loop m mode init test step body))
  | .jump m j => do
    visitExpr? env j.value?
    Update.leave (.stmt (.jump m j))

/-- Visits statements in order. -/
def visitStmts (env : Env) : List Stmt → AnalysisM Unit
  | [] => pure ()
  | s :: ss => do
    visitStmt env s
    visitStmts env ss

def visitStmt? (env : Env) : Option Stmt → AnalysisM Unit
  | none => pure ()
  | some s => visitStmt env s

/-- Visits the cases of a switch. -/
def visitSwitchBody (env : Env) : SwitchBody → AnalysisM Unit
  | ⟨m, cases⟩ => do
    visitCases env cases
    Update.leave (.switchBody ⟨m, cases⟩)

/-- Visits a case: the values in its labels, then its statements. -/
def visitCase (env : Env) : Case → AnalysisM Unit
  | ⟨m, labels, body⟩ => do
    visitExprs env (labels.filterMap Label.value?)
    visitStmts env body
    Update.leave (.case ⟨m, labels, body⟩)

/-- Visits cases in order. -/
def visitCases (env : Env) : List Case → AnalysisM Unit
  | [] => pure ()
  | c :: cs => do
    visitCase env c
    visitCases env cs
end

end Analysis

end ShaderAnalysis
