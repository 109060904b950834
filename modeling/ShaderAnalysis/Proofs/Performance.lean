import ShaderAnalysis.Proofs.Agenda

/-!
Visits perform agendas (`Fragment.visit_eq`), and so does the analysis of a unit (`analyze_eq`).
-/

namespace ShaderAnalysis

open Analysis

/-- A step does what actions do, whatever declaration is open. -/
def Realizes (env : Env) (as : List Action) (m : AnalysisM Unit) : Prop :=
  ∀ base, (do let _ ← perform env as base) = m

namespace Realizes

variable {env : Env} {as bs : List Action} {m n : AnalysisM Unit}

theorem nil : Realizes env [] (pure ()) := by
  intro base
  simp

theorem append (first : Realizes env as m) (second : Realizes env bs n) :
    Realizes env (as ++ bs) (do m; n) := by
  intro base
  rw [← first base]
  simp only [perform_append, bind_assoc, pure_bind]
  exact bind_congr fun between => second between

/-- An action that keeps the declaration that is open. -/
theorem single {a : Action} (h : ∀ base, a.act env base = (do m; return base)) :
    Realizes env [a] m := by
  intro base
  simp [perform_cons, h]

theorem leave (n : Node) : Realizes env [.leave n] (Update.leave n) :=
  single fun _ => rfl

theorem enclose (r : Region) (inner : Realizes env as m) :
    Realizes env (r.enclose as) (inScope m) := by
  have opened : Realizes env [.openScope r] openScope := single fun _ => rfl
  have closed : Realizes env [.closeScope] closeScope := single fun _ => rfl
  have all := (opened.append inner).append closed
  simpa [Region.enclose, inScope] using all

theorem encloseIf (r : Region) (own : Bool) (inner : Realizes env as m) :
    Realizes env (r.encloseIf own as) (inScopeIf own m) := by
  cases own with
  | true => exact inner.enclose r
  | false => exact inner

end Realizes

theorem perform_own (env : Env) (base : Ty) (e : Expr) :
    perform env e.own base = (do finishExpr env e; return base) := by
  simp [Expr.own, perform_cons, Action.act, finishExpr_eq]

/-- Visiting an expression performs its agenda, and keeps the declaration that is open. -/
theorem perform_exprAgenda (env : Env) (base : Ty) (e : Expr) :
    perform env e.agenda base = (do visitExpr env e; return base) := by
  induction e using Expr.byParts with
  | step e parts =>
    have inside : ∀ es : List Expr, (∀ p ∈ es, p ∈ e.parts) →
        perform env (es.flatMap Expr.agenda) base = (do visitExprs env es; return base) := by
      intro es
      induction es with
      | nil => simp [visitExprs]
      | cons p ps ih =>
        intro sub
        have first := parts p (sub p (by simp))
        have rest := ih fun q hq => sub q (by simp [hq])
        simp [perform_append, visitExprs, first, rest]
    rw [Expr.agenda_eq, perform_append, inside e.parts (by simp), visitExpr_eq]
    simp [perform_own]

namespace Realizes

variable {env : Env}

theorem expr (e : Expr) : Realizes env e.agenda (visitExpr env e) := by
  intro base
  simp [perform_exprAgenda]

theorem exprs (es : List Expr) : Realizes env (es.flatMap Expr.agenda) (visitExprs env es) := by
  induction es with
  | nil => exact nil
  | cons e es ih => exact (expr e).append ih

theorem expr? (e : Option Expr) :
    Realizes env (e.toList.flatMap Expr.agenda) (visitExpr? env e) := by
  cases e with
  | none => exact nil
  | some e => simpa [visitExpr?] using expr e

/-! ### Declarations -/

mutual
theorem spec : ∀ t : TypeSpec, Realizes env t.agenda (visitSpec env t)
  | ⟨.named _, _⟩ => nil
  | ⟨.struct s, _⟩ => struct s

theorem struct : ∀ s : StructSpec, Realizes env s.agenda (visitStruct env s)
  | ⟨mark, name, lists⟩ => by
    have entered : Realizes env [.enterStruct mark.span]
        (Update.enterStruct env.options mark.span) := single fun _ => rfl
    have left : Realizes env [.leaveStruct] Update.leaveStruct := single fun _ => rfl
    have bound : Realizes env [.bindStruct ⟨mark, name, lists⟩]
        (do let _ ← StructSpec.bind env.options ⟨mark, name, lists⟩) :=
      single fun _ => by simp [Action.act]
    have all := (((entered.append (members lists)).append left).append bound).append
      (leave (.struct ⟨mark, name, lists⟩))
    simpa [StructSpec.agenda, visitStruct] using all

theorem members : ∀ lists : List DeclList,
    Realizes env (DeclList.memberAgenda lists) (visitMembers env lists)
  | [] => nil
  | ⟨_, type, _, _⟩ :: rest => (spec type).append (members rest)
end

end Realizes

/-- The type of a declared name is the same before and after its initializer. -/
theorem visitDeclarator_eq (env : Env) (list : DeclList) (base : Ty) (d : Declarator) :
    visitDeclarator env list base d = (do
      typeDeclarator env base d
      visitExpr? env d.init
      bindDeclarator env list base d
      Update.leave (.declarator d)) := by
  obtain ⟨mark, name, dims, init⟩ := d
  cases init <;> rfl

/-- Visiting a declared name performs its agenda, if the declaration that is open is its own. -/
theorem perform_declaratorAgenda (env : Env) (list : DeclList) (base : Ty) (d : Declarator) :
    perform env (d.agenda list) base = (do visitDeclarator env list base d; return base) := by
  have init : perform env (d.init.toList.flatMap Expr.agenda) base
      = (do visitExpr? env d.init; return base) := by
    cases d.init <;> simp [visitExpr?, perform_exprAgenda]
  simp [Declarator.agenda, visitDeclarator_eq, perform_cons, perform_append, Action.act, init]

namespace Realizes

variable {env : Env}

theorem declarators (list : DeclList) (base : Ty) (ds : List Declarator) :
    (do let _ ← perform env (ds.flatMap (Declarator.agenda list)) base)
      = visitDeclarators env list base ds := by
  induction ds with
  | nil => simp [visitDeclarators]
  | cons d ds ih =>
    simp [perform_append, visitDeclarators, perform_declaratorAgenda, ← ih]

theorem declList (span : Span) (list : DeclList) :
    Realizes env (list.agenda span) (visitDeclList env span list) := by
  have typed : ∀ base, (do
      let _ ← perform env (.typeList span list :: list.names.flatMap (Declarator.agenda list)) base)
        = (do
          let base ← Update.noting (list.type.resolve env.options (← get) span)
          visitDeclarators env list base list.names) := by
    intro base
    simp [perform_cons, Action.act, ← declarators]
  exact (spec list.type).append typed

theorem block (mark : Mark) (b : BlockDecl) :
    Realizes env (b.agenda mark) (visitBlock env mark b) :=
  (members b.members).append (single fun _ => rfl)

theorem parameter (p : Parameter) : Realizes env p.agenda (visitParameter env p) := by
  have bound : Realizes env [.bindParameter p] (do let _ ← p.bind env.options) :=
    single fun _ => by simp [Action.act]
  have all := ((spec p.type).append bound).append (leave (.parameter p))
  simpa [Parameter.agenda, visitParameter] using all

theorem parameters (ps : List Parameter) :
    Realizes env (ps.flatMap Parameter.agenda) (visitParameters env ps) := by
  induction ps with
  | nil => exact nil
  | cons p ps ih => exact (parameter p).append ih

theorem signature (p : Prototype) : Realizes env p.signatureAgenda (visitSignature env p) := by
  have saved : Realizes env [.saveFunction p] (p.save env.options) := single fun _ => rfl
  simpa [Prototype.signatureAgenda, visitSignature] using
    ((spec p.returns).append (parameters p.params)).append saved

/-! ### Statements -/

mutual
theorem stmt : ∀ s : Stmt, Realizes env s.agenda (visitStmt env s)
  | .compound m true body => by
    simpa [Stmt.agenda, visitStmt] using ((stmts body).enclose m.region).append (leave _)
  | .compound m false body => by
    simpa [Stmt.agenda, visitStmt] using (stmts body).append (leave _)
  | .declare m list => by
    simpa [Stmt.agenda, visitStmt] using (declList m.span list).append (leave _)
  | .block m b => by
    simpa [Stmt.agenda, visitStmt] using (block m b).append (leave _)
  | .expr m e => by
    simpa [Stmt.agenda, visitStmt] using (expr? e).append (leave _)
  | .ifElse m test onTrue none => by
    have all := ((expr test).append ((stmt onTrue).enclose m.region)).append
      (leave (.stmt (.ifElse m test onTrue none)))
    simpa [Stmt.agenda, visitStmt] using all
  | .ifElse m test onTrue (some onFalse) => by
    have branches := ((stmt onTrue).enclose m.region).append ((stmt onFalse).enclose m.elseRegion)
    have all := ((expr test).append branches).append
      (leave (.stmt (.ifElse m test onTrue (some onFalse))))
    simpa [Stmt.agenda, visitStmt] using all
  | .switch m test body => by
    have all := ((expr test).append ((switchBody body).enclose m.region)).append
      (leave (.stmt (.switch m test body)))
    simpa [Stmt.agenda, visitStmt] using all
  | .loop m mode init test step body => by
    have inside := (((stmt? init).append (expr? test)).append (stmt body)).append (expr? step)
    have all := (inside.encloseIf m.region mode.hasScope).append
      (leave (.stmt (.loop m mode init test step body)))
    simpa [Stmt.agenda, visitStmt] using all
  | .jump m j => by
    simpa [Stmt.agenda, visitStmt] using (expr? j.value?).append (leave _)

theorem stmts : ∀ ss : List Stmt, Realizes env (Stmt.agendas ss) (visitStmts env ss)
  | [] => nil
  | s :: ss => (stmt s).append (stmts ss)

theorem stmt? : ∀ s : Option Stmt, Realizes env (Stmt.optionAgenda s) (visitStmt? env s)
  | none => nil
  | some s => stmt s

theorem switchBody : ∀ b : SwitchBody, Realizes env b.agenda (visitSwitchBody env b)
  | ⟨_, cs⟩ => (cases cs).append (leave _)

theorem case : ∀ c : Case, Realizes env c.agenda (visitCase env c)
  | ⟨m, labels, body⟩ => by
    have all := ((exprs (labels.filterMap Label.value?)).append (stmts body)).append
      (leave (.case ⟨m, labels, body⟩))
    simpa [Case.agenda, visitCase] using all

theorem cases : ∀ cs : List Case, Realizes env (Case.agendas cs) (visitCases env cs)
  | [] => nil
  | c :: cs => (case c).append (cases cs)
end

/-! ### Units -/

theorem prototype (p : Prototype) : Realizes env p.agenda (visitPrototype env p) := by
  simpa [Prototype.agenda, visitPrototype] using
    ((signature p).enclose p.mark.region).append (leave (.prototype p))

theorem function (f : FunctionDef) : Realizes env f.agenda (visitFunction env f) := by
  have inside : Realizes env _ _ := (signature f.prototype).append (stmt f.body)
  simpa [FunctionDef.agenda, visitFunction] using
    (inside.enclose f.mark.region).append (leave (.function f))

theorem layout (l : InputLayout) : Realizes env l.agenda (visitLayout l) := by
  have applied : Realizes env [.applyLayout l] l.apply := single fun _ => rfl
  exact applied.append (leave (.layout l))

theorem topLevel : ∀ d : TopLevel, Realizes env d.agenda (visitTopLevel env d)
  | .declaration s => stmt s
  | .prototype p => prototype p
  | .function f => function f
  | .layout l => layout l

theorem unit : ∀ unit : SourceUnit, Realizes env unit.agenda (visitUnit env unit)
  | [] => nil
  | d :: ds => (topLevel d).append (unit ds)

end Realizes

/-- A part of a source tree that is visited as a whole: a declared name with the declaration that it
belongs to, whose type is known by then. -/
inductive Fragment where
  | expr (e : Expr)
  | spec (t : TypeSpec)
  | struct (s : StructSpec)
  | declarator (list : DeclList) (base : Ty) (d : Declarator)
  | parameter (p : Parameter)
  | stmt (s : Stmt)
  | switchBody (b : SwitchBody)
  | case (c : Case)
  | prototype (p : Prototype)
  | function (f : FunctionDef)
  | layout (l : InputLayout)

namespace Fragment

def visit (env : Env) : Fragment → AnalysisM Unit
  | .expr e => visitExpr env e
  | .spec t => visitSpec env t
  | .struct s => visitStruct env s
  | .declarator list base d => visitDeclarator env list base d
  | .parameter p => visitParameter env p
  | .stmt s => visitStmt env s
  | .switchBody b => visitSwitchBody env b
  | .case c => visitCase env c
  | .prototype p => visitPrototype env p
  | .function f => visitFunction env f
  | .layout l => visitLayout l

def agenda : Fragment → List Action
  | .expr e => e.agenda
  | .spec t => t.agenda
  | .struct s => s.agenda
  | .declarator list _ d => d.agenda list
  | .parameter p => p.agenda
  | .stmt s => s.agenda
  | .switchBody b => b.agenda
  | .case c => c.agenda
  | .prototype p => p.agenda
  | .function f => f.agenda
  | .layout l => l.agenda

/-- The type of the declaration that is open at a part of a tree, if it matters there. -/
def base : Fragment → Ty
  | .declarator _ base _ => base
  | _ => .error

/-- A visit performs the agenda. -/
theorem visit_eq (env : Env) (f : Fragment) :
    f.visit env = (do let _ ← perform env f.agenda f.base) := by
  cases f with
  | declarator list base d => simp [visit, agenda, Fragment.base, perform_declaratorAgenda]
  | expr e => exact (Realizes.expr e _).symm
  | spec t => exact (Realizes.spec t _).symm
  | struct s => exact (Realizes.struct s _).symm
  | parameter p => exact (Realizes.parameter p _).symm
  | stmt s => exact (Realizes.stmt s _).symm
  | switchBody b => exact (Realizes.switchBody b _).symm
  | case c => exact (Realizes.case c _).symm
  | prototype p => exact (Realizes.prototype p _).symm
  | function f => exact (Realizes.function f _).symm
  | layout l => exact (Realizes.layout l _).symm

end Fragment

/-- The analysis of a unit performs its agenda. -/
theorem analyze_eq (env : Env) (unit : SourceUnit) :
    analyze env unit =
      (do let _ ← perform env unit.agenda .void : AnalysisM Unit) (.initial env.options) :=
  congrFun (Realizes.unit unit .void).symm (.initial env.options)

theorem exists_perform_of_analyze {env : Env} {unit : SourceUnit} {final : Context}
    (run : analyze env unit = .ok () final) :
    ∃ b, perform env unit.agenda .void (.initial env.options) = .ok b final := by
  rw [analyze_eq] at run
  exact (AnalysisM.run_giving_ok run).1

/-- An expression is visited: what stands before it is done without a fatal condition. -/
def Visited (env : Env) (unit : SourceUnit) (e : Expr) : Prop :=
  ∃ done rest b ctx, unit.agenda = done ++ .check e :: rest ∧
    perform env done .void (.initial env.options) = .ok b ctx

/-- An analysis that comes to its end visits every expression of the agenda. -/
theorem visited_of_analyze {env : Env} {unit : SourceUnit} {final : Context}
    (run : analyze env unit = .ok () final) {e : Expr} (mem : .check e ∈ unit.agenda) :
    Visited env unit e := by
  obtain ⟨done, rest, agenda⟩ := List.append_of_mem mem
  obtain ⟨b, performed⟩ := exists_perform_of_analyze run
  rw [agenda] at performed
  obtain ⟨c, between, first, _⟩ := perform_append_ok performed
  exact ⟨done, rest, c, between, agenda, first⟩

/-- Whether the analysis of a unit comes to its end. -/
def completes (env : Env) (unit : SourceUnit) : Bool :=
  match analyze env unit with
  | .ok .. => true
  | .error .. => false

theorem exists_of_completes {env : Env} {unit : SourceUnit} (h : completes env unit = true) :
    ∃ final, analyze env unit = .ok () final := by
  cases run : analyze env unit with
  | ok u final => exact ⟨final, rfl⟩
  | error e failed => simp [completes, run] at h

/-! ### A sample unit -/

namespace Sample

/-- The mark of a number. -/
def mark (n : Nat) : Mark :=
  ⟨⟨n⟩, ⟨1, n + 1⟩⟩

/-- The type `float`, as it is written. -/
def float : TypeSpec :=
  ⟨.named "float", none⟩

/-- The assignment `x = 1`. -/
def store : Expr :=
  .assign (mark 8) .assign (.ident (mark 6) "x") (.int (mark 7) 1)

/-- The body `{ float x = x; x = 1; }`. -/
def body : Stmt :=
  let inner : Declarator :=
    { mark := mark 4, name := "x", dims := none, init := some (.ident (mark 3) "x") }
  .compound (mark 10) true
    [.declare (mark 5) { qualifiers := {}, type := float, invariant := false, names := [inner] },
      .expr (mark 9) (some store)]

/-- The function `void main() { float x = x; x = 1; }`. -/
def main : FunctionDef :=
  let prototype : Prototype :=
    { mark := mark 2, returnQualifiers := {}, returns := ⟨.named "void", none⟩, name := "main",
      params := [] }
  { mark := mark 11, prototype := prototype, body := body }

/-- The unit `float x; void main() { float x = x; x = 1; }`. -/
def shadowing : SourceUnit :=
  let outer : Declarator := { mark := mark 0, name := "x", dims := none, init := none }
  [.declaration (.declare (mark 1)
      { qualifiers := {}, type := float, invariant := false, names := [outer] }),
    .function main]

end Sample

end ShaderAnalysis
