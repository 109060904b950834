import ShaderAnalysis.Proofs.Phrases

/-!
Where names are used and declared, read off the tree. The sites of a tree stand in the order of the
traversal, a declared name behind its own initializer, and each in the regions around it: a
function, a lone prototype, a compound statement with a scope of its own, a branch of a condition,
the body of a switch, a loop with its test in front. A loop with its test behind is no region.
-/

namespace ShaderAnalysis

inductive SiteRole where
  | use | declares
deriving DecidableEq, Repr

/-- A place where a name is used or declared, with the regions around it, innermost first. -/
structure Site where
  role : SiteRole
  mark : Mark
  name : String
  regions : List Region
deriving DecidableEq, Repr

/-! ### Sites of trees -/

/-- The use of a name that an expression is, if it is one; those in its parts do not count. -/
def Expr.use (here : List Region) : Expr → List Site
  | .ident m name => [{ role := .use, mark := m, name := name, regions := here }]
  | _ => []

def Expr.sites (here : List Region) (e : Expr) : List Site :=
  e.postorder.flatMap (Expr.use here)

def Declarator.site (here : List Region) (d : Declarator) : Site :=
  { role := .declares, mark := d.mark, name := d.name, regions := here }

def Declarator.sites (here : List Region) (d : Declarator) : List Site :=
  d.init.toList.flatMap (Expr.sites here) ++ [d.site here]

/-- A block declares its instance, or else its members. -/
def BlockDecl.sites (here : List Region) (m : Mark) (b : BlockDecl) : List Site :=
  match b.instanceName with
  | some name => [{ role := .declares, mark := m, name := name, regions := here }]
  | none => (DeclList.declarators b.members).map (Declarator.site here)

def Parameter.sites (here : List Region) (p : Parameter) : List Site :=
  p.name.toList.map fun name =>
    { role := .declares, mark := p.mark, name := name, regions := here }

/-- The regions inside a loop. -/
def LoopMode.regions (mode : LoopMode) (m : Mark) (here : List Region) : List Region :=
  if mode.hasScope then m.region :: here else here

mutual
def Stmt.sites (here : List Region) : Stmt → List Site
  | .compound m true body => Stmt.listSites (m.region :: here) body
  | .compound _ false body => Stmt.listSites here body
  | .declare _ list => list.names.flatMap (Declarator.sites here)
  | .block m b => b.sites here m
  | .expr _ e => e.toList.flatMap (Expr.sites here)
  | .ifElse m test onTrue none => test.sites here ++ onTrue.sites (m.region :: here)
  | .ifElse m test onTrue (some onFalse) =>
    test.sites here ++ onTrue.sites (m.region :: here) ++ onFalse.sites (m.elseRegion :: here)
  | .switch m test body => test.sites here ++ body.sites (m.region :: here)
  | .loop m mode init test step body =>
    Stmt.optionSites (mode.regions m here) init
      ++ test.toList.flatMap (Expr.sites (mode.regions m here))
      ++ body.sites (mode.regions m here)
      ++ step.toList.flatMap (Expr.sites (mode.regions m here))
  | .jump _ j => j.value?.toList.flatMap (Expr.sites here)

def Stmt.listSites (here : List Region) : List Stmt → List Site
  | [] => []
  | s :: ss => s.sites here ++ Stmt.listSites here ss

def Stmt.optionSites (here : List Region) : Option Stmt → List Site
  | none => []
  | some s => s.sites here

def SwitchBody.sites (here : List Region) : SwitchBody → List Site
  | ⟨_, cases⟩ => Case.listSites here cases

def Case.sites (here : List Region) : Case → List Site
  | ⟨_, labels, body⟩ =>
    (labels.filterMap Label.value?).flatMap (Expr.sites here) ++ Stmt.listSites here body

def Case.listSites (here : List Region) : List Case → List Site
  | [] => []
  | c :: cs => c.sites here ++ Case.listSites here cs
end

def TopLevel.sites : TopLevel → List Site
  | .declaration s => s.sites []
  | .prototype p => p.params.flatMap (Parameter.sites [p.mark.region])
  | .function f =>
    f.prototype.params.flatMap (Parameter.sites [f.mark.region]) ++ f.body.sites [f.mark.region]
  | .layout _ => []

def SourceUnit.sites (unit : SourceUnit) : List Site :=
  unit.flatMap TopLevel.sites

/-! ### Sites of agendas -/

/-- The regions that are open after an action. -/
def Action.path (here : List Region) : Action → List Region
  | .openScope r => r :: here
  | .closeScope => here.tail
  | _ => here

/-- The sites that an action works at. -/
def Action.sites (here : List Region) : Action → List Site
  | .check e => e.use here
  | .bindName _ d => [d.site here]
  | .bindBlock m b => b.sites here m
  | .bindParameter p => p.sites here
  | _ => []

def pathAfter (here : List Region) (as : List Action) : List Region :=
  as.foldl Action.path here

/-- The sites that actions work at in order. -/
def sitesOf (here : List Region) : List Action → List Site
  | [] => []
  | a :: as => a.sites here ++ sitesOf (a.path here) as

@[simp] theorem pathAfter_singleton (here : List Region) (a : Action) :
    pathAfter here [a] = a.path here := rfl

@[simp] theorem sitesOf_singleton (here : List Region) (a : Action) :
    sitesOf here [a] = a.sites here := by
  simp [sitesOf]

theorem pathAfter_append (here : List Region) (as bs : List Action) :
    pathAfter here (as ++ bs) = pathAfter (pathAfter here as) bs := by
  simp [pathAfter]

theorem sitesOf_append (here : List Region) (as bs : List Action) :
    sitesOf here (as ++ bs) = sitesOf here as ++ sitesOf (pathAfter here as) bs := by
  induction as generalizing here with
  | nil => simp [sitesOf, pathAfter]
  | cons a as ih => simp [sitesOf, ih, pathAfter]

/-- Actions work at these sites, and end in the regions that they began in. -/
structure WorksAt (here : List Region) (as : List Action) (ss : List Site) : Prop where
  sites : sitesOf here as = ss
  path : pathAfter here as = here

namespace WorksAt

variable {here : List Region} {as bs : List Action} {ss ts : List Site}

theorem nil : WorksAt here [] [] :=
  ⟨rfl, rfl⟩

theorem append (h : WorksAt here as ss) (h' : WorksAt here bs ts) :
    WorksAt here (as ++ bs) (ss ++ ts) :=
  ⟨by rw [sitesOf_append, h.path, h.sites, h'.sites], by rw [pathAfter_append, h.path, h'.path]⟩

theorem single {a : Action} (path : a.path here = here) : WorksAt here [a] (a.sites here) :=
  ⟨sitesOf_singleton here a, path⟩

/-- An action that is at no site. -/
theorem idle {a : Action} (path : a.path here = here) (sites : a.sites here = []) :
    WorksAt here [a] [] := by
  have h := single path
  rwa [sites] at h

theorem leave (n : Node) : WorksAt here [.leave n] [] :=
  idle rfl rfl

theorem left {n : Node} (h : WorksAt here as ss) : WorksAt here (as ++ [.leave n]) ss := by
  simpa using h.append (leave n)

theorem enclose {r : Region} (h : WorksAt (r :: here) as ss) :
    WorksAt here (r.enclose as) ss := by
  constructor
  · rw [Region.enclose, List.cons_append, sitesOf, sitesOf_append]
    simp [Action.sites, Action.path, h.sites, sitesOf]
  · have inside : pathAfter (r :: here) as = r :: here := h.path
    simp only [pathAfter] at inside
    simp [pathAfter, Region.enclose, Action.path, inside]

/-- A loop has a region of its own if it has a scope. -/
theorem enclosed (m : Mark) (mode : LoopMode) (h : WorksAt (mode.regions m here) as ss) :
    WorksAt here (m.region.encloseIf mode.hasScope as) ss := by
  unfold LoopMode.regions at h
  cases own : mode.hasScope with
  | true =>
    rw [own] at h
    exact enclose h
  | false => rwa [own] at h

theorem flatMap {α : Type} {f : α → List Action} {g : α → List Site} {l : List α}
    (h : ∀ x ∈ l, WorksAt here (f x) (g x)) : WorksAt here (l.flatMap f) (l.flatMap g) := by
  induction l with
  | nil => exact nil
  | cons x xs ih =>
    simp only [List.flatMap_cons]
    exact (h x (by simp)).append (ih fun y hy => h y (by simp [hy]))

theorem expr (e : Expr) : WorksAt here e.agenda (e.sites here) := by
  have each : ∀ p : Expr, WorksAt here p.own (p.use here) := fun p =>
    (single (a := .check p) rfl).left
  exact flatMap fun p _ => each p

theorem exprs (es : List Expr) :
    WorksAt here (es.flatMap Expr.agenda) (es.flatMap (Expr.sites here)) :=
  flatMap fun e _ => expr e

/-- Struct definitions have no sites. -/
theorem ofStructs (h : ∀ a ∈ as, a.isOfStruct = true) : WorksAt here as [] := by
  induction as with
  | nil => exact nil
  | cons a as ih =>
    have first : WorksAt here [a] [] := by
      have own := h a List.mem_cons_self
      cases a with
      | enterStruct | leaveStruct | bindStruct | leave => exact idle rfl rfl
      | _ => cases own
    exact first.append (ih fun b mem => h b (List.mem_cons_of_mem a mem))

theorem spec (t : TypeSpec) : WorksAt here t.agenda [] :=
  ofStructs t.isOfStruct_agenda

theorem members (lists : List DeclList) : WorksAt here (DeclList.memberAgenda lists) [] :=
  ofStructs (DeclList.isOfStruct_memberAgenda lists)

theorem declarator (list : DeclList) (d : Declarator) :
    WorksAt here (d.agenda list) (d.sites here) := by
  have typed : WorksAt here [.typeName d] [] := idle rfl rfl
  have bound : WorksAt here [.bindName list d] [d.site here] := single rfl
  have all := ((typed.append (exprs d.init.toList)).append bound).left (n := .declarator d)
  simpa [Declarator.agenda, Declarator.sites, Action.sites] using all

theorem declList (span : Span) (list : DeclList) :
    WorksAt here (list.agenda span) (list.names.flatMap (Declarator.sites here)) := by
  have begun : WorksAt here list.type.agenda [] := spec list.type
  have typed := begun.append (idle (a := .typeList span list) rfl rfl)
  have all := typed.append (flatMap (l := list.names) fun d _ => declarator list d)
  simpa [DeclList.agenda] using all

theorem block (m : Mark) (b : BlockDecl) : WorksAt here (b.agenda m) (b.sites here m) := by
  have bound : WorksAt here [.bindBlock m b] (b.sites here m) := single rfl
  exact (members b.members).append bound

theorem parameter (p : Parameter) : WorksAt here p.agenda (p.sites here) := by
  have bound : WorksAt here [.bindParameter p] (p.sites here) := single rfl
  have all := ((spec p.type).append bound).left (n := .parameter p)
  simpa [Parameter.agenda, Action.sites] using all

theorem signature (p : Prototype) :
    WorksAt here p.signatureAgenda (p.params.flatMap (Parameter.sites here)) := by
  have begun : WorksAt here p.returns.agenda [] := spec p.returns
  have given := begun.append
    (flatMap (l := p.params) fun q _ => parameter q)
  have all := given.append (idle (a := .saveFunction p) rfl rfl)
  simpa [Prototype.signatureAgenda] using all

mutual
theorem stmt : ∀ (here : List Region) (s : Stmt), WorksAt here s.agenda (s.sites here)
  | here, .compound m true body => (enclose (stmts (m.region :: here) body)).left
  | here, .compound _ false body => (stmts here body).left
  | _, .declare m list => (declList m.span list).left
  | _, .block m b => (block m b).left
  | _, .expr _ e => (exprs e.toList).left
  | here, .ifElse m test onTrue none =>
    ((expr test).append (enclose (stmt (m.region :: here) onTrue))).left
  | here, .ifElse m test onTrue (some onFalse) =>
    (((expr test).append (enclose (stmt (m.region :: here) onTrue))).append
      (enclose (stmt (m.elseRegion :: here) onFalse))).left
  | here, .switch m test body =>
    ((expr test).append (enclose (switchBody (m.region :: here) body))).left
  | here, .loop m mode init test step body =>
    (enclosed m mode ((((stmt? (mode.regions m here) init).append (exprs test.toList)).append
      (stmt (mode.regions m here) body)).append (exprs step.toList))).left
  | _, .jump _ j => (exprs j.value?.toList).left

theorem stmts : ∀ (here : List Region) (ss : List Stmt),
    WorksAt here (Stmt.agendas ss) (Stmt.listSites here ss)
  | _, [] => nil
  | here, s :: ss => (stmt here s).append (stmts here ss)

theorem stmt? : ∀ (here : List Region) (s : Option Stmt),
    WorksAt here (Stmt.optionAgenda s) (Stmt.optionSites here s)
  | _, none => nil
  | here, some s => stmt here s

theorem switchBody : ∀ (here : List Region) (b : SwitchBody), WorksAt here b.agenda (b.sites here)
  | here, ⟨_, cs⟩ => (cases here cs).left

theorem case : ∀ (here : List Region) (c : Case), WorksAt here c.agenda (c.sites here)
  | here, ⟨_, labels, body⟩ =>
    ((exprs (labels.filterMap Label.value?)).append (stmts here body)).left

theorem cases : ∀ (here : List Region) (cs : List Case),
    WorksAt here (Case.agendas cs) (Case.listSites here cs)
  | _, [] => nil
  | here, c :: cs => (case here c).append (cases here cs)
end

theorem topLevel : ∀ d : TopLevel, WorksAt [] d.agenda d.sites
  | .declaration s => stmt [] s
  | .prototype p => (enclose (signature p)).left
  | .function f => (enclose ((signature f.prototype).append (stmt [f.mark.region] f.body))).left
  | .layout _ => (idle rfl rfl).left

theorem unit (unit : SourceUnit) : WorksAt [] unit.agenda unit.sites :=
  flatMap fun d _ => topLevel d

end WorksAt

end ShaderAnalysis
