import Mathlib.Data.List.Nodup
import ShaderAnalysis.Proofs.Candidates
import ShaderAnalysis.Proofs.Performance

/-!
Every use of a name is resolved by the scoping rule (`identifier_resolution`). At each point of an
analysis the open scopes, as tables from names to variables, agree with the candidates that were
declared so far (`Agrees`): each scope knows the first candidate of its region. Every action keeps
that, and what follows a use leaves the use and the declarations before it alone.
-/

namespace ShaderAnalysis

open Analysis

/-! ### Names of variables that exist -/

/-- Names are bound to variables that exist. -/
def Context.NamesStored (ctx : Context) : Prop :=
  ∀ f ∈ ctx.scopes.frames, ∀ name id, f.vars.get? name = some id → id.index < ctx.vars.size

namespace Context.NamesStored

variable {ctx : Context}

theorem change (h : ctx.NamesStored) (c : Change) (possible : c.Possible ctx) :
    (c.apply ctx).NamesStored := by
  intro f mem name id bound
  refine Nat.lt_of_lt_of_le ?_ (c.vars_size_le ctx)
  rcases Change.bound_vars mem bound with ⟨g, old, same⟩ | rfl
  · exact h g old name id same
  · obtain ⟨v, found, _⟩ := Option.map_eq_some_iff.mp possible
    exact Variables.lt_size_of_get? found

theorem changes {ts : List Touch} {ctx' : Context} (h : ctx.NamesStored)
    (changes : Changes ts ctx ctx') : ctx'.NamesStored :=
  changes.invariant (fun c _ _ possible stored => stored.change c possible) h

theorem initial (o : Options) : (Context.initial o).NamesStored := by
  refine Context.initial_induction (I := NamesStored) ?_ ?_
  · intro f mem name id bound
    simp [Scopes.frames] at mem
    simp [mem] at bound
  · intro ctx h v mem
    have added := h.change (.allocate v) (Builtin.maxAccess_eq_zero mem)
    refine added.change (.bindVariable v.name ctx.vars.nextId) ?_
    simp [Change.Possible, Change.apply, Variables.get?_push]

/-- A name that is bound has a visible variable. -/
theorem visible?_eq_none (h : ctx.NamesStored) {name : String} (hidden : ctx.visible? name = none) :
    ctx.scopes.findVariable? name = none := by
  cases found : ctx.scopes.findVariable? name with
  | none => rfl
  | some id =>
    obtain ⟨f, mem, bound⟩ := List.exists_of_findSome?_eq_some found
    obtain ⟨v, stored⟩ : ∃ v, ctx.vars.get? id = some v :=
      ⟨_, Array.getElem?_eq_getElem (h f mem name id bound)⟩
    simp [Context.visible?, found, stored] at hidden

end Context.NamesStored

/-! ### Predeclared names -/

/-- A variable that is predeclared gets its name if that is free. -/
theorem Context.get?_predeclare (ctx : Context) (v : Variable) (name : String) :
    (ctx.predeclare v).scopes.top.vars.get? name
      = (ctx.scopes.top.vars.get? name).or
          (if v.name = name then some ctx.vars.nextId else none) := by
  cases fresh : ctx.scopes.declareVariable? v.name ctx.vars.nextId with
  | none =>
    have taken := Scopes.declareVariable?_eq_none.mp fresh
    by_cases same : v.name = name
    · subst same
      obtain ⟨earlier, bound⟩ := Option.isSome_iff_exists.mp taken
      simp only [Scopes.findLocal?] at bound
      simp [predeclare, fresh, bound]
    · simp [predeclare, fresh, same]
  | some s =>
    obtain ⟨free, rfl⟩ := Scopes.declareVariable?_eq_some.mp fresh
    by_cases same : v.name = name
    · subst same
      simp only [Scopes.findLocal?] at free
      simp [predeclare, fresh, free]
    · simp [predeclare, fresh, same, Table.get?_set]

theorem predeclaredCandidates_append (vs : List Variable) (v : Variable) (name : String) :
    predeclaredCandidates (vs ++ [v]) name = predeclaredCandidates vs name
      ++ (if v.name = name then [{ regions := [], var := ⟨vs.length⟩ }] else []) := by
  rw [predeclaredCandidates, List.zipIdx_append, List.filterMap_append]
  by_cases named : v.name = name <;> simp [predeclaredCandidates, named]

/-- Predeclared variables are bound at the global scope, a name to the first of them that has it. -/
theorem Context.names_predeclared (vs : List Variable) :
    let ctx := vs.foldl Context.predeclare {}
    ctx.vars.size = vs.length ∧ ctx.scopes.below = [] ∧
      ∀ name, ctx.scopes.top.vars.get? name = firstIn (predeclaredCandidates vs name) [] := by
  induction vs using List.reverseRecOn with
  | nil => exact ⟨rfl, rfl, fun _ => rfl⟩
  | append_singleton vs v ih =>
    obtain ⟨size, below, top⟩ := ih
    rw [List.foldl_append, List.foldl_cons, List.foldl_nil]
    generalize vs.foldl Context.predeclare {} = ctx at size below top
    refine ⟨?_, ?_, ?_⟩
    · simp [predeclare, size]
    · rw [below_predeclare, below]
    · intro name
      have number : ctx.vars.nextId = ⟨vs.length⟩ := by rw [Variables.nextId, size]
      rw [get?_predeclare, predeclaredCandidates_append, firstIn_append, top, number]
      split <;> simp [firstIn]

/-! ### Scopes and candidates -/

/-- The open scopes as tables from names to variables, innermost first. -/
def Scopes.tables (s : Scopes) : List (String → Option VarId) :=
  s.frames.map fun f => f.vars.get?

theorem Scopes.tables_eq (s : Scopes) :
    s.tables = s.top.vars.get? :: (s.below.map (·.vars)).map Table.get? := by
  simp [tables, frames]

/-- The open scopes agree with the candidates behind some sites: the scope of each region around a
place knows the first candidate of that region, and only nodes of the sites have variables. -/
structure Agrees (stage : Stage) (seen : List Site) (here : List Region) (ctx : Context) :
    Prop where
  tables : ctx.scopes.tables
    = here.tails.map fun rs name => firstIn (candidates ctx stage seen name) rs
  known : ∀ id, (ctx.varAt id).isSome → id ∈ seen.map (·.mark.id)

namespace Agrees

variable {stage : Stage} {seen : List Site} {here : List Region} {ctx ctx' : Context}

/-- Looking a name up asks the scopes in order for the first candidates of their regions. -/
theorem findVariable?_eq (h : Agrees stage seen here ctx) (name : String) :
    ctx.scopes.findVariable? name
      = here.tails.findSome? (firstIn (candidates ctx stage seen name)) := by
  have asked : ctx.scopes.findVariable? name = ctx.scopes.tables.findSome? fun t => t name := by
    simp [Scopes.findVariable?, Scopes.tables, List.findSome?_map, Function.comp_def]
  rw [asked, h.tables, List.findSome?_map]
  rfl

theorem steady (h : Agrees stage seen here ctx) (same : Steady ctx ctx') :
    Agrees stage seen here ctx' := by
  constructor
  · rw [Scopes.tables_eq, same.below, same.top, ← Scopes.tables_eq, h.tables,
      candidates_congr fun s _ => same.vars s.mark.id]
  · intro id given
    rw [same.vars] at given
    exact h.known id given

/-- The regions around a place, and those around its innermost region. -/
theorem tails_eq (here : List Region) :
    ∃ rest, here.tails = here :: rest ∧ ∀ rs ∈ rest, rs ≠ here := by
  cases here with
  | nil => exact ⟨[], rfl, by simp⟩
  | cons r rs =>
    refine ⟨rs.tails, by simp, ?_⟩
    intro outer mem same
    have shorter := ((List.mem_tails _ _).mp mem).length_le
    rw [same, List.length_cons] at shorter
    omega

/-- What other nodes are linked to does not make candidates of sites behind a new one. -/
theorem candidates_eq {u : Site} (fresh : u.mark.id ∉ seen.map (·.mark.id))
    (others : ∀ id, id ≠ u.mark.id → ctx'.varAt id = ctx.varAt id) :
    candidates ctx' stage seen = candidates ctx stage seen := by
  refine candidates_congr fun s mem => others _ ?_
  intro same
  exact fresh (same ▸ List.mem_map_of_mem mem)

/-- Only nodes of sites have variables, if that of one more site may have been given one. -/
theorem known_append (h : Agrees stage seen here ctx) {u : Site}
    (others : ∀ id, id ≠ u.mark.id → ctx'.varAt id = ctx.varAt id) {id : NodeId}
    (given : (ctx'.varAt id).isSome) : id ∈ (seen ++ [u]).map (·.mark.id) := by
  by_cases same : id = u.mark.id
  · simp [same]
  · rw [others id same] at given
    rw [List.map_append]
    exact List.mem_append_left _ (h.known id given)

/-- Declaring a name at a site adds a candidate to the innermost region. -/
theorem binds (h : Agrees stage seen here ctx) {s : Site} (declares : s.role = .declares)
    (inside : s.regions = here) (fresh : s.mark.id ∉ seen.map (·.mark.id))
    (bound : Binds s.mark.id s.name ctx ctx') : Agrees stage (seen ++ [s]) here ctx' := by
  have old : candidates ctx' stage seen = candidates ctx stage seen :=
    candidates_eq fresh bound.others
  have first : ∀ name rs, firstIn (candidates ctx' stage (seen ++ [s]) name) rs
      = (firstIn (candidates ctx stage seen name) rs).or
        (if s.name = name ∧ here = rs then ctx'.varAt s.mark.id else none) := by
    intro name rs
    rw [candidates_append, firstIn_append, old]
    cases given : ctx'.varAt s.mark.id with
    | none => simp [Site.candidate?, given, firstIn]
    | some id =>
      by_cases named : s.name = name <;> by_cases same : here = rs <;>
        simp [Site.candidate?, given, firstIn, declares, inside, named, same]
  constructor
  · obtain ⟨rest, tails, outside⟩ := tails_eq here
    have tables := h.tables
    rw [Scopes.tables_eq, tails, List.map_cons, List.cons.injEq] at tables
    rw [Scopes.tables_eq, tails, List.map_cons, List.cons.injEq, bound.below, tables.2]
    constructor
    · funext name
      rw [bound.top, tables.1, first]
      simp
    · refine List.map_congr_left ?_
      intro rs mem
      funext name
      simp [first, Ne.symm (outside rs mem)]
  · intro id given
    exact h.known_append bound.others given

/-- Declaring names at sites, each with a node of its own. -/
theorem declares {ss : List Site} (h : Agrees stage seen here ctx) (declared : Declares ss ctx ctx')
    (inside : ∀ s ∈ ss, s.role = .declares ∧ s.regions = here)
    (distinct : ((seen ++ ss).map (·.mark.id)).Nodup) : Agrees stage (seen ++ ss) here ctx' := by
  induction declared generalizing seen with
  | nil same => simpa using h.steady same
  | @cons s ss ctx between ctx' first rest ih =>
    obtain ⟨role, regions⟩ := inside s (by simp)
    have fresh : s.mark.id ∉ seen.map (·.mark.id) := by
      intro mem
      rw [List.map_append, List.map_cons] at distinct
      exact List.disjoint_of_nodup_append distinct mem List.mem_cons_self
    have here := h.binds role regions fresh first
    have all := ih here (fun t mem => inside t (by simp [mem])) (by simpa using distinct)
    simpa using all

/-- Resolving a use gives a variable to its node only. -/
theorem use (h : Agrees stage seen here ctx) {u : Site} (role : u.role = .use)
    (fresh : u.mark.id ∉ seen.map (·.mark.id)) (tables : ctx'.scopes.tables = ctx.scopes.tables)
    (others : ∀ id, id ≠ u.mark.id → ctx'.varAt id = ctx.varAt id) :
    Agrees stage (seen ++ [u]) here ctx' := by
  constructor
  · rw [tables, h.tables, candidates_append_use _ _ _ role, candidates_eq fresh others]
  · intro id given
    exact h.known_append others given

/-- A scope that is opened for a new region knows no names, and the region has no candidates. -/
theorem openScope (h : Agrees stage seen here ctx) {r : Region}
    (new : ∀ s ∈ seen, r ∉ s.regions) :
    Agrees stage seen (r :: here) (Change.openScope.apply ctx) := by
  have none : ∀ name, firstIn (candidates ctx stage seen name) (r :: here) = none := by
    refine fun name => firstIn_eq_none.mpr ?_
    intro c mem same
    rcases regions_of_mem_candidates mem with outermost | ⟨s, seen, inside⟩
    · simp [outermost] at same
    · exact new s seen (by simp [← inside, same])
  constructor
  · have tables : ctx.scopes.push.tables = (fun _ => Option.none) :: ctx.scopes.tables := rfl
    have same :
        candidates (Change.openScope.apply ctx) stage seen = candidates ctx stage seen := rfl
    rw [same, Change.apply, tables, h.tables, List.tails_cons, List.map_cons, List.cons.injEq]
    exact ⟨funext fun name => (none name).symm, rfl⟩
  · exact h.known

/-- Only the scope of a region can be closed. -/
theorem closeScope (h : Agrees stage seen here ctx)
    (run : Analysis.closeScope ctx = .ok () ctx') : Agrees stage seen here.tail ctx' := by
  have tables := h.tables
  rw [Scopes.tables_eq] at tables
  simp only [Analysis.closeScope, AnalysisM.run_get_bind] at run
  cases below : ctx.scopes.below with
  | nil => simp [Scopes.pop?, below] at run
  | cons f fs =>
    simp only [Scopes.pop?, below, AnalysisM.run_set] at run
    cases run
    cases here with
    | nil => simp [below] at tables
    | cons r rs =>
      rw [List.tails_cons, List.map_cons, List.cons.injEq, below] at tables
      refine ⟨?_, h.known⟩
      rw [Scopes.tables_eq]
      exact tables.2

/-- Before any source is seen there are the predeclared variables, each under its own number. -/
theorem initial (o : Options) : Agrees o.stage [] [] (.initial o) := by
  obtain ⟨_, below, top⟩ := Context.names_predeclared (Builtin.stageVariables o.stage)
  constructor
  · have outermost : (Context.initial o).scopes.top.vars.get?
        = fun name => firstIn (candidates (.initial o) o.stage [] name) [] := by
      funext name
      exact (top name).trans (by simp [candidates])
    rw [Scopes.tables_eq, outermost, show (Context.initial o).scopes.below = [] from below]
    rfl
  · intro id given
    simp [Context.varAt, Context.annotations_initial, Annotations.ofNode] at given

end Agrees

/-! ### One action -/

/-- The sites of an action are in the regions that are open, and those of a declaring action
declare. -/
theorem Action.sites_here {here : List Region} {a : Action} {s : Site} (mem : s ∈ a.sites here) :
    s.regions = here ∧ (a.Declaring → s.role = .declares) := by
  cases a with
  | check e =>
    refine ⟨?_, fun declaring => absurd declaring id⟩
    cases e <;> simp_all [sites, Expr.use]
  | bindName list d => simp_all [sites, Declarator.site]
  | bindBlock m b =>
    cases named : b.instanceName with
    | some name => simp_all [sites, BlockDecl.sites]
    | none =>
      simp only [sites, BlockDecl.sites, named, List.mem_map] at mem
      obtain ⟨d, _, rfl⟩ := mem
      exact ⟨rfl, fun _ => rfl⟩
  | bindParameter p =>
    obtain ⟨name, _, rfl⟩ := List.mem_map.mp mem
    exact ⟨rfl, fun _ => rfl⟩
  | _ => simp [sites] at mem

/-- The sites of an action are among the nodes that it works at. -/
theorem Action.sites_sublist (here : List Region) (a : Action) :
    ((a.sites here).map (·.mark.id)).Sublist (a.homesIn .finding) := by
  cases a with
  | openScope r => exact List.nil_sublist _
  | check e => cases e <;> simp [sites, Expr.use, homesIn, phase, homes, Expr.id, Expr.mark]
  | bindName list d => simp [sites, Declarator.site, homesIn, phase, homes]
  | bindBlock m b =>
    cases named : b.instanceName <;>
      simp [sites, BlockDecl.sites, BlockDecl.binders, homesIn, phase, homes, named,
        Declarator.site, Function.comp_def]
  | bindParameter p =>
    cases named : p.name <;> simp [sites, Parameter.sites, homesIn, phase, homes, named]
  | _ => simp [sites, homesIn]

theorem sitesOf_sublist (here : List Region) (as : List Action) :
    ((sitesOf here as).map (·.mark.id)).Sublist (homes .finding as) := by
  induction as generalizing here with
  | nil => exact List.nil_sublist _
  | cons a as ih =>
    rw [sitesOf, List.map_append, homes_cons]
    exact (a.sites_sublist here).append (ih _)

/-- The sites of a unit with distinct numbers are at different nodes. -/
theorem SourceUnit.nodup_sites {unit : SourceUnit} (distinct : unit.ids.Nodup) :
    (unit.sites.map (·.mark.id)).Nodup := by
  rw [← (WorksAt.unit unit).sites]
  exact (sitesOf_sublist [] unit.agenda).nodup (nodup_homes distinct .finding)

/-- Where sites are at different nodes, a node is that of one site, which stands at one place. -/
theorem place_unique {sites before after before' after' : List Site} {s s' : Site}
    (distinct : (sites.map (·.mark.id)).Nodup) (first : sites = before ++ s :: after)
    (second : sites = before' ++ s' :: after') (node : s.mark.id = s'.mark.id) :
    before = before' ∧ s = s' := by
  rw [first, List.map_append, List.map_cons, node] at distinct
  have apart := (List.nodup_cons.mp (List.nodup_middle.mp distinct)).1
  have notBefore : s' ∉ before := fun mem =>
    apart (List.mem_append_left _ (List.mem_map_of_mem mem))
  have notAfter : s' ∉ after := fun mem =>
    apart (List.mem_append_right _ (List.mem_map_of_mem mem))
  have split := first.symm.trans second
  rw [List.append_cons_inj_of_notMem notBefore notAfter] at split
  exact ⟨split.1, split.2.1⟩

/-- The regions around the sites of actions were open before, or are opened by one of them. -/
theorem owner_mem_homes {as : List Action} {here : List Region} {r : Region}
    (inside : r ∈ pathAfter here as ∨ ∃ s ∈ sitesOf here as, r ∈ s.regions) :
    r ∈ here ∨ r.owner ∈ homes (Action.openScope r).phase as := by
  induction as generalizing here with
  | nil => exact .inl (by simpa [pathAfter, sitesOf] using inside)
  | cons a as ih =>
    have later : r ∈ a.path here ∨ r.owner ∈ homes (Action.openScope r).phase as →
        r ∈ here ∨ r.owner ∈ homes (Action.openScope r).phase (a :: as) := by
      rintro (mem | mem)
      · cases a with
        | openScope r' =>
          rcases List.mem_cons.mp mem with rfl | old
          · exact .inr (by simp [homes_cons, Action.homesIn, Action.homes])
          · exact .inl old
        | closeScope => exact .inl (List.mem_of_mem_tail mem)
        | _ => exact .inl mem
      · exact .inr (by simp [homes_cons, mem])
    rcases inside with path | ⟨s, mem, around⟩
    · exact later (ih (.inl path))
    · rcases List.mem_append.mp mem with own | rest
      · exact .inl ((Action.sites_here own).1 ▸ around)
      · exact later (ih (.inr ⟨s, rest, around⟩))

/-- Looking at an expression gives a variable to the use that it is, if it is one. -/
theorem Agrees.check {stage : Stage} {seen : List Site} {here : List Region} {e : Expr}
    {ctx ctx' : Context} (h : Agrees stage seen here ctx)
    (fresh : ∀ s ∈ e.use here, s.mark.id ∉ seen.map (·.mark.id))
    (changes : Changes (Action.check e).touches ctx ctx') :
    Agrees stage (seen ++ e.use here) here ctx' := by
  cases e with
  | ident m name =>
    have nameless : ∀ t ∈ (Action.check (.ident m name)).touches, t.Nameless := by
      simp [Action.touches, Expr.touches, Touch.Nameless]
    obtain ⟨below, top⟩ := changes.names_eq nameless
    have tables : ctx'.scopes.tables = ctx.scopes.tables := by
      rw [Scopes.tables_eq, Scopes.tables_eq, below, top]
    have others : ∀ id, id ≠ m.id → ctx'.varAt id = ctx.varAt id := by
      intro id other
      refine changes.agree (n := .var) ?_
      simp [Action.touches, Expr.touches, other]
    exact h.use rfl (fresh _ (List.mem_singleton_self _)) tables others
  | _ =>
    have same := changes.steady (by simp [Action.touches, Expr.touches, Touch.Still])
    simpa [Expr.use] using h.steady same

/-- The region of a scope that is opened is around none of the sites so far, if its owner has opened
no scope before. -/
theorem notMem_regions_of_open {done : List Action} {r : Region}
    (distinct : (homes (Action.openScope r).phase (done ++ [.openScope r])).Nodup) :
    ∀ s ∈ sitesOf [] done, r ∉ s.regions := by
  intro s mem around
  rw [homes_append] at distinct
  rcases owner_mem_homes (.inr ⟨s, mem, around⟩) with nowhere | old
  · simp at nowhere
  · refine List.disjoint_of_nodup_append distinct old ?_
    simp [homes, Action.homesIn, Action.homes]

/-- A declaring action adds the candidates that its sites are. -/
theorem Agrees.act_declaring {env : Env} {stage : Stage} {seen : List Site} {here : List Region}
    {a : Action} {base b : Ty} {ctx ctx' : Context} (h : Agrees stage seen here ctx)
    (run : a.act env base ctx = .ok b ctx') (own : (a.homesIn .finding).Nodup)
    (distinct : ((seen ++ a.sites here).map (·.mark.id)).Nodup) (declaring : a.Declaring) :
    Agrees stage (seen ++ a.sites here) here ctx' := by
  have fresh : ∀ s ∈ a.sites here, ctx.varAt s.mark.id = none := by
    intro s mem
    by_contra given
    rw [List.map_append] at distinct
    exact List.disjoint_of_nodup_append distinct
      (h.known _ (Option.isSome_iff_ne_none.mpr given)) (List.mem_map_of_mem mem)
  have declares := a.declares env base here declaring own ctx fresh
  rw [run] at declares
  refine h.declares declares ?_ distinct
  intro s mem
  obtain ⟨regions, role⟩ := Action.sites_here mem
  exact ⟨role declaring, regions⟩

/-- An action that goes well keeps the agreement, if no action before it was of its kind and at its
node. -/
theorem Agrees.act {env : Env} {stage : Stage} {done : List Action} {a : Action} {base b : Ty}
    {ctx ctx' : Context} (h : Agrees stage (sitesOf [] done) (pathAfter [] done) ctx)
    (distinct : ∀ k, (homes k (done ++ [a])).Nodup) (run : a.act env base ctx = .ok b ctx') :
    Agrees stage (sitesOf [] (done ++ [a])) (pathAfter [] (done ++ [a])) ctx' := by
  have ids := (sitesOf_sublist [] (done ++ [a])).nodup (distinct .finding)
  have own : (a.homesIn .finding).Nodup := by
    have all := distinct .finding
    rw [homes_append] at all
    simpa [homes] using all.of_append_right
  simp only [sitesOf_append, pathAfter_append, sitesOf_singleton, pathAfter_singleton] at ids ⊢
  cases a with
  | openScope r =>
    have opened := h.openScope (notMem_regions_of_open (distinct _))
    cases run
    simpa [Action.sites, Action.path, Change.apply] using opened
  | closeScope =>
    obtain ⟨⟨_, popped⟩, _⟩ := AnalysisM.run_giving_ok run
    have closed := h.closeScope popped
    simpa [Action.sites, Action.path] using closed
  | check e =>
    have changes := (Action.check e).confined env base ctx
    rw [run] at changes
    refine h.check ?_ changes
    intro s mem old
    rw [List.map_append] at ids
    exact List.disjoint_of_nodup_append ids old (List.mem_map_of_mem mem)
  | _ => exact h.act_declaring run own ids trivial

/-- The agreement holds wherever the actions so far went well. -/
theorem Agrees.perform {env : Env} {done : List Action} {b : Ty} {ctx : Context}
    (distinct : ∀ ph, (homes ph done).Nodup)
    (run : perform env done .void (.initial env.options) = .ok b ctx) :
    Agrees env.options.stage (sitesOf [] done) (pathAfter [] done) ctx := by
  induction done using List.reverseRecOn generalizing b ctx with
  | nil =>
    cases run
    exact Agrees.initial env.options
  | append_singleton as a ih =>
    obtain ⟨c, between, _, after, first, act, rest⟩ := perform_split_ok run
    cases rest
    refine (ih (fun ph => ?_) first).act distinct act
    have all := distinct ph
    rw [homes_append] at all
    exact all.of_append_left

/-! ### Uses -/

/-- A use whose node has no variable yet is linked to the variable that its name has, or ends the
analysis. -/
theorem act_check_ident (env : Env) (m : Mark) (name : String) (base : Ty) {ctx : Context}
    (fresh : ctx.varAt m.id = none) :
    (ctx.visible? name = none ∧ (Action.check (.ident m name)).act env base ctx
      = .error (.undefinedVariable name m.span) ctx) ∨
    ∃ id v after, ctx.visible? name = some (id, v) ∧
      (Action.check (.ident m name)).act env base ctx = .ok base after ∧
      after.varAt m.id = some id := by
  rcases resolveIdentifier_cases env.options m name ctx with
    ⟨given, _⟩ | ⟨_, hidden, failed⟩ | ⟨id, v, r, entry, _, visible, found⟩
  · rw [show (ctx.annotations.ofNode m.id).var = none from fresh] at given
    simp at given
  · have prepared : prepare env (.ident m name) ctx
        = .error (.undefinedVariable name m.span) ctx := failed
    refine .inl ⟨hidden, ?_⟩
    rw [Action.act, AnalysisM.run_bind_of_error]
    exact AnalysisM.run_bind_of_error prepared _
  · let linked := (Change.annotate m.id (.reflection entry)).apply
      ((Change.annotate m.id (.var id)).apply ((Change.setReflection r).apply ctx))
    have prepared : prepare env (.ident m name) ctx = .ok () linked := found
    let ty := (Expr.ident m name).typeOf env linked
    let after :=
      (Change.annotate m.id (.ty ty.value)).apply ((Change.note ty.problems).apply linked)
    have checked : checkExpr env (.ident m name) ctx = .ok () after :=
      AnalysisM.run_bind_of_ok prepared _
    refine .inr ⟨id, v, after, visible, AnalysisM.run_bind_of_ok checked _, ?_⟩
    simp [Context.varAt, Annotations.ofNode_update, Slot.write, Change.apply, after, linked]

/-- After some actions that went well the analysis goes on with those that are left. -/
theorem analyze_of_perform {env : Env} {unit : SourceUnit} {done rest : List Action} {b : Ty}
    {ctx : Context} (agenda : unit.agenda = done ++ rest)
    (run : perform env done .void (.initial env.options) = .ok b ctx) :
    analyze env unit = (do let _ ← perform env rest b : AnalysisM Unit) ctx := by
  rw [analyze_eq, agenda, perform_append, bind_assoc]
  exact AnalysisM.run_bind_of_ok run _

/-- A use that is looked at stands behind the sites of the actions before. -/
theorem sites_of_agenda {unit : SourceUnit} {done rest : List Action} {m : Mark} {name : String}
    (agenda : unit.agenda = done ++ .check (.ident m name) :: rest) :
    unit.sites = sitesOf [] done
      ++ { role := .use, mark := m, name := name, regions := pathAfter [] done }
        :: sitesOf (pathAfter [] done) rest := by
  rw [← (WorksAt.unit unit).sites, agenda, sitesOf_append]
  rfl

/-- The actions that are left do not change which candidates the sites so far are. -/
theorem candidates_reached {env : Env} {done rest : List Action}
    (apart : (homes .finding done).Disjoint (homes .finding rest)) (stage : Stage) (b : Ty)
    (ctx : Context) : candidates (Context.reached (perform env rest b ctx)) stage (sitesOf [] done)
      = candidates ctx stage (sitesOf [] done) := by
  refine candidates_congr ?_
  intro s mem
  refine agree_reached_perform (.inl rfl) ?_ ctx
  exact apart ((sitesOf_sublist [] done).subset (List.mem_map_of_mem mem))

/-- In a unit with distinct numbers every identifier that is visited is a site, in some regions and
behind some other sites. Of the candidates that those sites and the builtin variables are, it is
linked to the one that counts at its place, if one reaches it. If none does, the analysis ends
there, since the name is undefined. -/
theorem identifier_resolution {env : Env} {unit : SourceUnit} (distinct : unit.ids.Nodup)
    {m : Mark} {name : String} (visited : Visited env unit (.ident m name)) :
    (∃ here, { role := .use, mark := m, name := name, regions := here } ∈ unit.sites) ∧
    ∀ before after here, unit.sites
        = before ++ { role := .use, mark := m, name := name, regions := here } :: after →
      let final := Context.reached (analyze env unit)
      let cs := candidates final env.options.stage before name
      ((∃ c ∈ cs, c.Reaches here) → ∃ c, Chosen here cs c ∧ final.varAt m.id = some c.var) ∧
      ((∀ c ∈ cs, ¬ c.Reaches here) →
        analyze env unit = .error (.undefinedVariable name m.span) final) := by
  obtain ⟨done, rest, b, ctx, agenda, run⟩ := visited
  have sites := sites_of_agenda agenda
  have once := nodup_homes distinct
  rw [agenda] at once
  simp only [homes_append] at once
  have apart := List.disjoint_of_nodup_append (once .finding)
  have agrees := Agrees.perform (fun k => (once k).of_append_left) run
  refine ⟨⟨_, by rw [sites]; exact List.mem_append_right _ List.mem_cons_self⟩, ?_⟩
  intro before after here place final cs
  obtain ⟨rfl, same⟩ := place_unique (SourceUnit.nodup_sites distinct) place sites rfl
  cases same
  have final_eq : final = Context.reached (perform env (.check (.ident m name) :: rest) b ctx) := by
    rw [← Context.reached_giving, ← analyze_of_perform agenda run]
  have asked := agrees.findVariable?_eq name
  rw [← candidates_reached apart env.options.stage b ctx, ← final_eq] at asked
  have fresh : ctx.varAt m.id = none := by
    by_contra given
    have mem := agrees.known m.id (Option.isSome_iff_ne_none.mpr given)
    exact apart ((sitesOf_sublist [] done).subset mem) List.mem_cons_self
  rcases act_check_ident env m name b fresh with
    ⟨hidden, failed⟩ | ⟨id, v, linked, visible, found, given⟩
  · have stored := (Context.NamesStored.initial env.options).changes (changes_of_perform run)
    rw [stored.visible?_eq_none hidden] at asked
    constructor
    · rintro ⟨c, mem, reaches⟩
      exact absurd reaches (not_reaches_of_findSome? asked.symm c mem)
    · intro _
      have ended := AnalysisM.run_bind_of_error failed (perform env rest)
      rw [← perform_cons] at ended
      rw [final_eq, ended, analyze_of_perform agenda run]
      exact AnalysisM.run_bind_of_error ended _
  · rw [(Context.visible?_eq_some.mp visible).1] at asked
    obtain ⟨c, chosen, var⟩ := exists_chosen asked.symm
    constructor
    · intro _
      have later : m.id ∉ homes .finding rest :=
        List.disjoint_of_nodup_append (once .finding).of_append_right List.mem_cons_self
      refine ⟨c, chosen, ?_⟩
      rw [final_eq, perform_cons, AnalysisM.run_bind_of_ok found, var, ← given]
      exact agree_reached_perform (.inl rfl) later linked
    · intro none
      exact absurd chosen.1 (none c chosen.mem)

theorem identifier_resolution_shadowing :
    ∃ final before after here c, analyze (.standard {}) Sample.shadowing = .ok () final ∧
      Sample.shadowing.sites
        = before ++ { role := .use, mark := Sample.mark 6, name := "x", regions := here } :: after ∧
      Chosen here (candidates final .fragment before "x") c ∧ final.varAt ⟨6⟩ = some c.var := by
  obtain ⟨final, run⟩ := exists_of_completes
    (show completes (.standard {}) Sample.shadowing = true by decide +kernel)
  have mem : .check (.ident (Sample.mark 6) "x") ∈ Sample.shadowing.agenda := by
    simp [Sample.shadowing, Sample.main, Sample.body, Sample.store, SourceUnit.agenda,
      TopLevel.agenda, FunctionDef.agenda, Region.enclose, Stmt.agenda, Stmt.agendas, Expr.agenda,
      Expr.postorder, Expr.own]
  obtain ⟨⟨here, site⟩, places⟩ := identifier_resolution (by decide) (visited_of_analyze run mem)
  obtain ⟨before, after, sites⟩ := List.append_of_mem site
  obtain ⟨resolved, undefined⟩ := places before after here sites
  rw [run] at resolved undefined
  by_cases known : ∃ c ∈ candidates final .fragment before "x", c.Reaches here
  · obtain ⟨c, chosen, linked⟩ := resolved known
    exact ⟨final, before, after, here, c, run, sites, chosen, linked⟩
  · have failed := undefined fun c mem reaches => known ⟨c, mem, reaches⟩
    cases failed

end ShaderAnalysis
