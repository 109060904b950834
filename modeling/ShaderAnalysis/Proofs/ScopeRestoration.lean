import ShaderAnalysis.Proofs.Following
import ShaderAnalysis.Proofs.Footprint

/-!
Scopes over a visit. Agendas are balanced: they close the scopes that they open, and no others. So a
visit that is not broken off leaves the scopes around the innermost one alone and only adds to that
one; and it adds nothing where all that binds stands in a scope of the visit's own. A visit that is
broken off leaves scopes open, but the old ones are still there under them.
-/

namespace ShaderAnalysis

open Analysis

/-! ### Growth of scopes -/

/-- Another frame has the bindings of a frame, and maybe more. -/
structure Frame.ExtendedBy (f f' : Frame) : Prop where
  vars : ∀ {name : String} {id : VarId}, f.vars.get? name = some id → f'.vars.get? name = some id
  types : ∀ {name : String} {ty : Ty}, f.types.get? name = some ty → f'.types.get? name = some ty

namespace Frame.ExtendedBy

variable {f f' f'' : Frame}

theorem refl (f : Frame) : f.ExtendedBy f :=
  ⟨fun h => h, fun h => h⟩

theorem trans (h : f.ExtendedBy f') (h' : f'.ExtendedBy f'') : f.ExtendedBy f'' :=
  ⟨fun bound => h'.vars (h.vars bound), fun bound => h'.types (h.types bound)⟩

end Frame.ExtendedBy

namespace Scopes

/-- Scopes come from others by declarations in the innermost one. -/
structure Grows (s s' : Scopes) : Prop where
  below : s'.below = s.below
  top : s.top.ExtendedBy s'.top

/-- Scopes are still there, the innermost one with more declarations, under others maybe. -/
def Survives (s s' : Scopes) : Prop :=
  ∃ opened f, s'.frames = opened ++ f :: s.below ∧ s.top.ExtendedBy f

variable {s s' s'' : Scopes}

namespace Grows

theorem refl (s : Scopes) : s.Grows s :=
  ⟨rfl, .refl s.top⟩

theorem trans (h : s.Grows s') (h' : s'.Grows s'') : s.Grows s'' :=
  ⟨h'.below.trans h.below, h.top.trans h'.top⟩

theorem survives (h : s.Grows s') : s.Survives s' :=
  ⟨[], s'.top, by simp [frames, h.below], h.top⟩

theorem trans_survives (h : s.Grows s') (h' : s'.Survives s'') : s.Survives s'' := by
  obtain ⟨opened, f, frames, top⟩ := h'
  exact ⟨opened, f, by rw [frames, h.below], h.top.trans top⟩

theorem depth (h : s.Grows s') : s'.depth = s.depth := by
  simp [Scopes.depth, h.below]

/-- What has grown in a scope of its own is closed again. -/
theorem pop?_of_push (h : s.push.Grows s') : s'.pop? = some (s'.top, s) := by
  have below : s'.below = s.top :: s.below := h.below
  simp [pop?, below]

theorem of_declareVariable? {name : String} {id : VarId}
    (h : s.declareVariable? name id = some s') : s.Grows s' := by
  obtain ⟨free, rfl⟩ := declareVariable?_eq_some.mp h
  refine ⟨rfl, ?_, fun bound => bound⟩
  intro other i bound
  have other_ne : name ≠ other := by
    rintro rfl
    simp_all [findLocal?]
  simpa [Table.get?_set, other_ne] using bound

theorem of_declareType? {name : String} {ty : Ty} (h : s.declareType? name ty = some s') :
    s.Grows s' := by
  obtain ⟨free, rfl⟩ := declareType?_eq_some.mp h
  refine ⟨rfl, fun bound => bound, ?_⟩
  intro other t bound
  have other_ne : name ≠ other := by
    rintro rfl
    simp_all
  simpa [Table.get?_set, other_ne] using bound

end Grows

/-- What survives in a scope of its own leaves the scopes around it alone. -/
theorem Survives.of_push (h : s.push.Survives s') : s.Survives s' := by
  obtain ⟨opened, f, frames, _⟩ := h
  exact ⟨opened ++ [f], s.top, by simpa [push, Scopes.frames] using frames, .refl s.top⟩

theorem Survives.depth_le (h : s.Survives s') : s.depth ≤ s'.depth := by
  obtain ⟨opened, f, frames, _⟩ := h
  have lengths := congrArg List.length frames
  simp only [Scopes.frames, List.length_cons, List.length_append] at lengths
  unfold depth
  omega

end Scopes

/-! ### Scopes under changes -/

namespace Changes

variable {ts : List Touch} {ctx ctx' : Context}

/-- Only the opening and the closing of scopes do more to them than to declare. -/
theorem grows (h : Changes ts ctx ctx') (opens : .opening ∉ ts) (closes : .closing ∉ ts) :
    ctx.scopes.Grows ctx'.scopes := by
  refine h.invariant (I := fun between => ctx.scopes.Grows between.scopes) ?_ (.refl _)
  intro c mem between _ grown
  cases c with
  | openScope => exact absurd mem opens
  | closeScope => exact absurd mem closes
  | bindVariable name id =>
    refine grown.trans ?_
    cases declared : between.scopes.declareVariable? name id with
    | none => simpa [Change.apply, declared] using Scopes.Grows.refl _
    | some s => simpa [Change.apply, declared] using Scopes.Grows.of_declareVariable? declared
  | bindType name ty =>
    refine grown.trans ?_
    cases declared : between.scopes.declareType? name ty with
    | none => simpa [Change.apply, declared] using Scopes.Grows.refl _
    | some s => simpa [Change.apply, declared] using Scopes.Grows.of_declareType? declared
  | _ => exact grown

/-- What declares nothing and opens and closes no scope keeps the scopes. -/
theorem scopes_same (h : Changes ts ctx ctx')
    (quiet : ∀ t ∈ ts, t ∉ [.opening, .closing, .names, .types]) : ctx'.scopes = ctx.scopes := by
  refine h.same (·.scopes) ?_
  intro c mem _
  have untouched := quiet _ mem
  cases c <;> first | rfl | simp at untouched

end Changes

/-! ### Balanced actions -/

namespace Action

/-- An action that neither opens nor closes a scope. -/
def Plain : Action → Prop
  | .openScope _ | .closeScope => False
  | _ => True

/-- An action that does nothing to scopes. -/
def Quiet : Action → Prop
  | .check _ | .applyLayout _ | .leave _ => True
  | _ => False

theorem plain_of_quiet {a : Action} (h : a.Quiet) : a.Plain := by
  cases a <;> trivial

theorem Plain.notMem_touches {a : Action} (h : a.Plain) :
    .opening ∉ a.touches ∧ .closing ∉ a.touches := by
  cases a with
  | openScope | closeScope => exact absurd h id
  | check e => cases e <;> simp [touches, Expr.touches]
  | _ => simp [touches, bindingTouches]

theorem Quiet.notMem_touches {a : Action} (h : a.Quiet) :
    ∀ t ∈ a.touches, t ∉ [.opening, .closing, .names, .types] := by
  cases a with
  | check e => cases e <;> simp [touches, Expr.touches]
  | applyLayout l => simp [touches]
  | leave n => simp [touches]
  | _ => exact absurd h id

end Action

/-- Actions that close the scopes that they open, and no others. -/
inductive Balanced : List Action → Prop
  | nil : Balanced []
  | plain {a : Action} {as : List Action} : a.Plain → Balanced as → Balanced (a :: as)
  | enclosed {r : Region} {inner rest : List Action} :
    Balanced inner → Balanced rest → Balanced (r.enclose inner ++ rest)

/-- Balanced actions that declare only in scopes that they open. -/
inductive Sealed : List Action → Prop
  | nil : Sealed []
  | quiet {a : Action} {as : List Action} : a.Quiet → Sealed as → Sealed (a :: as)
  | enclosed {r : Region} {inner rest : List Action} :
    Balanced inner → Sealed rest → Sealed (r.enclose inner ++ rest)

theorem Sealed.balanced {as : List Action} (h : Sealed as) : Balanced as := by
  induction h with
  | nil => exact .nil
  | quiet quiet _ ih => exact .plain (Action.plain_of_quiet quiet) ih
  | enclosed inner _ ih => exact .enclosed inner ih

namespace Balanced

variable {as bs : List Action}

theorem append (h : Balanced as) (h' : Balanced bs) : Balanced (as ++ bs) := by
  induction h with
  | nil => exact h'
  | plain plain _ ih => exact .plain plain ih
  | enclosed inner _ _ ih =>
    rw [List.append_assoc]
    exact .enclosed inner ih

theorem enclose (r : Region) (h : Balanced as) : Balanced (r.enclose as) := by
  simpa using Balanced.enclosed (r := r) h .nil

theorem single {a : Action} (h : a.Plain) : Balanced [a] :=
  .plain h .nil

theorem leave (n : Node) : Balanced [.leave n] :=
  single trivial

end Balanced

namespace Sealed

variable {as bs : List Action}

theorem append (h : Sealed as) (h' : Sealed bs) : Sealed (as ++ bs) := by
  induction h with
  | nil => exact h'
  | quiet quiet _ ih => exact .quiet quiet ih
  | enclosed inner _ ih =>
    rw [List.append_assoc]
    exact .enclosed inner ih

theorem enclose (r : Region) (h : Balanced as) : Sealed (r.enclose as) := by
  simpa using Sealed.enclosed (r := r) h .nil

theorem leave (n : Node) : Sealed [.leave n] :=
  .quiet trivial .nil

theorem flatMap {α : Type} {f : α → List Action} {xs : List α} (h : ∀ x ∈ xs, Sealed (f x)) :
    Sealed (xs.flatMap f) := by
  induction xs with
  | nil => exact .nil
  | cons x xs ih =>
    rw [List.flatMap_cons]
    exact (h x (by simp)).append (ih fun y hy => h y (by simp [hy]))

end Sealed

/-! ### Performing balanced actions -/

/-- Scopes around a step: they grow, or, if it fails, survive. -/
def GrowsScopes {α : Type} (ctx : Context) : EStateM.Result Fatal Context α → Prop
  | .ok _ ctx' => ctx.scopes.Grows ctx'.scopes
  | .error _ ctx' => ctx.scopes.Survives ctx'.scopes

theorem Action.growsScopes (env : Env) (base : Ty) {a : Action} (plain : a.Plain) (ctx : Context) :
    GrowsScopes ctx (a.act env base ctx) := by
  have changes := a.confined env base ctx
  have grows := changes.grows plain.notMem_touches.1 plain.notMem_touches.2
  cases outcome : a.act env base ctx with
  | ok b ctx' =>
    rw [outcome] at grows
    exact grows
  | error e ctx' =>
    rw [outcome] at grows
    exact grows.survives

theorem GrowsScopes.bind {α β : Type} {m : AnalysisM α} {f : α → AnalysisM β} {ctx : Context}
    (first : GrowsScopes ctx (m ctx)) (rest : ∀ a between, GrowsScopes between (f a between)) :
    GrowsScopes ctx ((m >>= f) ctx) := by
  cases outcome : m ctx with
  | error e between =>
    rw [AnalysisM.run_bind_of_error outcome]
    rwa [outcome] at first
  | ok a between =>
    rw [AnalysisM.run_bind_of_ok outcome]
    rw [outcome] at first
    have last := rest a between
    cases after : f a between with
    | ok b ctx' =>
      rw [after] at last
      exact Scopes.Grows.trans first last
    | error e ctx' =>
      rw [after] at last
      exact Scopes.Grows.trans_survives first last

/-- The state in which an enclosed list of actions starts. -/
def Context.opened (ctx : Context) : Context :=
  { ctx with scopes := ctx.scopes.push }

/-- Actions in a scope of their own end with the scopes that they began with, unless they fail. -/
theorem perform_enclose (env : Env) (r : Region) {inner : List Action} (base : Ty) (ctx : Context)
    (grows : GrowsScopes ctx.opened (perform env inner base ctx.opened)) :
    (∃ b between, perform env inner base ctx.opened = .ok b between ∧
      perform env (r.enclose inner) base ctx = .ok b { between with scopes := ctx.scopes }) ∨
    ∃ e failed, perform env inner base ctx.opened = .error e failed ∧
      perform env (r.enclose inner) base ctx = .error e failed ∧
      ctx.scopes.Survives failed.scopes := by
  have opening : perform env (r.enclose inner) base ctx
      = (do perform env [.closeScope] (← perform env inner base)) ctx.opened := by
    simp only [Region.enclose, List.cons_append, perform_cons, perform_append]
    rfl
  rw [opening]
  cases outcome : perform env inner base ctx.opened with
  | error e failed =>
    rw [outcome] at grows
    exact .inr ⟨e, failed, rfl, AnalysisM.run_bind_of_error outcome _, grows.of_push⟩
  | ok b between =>
    rw [outcome] at grows
    refine .inl ⟨b, between, rfl, ?_⟩
    rw [AnalysisM.run_bind_of_ok outcome]
    have inner := Scopes.Grows.pop?_of_push grows
    simp [perform_cons, Action.act, closeScope, inner]
    rfl

namespace Balanced

theorem growsScopes {env : Env} {as : List Action} (h : Balanced as) (base : Ty) (ctx : Context) :
    GrowsScopes ctx (perform env as base ctx) := by
  induction h generalizing base ctx with
  | nil => exact Scopes.Grows.refl ctx.scopes
  | plain plain _ ih =>
    rw [perform_cons]
    exact (Action.growsScopes env base plain ctx).bind fun b between => ih b between
  | @enclosed r inner rest _ _ innerGrows restGrows =>
    rw [perform_append]
    refine GrowsScopes.bind ?_ fun b between => restGrows b between
    rcases perform_enclose env r base ctx (innerGrows base ctx.opened) with
      ⟨b, between, _, run⟩ | ⟨e, failed, _, run, survives⟩
    · rw [run]
      exact Scopes.Grows.refl ctx.scopes
    · rw [run]
      exact survives

end Balanced

/-- Sealed actions that do not fail end with the scopes that they began with. -/
theorem Sealed.scopes_eq {env : Env} {as : List Action} (h : Sealed as) {base b : Ty}
    {ctx ctx' : Context} (run : perform env as base ctx = .ok b ctx') :
    ctx'.scopes = ctx.scopes := by
  induction h generalizing base ctx with
  | nil =>
    cases run
    rfl
  | @quiet a as quiet _ ih =>
    obtain ⟨c, between, first, last⟩ := perform_cons_ok run
    have same := (a.confined env base ctx).scopes_same quiet.notMem_touches
    rw [first] at same
    exact (ih last).trans same
  | @enclosed r inner rest inside _ ih =>
    obtain ⟨c, between, first, last⟩ := perform_append_ok run
    rcases perform_enclose env r base ctx (inside.growsScopes base ctx.opened) with
      ⟨d, inmost, _, restored⟩ | ⟨e, failed, _, broken, _⟩
    · rw [first] at restored
      cases restored
      have kept := ih last
      exact kept
    · rw [first] at broken
      cases broken

/-! ### Agendas are balanced -/

theorem Sealed.expr (e : Expr) : Sealed e.agenda :=
  .flatMap fun _ _ => .quiet trivial (.quiet trivial .nil)

theorem Sealed.exprs (es : List Expr) : Sealed (es.flatMap Expr.agenda) :=
  .flatMap fun e _ => .expr e

namespace Balanced

variable {as : List Action} {os : List Outline}

theorem of_follows {heads : Prototype → Prop} (h : Follows heads as os) : Balanced as := by
  induction h with
  | nil => exact .nil
  | append _ _ first second => exact first.append second
  | @aside a aside =>
    cases a with
    | openScope | closeScope => exact absurd aside id
    | _ => exact single trivial
  | enclose r _ ih => exact ih.enclose r
  | @ofExpr e _ _ => exact (Sealed.expr e).balanced
  | @ofStruct s _ ih =>
    rw [s.agenda_eq]
    exact .plain trivial (ih.append (.plain trivial (.plain trivial (leave _))))
  | ofDeclarator list _ ih => exact .plain trivial (ih.append (.plain trivial (leave _)))
  | node binds _ _ ih =>
    refine (ih.append ?_).append (leave _)
    cases binds <;> first | exact .nil | exact single trivial
  | head _ _ ih => exact ih

theorem of_phrased (h : Phrased (fun _ => True) as os) : Balanced as :=
  of_follows h.follows

theorem fragment (f : Fragment) : Balanced f.agenda := by
  obtain ⟨os, follows⟩ := f.follows
  exact of_follows follows

theorem unit (unit : SourceUnit) : Balanced unit.agenda :=
  of_phrased (.wholeUnit unit)

end Balanced

/-- Statements whose declarations, if they have any, stand in scopes of their own. -/
def Stmt.RestoresScopes : Stmt → Prop
  | .expr .. | .jump .. | .compound _ true _ | .ifElse .. | .switch .. => True
  | .loop _ mode .. => mode ≠ .doWhile
  | .compound _ false _ | .declare .. | .block .. => False

/-- Parts of a tree whose declarations, if they have any, stand in scopes of their own. -/
def Fragment.RestoresScopes : Fragment → Prop
  | .expr _ | .layout _ | .prototype _ | .function _ => True
  | .stmt s => s.RestoresScopes
  | .spec _ | .struct _ | .declarator .. | .parameter _ | .switchBody _ | .case _ => False

theorem Sealed.stmt {s : Stmt} (h : s.RestoresScopes) : Sealed s.agenda := by
  cases s with
  | expr m e => exact (exprs e.toList).append (.leave _)
  | jump m j => exact (exprs j.value?.toList).append (.leave _)
  | compound m newScope body =>
    cases newScope with
    | true => exact (enclose m.region (.of_phrased (.stmts body))).append (.leave _)
    | false => exact absurd h id
  | ifElse m test onTrue onFalse =>
    have branch := (expr test).append (enclose m.region (.of_phrased (.stmt onTrue)))
    cases onFalse with
    | none => exact branch.append (.leave _)
    | some onFalse =>
      exact (branch.append (enclose m.elseRegion (.of_phrased (.stmt onFalse)))).append (.leave _)
  | switch m test body =>
    have inside := enclose m.region (.of_phrased (.switchBody body))
    exact ((expr test).append inside).append (.leave _)
  | loop m mode init test step body =>
    have begun := (Balanced.of_phrased (.stmt? init)).append (.of_phrased (.exprs test.toList))
    have inside := (begun.append (.of_phrased (.stmt body))).append
      (.of_phrased (.exprs step.toList))
    have inFront : mode ≠ .doWhile := h
    have own : mode.hasScope = true := by simp [LoopMode.hasScope, inFront]
    rw [Stmt.agenda, own]
    exact (enclose m.region inside).append (.leave _)
  | declare | block => exact absurd h id

theorem Sealed.fragment {f : Fragment} (h : f.RestoresScopes) : Sealed f.agenda := by
  cases f with
  | expr e => exact expr e
  | stmt s => exact stmt h
  | prototype p => exact (enclose p.mark.region (.of_phrased (.signature p))).append (.leave _)
  | function f =>
    have signature := Balanced.of_phrased (.signature f.prototype)
    have inside := signature.append (.of_phrased (.stmt f.body))
    exact (enclose f.mark.region inside).append (.leave _)
  | layout l => exact .quiet trivial (.leave _)
  | spec | struct | declarator | parameter | switchBody | case => exact absurd h id

/-! ### Visits and units -/

/-- A visit grows the scopes, or, if it is broken off, they survive. -/
theorem Fragment.growsScopes (env : Env) (f : Fragment) (ctx : Context) :
    GrowsScopes ctx (f.visit env ctx) := by
  rw [f.visit_eq]
  exact ((Balanced.fragment f).growsScopes f.base ctx).bind fun _ between =>
    Scopes.Grows.refl between.scopes

theorem Fragment.scopes_eq {env : Env} {f : Fragment} (h : f.RestoresScopes) {ctx after : Context}
    (run : f.visit env ctx = .ok () after) : after.scopes = ctx.scopes := by
  rw [f.visit_eq] at run
  obtain ⟨⟨_, performed⟩, _⟩ := AnalysisM.run_giving_ok run
  exact (Sealed.fragment h).scopes_eq performed

/-- An analysis begins at the global scope. -/
theorem Context.below_initial (o : Options) : (Context.initial o).scopes.below = [] := by
  refine Context.initial_induction (I := fun ctx => ctx.scopes.below = []) rfl ?_
  intro ctx closed v _
  rw [below_predeclare, closed]

theorem visitUnit_append (env : Env) (before after : SourceUnit) :
    visitUnit env (before ++ after) = (do visitUnit env before; visitUnit env after) := by
  induction before with
  | nil => simp [visitUnit]
  | cons d ds ih => simp [visitUnit, ih]

theorem visitUnit_growsScopes (env : Env) (unit : SourceUnit) (ctx : Context) :
    GrowsScopes ctx (visitUnit env unit ctx) := by
  rw [← Realizes.unit unit .error]
  exact ((Balanced.unit unit).growsScopes .error ctx).bind fun _ between =>
    Scopes.Grows.refl between.scopes

/-- After the declarations that come first the analysis goes on with the others. -/
theorem analyze_append_ok {env : Env} {before after : SourceUnit} {final : Context}
    (run : analyze env (before ++ after) = .ok () final) :
    ∃ between, analyze env before = .ok () between ∧
      visitUnit env after between = .ok () final := by
  have parts : (visitUnit env before >>= fun _ => visitUnit env after) (.initial env.options)
      = .ok () final := by
    rw [← visitUnit_append]
    exact run
  obtain ⟨_, between, first, last⟩ := AnalysisM.run_bind_ok parts
  exact ⟨between, first, last⟩

/-- An analysis that comes to its end has closed all scopes but the global one. -/
theorem below_of_analyze {env : Env} {unit : SourceUnit} {final : Context}
    (run : analyze env unit = .ok () final) : final.scopes.below = [] := by
  have grows := visitUnit_growsScopes env unit (.initial env.options)
  rw [show visitUnit env unit (.initial env.options) = .ok () final from run] at grows
  exact (Scopes.Grows.below grows).trans (Context.below_initial _)

/-- A part of a tree that is visited to its end leaves the scopes around the innermost one alone and
only adds to that one, and adds nothing to it if it opens a scope for what it declares. If it is
broken off, the scopes before it are still there, the innermost one of them only extended. So the
analysis of a whole unit ends at the global scope, with all that was declared there on the way. -/
theorem scopes_around_visits (env : Env) :
    (∀ (f : Fragment) (ctx : Context),
      match f.visit env ctx with
      | .ok _ after =>
        ctx.scopes.Grows after.scopes ∧ after.scopes.depth = ctx.scopes.depth ∧
          (f.RestoresScopes → after.scopes = ctx.scopes)
      | .error _ after =>
        ctx.scopes.Survives after.scopes ∧ ctx.scopes.depth ≤ after.scopes.depth) ∧
    ∀ (unit : SourceUnit) (final : Context), analyze env unit = .ok () final →
      final.scopes.depth = 0 ∧ final.scopes.global = final.scopes.top ∧
      ∀ before after : SourceUnit, unit = before ++ after →
        ∃ between, analyze env before = .ok () between ∧ between.scopes.depth = 0 ∧
          between.scopes.global.ExtendedBy final.scopes.global := by
  constructor
  · intro f ctx
    have grows := f.growsScopes env ctx
    cases run : f.visit env ctx with
    | ok u after =>
      rw [run] at grows
      exact ⟨grows, Scopes.Grows.depth grows, fun restores => Fragment.scopes_eq restores run⟩
    | error e after =>
      rw [run] at grows
      exact ⟨grows, grows.depth_le⟩
  · intro unit final run
    have closed := below_of_analyze run
    refine ⟨by simp [Scopes.depth, closed], by simp [Scopes.global, closed], ?_⟩
    rintro before after rfl
    obtain ⟨between, first, last⟩ := analyze_append_ok run
    have closed' := below_of_analyze first
    have grows := visitUnit_growsScopes env after between
    rw [last] at grows
    refine ⟨between, first, by simp [Scopes.depth, closed'], ?_⟩
    simpa [Scopes.global, closed', closed] using Scopes.Grows.top grows

theorem scopes_around_visits_shadowing :
    ∃ before final, analyze (.standard {}) (Sample.shadowing.take 1) = .ok () before ∧
      (Fragment.function Sample.main).visit (.standard {}) before = .ok () final ∧
      analyze (.standard {}) Sample.shadowing = .ok () final ∧
      final.scopes = before.scopes ∧ final.scopes.depth = 0 := by
  obtain ⟨final, run⟩ := exists_of_completes
    (show completes (.standard {}) Sample.shadowing = true by decide +kernel)
  obtain ⟨visits, units⟩ := scopes_around_visits (.standard {})
  obtain ⟨closed, _⟩ := units _ final run
  obtain ⟨before, declared, last⟩ :=
    analyze_append_ok (show analyze _ (Sample.shadowing.take 1 ++ [.function Sample.main])
      = .ok () final from run)
  have visited : (Fragment.function Sample.main).visit (.standard {}) before = .ok () final := by
    simpa [visitUnit, visitTopLevel, Fragment.visit] using last
  have restored := visits (.function Sample.main) before
  rw [visited] at restored
  exact ⟨before, final, declared, visited, run, restored.2.2 trivial, closed⟩

end ShaderAnalysis
