import ShaderAnalysis.Proofs.FatalConditions
import ShaderAnalysis.Proofs.ReportedKinds
import ShaderAnalysis.Traversal.Outline

/-!
The nesting of struct definitions. The depth of the open definitions is raised and lowered around
the members of each, and nothing in between fails; so it is what it was after each type
(`Nests.spec`). A definition is reported where the depth is not zero, and no other action
reports that (`Action.errorsOf_embeddedStruct`); so among actions in which definitions are strewn
those inside others are reported (`Strewn.run`).
-/

namespace ShaderAnalysis

open Analysis

/-! ### Definitions in a tree -/

mutual
/-- The struct definitions that are visited in an outline, each behind those inside it, and whether
it stands inside another one. All of the outline may. -/
def Outline.structs (within : Bool) : Outline → List (StructSpec × Bool)
  | .node (.struct s) inside => Outline.listStructs true inside ++ [(s, within)]
  | .node _ inside => Outline.listStructs within inside

def Outline.listStructs (within : Bool) : List Outline → List (StructSpec × Bool)
  | [] => []
  | o :: os => o.structs within ++ Outline.listStructs within os
end

/-- The struct definitions of a unit in the order in which they are bound, and whether they stand
inside others. -/
def SourceUnit.structs (unit : SourceUnit) : List (StructSpec × Bool) :=
  Outline.listStructs false (unit.map TopLevel.outline)

/-- How many errors there are for struct definitions that stand inside others. -/
def Options.embeddedErrors (o : Options) (ss : List (StructSpec × Bool)) : Nat :=
  if o.allowsEmbeddedStructs then 0 else ss.countP (·.2)

/-- The errors of a kind that have been reported. -/
def Context.errorsOf (ctx : Context) (k : ProblemKind) : Nat :=
  ctx.diagnostics.countP fun d => d.isError && d.problem.kind = k

namespace Outline

variable {within : Bool}

theorem listStructs_eq (os : List Outline) :
    listStructs within os = os.flatMap (structs within) := by
  induction os with
  | nil => rfl
  | cons o os ih => rw [listStructs, ih, List.flatMap_cons]

theorem listStructs_append (os ps : List Outline) :
    listStructs within (os ++ ps) = listStructs within os ++ listStructs within ps := by
  simp only [listStructs_eq, List.flatMap_append]

theorem listStructs_singleton (o : Outline) : listStructs within [o] = o.structs within := by
  simp [listStructs]

theorem structs_node {n : Node} (other : ∀ s, n ≠ .struct s) (os : List Outline) :
    (node n os).structs within = listStructs within os := by
  cases n with
  | struct s => exact absurd rfl (other s)
  | _ => rfl

end Outline

@[simp] theorem Options.embeddedErrors_nil (o : Options) : o.embeddedErrors [] = 0 := by
  simp [embeddedErrors]

theorem Options.embeddedErrors_append (o : Options) (ss ts : List (StructSpec × Bool)) :
    o.embeddedErrors (ss ++ ts) = o.embeddedErrors ss + o.embeddedErrors ts := by
  unfold embeddedErrors
  split
  · rfl
  · exact List.countP_append

/-! ### Actions -/

/-- The depth of open struct definitions after an action. -/
def Action.depth (d : Nat) : Action → Nat
  | .enterStruct _ => d + 1
  | .leaveStruct => d - 1
  | _ => d

/-- The struct definition that an action binds. -/
def Action.struct? : Action → Option StructSpec
  | .bindStruct s => some s
  | _ => none

section

variable {env : Env} {a : Action} {base b : Ty} {ctx after failed : Context} {f : Fatal}

theorem Action.depth_eq (other : a.isOfStruct = false) (d : Nat) : a.depth d = d := by
  cases a with
  | enterStruct | leaveStruct => cases other
  | _ => rfl

theorem Action.struct?_eq_none (other : a.isOfStruct = false) : a.struct? = none := by
  cases a with
  | bindStruct => cases other
  | _ => rfl

/-- Opening a struct definition is reported if another one is open. -/
theorem Update.run_enterStruct (o : Options) (span : Span) (ctx : Context) :
    enterStruct o span ctx = ((), { ctx with
      structDepth := ctx.structDepth + 1
      diagnostics := ctx.diagnostics ++
        if ctx.structDepth = 0 ∨ o.allowsEmbeddedStructs = true then []
        else [⟨span, .embeddedStruct⟩] }) := by
  by_cases outermost : ctx.structDepth = 0
  · simp [enterStruct, outermost]
  · by_cases allowed : o.allowsEmbeddedStructs = true
    · simp [enterStruct, allowed]
    · simp [enterStruct, outermost, allowed, Change.apply]

theorem Action.act_enterStruct (env : Env) (base : Ty) (ctx : Context) (span : Span) :
    (Action.enterStruct span).act env base ctx = .ok base { ctx with
      structDepth := ctx.structDepth + 1
      diagnostics := ctx.diagnostics ++
        if ctx.structDepth = 0 ∨ env.options.allowsEmbeddedStructs = true then []
        else [⟨span, .embeddedStruct⟩] } := by
  rw [act, AnalysisM.run_lift_bind, Update.run_enterStruct]
  rfl

theorem Action.structDepth_reached (env : Env) (base : Ty) (ctx : Context)
    (entered : ∀ span, a ≠ .enterStruct span) (left : a ≠ .leaveStruct) :
    (Context.reached (a.act env base ctx)).structDepth = ctx.structDepth := by
  have silent : .structDepth ∉ a.touches := by
    cases a with
    | enterStruct span => exact absurd rfl (entered span)
    | leaveStruct => exact absurd rfl left
    | check e => cases e <;> simp [touches, Expr.touches]
    | _ => simp [touches, bindingTouches]
  refine (Action.confined env base a ctx).same (·.structDepth) fun c mem ctx => ?_
  cases c with
  | setStructDepth => exact absurd mem silent
  | _ => rfl

theorem Action.structDepth_of_act (run : a.act env base ctx = .ok b after) :
    after.structDepth = a.depth ctx.structDepth := by
  have kept (entered : ∀ span, a ≠ .enterStruct span) (left : a ≠ .leaveStruct) :
      after.structDepth = ctx.structDepth := by
    have same := structDepth_reached env base ctx entered left
    rw [run] at same
    exact same
  cases a with
  | enterStruct span =>
    rw [act_enterStruct] at run
    cases run
    rfl
  | leaveStruct =>
    cases run
    rfl
  | _ => exact kept (by simp) (by simp)

theorem Context.Reports.errorsOf_eq {ks : List ProblemKind} (h : ctx.Reports ks after)
    {k : ProblemKind} (other : k ∉ ks) : after.errorsOf k = ctx.errorsOf k := by
  obtain ⟨ds, more, kinds⟩ := h
  have none : ds.countP (fun d => d.isError && decide (d.problem.kind = k)) = 0 := by
    rw [List.countP_eq_zero]
    intro d mem
    have different : d.problem.kind ≠ k := fun same => other (same ▸ kinds d mem)
    simp [different]
  rw [errorsOf, more, List.countP_append, none]
  rfl

/-- Only opening a struct definition reports that it stands inside another. -/
theorem Action.errorsOf_embeddedStruct (env : Env) (base : Ty) (ctx : Context)
    (other : ∀ span, a ≠ .enterStruct span) :
    (Context.reached (a.act env base ctx)).errorsOf .embeddedStruct
      = ctx.errorsOf .embeddedStruct := by
  refine (Action.reports env base a ctx).errorsOf_eq ?_
  cases a with
  | enterStruct span => exact absurd rfl (other span)
  | _ => simp [kinds]

end

/-! ### Types -/

/-- The depth is what it was, and there is an error for each struct definition that stands inside
another. -/
structure Context.Embeds (o : Options) (ss : List (StructSpec × Bool)) (ctx after : Context) :
    Prop where
  depth : after.structDepth = ctx.structDepth
  errors : after.errorsOf .embeddedStruct = ctx.errorsOf .embeddedStruct + o.embeddedErrors ss

namespace Context.Embeds

variable {o : Options} {ss ts : List (StructSpec × Bool)} {ctx between after : Context}

theorem refl : ctx.Embeds o [] ctx :=
  ⟨rfl, by simp⟩

theorem trans (h : ctx.Embeds o ss between) (h' : between.Embeds o ts after) :
    ctx.Embeds o (ss ++ ts) after := by
  refine ⟨h'.depth.trans h.depth, ?_⟩
  rw [h'.errors, h.errors, o.embeddedErrors_append, Nat.add_assoc]

/-- An action that neither opens nor closes a struct definition. -/
theorem of_act {env : Env} {a : Action} {base b : Ty} (run : a.act env base ctx = .ok b after)
    (entered : ∀ span, a ≠ .enterStruct span) (left : a ≠ .leaveStruct) :
    ctx.Embeds o [] after := by
  constructor
  · rw [Action.structDepth_of_act run]
    cases a with
    | enterStruct span => exact absurd rfl (entered span)
    | leaveStruct => exact absurd rfl left
    | _ => rfl
  · have same := Action.errorsOf_embeddedStruct env base ctx entered
    rw [run] at same
    rw [o.embeddedErrors_nil]
    exact same

end Context.Embeds

/-- A struct definition is opened. -/
theorem Context.embeds_enterStruct (env : Env) (base : Ty) (ctx : Context) (span : Span) :
    ∃ after, (Action.enterStruct span).act env base ctx = .ok base after ∧
      after.structDepth = ctx.structDepth + 1 ∧
      ∀ s, after.errorsOf .embeddedStruct = ctx.errorsOf .embeddedStruct
        + env.options.embeddedErrors [(s, ctx.structDepth ≠ 0)] := by
  refine ⟨_, Action.act_enterStruct env base ctx span, rfl, fun s => ?_⟩
  simp only [errorsOf, List.countP_append, Options.embeddedErrors]
  by_cases allowed : env.options.allowsEmbeddedStructs <;> by_cases open_ : ctx.structDepth = 0 <;>
    simp [allowed, open_, Diagnostic.isError, Problem.isError, Problem.severity, Problem.kind]

/-- Some actions never fail, restore the depth, and report the struct definitions of outlines that
stand inside others. -/
def Nests (env : Env) (as : List Action) (os : List Outline) : Prop :=
  ∀ base ctx, ∃ after, perform env as base ctx = .ok base after ∧
    ctx.Embeds env.options (Outline.listStructs (ctx.structDepth ≠ 0) os) after

namespace Nests

variable {env : Env} {as bs : List Action} {os ps : List Outline}

theorem nil : Nests env [] [] :=
  fun _ ctx => ⟨ctx, rfl, .refl⟩

theorem append (h : Nests env as os) (h' : Nests env bs ps) : Nests env (as ++ bs) (os ++ ps) := by
  intro base ctx
  obtain ⟨between, first, embeds⟩ := h base ctx
  obtain ⟨after, last, embeds'⟩ := h' base between
  rw [embeds.depth] at embeds'
  refine ⟨after, ?_, ?_⟩
  · rw [perform_append, AnalysisM.run_bind_of_ok first]
    exact last
  · rw [Outline.listStructs_append]
    exact embeds.trans embeds'

theorem structs {ss : List StructSpec} (h : ∀ s ∈ ss, Nests env s.agenda [s.outline]) :
    Nests env (ss.flatMap StructSpec.agenda) (ss.map StructSpec.outline) := by
  induction ss with
  | nil => exact nil
  | cons s ss ih => exact (h s (by simp)).append (ih fun r mem => h r (by simp [mem]))

/-- A struct definition around those directly inside it. -/
theorem around {s : StructSpec}
    (h : Nests env (s.inner.flatMap StructSpec.agenda) (s.inner.map StructSpec.outline)) :
    Nests env s.agenda [s.outline] := by
  intro base ctx
  obtain ⟨entered, enter, deeper, counted⟩ := ctx.embeds_enterStruct env base s.mark.span
  obtain ⟨inside, performed, embeds⟩ := h base entered
  let closed : Context := { inside with structDepth := inside.structDepth - 1 }
  have close : Action.leaveStruct.act env base inside = .ok base closed := rfl
  obtain ⟨bound, bind⟩ := s.exists_bind env.options closed
  have settle : (Action.bindStruct s).act env base closed = .ok base bound :=
    AnalysisM.run_bind_of_ok bind _
  obtain ⟨after, leave⟩ : ∃ after, (Action.leave (.struct s)).act env base bound
    = .ok base after := ⟨_, rfl⟩
  have behind := (Context.Embeds.of_act (o := env.options) settle (by simp) (by simp)).trans
    (.of_act leave (by simp) (by simp))
  have silent : closed.errorsOf .embeddedStruct = inside.errorsOf .embeddedStruct := rfl
  have within : decide (entered.structDepth ≠ 0) = true := by simp [deeper]
  rw [within] at embeds
  refine ⟨after, ?_, ?_, ?_⟩
  · rw [s.agenda_eq, List.cons_append, perform_cons, AnalysisM.run_bind_of_ok enter,
      perform_append, AnalysisM.run_bind_of_ok performed, perform_cons,
      AnalysisM.run_bind_of_ok close, perform_cons, AnalysisM.run_bind_of_ok settle,
      perform_cons, AnalysisM.run_bind_of_ok leave]
    rfl
  · have raised : inside.structDepth = ctx.structDepth + 1 := embeds.depth.trans deeper
    rw [behind.depth]
    exact congrArg (· - 1) raised
  · rw [behind.errors, silent, embeds.errors, counted s, s.outline_eq,
      Outline.listStructs_singleton, Outline.structs, Options.embeddedErrors_append,
      Options.embeddedErrors_append, Options.embeddedErrors_nil]
    omega

theorem struct (s : StructSpec) : Nests env s.agenda [s.outline] := by
  induction s using StructSpec.byInner with
  | step s inner => exact around (structs inner)

/-- What is done for a type never fails, and restores the depth. -/
theorem spec (t : TypeSpec) : Nests env t.agenda t.outlines := by
  rw [t.agenda_eq, t.outlines_eq]
  exact structs fun s _ => struct s

end Nests

/-! ### Agendas -/

/-- Actions among which there are those for some struct definitions, in order, each with all that is
done for those inside it. -/
inductive Strewn : List Action → List (StructSpec × Bool) → Prop
  | nil : Strewn [] []
  | cons {a : Action} {as : List Action} {ss : List (StructSpec × Bool)} : a.isOfStruct = false →
    Strewn as ss → Strewn (a :: as) ss
  | struct (s : StructSpec) {as : List Action} {ss : List (StructSpec × Bool)} : Strewn as ss →
    Strewn (s.agenda ++ as) (s.outline.structs false ++ ss)

/-- A struct definition is bound behind those inside it. -/
theorem StructSpec.bound_agenda (s : StructSpec) : ∀ within,
    s.agenda.filterMap Action.struct? = (s.outline.structs within).map (·.1) := by
  induction s using StructSpec.byInner with
  | step s inner =>
    intro within
    have inside : (s.inner.flatMap StructSpec.agenda).filterMap Action.struct?
        = (Outline.listStructs true (s.inner.map StructSpec.outline)).map (·.1) := by
      rw [List.filterMap_flatMap, Outline.listStructs_eq, List.flatMap_map, List.map_flatMap]
      exact List.flatMap_congr fun r mem => inner r mem true
    rw [s.agenda_eq, s.outline_eq, Outline.structs, List.map_append, ← inside, List.cons_append,
      List.filterMap_cons_none rfl, List.filterMap_append]
    rfl

theorem structDepth_of_perform {env : Env} {as : List Action} {base b : Ty} {ctx after : Context}
    (run : perform env as base ctx = .ok b after) :
    after.structDepth = as.foldl Action.depth ctx.structDepth := by
  induction as generalizing base ctx with
  | nil =>
    cases run
    rfl
  | cons a as ih =>
    obtain ⟨c, between, first, last⟩ := perform_cons_ok run
    rw [ih last, Action.structDepth_of_act first]
    rfl

theorem StructSpec.foldl_depth (s : StructSpec) (d : Nat) :
    s.agenda.foldl Action.depth d = d := by
  have nests : Nests (.standard {}) s.agenda [s.outline] := .struct s
  obtain ⟨after, run, embeds⟩ := nests .void { structDepth := d }
  exact (structDepth_of_perform run).symm.trans embeds.depth

namespace Strewn

variable {as bs done rest : List Action} {ss ts : List (StructSpec × Bool)} {a : Action}

theorem append (h : Strewn as ss) (h' : Strewn bs ts) : Strewn (as ++ bs) (ss ++ ts) := by
  induction h with
  | nil => exact h'
  | cons other _ ih => exact .cons other ih
  | struct s _ ih =>
    rw [List.append_assoc, List.append_assoc]
    exact .struct s ih

theorem bound (h : Strewn as ss) : as.filterMap Action.struct? = ss.map (·.1) := by
  induction h with
  | nil => rfl
  | cons other _ ih => rw [List.filterMap_cons_none (Action.struct?_eq_none other), ih]
  | struct s _ ih => rw [List.filterMap_append, List.map_append, s.bound_agenda false, ih]

/-- Before an action that is not done for a struct definition, all definitions that have been opened
have been bound. -/
theorem split (h : Strewn (done ++ a :: rest) ss) (other : a.isOfStruct = false) :
    ∃ seen unseen, ss = seen ++ unseen ∧ Strewn done seen := by
  generalize whole : done ++ a :: rest = as at h
  induction h generalizing done with
  | nil => simp at whole
  | @cons b as ss plain strewn ih =>
    cases done with
    | nil => exact ⟨[], ss, rfl, .nil⟩
    | cons c done =>
      cases whole
      obtain ⟨seen, unseen, listed, before⟩ := ih rfl
      exact ⟨seen, unseen, listed, .cons plain before⟩
  | @struct s as ss strewn ih =>
    have behind (more : List Action) (split : as = more ++ a :: rest) :
        ∃ seen unseen, s.outline.structs false ++ ss = seen ++ unseen ∧
          Strewn (s.agenda ++ more) seen := by
      obtain ⟨seen, unseen, listed, before⟩ := ih split.symm
      exact ⟨_, unseen, by rw [listed, List.append_assoc], .struct s before⟩
    rcases List.append_eq_append_iff.mp whole with ⟨more, inside, later⟩ | ⟨more, rfl, later⟩
    · cases more with
      | nil =>
        rw [List.append_nil] at inside
        rw [← inside, ← s.agenda.append_nil]
        exact behind [] later.symm
      | cons b more =>
        cases later
        have mem : a ∈ s.agenda := by simp [inside]
        rw [s.isOfStruct_agenda a mem] at other
        cases other
    · exact behind more later

/-- The depth after actions for struct definitions and others. -/
theorem run {env : Env} {base b : Ty} {ctx after : Context} (h : Strewn as ss)
    (outside : ctx.structDepth = 0) (run : perform env as base ctx = .ok b after) :
    ctx.Embeds env.options ss after := by
  induction h generalizing base ctx with
  | nil =>
    cases run
    exact .refl
  | @cons a as ss other _ ih =>
    obtain ⟨c, between, first, last⟩ := perform_cons_ok run
    have here : ctx.Embeds env.options [] between := by
      refine .of_act first ?_ ?_
      · rintro span rfl
        cases other
      · rintro rfl
        cases other
    exact here.trans (ih (here.depth.trans outside) last)
  | struct s _ ih =>
    obtain ⟨c, between, first, last⟩ := perform_append_ok run
    have nests : Nests env s.agenda [s.outline] := .struct s
    obtain ⟨_, performed, embeds⟩ := nests base ctx
    rw [first] at performed
    cases performed
    have within : decide (ctx.structDepth ≠ 0) = false := by simp [outside]
    rw [within, Outline.listStructs_singleton] at embeds
    exact embeds.trans (ih (embeds.depth.trans outside) last)

/-- Struct definitions are closed as often as they are opened. -/
theorem foldl_depth (h : Strewn as ss) (d : Nat) : as.foldl Action.depth d = d := by
  induction h with
  | nil => rfl
  | cons other _ ih => rw [List.foldl_cons, Action.depth_eq other, ih]
  | struct s _ ih => rw [List.foldl_append, s.foldl_depth, ih]

end Strewn

end ShaderAnalysis
