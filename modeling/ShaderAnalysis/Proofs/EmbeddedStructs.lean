import ShaderAnalysis.Proofs.Following
import ShaderAnalysis.Proofs.RecordLayout
import ShaderAnalysis.Proofs.StructNesting

/-!
Struct definitions inside others in a whole unit. What is done for a unit are blocks of actions for
struct definitions strewn among others, and what is done for a statement stands together
(`Covers.unit`). So no definition is open around a statement, and the definitions that are reported
are those that stand inside others, up to the point where the analysis ends (`embedded_structs`).
-/

namespace ShaderAnalysis

open Analysis

/-! ### Agendas and outlines -/

/-- The actions of some outlines: the struct definitions among them are those of the outlines, and
what is done for a statement stands together. -/
structure Covers (as : List Action) (os : List Outline) : Prop where
  strewn : Strewn as (Outline.listStructs false os)
  together : ∀ s, .stmt s ∈ Outline.listNodes os → s.agenda <:+: as

namespace Covers

variable {as bs : List Action} {os ps : List Outline} {a : Action} {n : Node}

theorem nil : Covers [] [] :=
  ⟨.nil, by simp [Outline.listNodes]⟩

theorem append (h : Covers as os) (h' : Covers bs ps) : Covers (as ++ bs) (os ++ ps) := by
  constructor
  · rw [Outline.listStructs_append]
    exact h.strewn.append h'.strewn
  · intro s mem
    rw [Outline.listNodes_append] at mem
    rcases List.mem_append.mp mem with first | last
    · exact (h.together s first).trans (List.prefix_append as bs).isInfix
    · exact (h'.together s last).trans (List.suffix_append as bs).isInfix

/-- Another action. -/
theorem aside (other : a.isOfStruct = false) : Covers [a] [] :=
  ⟨.cons other .nil, by simp [Outline.listNodes]⟩

theorem after (other : a.isOfStruct = false) (h : Covers as os) : Covers (a :: as) os :=
  (aside other).append h

theorem before (h : Covers as os) (other : a.isOfStruct = false) : Covers (as ++ [a]) os := by
  simpa using h.append (aside other)

theorem enclose (r : Region) (h : Covers as os) : Covers (r.enclose as) os :=
  (h.after (a := .openScope r) rfl).before rfl

/-- A node that is neither a struct definition nor a statement, around others. -/
theorem around (h : Covers as os) (struct : ∀ s, n ≠ .struct s) (stmt : ∀ s, n ≠ .stmt s) :
    Covers as [.node n os] := by
  constructor
  · rw [Outline.listStructs_singleton, Outline.structs_node struct]
    exact h.strewn
  · intro s mem
    rw [Outline.mem_listNodes_node] at mem
    exact h.together s (mem.resolve_right (stmt s ·.symm))

theorem node (h : Covers as os) (struct : ∀ s, n ≠ .struct s) (stmt : ∀ s, n ≠ .stmt s) :
    Covers (as ++ [.leave n]) [.node n os] := by
  refine (h.around struct stmt).before ?_
  cases n with
  | struct s => exact absurd rfl (struct s)
  | _ => rfl

theorem stmt_node {s : Stmt} (h : Covers as os) (whole : s.agenda = as ++ [.leave (.stmt s)]) :
    Covers s.agenda [.node (.stmt s) os] := by
  have left : Covers s.agenda os := whole ▸ h.before rfl
  constructor
  · rw [Outline.listStructs_singleton, Outline.structs_node (by simp)]
    exact left.strewn
  · intro t mem
    rcases Outline.mem_listNodes_node.mp mem with inside | same
    · exact left.together t inside
    · cases same
      exact List.infix_refl _

/-- A struct definition, with no statement in it. -/
theorem struct {s : StructSpec}
    (h : Covers (s.inner.flatMap StructSpec.agenda) (s.inner.map StructSpec.outline)) :
    Covers s.agenda [s.outline] := by
  constructor
  · simpa [Outline.listStructs_singleton] using Strewn.nil.struct s
  · intro t mem
    rw [s.outline_eq, Outline.mem_listNodes_node] at mem
    have inside := h.together t (mem.resolve_right (by simp))
    refine inside.trans ⟨[.enterStruct s.mark.span], [.leaveStruct, .bindStruct s,
      .leave (.struct s)], ?_⟩
    rw [s.agenda_eq]
    rfl

theorem of_follows {heads : Prototype → Prop} (h : Follows heads as os) : Covers as os := by
  induction h with
  | nil => exact nil
  | append _ _ first second => exact first.append second
  | @aside a aside =>
    refine .aside ?_
    cases a with
    | enterStruct | leaveStruct | bindStruct | leave => exact False.elim aside
    | _ => rfl
  | enclose r _ ih => exact ih.enclose r
  | @ofExpr e _ ih =>
    have all := (ih.before (a := .check e) rfl).node (n := .expr e) (by simp) (by simp)
    rw [e.agenda_eq, e.outline_eq]
    simpa [Expr.own] using all
  | ofStruct _ ih => exact struct ih
  | @ofDeclarator list d _ ih =>
    have inside := (ih.after (a := .typeName d) rfl).before (a := .bindName list d) rfl
    have all := inside.node (n := .declarator d) (by simp) (by simp)
    simpa [Declarator.agenda, Declarator.outline] using all
  | @node n as bs os binds spells _ ih =>
    have quiet : Covers bs [] := by cases binds <;> first | exact nil | exact .aside rfl
    have inside : Covers (as ++ bs) os := by simpa using ih.append quiet
    cases n with
    | stmt s =>
      have whole := spells.agenda s rfl
      exact whole ▸ inside.stmt_node whole
    | struct s =>
      cases binds with
      | plain plain => exact False.elim plain
    | _ => exact inside.node (by simp) (by simp)
  | head _ _ ih => exact ih.around (by simp) (by simp)

theorem stmt (s : Stmt) : Covers s.agenda [s.outline] :=
  of_follows (Phrased.stmt s : Phrased (fun _ => True) _ _).follows

theorem unit (unit : SourceUnit) : Covers unit.agenda (unit.map TopLevel.outline) :=
  of_follows (Phrased.wholeUnit unit).follows

end Covers

section

variable {env : Env} {unit : SourceUnit} {before behind : List Action} {s : Stmt}

theorem Stmt.exists_agenda (s : Stmt) : ∃ inside, s.agenda = inside ++ [.leave (.stmt s)] := by
  cases s with
  | compound m inScope body => cases inScope <;> exact ⟨_, by rw [Stmt.agenda]⟩
  | ifElse m test onTrue onFalse => cases onFalse <;> exact ⟨_, by rw [Stmt.agenda]⟩
  | _ => exact ⟨_, by rw [Stmt.agenda]⟩

/-- No struct definition is open where a statement begins. -/
theorem foldl_depth_before (split : unit.agenda = before ++ s.agenda ++ behind) :
    before.foldl Action.depth 0 = 0 := by
  obtain ⟨inside, agenda⟩ := s.exists_agenda
  have closing : unit.agenda = (before ++ inside) ++ .leave (.stmt s) :: behind := by
    rw [split, agenda]
    simp
  obtain ⟨_, _, _, strewn⟩ := (closing ▸ (Covers.unit unit).strewn).split rfl
  have whole := (Covers.stmt s).strewn.foldl_depth (before.foldl Action.depth 0)
  have last := strewn.foldl_depth 0
  rw [agenda, List.foldl_append] at whole
  rw [List.foldl_append] at last
  exact whole.symm.trans last

/-- An action that fails is not done for a struct definition. -/
theorem Action.isOfStruct_of_error {a : Action} {base : Ty} {ctx failed : Context} {f : Fatal}
    (run : a.act env base ctx = .error f failed) : a.isOfStruct = false := by
  cases a with
  | enterStruct span =>
    rw [act_enterStruct] at run
    cases run
  | leaveStruct => cases run
  | bindStruct s =>
    obtain ⟨_, _, succeeds⟩ := s.succeeds_bind env.options ctx
    rw [AnalysisM.run_giving_error run] at succeeds
    cases succeeds
  | leave n => cases run
  | _ => rfl

/-- The depth is zero before a statement and after it, whether its visit fails or not. -/
theorem structDepth_around_stmt {b : Ty} {ctx : Context}
    (split : unit.agenda = before ++ s.agenda ++ behind)
    (run : perform env before .void (.initial env.options) = .ok b ctx) :
    ctx.structDepth = 0 ∧ (Context.reached (visitStmt env s ctx)).structDepth = 0 := by
  have none : (Context.initial env.options).structDepth = 0 := by rw [Context.initial_eq]
  have outside : ctx.structDepth = 0 := by
    rw [structDepth_of_perform run, none, foldl_depth_before split]
  have visited : Context.reached (visitStmt env s ctx)
      = Context.reached (perform env s.agenda b ctx) := by
    rw [← Realizes.stmt s b, Context.reached_giving]
  refine ⟨outside, ?_⟩
  rw [visited]
  cases outcome : perform env s.agenda b ctx with
  | ok c after =>
    show after.structDepth = 0
    rw [structDepth_of_perform outcome, (Covers.stmt s).strewn.foldl_depth, outside]
  | error f failed =>
    obtain ⟨done, a, rest, c, between, agenda, performed, act⟩ :=
      exists_act_of_perform_error outcome
    have other := Action.isOfStruct_of_error act
    have strewn : Strewn (before ++ done ++ a :: (rest ++ behind)) unit.structs := by
      have whole := (Covers.unit unit).strewn
      rw [split, agenda] at whole
      simpa [SourceUnit.structs] using whole
    obtain ⟨_, _, _, opened⟩ := strewn.split other
    have closed : between.structDepth = 0 := by
      have all := opened.foldl_depth 0
      rw [List.foldl_append, foldl_depth_before split] at all
      rw [structDepth_of_perform performed, outside, all]
    have kept := Action.structDepth_reached env c between (a := a)
      (by rintro span rfl; cases other) (by rintro rfl; cases other)
    rw [act] at kept
    exact kept.trans closed

/-- The actions done before the end, or before a fatal condition. -/
theorem Strewn.depth_and_errors {as : List Action} {ss : List (StructSpec × Bool)} {b : Ty}
    {ctx : Context} (h : Strewn as ss)
    (run : perform env as .void (.initial env.options) = .ok b ctx) :
    ctx.structDepth = 0 ∧ ctx.errorsOf .embeddedStruct = env.options.embeddedErrors ss := by
  have outside : (Context.initial env.options).structDepth = 0 := by rw [Context.initial_eq]
  have silent : (Context.initial env.options).errorsOf .embeddedStruct = 0 := by
    rw [Context.initial_eq]
    rfl
  have embeds := h.run outside run
  exact ⟨embeds.depth.trans outside, by rw [embeds.errors, silent, Nat.zero_add]⟩

/-- What is done for a statement stands together in the agenda of the unit. -/
theorem exists_agenda_around (mem : .stmt s ∈ unit.nodes) :
    ∃ before behind, unit.agenda = before ++ s.agenda ++ behind := by
  have listed : .stmt s ∈ Outline.listNodes (unit.map TopLevel.outline) := unit.nodes_eq ▸ mem
  obtain ⟨before, behind, whole⟩ := (Covers.unit unit).together s listed
  exact ⟨before, behind, whole.symm⟩

theorem embedded_of_analyze_error {f : Fatal} {failed : Context}
    (run : analyze env unit = .error f failed) :
    failed.structDepth = 0 ∧ ∃ done a rest b seen unseen, unit.agenda = done ++ a :: rest ∧
      perform env done .void (.initial env.options) = .ok b failed ∧ a.Halts env failed f ∧
      unit.structs = seen ++ unseen ∧ done.filterMap Action.struct? = seen.map (·.1) ∧
      failed.errorsOf .embeddedStruct = env.options.embeddedErrors seen := by
  obtain ⟨done, a, rest, b, agenda, performed, halts⟩ := haltsAt_of_analyze run
  have other : a.isOfStruct = false := by cases halts <;> rfl
  obtain ⟨seen, unseen, listed, strewn⟩ := (agenda ▸ (Covers.unit unit).strewn).split other
  obtain ⟨depth, errors⟩ := strewn.depth_and_errors performed
  exact ⟨depth, done, a, rest, b, seen, unseen, agenda, performed, halts, listed, strewn.bound,
    errors⟩

end

/-- Struct definitions inside others, and the depth of those that are open. The visit of a type
never fails; it restores the depth and reports each struct definition in the type that stands inside
another one, or all of them if one is open already, unless the language has such definitions. What
is done for a visited statement stands together in the agenda of the unit; and the depth is zero
before it and after it, also if it fails. In the end the depth is zero, and as many definitions are
reported as stand inside others; if the analysis ends at a fatal condition, of those that have been
bound by then. -/
theorem embedded_structs (env : Env) :
    (∀ (t : TypeSpec) (ctx : Context), ∃ after, visitSpec env t ctx = .ok () after ∧
      after.structDepth = ctx.structDepth ∧
      after.errorsOf .embeddedStruct = ctx.errorsOf .embeddedStruct
        + env.options.embeddedErrors (Outline.listStructs (ctx.structDepth ≠ 0) t.outlines)) ∧
    ∀ unit : SourceUnit,
      (∀ s, .stmt s ∈ unit.nodes →
        ∃ before behind, unit.agenda = before ++ s.agenda ++ behind) ∧
      (∀ before s behind b ctx, unit.agenda = before ++ s.agenda ++ behind →
        perform env before .void (.initial env.options) = .ok b ctx →
        ctx.structDepth = 0 ∧ (Context.reached (visitStmt env s ctx)).structDepth = 0) ∧
      (∀ final, analyze env unit = .ok () final → final.structDepth = 0 ∧
        final.errorsOf .embeddedStruct = env.options.embeddedErrors unit.structs) ∧
      ∀ f failed, analyze env unit = .error f failed → failed.structDepth = 0 ∧
        ∃ done a rest b seen unseen, unit.agenda = done ++ a :: rest ∧
          perform env done .void (.initial env.options) = .ok b failed ∧ a.Halts env failed f ∧
          unit.structs = seen ++ unseen ∧ done.filterMap Action.struct? = seen.map (·.1) ∧
          failed.errorsOf .embeddedStruct = env.options.embeddedErrors seen := by
  refine ⟨fun t ctx => ?_, fun unit => ⟨fun s mem => exists_agenda_around mem, ?_, ?_, ?_⟩⟩
  · have nests : Nests env t.agenda t.outlines := .spec t
    obtain ⟨after, run, embeds⟩ := nests .void ctx
    refine ⟨after, ?_, embeds.depth, embeds.errors⟩
    rw [← Realizes.spec t .void, AnalysisM.run_bind_of_ok run]
    rfl
  · intro before s behind b ctx split run
    exact structDepth_around_stmt split run
  · intro final run
    obtain ⟨b, performed⟩ := exists_perform_of_analyze run
    exact (Covers.unit unit).strewn.depth_and_errors performed
  · intro f failed run
    exact embedded_of_analyze_error run

/-- The declaration `struct S { struct T { float x; } t; };`. -/
def Sample.nested : Stmt :=
  let t : Declarator := { mark := mark 5, name := "t", dims := none, init := none }
  let s : StructSpec :=
    { mark := mark 6, name := "S"
      members := [{ qualifiers := {}, type := ⟨.struct inner, none⟩, invariant := false
                    names := [t] }] }
  .declare (mark 7) { qualifiers := {}, type := ⟨.struct s, none⟩, invariant := false, names := [] }

/-- One of the two definitions stands inside the other. Behind them, `void main() { y; }` ends the
analysis. -/
theorem embedded_structs_nested :
    let env : Env := .standard { version := 330 }
    let unit : SourceUnit := [.declaration Sample.nested]
    (∃ final, analyze env unit = .ok () final ∧ final.structDepth = 0 ∧
      final.errorsOf .embeddedStruct = 1) ∧
    (∃ before behind b ctx, unit.agenda = before ++ Sample.nested.agenda ++ behind ∧
      perform env before .void (.initial env.options) = .ok b ctx ∧ ctx.structDepth = 0 ∧
      (Context.reached (visitStmt env Sample.nested ctx)).structDepth = 0) ∧
    ∃ failed seen unseen, analyze env (unit ++ Sample.unbound)
        = .error (.undefinedVariable "y" (Sample.mark 3).span) failed ∧ failed.structDepth = 0 ∧
      SourceUnit.structs (unit ++ Sample.unbound) = seen ++ unseen ∧
      failed.errorsOf .embeddedStruct = env.options.embeddedErrors seen := by
  intro env unit
  obtain ⟨_, units⟩ := embedded_structs env
  obtain ⟨final, run⟩ := exists_of_completes (show completes env unit = true by decide +kernel)
  obtain ⟨together, around, ends, _⟩ := units unit
  obtain ⟨depth, errors⟩ := ends final run
  refine ⟨⟨final, run, depth, errors.trans rfl⟩, ?_, ?_⟩
  · have visited : .stmt Sample.nested ∈ unit.nodes := by
      simp [unit, SourceUnit.nodes, TopLevel.outline, Sample.nested, Stmt.outline, Outline.nodes]
    obtain ⟨before, behind, agenda⟩ := together _ visited
    obtain ⟨_, performed⟩ := exists_perform_of_analyze run
    rw [agenda] at performed
    obtain ⟨_, _, first, _⟩ := perform_append_ok performed
    obtain ⟨b, ctx, first, _⟩ := perform_append_ok first
    exact ⟨before, behind, b, ctx, agenda, first, around _ _ _ _ _ agenda first⟩
  · obtain ⟨_, _, _, fails⟩ := units (unit ++ Sample.unbound)
    have broken : check { version := 330 } (unit ++ Sample.unbound)
        = .error (.undefinedVariable "y" (Sample.mark 3).span) := by
      decide +kernel
    cases run : analyze env (unit ++ Sample.unbound) with
    | ok u final => simp [check, env, run] at broken
    | error f failed =>
      obtain rfl : f = .undefinedVariable "y" (Sample.mark 3).span := by
        simpa [check, env, run] using broken
      obtain ⟨depth, _, _, _, _, seen, unseen, _, _, _, listed, _, errors⟩ := fails _ failed run
      exact ⟨failed, seen, unseen, rfl, depth, listed, errors⟩

end ShaderAnalysis
