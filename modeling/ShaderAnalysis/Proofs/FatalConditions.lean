import ShaderAnalysis.Proofs.CleanCheck
import ShaderAnalysis.Proofs.Forest
import ShaderAnalysis.Proofs.Resolution
import ShaderAnalysis.Proofs.ScopeRestoration

/-!
What ends an analysis. An action fails for one of three reasons (`Action.Halts`), and then leaves
the state as it was: a use of a name that no open scope binds, a selection that reads as nothing on
the type of its base, a layout that names no input primitive. The other fatal conditions cannot come
up: agendas close the scopes that they open only, and the members of a record, its fields and the
entries made for them are equally many. Nothing that is reported is fatal (`fatal_conditions`).
-/

namespace ShaderAnalysis

open Analysis

/-- An action ends the analysis in a state. -/
inductive Action.Halts (env : Env) (ctx : Context) : Action → Fatal → Prop
  /-- No open scope binds the name. -/
  | undefined {m : Mark} {name : String} :
    (∀ f ∈ ctx.scopes.frames, f.vars.get? name = none) →
    Halts env ctx (.check (.ident m name)) (.undefinedVariable name m.span)
  /-- The base resolved to something that has neither members nor swizzles. -/
  | unclassified {m : Mark} {base : Expr} {name : String} : ctx.typeOf base.id ≠ .error →
    (ctx.typeOf base.id).isRecord = false → (ctx.typeOf base.id).isVector = false →
    (env.options.relaxedScalarSwizzle && (ctx.typeOf base.id).isScalar) = false →
    Halts env ctx (.check (.field m base name))
      (.unclassifiedSelection name (ctx.typeOf base.id) m.span)
  | notPrimitive {l : InputLayout} : (∀ p, l.mode ≠ .input p) →
    Halts env ctx (.applyLayout l) (.notInputPrimitive l.mode l.mark.span)

/-! ### Members and fields -/

theorem StructSpec.length_fields_body (o : Options) (ctx : Context) (s : StructSpec) :
    (s.body o ctx).value.fields.length = (DeclList.declarators s.members).length := by
  have names : (s.body o ctx).value.fields.map (·.name)
      = (DeclList.declarators s.members).map (·.name) := by
    unfold body
    split <;> exact DeclList.names_fields o ctx _ s.members
  simpa using congrArg List.length names

theorem BlockDecl.length_fields_body (o : Options) (ctx : Context) (b : BlockDecl)
    (storage : Storage) (span : Span) :
    (b.body o ctx storage span).value.fields.length
      = (DeclList.declarators b.members).length := by
  simpa using congrArg List.length (b.names_body o ctx storage span)

/-- A step ends without a fatal condition. -/
def Succeeds {α : Type} (m : AnalysisM α) (ctx : Context) : Prop :=
  ∃ a after, m ctx = .ok a after

/-- A struct definition is settled if its entry holds as many entries as it has members. -/
theorem StructSpec.settle_eq {s : StructSpec} {body : Record} {id : ReflectionId}
    {ctx : Context} {e : Reflection.Entry} (found : ctx.reflection.get? id = some e)
    (children : e.fields.length = body.fields.length)
    (members : body.fields.length = (DeclList.declarators s.members).length) :
    s.settle body id ctx =
      let linked := (Update.linkMembers (DeclList.declarators s.members) e.fields ctx).2
      let noted : Context :=
        { linked with annotations := linked.annotations.update s.mark.id fun a =>
            { a with ty := some (.record body), reflection := some id } }
      .ok (.record body)
        (if s.name.isEmpty then noted
          else (Update.declareStruct s.mark.span body noted).2) := by
  simp only [settle, AnalysisM.run_get_bind, found, Option.elim_some, children, members,
    ne_eq, not_true_eq_false, decide_false, Bool.or_self, Bool.false_eq_true, ↓reduceIte]
  cases s.name.isEmpty <;> rfl

theorem StructSpec.exists_bind (o : Options) (s : StructSpec) (ctx : Context) :
    ∃ after, s.bind o ctx = .ok (.record (s.body o ctx).value) after := by
  have members := s.length_fields_body o ctx
  rw [bind_eq]
  simp only [AnalysisM.run_get_bind, AnalysisM.run_lift_bind, Update.run_noting,
    Update.run_reflect]
  generalize s.body o ctx = body at members ⊢
  obtain ⟨e, found, _, _, _, mirrors⟩ :=
    Reflection.exists_entry_declareStruct ctx.reflection body.value
  exact ⟨_, settle_eq found mirrors.length_eq.symm members⟩

theorem StructSpec.succeeds_bind (o : Options) (s : StructSpec) (ctx : Context) :
    Succeeds (s.bind o) ctx :=
  ⟨_, s.exists_bind o ctx⟩

theorem BlockDecl.succeeds_bind (o : Options) (m : Mark) (b : BlockDecl) (ctx : Context) :
    Succeeds (b.bind o m) ctx := by
  unfold BlockDecl.bind
  cases b.qualifiers.blockStorage? with
  | none => exact ⟨_, _, rfl⟩
  | some storage =>
    have members := b.length_fields_body o ctx storage m.span
    simp only [Succeeds, AnalysisM.run_get_bind, AnalysisM.run_lift_bind, Update.run_noting]
    generalize b.body o ctx storage m.span = body at members ⊢
    cases b.instanceName with
    | some name => exact ⟨_, _, rfl⟩
    | none =>
      simp only [members, ne_eq, not_true_eq_false, ↓reduceIte]
      exact ⟨_, _, rfl⟩

/-! ### One action -/

/-- A selection fails if it reads as nothing on a type that is not the error type. -/
theorem classifySelection_error {o : Options} {m : Mark} {base : Expr} {name : String}
    {withArgs : Bool} {ctx failed : Context} {e : Fatal}
    (run : classifySelection o m base name withArgs ctx = .error e failed) :
    failed = ctx ∧ ctx.typeOf base.id ≠ .error ∧
      SelectionKind.classify (ctx.typeOf base.id) withArgs o.relaxedScalarSwizzle = none ∧
      e = .unclassifiedSelection name (ctx.typeOf base.id) m.span := by
  simp only [classifySelection, AnalysisM.run_get_bind] at run
  split at run
  · rename_i resolved
    cases kind : SelectionKind.classify (ctx.typeOf base.id) withArgs o.relaxedScalarSwizzle with
    | some k =>
      rw [kind] at run
      cases run
    | none =>
      rw [kind] at run
      cases run
      refine ⟨rfl, ?_, rfl, rfl⟩
      intro same
      simp [same, Ty.isError] at resolved
  · cases run

theorem SelectionKind.classify_eq_none {base : Ty} {withArgs relaxed : Bool} :
    classify base withArgs relaxed = none ↔
      base.isRecord = false ∧ withArgs = false ∧ base.isVector = false ∧
        (relaxed && base.isScalar) = false := by
  unfold classify
  cases base.isRecord <;> cases withArgs <;> cases base.isVector <;> simp

theorem ExecutionMode.primitive?_eq_none {mode : ExecutionMode} :
    mode.primitive? = none ↔ ∀ p, mode ≠ .input p := by
  cases mode <;> simp [primitive?]

/-- What is done before an expression is typed fails if the expression halts. -/
theorem halts_of_prepare {env : Env} {e : Expr} {ctx failed : Context} {f : Fatal}
    (stored : ctx.NamesStored) (run : prepare env e ctx = .error f failed) :
    failed = ctx ∧ (Action.check e).Halts env ctx f := by
  cases e with
  | ident m name =>
    have resolved : resolveIdentifier env.options m name ctx = .error f failed := run
    rcases resolveIdentifier_cases env.options m name ctx with
      ⟨_, same⟩ | ⟨_, hidden, halted⟩ | ⟨_, _, _, _, _, _, found⟩
    · rw [same] at resolved
      cases resolved
    · rw [halted] at resolved
      cases resolved
      refine ⟨rfl, .undefined ?_⟩
      exact List.findSome?_eq_none_iff.mp (stored.visible?_eq_none hidden)
    · rw [found] at resolved
      cases resolved
  | field m base name =>
    obtain ⟨rfl, resolved, nothing, rfl⟩ := classifySelection_error run
    obtain ⟨record, _, vector, scalar⟩ := SelectionKind.classify_eq_none.mp nothing
    exact ⟨rfl, .unclassified resolved record vector scalar⟩
  | method m base name args =>
    obtain ⟨_, _, nothing, _⟩ := classifySelection_error run
    obtain ⟨_, noArgs, _⟩ := SelectionKind.classify_eq_none.mp nothing
    cases noArgs
  | _ => cases run

theorem Expr.succeeds_noteType (env : Env) (e : Expr) (ctx : Context) :
    Succeeds (e.noteType env) ctx := by
  cases e <;> exact ⟨_, _, rfl⟩

/-- An action that fails halts, or closes the global scope, and changes nothing. -/
theorem Action.halts_of_act {env : Env} {a : Action} {base : Ty} {ctx failed : Context} {f : Fatal}
    (stored : ctx.NamesStored) (run : a.act env base ctx = .error f failed) :
    failed = ctx ∧ (a.Halts env ctx f ∨ a = .closeScope ∧ f = .globalScopeClosed) := by
  cases a with
  | check e =>
    have checked := AnalysisM.run_giving_error run
    rw [checkExpr_eq] at checked
    rcases AnalysisM.run_bind_error checked with prepared | ⟨_, between, _, noted⟩
    · obtain ⟨same, halts⟩ := halts_of_prepare stored prepared
      exact ⟨same, .inl halts⟩
    · obtain ⟨_, _, succeeds⟩ := e.succeeds_noteType env between
      rw [succeeds] at noted
      cases noted
  | closeScope =>
    have closed := AnalysisM.run_giving_error run
    simp only [Analysis.closeScope, AnalysisM.run_get_bind] at closed
    cases inner : ctx.scopes.pop? with
    | none =>
      rw [inner] at closed
      cases closed
      exact ⟨rfl, .inr ⟨rfl, rfl⟩⟩
    | some popped =>
      rw [inner] at closed
      cases closed
  | bindStruct s =>
    obtain ⟨_, _, succeeds⟩ := s.succeeds_bind env.options ctx
    rw [AnalysisM.run_giving_error run] at succeeds
    cases succeeds
  | bindBlock m b =>
    obtain ⟨_, _, succeeds⟩ := b.succeeds_bind env.options m ctx
    rw [AnalysisM.run_giving_error run] at succeeds
    cases succeeds
  | applyLayout l =>
    have applied := AnalysisM.run_giving_error run
    unfold InputLayout.apply at applied
    cases named : l.mode.primitive? with
    | some p =>
      rw [named] at applied
      cases applied
    | none =>
      rw [named] at applied
      cases applied
      exact ⟨rfl, .inl (.notPrimitive (ExecutionMode.primitive?_eq_none.mp named))⟩
  | typeName d =>
    obtain ⟨mark, name, dims, init⟩ := d
    cases init <;> cases run
  | _ => cases run

/-- An action that halts fails, if it is not a use that has been resolved before. -/
theorem Action.act_of_halts {env : Env} {a : Action} {ctx : Context} {f : Fatal}
    (h : a.Halts env ctx f)
    (fresh : ∀ m name, a = .check (.ident m name) → ctx.varAt m.id = none) (base : Ty) :
    a.act env base ctx = .error f ctx := by
  cases h with
  | @undefined m name unbound =>
    have hidden : ctx.scopes.findVariable? name = none := List.findSome?_eq_none_iff.mpr unbound
    rcases act_check_ident env m name base (fresh m name rfl) with
      ⟨_, failed⟩ | ⟨id, v, _, visible, _⟩
    · exact failed
    · rw [(Context.visible?_eq_some.mp visible).1] at hidden
      cases hidden
  | @unclassified m b name resolved record vector scalar =>
    have nothing := SelectionKind.classify_eq_none.mpr ⟨record, rfl, vector, scalar⟩
    have typed : (ctx.typeOf b.id).isError = false := by
      cases type : ctx.typeOf b.id with
      | error => exact absurd type resolved
      | _ => rfl
    have prepared : prepare env (.field m b name) ctx
        = .error (.unclassifiedSelection name (ctx.typeOf b.id) m.span) ctx := by
      simp [prepare, classifySelection, typed, nothing]
    rw [act, AnalysisM.run_bind_of_error]
    exact AnalysisM.run_bind_of_error prepared _
  | @notPrimitive l other =>
    have applied : l.apply ctx = .error (.notInputPrimitive l.mode l.mark.span) ctx := by
      simp [InputLayout.apply, ExecutionMode.primitive?_eq_none.mpr other]
    exact AnalysisM.run_bind_of_error applied _

/-! ### Runs -/

/-- Actions that fail do so at one of them, behind others that went well. -/
theorem exists_act_of_perform_error {env : Env} {plan : List Action} {base : Ty}
    {ctx failed : Context} {f : Fatal} (run : perform env plan base ctx = .error f failed) :
    ∃ done a rest b between, plan = done ++ a :: rest ∧
      perform env done base ctx = .ok b between ∧ a.act env b between = .error f failed := by
  induction plan generalizing base ctx with
  | nil => cases run
  | cons a as ih =>
    rw [perform_cons] at run
    rcases AnalysisM.run_bind_error run with first | ⟨b, between, first, last⟩
    · exact ⟨[], a, as, base, ctx, rfl, rfl, first⟩
    · obtain ⟨done, a', rest, c, reached, split, performed, act⟩ := ih last
      refine ⟨a :: done, a', rest, c, reached, by simp [split], ?_, act⟩
      rw [perform_cons, AnalysisM.run_bind_of_ok first]
      exact performed

theorem Context.NamesStored.opened {ctx : Context} (h : ctx.NamesStored) :
    ctx.opened.NamesStored :=
  h.change .openScope trivial

/-- Actions that close the scopes that they open only never close the global one. -/
theorem Balanced.ne_globalScopeClosed {env : Env} {as : List Action} (h : Balanced as) {base : Ty}
    {ctx failed : Context} {f : Fatal} (stored : ctx.NamesStored)
    (run : perform env as base ctx = .error f failed) : f ≠ .globalScopeClosed := by
  induction h generalizing base ctx with
  | nil => cases run
  | @plain a as plain _ ih =>
    rw [perform_cons] at run
    rcases AnalysisM.run_bind_error run with first | ⟨b, between, first, last⟩
    · obtain ⟨_, halts | ⟨rfl, _⟩⟩ := Action.halts_of_act stored first
      · cases halts <;> rintro ⟨⟩
      · exact absurd plain id
    · exact ih (stored.changes (Action.changes_of_act first)) last
  | @enclosed r inner rest inside _ ih ih' =>
    rw [perform_append] at run
    rcases AnalysisM.run_bind_error run with first | ⟨b, between, first, last⟩
    · rcases perform_enclose env r base ctx (inside.growsScopes base ctx.opened) with
        ⟨_, _, _, restored⟩ | ⟨f', failed', broken, same, _⟩
      · rw [restored] at first
        cases first
      · rw [same] at first
        cases first
        exact ih stored.opened broken
    · exact ih' (stored.changes (changes_of_perform first)) last

/-- An analysis comes to an action, behind others that went well, in a state in which the action
ends it. -/
def SourceUnit.HaltsAt (env : Env) (unit : SourceUnit) (f : Fatal) (ctx : Context) : Prop :=
  ∃ done a rest b, unit.agenda = done ++ a :: rest ∧
    perform env done .void (.initial env.options) = .ok b ctx ∧ a.Halts env ctx f

section

variable {env : Env} {unit : SourceUnit} {f : Fatal} {ctx failed : Context}

theorem haltsAt_of_analyze (run : analyze env unit = .error f failed) :
    unit.HaltsAt env f failed := by
  rw [analyze_eq] at run
  have broken := AnalysisM.run_giving_error run
  have stored := Context.NamesStored.initial env.options
  have never := (Balanced.unit unit).ne_globalScopeClosed stored broken
  obtain ⟨done, a, rest, b, between, agenda, performed, act⟩ := exists_act_of_perform_error broken
  obtain ⟨rfl, halts | ⟨_, closed⟩⟩ :=
    Action.halts_of_act (stored.changes (changes_of_perform performed)) act
  · exact ⟨done, a, rest, b, agenda, performed, halts⟩
  · exact absurd closed never

theorem agrees_of_perform (distinct : unit.ids.Nodup) {done rest : List Action} {b : Ty}
    (agenda : unit.agenda = done ++ rest)
    (run : perform env done .void (.initial env.options) = .ok b ctx) :
    Agrees env.options.stage (sitesOf [] done) (pathAfter [] done) ctx := by
  refine Agrees.perform (fun k => ?_) run
  have once := nodup_homes distinct k
  rw [agenda, homes_append] at once
  exact once.of_append_left

/-- A use that is come to has no variable yet, if no other node has its number. -/
theorem varAt_eq_none_of_perform (distinct : unit.ids.Nodup) {done rest : List Action} {m : Mark}
    {name : String} {b : Ty} (agenda : unit.agenda = done ++ .check (.ident m name) :: rest)
    (run : perform env done .void (.initial env.options) = .ok b ctx) : ctx.varAt m.id = none := by
  by_contra given
  have mem := (agrees_of_perform distinct agenda run).known m.id
    (Option.isSome_iff_ne_none.mpr given)
  exact disjoint_homes distinct .finding agenda ((sitesOf_sublist [] done).subset mem)
    List.mem_cons_self

theorem analyze_of_haltsAt (distinct : unit.ids.Nodup) (h : unit.HaltsAt env f ctx) :
    analyze env unit = .error f ctx := by
  obtain ⟨done, a, rest, b, agenda, performed, halts⟩ := h
  have fresh : ∀ m name, a = .check (.ident m name) → ctx.varAt m.id = none := by
    rintro m name rfl
    exact varAt_eq_none_of_perform distinct agenda performed
  have failed := AnalysisM.run_bind_of_error (Action.act_of_halts halts fresh b) (perform env rest)
  rw [analyze_of_perform agenda performed]
  exact AnalysisM.run_bind_of_error failed _

/-- A name that ends an analysis has no candidate that reaches the place of the use. -/
theorem not_reaches_of_haltsAt (distinct : unit.ids.Nodup) {name : String} {span : Span}
    (h : unit.HaltsAt env (.undefinedVariable name span) ctx) :
    ∃ m before after here, m.span = span ∧ unit.sites
        = before ++ { role := .use, mark := m, name := name, regions := here } :: after ∧
      ∀ c ∈ candidates ctx env.options.stage before name, ¬ c.Reaches here := by
  obtain ⟨done, a, rest, b, agenda, performed, halts⟩ := h
  cases halts with
  | @undefined m name unbound =>
    have agrees := agrees_of_perform distinct agenda performed
    have hidden : ctx.scopes.findVariable? name = none := List.findSome?_eq_none_iff.mpr unbound
    rw [agrees.findVariable?_eq name] at hidden
    exact ⟨m, _, _, _, rfl, sites_of_agenda agenda, not_reaches_of_findSome? hidden⟩

/-- The analysis of a unit with distinct numbers ends in a fatal condition just where it comes to an
action that halts, and with the condition of that action: the global scope is never closed, and no
record is built with a wrong number of members. A name that ends the analysis is declared nowhere
that its use can see. Where no action halts, the analysis comes to its end, whatever it reports. -/
theorem fatal_conditions (distinct : unit.ids.Nodup) :
    (∀ f failed, analyze env unit = .error f failed ↔ unit.HaltsAt env f failed) ∧
    (∀ f failed, analyze env unit = .error f failed →
      f ≠ .globalScopeClosed ∧ (∀ name span, f ≠ .blockMemberMismatch name span) ∧
        ∀ name declared built span, f ≠ .structMemberMismatch name declared built span) ∧
    (∀ name span failed, analyze env unit = .error (.undefinedVariable name span) failed →
      ∃ m before after here, m.span = span ∧ unit.sites
          = before ++ { role := .use, mark := m, name := name, regions := here } :: after ∧
        ∀ c ∈ candidates failed env.options.stage before name, ¬ c.Reaches here) ∧
    ((∀ f ctx, ¬ unit.HaltsAt env f ctx) → ∃ final, analyze env unit = .ok () final) := by
  refine ⟨?_, ?_, ?_, ?_⟩
  · exact fun f failed => ⟨haltsAt_of_analyze, analyze_of_haltsAt distinct⟩
  · intro f failed run
    obtain ⟨done, a, rest, b, _, _, halts⟩ := haltsAt_of_analyze run
    cases halts <;> simp
  · intro name span failed run
    exact not_reaches_of_haltsAt distinct (haltsAt_of_analyze run)
  · intro never
    cases run : analyze env unit with
    | ok u final => exact ⟨final, rfl⟩
    | error f failed => exact absurd (haltsAt_of_analyze run) (never f failed)

end

/-- The unit `void main() { y; }`. -/
def Sample.unbound : SourceUnit :=
  let use : Expr := .ident (mark 3) "y"
  [.function { main with body := .compound (mark 10) true [.expr (mark 9) (some use)] }]

theorem fatal_conditions_unbound :
    ∃ failed, analyze (.standard {}) Sample.unbound
        = .error (.undefinedVariable "y" (Sample.mark 3).span) failed ∧
      Sample.unbound.HaltsAt (.standard {}) (.undefinedVariable "y" (Sample.mark 3).span) failed ∧
      ∃ m before after here, m.span = (Sample.mark 3).span ∧ Sample.unbound.sites
          = before ++ { role := .use, mark := m, name := "y", regions := here } :: after ∧
        ∀ c ∈ candidates failed .fragment before "y", ¬ c.Reaches here := by
  have ends : check {} Sample.unbound = .error (.undefinedVariable "y" (Sample.mark 3).span) := by
    decide +kernel
  cases run : analyze (.standard {}) Sample.unbound with
  | ok u final => simp [check, run] at ends
  | error f failed =>
    obtain rfl : f = .undefinedVariable "y" (Sample.mark 3).span := by
      simpa [check, run] using ends
    obtain ⟨halts, _, undefined, _⟩ :=
      @fatal_conditions (.standard {}) Sample.unbound (by decide)
    exact ⟨failed, rfl, (halts _ failed).mp run, undefined "y" _ failed run⟩

end ShaderAnalysis
