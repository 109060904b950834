import Mathlib.Data.List.Nodup
import ShaderAnalysis.Proofs.CleanSteps
import ShaderAnalysis.Proofs.NodeIds
import ShaderAnalysis.Proofs.Performance

/-!
What a check without errors says about types. Nearly everything that has no type is reported, but
not all: an index into what has no elements, an empty sequence, braces that no type was given to,
and a constructor of a struct that is defined in place have the error type in silence. If none of
these is visited, a unit that passes the check has a clean type at every expression; if one is, it
has the error type there all the same (`types_of_check`).
-/

namespace ShaderAnalysis

open Analysis

/-- An expression that gets the error type without a report, and not from its parts. -/
def Expr.Unreported (ctx : Context) : Expr → Prop
  | .index _ base _ => (ctx.typeOf base.id).indexed = .error ∧ ctx.typeOf base.id ≠ .error
  | .seq _ es => es = []
  | .aggregate m _ => (ctx.annotations.ofNode m.id).aggregate = none
  | .construct _ t _ => ¬ t.Known ctx
  | _ => False

/-- An expression is visited, and gets the error type there without a report. -/
def VisitedInSilence (env : Env) (unit : SourceUnit) (e : Expr) : Prop :=
  ∃ done rest b ctx, unit.agenda = done ++ .check e :: rest ∧
    perform env done .void (.initial env.options) = .ok b ctx ∧ e.Unreported ctx

/-- The node of each of some expressions has a type. -/
def Context.Typed (ctx : Context) (es : List Expr) : Prop :=
  ∀ e ∈ es, (ctx.annotations.ofNode e.id).ty.isSome

/-! ### Types of expressions -/

/-- An expression that has been looked at: a name that is linked to a variable, or a selection that
has been classified. -/
def Expr.Prepared (ctx : Context) : Expr → Prop
  | .ident m _ => (ctx.annotations.ofNode m.id).var.isSome
  | .field m .. | .method m .. => (ctx.annotations.ofNode m.id).selection.isSome
  | _ => True

section

variable {env : Env} {ctx : Context}

theorem SelectionKind.typeOf_sound {base : Ty} (h : base.clean = true) (name : String) (span : Span)
    (k : SelectionKind) : (k.typeOf base name span).Sound fun ty => ty.clean = true := by
  cases k with
  | member =>
    simp only [typeOf]
    split
    · rename_i f found
      obtain ⟨r, record, field⟩ := Option.bind_eq_some_iff.mp found
      cases base with
      | record body =>
        cases record
        exact .pure (Record.clean_of_field? h field)
      | _ => cases record
    · exact .reject rfl
  | method =>
    simp only [typeOf]
    split
    · exact .pure rfl
    · exact .reject rfl
  | swizzle =>
    simp only [typeOf]
    split
    · rename_i found
      exact .pure (Swizzle.clean_select? found)
    · exact .reject rfl

theorem Env.typeOfCall_sound (h : ctx.Clean)
    (builtins : ∀ name args t, env.builtins name args = some t → t.clean = true) (name : String)
    {args : List Ty} (cleans : ∀ t ∈ args, t.clean = true) (span : Span) :
    (env.typeOfCall ctx name args span).Sound fun ty => ty.clean = true := by
  have fine : args.any Ty.isError = false := by
    simpa using fun t mem => Ty.clean_of_isError (cleans t mem)
  simp only [typeOfCall, fine, Bool.false_eq_true, ↓reduceIte]
  split
  · rename_i s found
    exact .pure (h.functions name s (Overloads.mem_ofName_of_find? found))
  · split
    · rename_i found
      exact .pure (builtins _ _ _ found)
    · exact .reject rfl

/-- An expression with clean parts has a clean type, or is reported, or is one of the few that are
not. -/
theorem Expr.typeOf_sound (h : ctx.Clean)
    (builtins : ∀ name args t, env.builtins name args = some t → t.clean = true) {e : Expr}
    (parts : ctx.Typed e.parts) (prepared : e.Prepared ctx) (reported : ¬ e.Unreported ctx) :
    (e.typeOf env ctx).Sound fun ty => ty.clean = true := by
  have part : ∀ q ∈ e.parts, (ctx.typeOf q.id).clean = true := fun q mem => h.of_typed (parts q mem)
  have selected : ∀ m base name, base ∈ e.parts →
      (ctx.annotations.ofNode m.id).selection.isSome →
      (typeOfSelection ctx m base name).Sound fun ty => ty.clean = true := by
    intro m base name mem classified
    obtain ⟨k, kind⟩ := Option.isSome_iff_exists.mp classified
    simp only [typeOfSelection, kind]
    exact k.typeOf_sound (part base mem) name m.span
  cases e with
  | ident m name =>
    obtain ⟨id, linked⟩ := Option.isSome_iff_exists.mp prepared
    obtain ⟨v, stored⟩ : ∃ v, ctx.vars.get? id = some v :=
      ⟨_, Array.getElem?_eq_getElem (h.linked m.id id linked)⟩
    have found : ctx.variableOf? m.id = some v := by simp [Context.variableOf?, linked, stored]
    simp only [typeOf, found, Option.elim_some]
    exact .pure (h.vars id v stored)
  | int | uint | float | bool => exact .pure rfl
  | unary m op a =>
    cases op with
    | logicalNot => exact .pure rfl
    | _ => exact .pure (part a (by simp [Expr.parts]))
  | binary m op a b =>
    exact .pure (op.clean_typeOf (part a (by simp [Expr.parts])) (part b (by simp [Expr.parts])))
  | assign m op a b => exact .pure (part a (by simp [Expr.parts]))
  | cond m a b c => exact .pure (part b (by simp [Expr.parts]))
  | index m base place =>
    have clean := part base (by simp [Expr.parts])
    refine .pure (Ty.clean_indexed clean fun nothing => reported ⟨nothing, Ty.ne_error clean⟩)
  | field m base name => exact selected m base name (by simp [Expr.parts]) prepared
  | method m base name args => exact selected m base name (by simp [Expr.parts]) prepared
  | call m name args =>
    refine Env.typeOfCall_sound h builtins name (fun t mem => ?_) m.span
    obtain ⟨a, inside, rfl⟩ := List.mem_map.mp mem
    exact part a inside
  | construct m t args =>
    have known : t.Known ctx := Classical.not_not.mp reported
    exact (TypeSpec.resolve_sound h known _).bind fun ty clean =>
      .pure ((Ty.Resizes.sizedTo _ args.length).clean clean)
  | seq m es =>
    simp only [typeOf]
    cases last : es.getLast? with
    | none => exact absurd (List.getLast?_eq_none_iff.mp last) reported
    | some e => exact .pure (part e (List.mem_of_getLast? last))
  | aggregate m es =>
    obtain ⟨ty, given⟩ := Option.ne_none_iff_exists'.mp reported
    simp only [typeOf, given, Option.getD_some]
    exact .pure (h.aggregates m.id ty given)

/-- What is not reported has the error type. -/
theorem Expr.typeOf_of_unreported {e : Expr} (h : e.Unreported ctx) :
    (e.typeOf env ctx).value = .error := by
  cases e with
  | index m base place => exact h.1
  | seq m es =>
    cases h
    rfl
  | aggregate m es =>
    have none : (ctx.annotations.ofNode m.id).aggregate = Option.none := h
    simp [typeOf, none]
  | construct m t args =>
    obtain ⟨head, dims⟩ := t
    cases head with
    | named name => exact absurd (by simp [TypeSpec.Known, TypeSpec.structs]) h
    | struct s =>
      have none : (ctx.annotations.ofNode s.mark.id).ty = Option.none := by
        simpa [Expr.Unreported, TypeSpec.Known, TypeSpec.structs] using h
      simp [typeOf, TypeSpec.resolve, TypeHead.resolve, Context.typeOf, none, Ty.withDimensions,
        Ty.isError, Ty.sizedTo]
  | _ => exact False.elim h

end

/-! ### Looking at an expression -/

/-- What is done before an expression is typed leaves types alone. -/
theorem Expr.kept_of_touches {e : Expr} {ctx ctx' : Context} (h : Changes e.touches ctx ctx')
    (id : NodeId) :
    (ctx'.annotations.ofNode id).ty = (ctx.annotations.ofNode id).ty ∧
      (ctx'.annotations.ofNode id).aggregate = (ctx.annotations.ofNode id).aggregate := by
  constructor
  · refine h.agree (n := .ty) ?_
    cases e <;> simp [touches]
  · refine h.agree (n := .aggregate) ?_
    cases e <;> simp [touches]

theorem Expr.prepared_of_prepare {env : Env} {e : Expr} {ctx ctx' : Context} (h : ctx.Clean)
    (parts : ctx.Typed e.parts) (run : prepare env e ctx = .ok () ctx') : e.Prepared ctx' := by
  have classified : ∀ m base name withArgs, base ∈ e.parts →
      classifySelection env.options m base name withArgs ctx = .ok () ctx' →
      (ctx'.annotations.ofNode m.id).selection.isSome := by
    intro m base name withArgs mem run
    have fine := Ty.clean_of_isError (h.of_typed (parts base mem))
    simp only [classifySelection, AnalysisM.run_get_bind, fine, Bool.not_false, ↓reduceIte] at run
    cases kind : SelectionKind.classify (ctx.typeOf base.id) withArgs
      env.options.relaxedScalarSwizzle with
    | none => simp [kind] at run
    | some k =>
      rw [kind] at run
      cases run
      simp [Annotations.ofNode_update]
  cases e with
  | ident m name =>
    have resolved : resolveIdentifier env.options m name ctx = .ok () ctx' := run
    rcases resolveIdentifier_cases env.options m name ctx with
      ⟨given, same⟩ | ⟨_, _, failed⟩ | ⟨id, v, r, entry, _, _, found⟩
    · rw [same] at resolved
      cases resolved
      exact given
    · rw [failed] at resolved
      cases resolved
    · rw [found] at resolved
      cases resolved
      simp [Prepared, Change.apply, Annotations.ofNode_update, Slot.write]
  | field m base name => exact classified m base name false (by simp [Expr.parts]) run
  | method m base name args => exact classified m base name true (by simp [Expr.parts]) run
  | _ => trivial

/-- What is done at an expression once it has been looked at. -/
def Expr.noteType (env : Env) (e : Expr) : AnalysisM Unit := do
  let ty ← Update.noting (e.typeOf env (← get))
  Update.annotate e.id fun a => { a with ty := some ty }
  if let .index m base place := e then
    recordAccess m base place

theorem checkExpr_eq (env : Env) (e : Expr) :
    checkExpr env e = (do prepare env e; e.noteType env) := rfl

theorem Expr.confined_noteType (env : Env) (e : Expr) :
    Confined [.diagnostics, .slot e.id .ty, .access] (e.noteType env) := by
  refine .bind .get fun ctx => .bind (.lift (.noting _ (by simp))) ?_
  intro ty
  refine .bind (.lift (.annotate _ (.ty ty) (by simp) (by simp))) ?_
  intro _
  cases e with
  | index m base place => exact .lift ((confined_recordAccess m base place).mono (by simp))
  | _ => exact .pure ()

theorem Expr.keeps_noteType {env : Env} {e : Expr} {ctx : Context} {p : Prop}
    (sound : p → ctx.Clean → (e.typeOf env ctx).Sound fun ty => ty.clean = true) :
    Keeps ctx p (e.noteType env) fun _ => True := by
  refine .read (.bind (.lift (.noting fun given => sound given.1 given.2)) fun ty _ => ?_)
  refine .bind (.lift (.annotate e.id (.ty ty) fun given => given.2)) ?_
  intro _ _
  split
  · exact .lift (keeps_recordAccess _ _ _)
  · exact .pure fun _ => trivial

theorem Expr.type_of_noteType {env : Env} {e : Expr} {ctx after : Context}
    (run : e.noteType env ctx = .ok () after) :
    (after.annotations.ofNode e.id).ty = some (e.typeOf env ctx).value := by
  let ty := e.typeOf env ctx
  let noted := (Change.annotate e.id (.ty ty.value)).apply ((Change.note ty.problems).apply ctx)
  have own : (noted.annotations.ofNode e.id).ty = some ty.value := by
    simp [noted, Change.apply, Annotations.ofNode_update, Slot.write]
  cases e with
  | index m base place =>
    cases run
    have changes := confined_recordAccess m base place noted
    exact (changes.agree (n := .ty) (by simp)).trans own
  | _ =>
    cases run
    exact own

theorem Expr.Unreported.congr {e : Expr} {ctx ctx' : Context}
    (same : ∀ id, (ctx'.annotations.ofNode id).ty = (ctx.annotations.ofNode id).ty ∧
      (ctx'.annotations.ofNode id).aggregate = (ctx.annotations.ofNode id).aggregate)
    (h : e.Unreported ctx) : e.Unreported ctx' := by
  cases e with
  | index m base place =>
    have type : ctx'.typeOf base.id = ctx.typeOf base.id := by
      simp only [Context.typeOf, (same base.id).1]
    rw [Unreported, type]
    exact h
  | aggregate m es => exact (same m.id).2.trans h
  | construct m t args =>
    refine fun known => h ?_
    intro s mem
    rw [← (same s.mark.id).1]
    exact known s mem
  | seq m es => exact h
  | _ => exact False.elim h

theorem Expr.changes_of_prepare {env : Env} {e : Expr} {ctx between : Context}
    (run : prepare env e ctx = .ok () between) : Changes e.touches ctx between := by
  have changes := confined_prepare env e ctx
  rwa [run] at changes

theorem Context.Clean.prepare {env : Env} {e : Expr} {ctx between : Context} (h : ctx.Clean)
    (run : prepare env e ctx = .ok () between) : between.Clean := by
  cases e with
  | index m base place =>
    cases run
    exact h
  | _ =>
    refine (Expr.changes_of_prepare run).clean_of_inert ?_ h
    simp [Expr.touches, Touch.Inert]

theorem keeps_checkExpr {env : Env}
    (builtins : ∀ name args t, env.builtins name args = some t → t.clean = true) {e : Expr}
    {ctx : Context} {p : Prop} (parts : ctx.Typed e.parts) (reported : ¬ e.Unreported ctx) :
    Keeps ctx p (checkExpr env e) fun _ => True := by
  intro u after run
  rw [checkExpr_eq] at run
  obtain ⟨_, between, prepared, noted⟩ := AnalysisM.run_bind_ok run
  have changes := Expr.changes_of_prepare prepared
  have same := Expr.kept_of_touches changes
  have sound : ctx.Clean → between.Clean →
      (e.typeOf env between).Sound fun ty => ty.clean = true := by
    intro clean clean'
    have stillTyped : between.Typed e.parts := by
      intro q mem
      rw [(same q.id).1]
      exact parts q mem
    have stillReported : ¬ e.Unreported between := by
      intro silent
      exact reported (silent.congr fun id => ⟨(same id).1.symm, (same id).2.symm⟩)
    exact Expr.typeOf_sound clean' builtins stillTyped
      (Expr.prepared_of_prepare clean parts prepared) stillReported
  obtain ⟨sub, kept⟩ := Expr.keeps_noteType sound u after noted
  constructor
  · exact List.Subset.trans changes.diagnostics_subset sub
  · intro _ clean faultless
    exact kept clean (clean.prepare prepared) faultless

/-! ### One action -/

/-- The nodes that have types after an action. -/
def Action.typed : Action → List NodeId
  | .check e => [e.id]
  | .bindStruct s => [s.mark.id]
  | _ => []

/-- The nodes whose types an action relies on have types. -/
def Action.Ready (ctx : Context) : Action → Prop
  | .check e => ctx.Typed e.parts
  | .bindStruct s => ∀ l ∈ s.members, l.type.Known ctx
  | .bindBlock _ b => ∀ l ∈ b.members, l.type.Known ctx
  | .typeList _ list => list.type.Known ctx
  | .bindParameter p => p.type.Known ctx
  | .saveFunction p => p.returns.Known ctx
  | _ => True

theorem Action.ready_of_needs {a : Action} {ctx : Context}
    (done : ∀ b ∈ a.needs, ∀ id ∈ b.typed, (ctx.annotations.ofNode id).ty.isSome) :
    a.Ready ctx := by
  have structs : ∀ s : StructSpec, .bindStruct s ∈ a.needs →
      (ctx.annotations.ofNode s.mark.id).ty.isSome := fun s mem =>
    done _ mem s.mark.id (List.mem_singleton_self _)
  cases a with
  | check e =>
    intro q mem
    exact done (.check q) (List.mem_map_of_mem mem) q.id (List.mem_singleton_self _)
  | bindStruct s =>
    intro l mem t inside
    exact structs t (List.mem_map_of_mem (List.mem_flatMap.mpr ⟨l, mem, inside⟩))
  | bindBlock m b =>
    intro l mem t inside
    exact structs t (List.mem_map_of_mem (List.mem_flatMap.mpr ⟨l, mem, inside⟩))
  | typeList | bindParameter | saveFunction =>
    intro t inside
    exact structs t (List.mem_map_of_mem inside)
  | _ => trivial

/-- An action that is ready keeps types clean, also that of the declaration which is open, if it is
not at an expression that is not reported. -/
theorem Action.keeps {env : Env}
    (builtins : ∀ name args t, env.builtins name args = some t → t.clean = true) {a : Action}
    {base : Ty} {ctx : Context} (ready : a.Ready ctx)
    (reported : ∀ e, a = .check e → ¬ e.Unreported ctx) :
    Keeps ctx (base.clean = true) (a.act env base) fun b => b.clean = true := by
  cases a with
  | openScope r =>
    have confined : Confined [.opening] Analysis.openScope :=
      .lift fun ctx => .single .openScope (by simp) trivial
    exact .giving (.inert confined (by simp [Touch.Inert])) id
  | closeScope => exact .giving (.inert confined_closeScope (by simp [Touch.Inert])) id
  | check e => exact .giving (keeps_checkExpr builtins ready (reported e rfl)) id
  | enterStruct span =>
    exact .giving (.lift (.inert (Update.confined_enterStruct _ _) (by simp [Touch.Inert]))) id
  | leaveStruct =>
    exact .giving (.lift (.inert Update.confined_leaveStruct (by simp [Touch.Inert]))) id
  | bindStruct s => exact .giving (s.keeps_bind ready) id
  | typeList span list =>
    exact .read (.lift (.noting fun given => TypeSpec.resolve_sound given.2 ready span))
  | typeName d => exact .giving (keeps_typeDeclarator env d id) id
  | bindName list d => exact .giving (keeps_bindDeclarator env list d id) id
  | bindBlock m b => exact .giving (b.keeps_bind m ready) id
  | bindParameter p => exact .giving (.lift (p.keeps_bind ready)) id
  | saveFunction p => exact .giving (.lift (p.keeps_save ready)) id
  | applyLayout l => exact .giving l.keeps_apply id
  | leave n =>
    exact .giving (.lift (.inert (Update.confined_leave n) (by simp [Touch.Inert]))) id

/-- A node that has a type never loses it. -/
theorem Changes.typed {ts : List Touch} {ctx ctx' : Context} (h : Changes ts ctx ctx')
    {id : NodeId} (typed : (ctx.annotations.ofNode id).ty.isSome) :
    (ctx'.annotations.ofNode id).ty.isSome := by
  refine h.invariant (I := fun between => (between.annotations.ofNode id).ty.isSome) ?_ typed
  intro c _ between _ typed
  rcases c.ofNode_apply between id with ⟨slot, rfl, written⟩ | same
  · rw [written]
    cases slot with
    | ty t => rfl
    | _ => exact typed
  · rwa [same]

/-- A struct definition that is bound has its record type. -/
theorem StructSpec.type_of_bind {o : Options} {s : StructSpec} {ctx after : Context} {ty : Ty}
    (run : s.bind o ctx = .ok ty after) :
    (after.annotations.ofNode s.mark.id).ty = some (.record (s.body o ctx).value) := by
  simp only [StructSpec.bind, AnalysisM.run_get_bind, AnalysisM.run_lift_bind] at run
  split at run
  · cases run
  · simp only [AnalysisM.run_lift_bind] at run
    split at run
    · cases run
      refine ((Update.confined_declareStruct _ _ _).agree (n := .ty) (by simp)).trans ?_
      simp [Update.annotate, Annotations.ofNode_update]
    · cases run
      simp [Update.annotate, Annotations.ofNode_update]

/-- What looking at an expression notes there is the type that it has once it is prepared. -/
theorem type_of_act_check {env : Env} {e : Expr} {base b : Ty} {ctx after : Context}
    (run : (Action.check e).act env base ctx = .ok b after) :
    ∃ between, prepare env e ctx = .ok () between ∧
      (after.annotations.ofNode e.id).ty = some (e.typeOf env between).value := by
  obtain ⟨⟨_, checked⟩, _⟩ := AnalysisM.run_giving_ok run
  rw [checkExpr_eq] at checked
  obtain ⟨_, between, prepared, noted⟩ := AnalysisM.run_bind_ok checked
  exact ⟨between, prepared, Expr.type_of_noteType noted⟩

theorem Action.typed_of_act {env : Env} {a : Action} {base b : Ty} {ctx after : Context}
    (run : a.act env base ctx = .ok b after) {id : NodeId} (mem : id ∈ a.typed) :
    (after.annotations.ofNode id).ty.isSome := by
  cases a with
  | check e =>
    rw [List.mem_singleton.mp mem]
    obtain ⟨between, _, noted⟩ := type_of_act_check run
    simp [noted]
  | bindStruct s =>
    rw [List.mem_singleton.mp mem]
    obtain ⟨⟨ty, bound⟩, _⟩ := AnalysisM.run_giving_ok run
    simp [StructSpec.type_of_bind bound]
  | _ => simp [typed] at mem

/-! ### A whole run -/

/-- Actions that went well gave types to their nodes. -/
theorem typed_of_perform {env : Env} {as : List Action} {base b : Ty} {ctx after : Context}
    (run : perform env as base ctx = .ok b after) {a : Action} (mem : a ∈ as) {id : NodeId}
    (typed : id ∈ a.typed) : (after.annotations.ofNode id).ty.isSome := by
  obtain ⟨first, rest, rfl⟩ := List.append_of_mem mem
  obtain ⟨c, between, d, acted, _, act, left⟩ := perform_split_ok run
  exact (changes_of_perform left).typed (Action.typed_of_act act typed)

/-- What holds before a list of actions, and is kept by each that goes well without an error, holds
all the way while no error is reported. -/
theorem faultless_induction {env : Env} {plan : List Action} {base : Ty} {start : Context}
    {I : List Action → Ty → Context → Prop} (initial : I [] base start)
    (step : ∀ {done rest : List Action} {a : Action} {b c : Ty} {ctx after : Context},
      plan = done ++ a :: rest → perform env done base start = .ok b ctx →
      a.act env b ctx = .ok c after → after.Faultless → I done b ctx → I (done ++ [a]) c after)
    {done rest : List Action} (split : plan = done ++ rest) {b : Ty} {ctx : Context}
    (run : perform env done base start = .ok b ctx) (faultless : ctx.Faultless) : I done b ctx := by
  refine perform_induction (I := fun done b ctx => ctx.Faultless → I done b ctx)
    (fun _ => initial) ?_ split run faultless
  intro done rest a b c ctx after split first act before faultless
  exact step split first act faultless (before (faultless.before (Action.changes_of_act act)))

/-- If no expression has been visited in silence, and no error has been reported, types are clean at
every point of an analysis. -/
theorem clean_of_perform {env : Env}
    (builtins : ∀ name args t, env.builtins name args = some t → t.clean = true)
    {unit : SourceUnit} (reported : ∀ e, ¬ VisitedInSilence env unit e) {done rest : List Action}
    (agenda : unit.agenda = done ++ rest) {b : Ty} {ctx : Context}
    (run : perform env done .void (.initial env.options) = .ok b ctx) (faultless : ctx.Faultless) :
    ctx.Clean ∧ b.clean = true := by
  refine faultless_induction (I := fun _ b ctx => ctx.Clean ∧ b.clean = true)
    ⟨Context.Clean.initial env.options, rfl⟩ ?_ agenda run faultless
  rintro done rest a b c ctx after agenda first act faultless ⟨clean, base⟩
  have needs := (Grounded.unit unit).needs_done agenda
  have ready : a.Ready ctx := Action.ready_of_needs fun b need id mem =>
    typed_of_perform first (needs b need) mem
  have heard : ∀ e, a = .check e → ¬ e.Unreported ctx := by
    rintro e rfl silent
    exact reported e ⟨done, rest, b, ctx, agenda, first, silent⟩
  obtain ⟨_, kept⟩ := Action.keeps builtins ready heard c after act
  exact kept base clean faultless

theorem faultless_of_check {o : Options} {unit : SourceUnit} (passed : check o unit = .ok true) :
    ∃ final, analyze (.standard o) unit = .ok () final ∧ final.Faultless := by
  unfold check at passed
  split at passed
  · rename_i final run
    have none : final.errorCount = 0 := by simpa using passed
    exact ⟨final, run, Context.errorCount_eq_zero.mp none⟩
  · cases passed

/-- An expression that was visited in silence keeps the error type. -/
theorem error_of_visitedInSilence {env : Env} {unit : SourceUnit} (distinct : unit.ids.Nodup)
    {final : Context} (run : analyze env unit = .ok () final) {e : Expr}
    (silent : VisitedInSilence env unit e) :
    (final.annotations.ofNode e.id).ty = some .error := by
  obtain ⟨done, rest, b, ctx, agenda, first, unreported⟩ := silent
  obtain ⟨c, performed⟩ := exists_perform_of_analyze run
  rw [agenda] at performed
  obtain ⟨b', ctx', first', last⟩ := perform_append_ok performed
  rw [first] at first'
  cases first'
  obtain ⟨d, acted, act, left⟩ := perform_cons_ok last
  obtain ⟨between, prepared, noted⟩ := type_of_act_check act
  have same := Expr.kept_of_touches (Expr.changes_of_prepare prepared)
  rw [Expr.typeOf_of_unreported (unreported.congr same)] at noted
  have elsewhere : e.id ∉ homes .finding rest :=
    disjoint_homesIn distinct .finding agenda (List.mem_singleton_self _)
  have kept : (final.annotations.ofNode e.id).ty = (acted.annotations.ofNode e.id).ty :=
    agree_of_perform left (.inr rfl) elsewhere
  exact kept.trans noted

/-- What a check without errors says about types. If no expression was visited in silence, all that
were visited have clean types. And in a unit with distinct numbers, an expression that was has the
error type. -/
theorem types_of_check {o : Options} {unit : SourceUnit} (passed : check o unit = .ok true) :
    ∃ final, analyze (.standard o) unit = .ok () final ∧
      ((∀ e, ¬ VisitedInSilence (.standard o) unit e) →
        ∀ e, Visited (.standard o) unit e →
          ∃ ty, (final.annotations.ofNode e.id).ty = some ty ∧ ty.clean = true) ∧
      (unit.ids.Nodup → ∀ e, VisitedInSilence (.standard o) unit e →
        (final.annotations.ofNode e.id).ty = some .error) := by
  obtain ⟨final, run, faultless⟩ := faultless_of_check passed
  refine ⟨final, run, ?_, ?_⟩
  · rintro reported e ⟨done, rest, c, ctx, agenda, _⟩
    obtain ⟨b, performed⟩ := exists_perform_of_analyze run
    obtain ⟨clean, _⟩ := clean_of_perform (fun _ _ _ h => Env.clean_builtins h) reported
      (List.append_nil _).symm performed faultless
    have mem : .check e ∈ unit.agenda := by simp [agenda]
    have typed : (final.annotations.ofNode e.id).ty.isSome :=
      typed_of_perform performed mem (List.mem_singleton_self _)
    obtain ⟨ty, noted⟩ := Option.isSome_iff_exists.mp typed
    exact ⟨ty, noted, clean.types e.id ty noted⟩
  · intro distinct e silent
    exact error_of_visitedInSilence distinct run silent

theorem types_of_check_shadowing :
    ∃ final, analyze (.standard {}) Sample.shadowing = .ok () final ∧
      ∃ ty, (final.annotations.ofNode Sample.store.id).ty = some ty ∧ ty.clean = true := by
  obtain ⟨final, run, clean, _⟩ := types_of_check
    (show check {} Sample.shadowing = .ok true by decide +kernel)
  have agenda : ∀ e, .check e ∈ Sample.shadowing.agenda ↔ e = .ident (Sample.mark 3) "x" ∨
      e = .ident (Sample.mark 6) "x" ∨ e = .int (Sample.mark 7) 1 ∨ e = Sample.store := by
    simp [Sample.shadowing, Sample.main, Sample.body, Sample.store, SourceUnit.agenda,
      TopLevel.agenda, FunctionDef.agenda, Prototype.signatureAgenda, Region.enclose, Stmt.agenda,
      Stmt.agendas, DeclList.agenda, Declarator.agenda, TypeSpec.agenda, Sample.float, Expr.agenda,
      Expr.postorder, Expr.own]
  have heard : ∀ e, ¬ VisitedInSilence (.standard {}) Sample.shadowing e := by
    rintro e ⟨done, rest, b, ctx, split, _, silent⟩
    have mem : .check e ∈ Sample.shadowing.agenda := by simp [split]
    rcases (agenda e).mp mem with rfl | rfl | rfl | rfl <;> exact silent
  exact ⟨final, run, clean heard _ (visited_of_analyze run ((agenda _).mpr (by simp)))⟩

/-- The unit `float x; void main() { x[0]; }`. -/
def Sample.indexing : SourceUnit :=
  let outer : Declarator := { mark := mark 0, name := "x", dims := none, init := none }
  let access : Expr := .index (mark 4) (.ident (mark 2) "x") (.int (mark 3) 0)
  let prototype : Prototype :=
    { mark := mark 6, returnQualifiers := {}, returns := ⟨.named "void", none⟩, name := "main",
      params := [] }
  [.declaration (.declare (mark 1)
      { qualifiers := {}, type := float, invariant := false, names := [outer] }),
    .function { mark := mark 8, prototype := prototype,
                body := .compound (mark 7) false [.expr (mark 5) (some access)] }]

/-- A unit with an index into a `float` passes the check. -/
theorem check_indexing : check {} Sample.indexing = .ok true ∧
    ∃ final, analyze (.standard {}) Sample.indexing = .ok () final ∧
      (final.annotations.ofNode ⟨4⟩).ty = some .error := by
  obtain ⟨final, run⟩ := exists_of_completes
    (show completes (.standard {}) Sample.indexing = true by decide +kernel)
  have error : ((Context.reached (analyze (.standard {}) Sample.indexing)).annotations.ofNode
      ⟨4⟩).ty = some .error := by decide +kernel
  rw [run] at error
  exact ⟨by decide +kernel, final, run, error⟩

end ShaderAnalysis
