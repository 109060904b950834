import ShaderAnalysis.Proofs.NewVariables
import ShaderAnalysis.Proofs.Portrayal

/-!
The roles that the host is told of. The role of a declared name is read off its qualifiers, that of
a name in use off its variable, which the same qualifiers have made. The two readings ask for the
qualifiers in different orders. So they differ for constants that have other qualifiers as well, and
only one of them knows that an input of a vertex shader is an attribute (`roles_agree_iff`).
-/

namespace ShaderAnalysis

open Analysis

/-! ### Two readings of qualifiers -/

/-- A declaration has another role than its variable: a constant that is something else as well, or
a vertex input that is not called an attribute. -/
def Qualifiers.Discordant (stage : Stage) (q : Qualifiers) : Prop :=
  if q.const then q.attrib ∨ q.varying ∨ q.uniform ∨ q.input ∨ q.output
  else stage = .vertex ∧ q.input ∧ ¬ q.attrib ∧ ¬ q.varying ∧ ¬ q.uniform

/-- A block has another role than its variables. These are uniform, inputs or outputs, whatever else
the block is called. -/
def Qualifiers.DiscordantBlock (stage : Stage) (q : Qualifiers) : Prop :=
  if q.const then True
  else if q.attrib then q.uniform ∨ q.output ∨ stage ≠ .vertex
  else if q.varying then q.uniform ∨ if stage = .vertex then q.input else q.output
  else stage = .vertex ∧ q.input ∧ ¬ q.uniform

/-- What an action declares has another role than the variables that it makes. -/
def Action.Discordant (stage : Stage) : Action → Prop
  | .bindName list _ => list.qualifiers.Discordant stage
  | .bindParameter p => p.qualifiers.const ∧ p.qualifiers.output
  | .bindBlock _ b => b.qualifiers.DiscordantBlock stage
  | _ => False

section

variable {o : Options} {q : Qualifiers}

/-- The storage of a declaration fixes its role, with one more look at whether it is constant. -/
theorem Qualifiers.variableStorage_role (span : Span) :
    (q.variableStorage o span).Sound fun storage => ∀ v : Variable, v.storage = storage →
      v.constant = q.const →
        (Role.ofVariable v o.stage = .ofQualifiers q o.stage ↔ ¬ q.Discordant o.stage) := by
  unfold variableStorage
  repeat' split
  all_goals first
    | exact .faulty rfl
    | exact .pure fun v storage constant => by
        grind [Role.ofVariable, Role.ofQualifiers, Discordant, inout]

theorem Qualifiers.parameterStorage_role {v : Variable} {stage : Stage}
    (storage : v.storage = q.parameterStorage) :
    Role.ofVariable v stage = .ofParameter q ↔ ¬ (q.const ∧ q.output) := by
  unfold parameterStorage at storage
  grind [Role.ofVariable, Role.ofParameter, inout]

theorem Qualifiers.blockStorage_role {v : Variable} {stage : Stage}
    (storage : q.blockStorage? = some v.storage) :
    Role.ofVariable v stage = .ofQualifiers q stage ↔ ¬ q.DiscordantBlock stage := by
  unfold blockStorage? at storage
  grind [Role.ofVariable, Role.ofQualifiers, DiscordantBlock, inout]

end

/-! ### Declarations -/

theorem Variable.Evolves.role_eq {v w : Variable} (h : v.Evolves w) (stage : Stage) :
    Role.ofVariable w stage = Role.ofVariable v stage := by
  simp only [Role.ofVariable, h.storage, h.constant]

/-- A variable has the role that it was declared with, unless the two readings differ. -/
def Variable.Concordant (stage : Stage) (role : Role) (discordant : Prop) (v : Variable) : Prop :=
  Role.ofVariable v stage = role ↔ ¬ discordant

theorem Variable.Concordant.evolves {stage : Stage} {role : Role} {discordant : Prop}
    {v w : Variable} (h : v.Concordant stage role discordant) (evolves : v.Evolves w) :
    w.Concordant stage role discordant := by
  rwa [Concordant, evolves.role_eq]

section

variable {o : Options}

theorem Variable.qualify_concordant (q : Qualifiers) (invariant : Bool) {v : Variable}
    (plain : v.constant = false) : (v.qualify o q invariant false).Sound fun w =>
      ∀ ty readOnly, Concordant o.stage (.ofQualifiers q o.stage) (q.Discordant o.stage)
        { w with ty := ty, readOnly := readOnly } := by
  refine .bind (q.variableStorage_role v.span) fun storage told => .after fun _ => .pure ?_
  exact fun ty readOnly => told _ rfl (by simp [plain])

theorem Parameter.toVariable_concordant (p : Parameter) (name : String) (ty : Ty) :
    (p.toVariable o name ty).Sound (·.Concordant o.stage (.ofParameter p.qualifiers)
      (p.qualifiers.const ∧ p.qualifiers.output)) := by
  have told : ∀ v : Variable, v.storage = p.qualifiers.parameterStorage →
      v.Concordant o.stage (.ofParameter p.qualifiers)
        (p.qualifiers.const ∧ p.qualifiers.output) :=
    fun v storage => Qualifiers.parameterStorage_role storage
  intro _
  rw [value_toVariable]
  exact told _ rfl

theorem Variable.ofInstance_concordant {q : Qualifiers} {storage : Storage}
    (legal : q.blockStorage? = some storage) (vertices : Option Nat) (name : String) (ty : Ty)
    (span : Span) : (Variable.ofInstance o vertices name ty storage span).Sound
      (·.Concordant o.stage (.ofQualifiers q o.stage) (q.DiscordantBlock o.stage)) := by
  have told : ∀ v : Variable, v.storage = storage →
      v.Concordant o.stage (.ofQualifiers q o.stage) (q.DiscordantBlock o.stage) := by
    intro v same
    exact Qualifiers.blockStorage_role (same ▸ legal)
  unfold ofInstance
  dsimp only
  split
  · exact sizeAsGeometryInput_sound_of vertices fun ty => told _ rfl
  · exact .pure (told _ rfl)

theorem Action.variablesSound_concordant (env : Env) (ctx : Context) {a : Action} {role : Role}
    (declares : a.declaredRole? env.options.stage = some role) :
    a.VariablesSound env ctx
      (·.Concordant env.options.stage role (a.Discordant env.options.stage)) := by
  cases a with
  | bindName list d =>
    cases declares
    intro between ty _
    exact Declarator.toVariable_sound_of (Variable.qualify_concordant _ _ rfl)
  | bindParameter p =>
    cases declares
    exact fun name ty => p.toVariable_concordant name ty
  | bindBlock m b =>
    cases declares
    intro storage legal
    cases b.instanceName with
    | some name => exact fun ty => Variable.ofInstance_concordant legal _ name ty m.span
    | none => exact fun _ f mem span => Qualifiers.blockStorage_role legal
  | _ => cases declares

end

/-! ### Entries of declared names -/

/-- The role that the entry of a node has. -/
def Context.roleAt? (ctx : Context) (node : NodeId) : Option Role :=
  ((ctx.annotations.ofNode node).reflection.bind ctx.reflection.get?).map (·.role)

theorem Context.roleAt?_eq_some {ctx : Context} {node : NodeId} {role : Role} :
    ctx.roleAt? node = some role ↔ ∃ e, ctx.EntryAt node e ∧ e.role = role := by
  simp only [roleAt?, EntryAt, Option.map_eq_some_iff, Option.bind_eq_some_iff]

/-- The entry of a node, if it has one, has a role. -/
def Context.HasRole (role : Role) (node : NodeId) (ctx : Context) : Prop :=
  ∀ e, ctx.EntryAt node e → e.role = role

/-- What is declared with a role leaves nodes with that role, or with what they had. -/
theorem Context.HasRole.reflecting (role : Role) (node : NodeId) :
    Reflecting role fun ctx => ctx.Rooted {} ∧ ctx.HasRole role node where
  spared := by
    rintro t other c rfl ctx possible ⟨rooted, told⟩
    have change : Changes [c.touch] ctx (c.apply ctx) := .single c (by simp) possible
    have elsewhere : .slot node .reflection ∉ [c.touch] := by
      intro mem
      rw [← List.mem_singleton.mp mem] at other
      exact other
    refine ⟨Context.Rooted.spared other c rfl ctx possible rooted, fun e entry => told e ?_⟩
    exact entry.before change elsewhere rooted
      (Context.Rooted.spared other c rfl ctx possible rooted.here).kept
  declared := by
    rintro declared name m ty ctx ⟨rooted, told⟩
    have confined := Update.confined_reflectDeclared declared name role m ty ctx
    refine ⟨Update.rooted_reflectDeclared declared name role m ty rooted, fun e entry => ?_⟩
    by_cases here : node = declared
    · subst here
      obtain ⟨e', made, _, same, _⟩ := Update.entryAt_reflectDeclared ctx node name role m ty
      rw [entry.unique made, same]
    · refine told e (entry.before confined (by simpa using here) rooted ?_)
      exact (Update.rooted_reflectDeclared declared name role m ty rooted.here).kept

section

variable {env : Env} {unit : SourceUnit} {a : Action} {node : NodeId} {id : VarId}

/-- At a node of an action a variable is bound that was not there before. -/
inductive FreshlyBound (env : Env) (unit : SourceUnit) (a : Action) (node : NodeId) (id : VarId) :
    Prop
  | intro {done rest : List Action} {b c : Ty} {ctx after : Context} :
    unit.agenda = done ++ a :: rest → perform env done .void (.initial env.options) = .ok b ctx →
    a.act env b ctx = .ok c after → .slot node .var ∈ a.touches → after.varAt node = some id →
    ctx.vars.get? id = none → FreshlyBound env unit a node id

/-- The entry of a node behind the action that finds it out is there in the end. -/
theorem Context.EntryAt.of_perform_behind {done rest : List Action} (distinct : unit.ids.Nodup)
    (agenda : unit.agenda = done ++ a :: rest) {n : SlotName}
    (found : n = .var ∨ n = .reflection) (touched : .slot node n ∈ a.touches) {b c : Ty}
    {after final : Context} {old : Reflection} (rooted : after.Rooted old)
    (last : perform env rest c after = .ok b final) {e : Reflection.Entry}
    (entry : after.EntryAt node e) : final.EntryAt node e :=
  entry.kept (changes_of_perform last)
    (untouched_behind distinct agenda (Action.mem_subjects_of_touches found touched) (.inr rfl))
    (rooted_of_perform rooted last).kept

/-- An action that makes variables declares them. -/
theorem Action.exists_declaredRole {o : Options} (made : .allocation ∈ a.touches) :
    ∃ role, a.declaredRole? o.stage = some role := by
  cases a with
  | bindName list d => exact ⟨_, rfl⟩
  | bindBlock m b => exact ⟨_, rfl⟩
  | bindParameter p => exact ⟨_, rfl⟩
  | check e => cases e <;> simp [touches, Expr.touches] at made
  | _ => simp [touches] at made

/-- Behind the action that binds it, a new variable has the role of its entry, unless the two
readings differ. -/
theorem exists_entry_of_act (distinct : unit.ids.Nodup) {done rest : List Action}
    (agenda : unit.agenda = done ++ a :: rest) {b c : Ty} {ctx after : Context}
    (first : perform env done .void (.initial env.options) = .ok b ctx)
    (act : a.act env b ctx = .ok c after) (touched : .slot node .var ∈ a.touches)
    (linked : after.varAt node = some id) (new : ctx.vars.get? id = none)
    (faultless : after.Faultless) : ∃ e v, after.EntryAt node e ∧ after.vars.get? id = some v ∧
      a.declaredRole? env.options.stage = some e.role ∧
      v.Concordant env.options.stage e.role (a.Discordant env.options.stage) := by
  have behind : unit.agenda = (done ++ [a]) ++ rest := by simp [agenda]
  obtain ⟨e, v, entry, stored, _⟩ :=
    (portrayed_of_perform distinct behind (perform_append_act first act)).2 node id linked
  have made : .allocation ∈ a.touches := by
    by_contra idle
    rw [(Action.changes_of_act act).get?_eq_none idle new] at stored
    cases stored
  obtain ⟨role, declares⟩ := Action.exists_declaredRole (o := env.options) made
  have unentered := (unlinked_of_perform distinct agenda first
    (Action.mem_subjects_of_touches (.inl rfl) touched)).2
  have before : ctx.HasRole role node := by
    rintro e ⟨r, linked, _⟩
    rw [unentered] at linked
    cases linked
  have rooted := (portrayed_of_perform distinct agenda first).1
  have told := ((Context.HasRole.reflecting role node).act declares b ⟨rooted, before⟩).1
  rw [act] at told
  have same : e.role = role := told.2 e entry
  subst same
  have concordant := Action.new_of_act (a.variablesSound_concordant env ctx declares) act
    faultless new stored
  exact ⟨e, v, entry, stored, declares, concordant⟩

theorem FreshlyBound.exists_entry (bound : FreshlyBound env unit a node id)
    (distinct : unit.ids.Nodup) {b : Ty} {final : Context}
    (run : perform env unit.agenda .void (.initial env.options) = .ok b final)
    (faultless : final.Faultless) : ∃ e v, final.EntryAt node e ∧ final.vars.get? id = some v ∧
      a.declaredRole? env.options.stage = some e.role ∧
      v.Concordant env.options.stage e.role (a.Discordant env.options.stage) := by
  cases bound with
  | @intro done rest b c ctx after agenda first act touched linked new =>
    rw [agenda] at run
    obtain ⟨b', ctx', c', after', first', act', last⟩ := perform_split_ok run
    cases first.symm.trans first'
    cases act.symm.trans act'
    have ending := changes_of_perform last
    obtain ⟨e, v, entry, stored, declares, concordant⟩ := exists_entry_of_act distinct agenda first
      act touched linked new (faultless.before ending)
    have behind : unit.agenda = (done ++ [a]) ++ rest := by simp [agenda]
    have rooted := (portrayed_of_perform distinct behind (perform_append_act first act)).1
    obtain ⟨w, stored', evolves⟩ := ending.evolves.vars id v stored
    refine ⟨e, w, ?_, stored', declares, concordant.evolves evolves⟩
    exact entry.of_perform_behind distinct agenda (.inl rfl) touched rooted last

end

/-! ### Uses -/

section

variable {env : Env} {m : Mark} {name : String} {ctx after : Context}

/-- A use gets an entry of the variable that it is resolved to, as that is by then. -/
theorem entryAt_of_resolveIdentifier {o : Options} (fresh : ctx.varAt m.id = none)
    (unentered : (ctx.annotations.ofNode m.id).reflection = none)
    (run : resolveIdentifier o m name ctx = .ok () after) :
    ∃ id v e, after.varAt m.id = some id ∧ after.vars.get? id = some v ∧ after.EntryAt m.id e ∧
      e.role = .ofVariable v o.stage := by
  rcases resolveIdentifier_cases o m name ctx with
    ⟨linked, _⟩ | ⟨_, _, failed⟩ | ⟨id, v, _, _, _, visible, _⟩
  · obtain ⟨id, linked⟩ := Option.isSome_iff_exists.mp linked
    cases fresh.symm.trans linked
  · cases failed.symm.trans run
  · rw [resolveIdentifier_of_visible o m fresh visible, unentered] at run
    cases run
    refine ⟨id, v, _, ?_, (Context.visible?_eq_some.mp visible).2,
      ⟨(ctx.reflection.describe v o.stage).2, ?_, Reflection.get?_snapshot ..⟩, rfl⟩
    all_goals simp [Context.varAt, Change.apply, Annotations.ofNode_update, Slot.write]

theorem entryAt_of_checkExpr (fresh : ctx.varAt m.id = none)
    (unentered : (ctx.annotations.ofNode m.id).reflection = none)
    (run : checkExpr env (.ident m name) ctx = .ok () after) :
    ∃ id v e, after.varAt m.id = some id ∧ after.vars.get? id = some v ∧ after.EntryAt m.id e ∧
      e.role = .ofVariable v env.options.stage := by
  rw [checkExpr_eq] at run
  obtain ⟨_, between, resolved, noted⟩ := AnalysisM.run_bind_ok run
  obtain ⟨id, v, e, linked, stored, entry, told⟩ :=
    entryAt_of_resolveIdentifier fresh unentered resolved
  have changes := (Expr.ident m name).confined_noteType env between
  rw [noted] at changes
  have entries : after.reflection = between.reflection := changes.reflection_eq (by simp)
  obtain ⟨w, stored', evolves⟩ := changes.evolves.vars id v stored
  refine ⟨id, w, e, ?_, stored', ?_, ?_⟩
  · exact (changes.agree (n := .var) (by simp)).trans linked
  · exact entry.kept changes (by simp) (by simp [entries])
  · rw [told, evolves.role_eq]

/-- What is said of a use in the end. -/
theorem exists_entry_of_use {unit : SourceUnit} (distinct : unit.ids.Nodup)
    (use : .check (.ident m name) ∈ unit.agenda) {b : Ty} {final : Context}
    (run : perform env unit.agenda .void (.initial env.options) = .ok b final) {id : VarId}
    (resolved : final.varAt m.id = some id) : ∃ e v, final.EntryAt m.id e ∧
      final.vars.get? id = some v ∧ e.role = .ofVariable v env.options.stage := by
  obtain ⟨done, rest, agenda⟩ := List.append_of_mem use
  rw [agenda] at run
  obtain ⟨b', ctx, c, after, first, act, last⟩ := perform_split_ok run
  have touched : .slot m.id .var ∈ (Action.check (.ident m name)).touches := by
    simp [Action.touches, Expr.touches]
  have subject := Action.mem_subjects_of_touches (.inl rfl) touched
  obtain ⟨fresh, unentered⟩ := unlinked_of_perform distinct agenda first subject
  obtain ⟨⟨_, checked⟩, rfl⟩ := AnalysisM.run_giving_ok act
  obtain ⟨i, v, e, linked, stored, entry, told⟩ := entryAt_of_checkExpr fresh unentered checked
  have ending := changes_of_perform last
  have same : final.varAt m.id = after.varAt m.id :=
    ending.agree (n := .var) (untouched_behind distinct agenda subject (.inl rfl))
  rw [resolved, linked] at same
  cases same
  obtain ⟨w, stored', evolves⟩ := ending.evolves.vars id v stored
  have behind : unit.agenda = (done ++ [.check (.ident m name)]) ++ rest := by simp [agenda]
  have rooted := (portrayed_of_perform distinct behind (perform_append_act first act)).1
  refine ⟨e, w, ?_, stored', ?_⟩
  · exact entry.of_perform_behind distinct agenda (.inl rfl) touched rooted last
  · rw [told, evolves.role_eq]

end

/-- What the host is told of a declared name and of its uses, in a unit with distinct numbers whose
analysis ends without an error. A name for which a declaration makes a new variable has an entry,
with the role that the qualifiers of the declaration say; each use of the variable has one too. The
two roles are the same exactly if the qualifiers are not discordant. For a declarator that is, if it
is not a constant with other qualifiers as well, nor a vertex input that is declared with `in`, and
for a parameter, if it is not `const out` or `const inout`. -/
theorem roles_agree_iff {env : Env} {unit : SourceUnit} (distinct : unit.ids.Nodup)
    {final : Context} (run : analyze env unit = .ok () final) (faultless : final.errorCount = 0)
    {a : Action} {node : NodeId} {id : VarId} (bound : FreshlyBound env unit a node id) {m : Mark}
    {name : String} (use : .check (.ident m name) ∈ unit.agenda)
    (resolved : final.varAt m.id = some id) :
    ∃ e e', final.EntryAt node e ∧ final.EntryAt m.id e' ∧
      a.declaredRole? env.options.stage = some e.role ∧
      (e'.role = e.role ↔ ¬ a.Discordant env.options.stage) := by
  obtain ⟨b, performed⟩ := exists_perform_of_analyze run
  have clean := Context.errorCount_eq_zero.mp faultless
  obtain ⟨e, v, entry, stored, declares, concordant⟩ := bound.exists_entry distinct performed clean
  obtain ⟨e', v', entry', stored', told⟩ := exists_entry_of_use distinct use performed resolved
  cases stored.symm.trans stored'
  refine ⟨e, e', entry, entry', declares, ?_⟩
  rw [told]
  exact concordant

/-- The unit `float x; void main() { x; }`, where the first declaration has qualifiers. -/
def Sample.usedAs (q : Qualifiers) : SourceUnit :=
  let x : Declarator := { mark := mark 0, name := "x", dims := none, init := none }
  let prototype : Prototype :=
    { mark := mark 2, returnQualifiers := {}, returns := ⟨.named "void", none⟩, name := "main",
      params := [] }
  let body : Stmt := .compound (mark 5) true [.expr (mark 4) (some (.ident (mark 3) "x"))]
  [.declaration (.declare (mark 1)
      { qualifiers := q, type := float, invariant := false, names := [x] }),
    .function { mark := mark 6, prototype := prototype, body := body }]

theorem Sample.nodup_ids_usedAs (q : Qualifiers) : (usedAs q).ids.Nodup := by
  have ids : (usedAs q).ids = [⟨0⟩, ⟨1⟩, ⟨2⟩, ⟨3⟩, ⟨4⟩, ⟨5⟩, ⟨6⟩] := rfl
  rw [ids]
  decide

/-- The name of the first declaration is bound freshly, if to a variable that is not a builtin
one. -/
theorem Sample.freshlyBound_usedAs {env : Env} {q : Qualifiers} {final : Context} {id : VarId}
    (run : analyze env (usedAs q) = .ok () final) (linked : final.varAt ⟨0⟩ = some id)
    (new : (Context.initial env.options).vars.get? id = none) :
    ∃ list x, list.qualifiers = q ∧
      FreshlyBound env (usedAs q) (.bindName list x) ⟨0⟩ id := by
  let x : Declarator := { mark := mark 0, name := "x", dims := none, init := none }
  let list : DeclList := { qualifiers := q, type := float, invariant := false, names := [x] }
  obtain ⟨rest, agenda⟩ : ∃ rest, (usedAs q).agenda
      = [.typeList (mark 1).span list, .typeName x] ++ .bindName list x :: rest := ⟨_, rfl⟩
  obtain ⟨b, performed⟩ := exists_perform_of_analyze run
  rw [agenda] at performed
  obtain ⟨c, before, d, after, first, act, last⟩ := perform_split_ok performed
  have touched : .slot ⟨0⟩ .var ∈ (Action.bindName list x).touches := by
    simp [Action.touches, bindingTouches, x, mark]
  refine ⟨list, x, rfl, agenda, first, act, touched, ?_, ?_⟩
  · have same : final.varAt ⟨0⟩ = after.varAt ⟨0⟩ :=
      (changes_of_perform last).agree (n := .var) (untouched_behind (nodup_ids_usedAs q) agenda
        (Action.mem_subjects_of_touches (.inl rfl) touched) (.inl rfl))
    exact same.symm.trans linked
  · exact (changes_of_perform first).get?_eq_none (by simp [Action.touches, x]) new

theorem Sample.check_mem_usedAs (q : Qualifiers) :
    .check (.ident (mark 3) "x") ∈ (usedAs q).agenda := by
  have place : (usedAs q).agenda[8]? = some (.check (.ident (mark 3) "x")) := rfl
  exact List.mem_of_getElem? place

/-- The unit `attribute float x; void main() { x; }`, in a vertex shader. -/
theorem roles_agree_attribute :
    let env : Env := .standard { stage := .vertex }
    ∃ final a id e e', analyze env (Sample.usedAs { attrib := true }) = .ok () final ∧
      final.errorCount = 0 ∧ FreshlyBound env (Sample.usedAs { attrib := true }) a ⟨0⟩ id ∧
      final.varAt ⟨3⟩ = some id ∧ final.EntryAt ⟨0⟩ e ∧ final.EntryAt ⟨3⟩ e' ∧
      e'.role = e.role := by
  intro env
  obtain ⟨final, run⟩ := exists_of_completes
    (show completes env (Sample.usedAs { attrib := true }) = true by decide +kernel)
  have errors : (Context.reached (analyze env (Sample.usedAs { attrib := true }))).errorCount
      = 0 := by
    decide +kernel
  have made : (Context.reached (analyze env (Sample.usedAs { attrib := true }))).varAt ⟨0⟩
      = some ⟨9⟩ := by
    decide +kernel
  have used : (Context.reached (analyze env (Sample.usedAs { attrib := true }))).varAt ⟨3⟩
      = some ⟨9⟩ := by
    decide +kernel
  rw [run] at errors made used
  obtain ⟨list, x, same, bound⟩ := Sample.freshlyBound_usedAs run made (by decide +kernel)
  obtain ⟨e, e', entry, entry', _, agree⟩ := roles_agree_iff (Sample.nodup_ids_usedAs _) run errors
    bound (Sample.check_mem_usedAs _) used
  refine ⟨final, _, _, e, e', run, errors, bound, used, entry, entry', agree.mpr ?_⟩
  simp [Action.Discordant, Qualifiers.Discordant, same]

/-- In a vertex shader that declares an input with `in`, the declaration and the use are said to be
different things, and nothing is reported. -/
theorem roles_differ_vertexInput :
    let env : Env := .standard { stage := .vertex }
    ∃ final a id e e', analyze env (Sample.usedAs { input := true }) = .ok () final ∧
      final.errorCount = 0 ∧ FreshlyBound env (Sample.usedAs { input := true }) a ⟨0⟩ id ∧
      final.varAt ⟨3⟩ = some id ∧ final.EntryAt ⟨0⟩ e ∧ final.EntryAt ⟨3⟩ e' ∧
      e.role = .varyingIn ∧ e'.role = .attrib ∧ e'.role ≠ e.role := by
  intro env
  obtain ⟨final, run⟩ := exists_of_completes
    (show completes env (Sample.usedAs { input := true }) = true by decide +kernel)
  have errors : (Context.reached (analyze env (Sample.usedAs { input := true }))).errorCount
      = 0 := by
    decide +kernel
  have made : (Context.reached (analyze env (Sample.usedAs { input := true }))).varAt ⟨0⟩
      = some ⟨9⟩ := by
    decide +kernel
  have used : (Context.reached (analyze env (Sample.usedAs { input := true }))).varAt ⟨3⟩
      = some ⟨9⟩ := by
    decide +kernel
  have declared : (Context.reached (analyze env (Sample.usedAs { input := true }))).roleAt? ⟨0⟩
      = some .varyingIn := by
    decide +kernel
  have shown : (Context.reached (analyze env (Sample.usedAs { input := true }))).roleAt? ⟨3⟩
      = some .attrib := by
    decide +kernel
  rw [run] at errors made used declared shown
  obtain ⟨list, x, _, bound⟩ := Sample.freshlyBound_usedAs run made (by decide +kernel)
  obtain ⟨e, entry, same⟩ := Context.roleAt?_eq_some.mp declared
  obtain ⟨e', entry', same'⟩ := Context.roleAt?_eq_some.mp shown
  refine ⟨final, _, _, e, e', run, errors, bound, used, entry, entry', same, same', ?_⟩
  simp [same, same']

end ShaderAnalysis
