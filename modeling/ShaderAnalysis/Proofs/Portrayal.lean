import ShaderAnalysis.Proofs.Accesses
import ShaderAnalysis.Proofs.DeclaredNames
import ShaderAnalysis.Proofs.Snapshots

/-!
What the host is told of variables, and the variables themselves. A node that is linked to a
variable is linked to a reflection entry too. A declaration makes the entry before the variable, a
use makes it of the variable as it is by then, and an unsized array may get its length later. All
the same the entry has the name of the variable, and its type but for the length of the outermost
array; only a builtin variable that is declared again keeps a type of its own (`entries_portray`).
-/

namespace ShaderAnalysis

open Analysis

/-- The type without the length of its outermost array. -/
def Ty.unsized : Ty → Ty
  | .array e _ => .array e none
  | t => t

theorem Ty.Resizes.unsized_eq {t t' : Ty} (h : t.Resizes t') : t'.unsized = t.unsized := by
  cases h <;> rfl

/-- A node is linked to an entry. -/
def Context.EntryAt (ctx : Context) (node : NodeId) (e : Reflection.Entry) : Prop :=
  ∃ r, (ctx.annotations.ofNode node).reflection = some r ∧ ctx.reflection.get? r = some e

namespace Context.EntryAt

variable {ctx ctx' : Context} {node : NodeId} {e e' : Reflection.Entry}

theorem note (h : ctx.EntryAt node e) (problems : List Diagnostic) :
    ((Change.note problems).apply ctx).EntryAt node e :=
  h

/-- A node has one entry. -/
theorem unique (h : ctx.EntryAt node e) (h' : ctx.EntryAt node e') : e = e' := by
  obtain ⟨r, linked, found⟩ := h
  obtain ⟨r', linked', found'⟩ := h'
  cases linked.symm.trans linked'
  exact Option.some.inj (found.symm.trans found')

/-- The entry of a node that is linked to no other is kept where entries are. -/
theorem kept (h : ctx.EntryAt node e) {ts : List Touch} (changes : Changes ts ctx ctx')
    (elsewhere : .slot node .reflection ∉ ts)
    (entries : ∀ r e, ctx.reflection.get? r = some e → ctx'.reflection.get? r = some e) :
    ctx'.EntryAt node e := by
  obtain ⟨r, linked, found⟩ := h
  have slot :
      (ctx'.annotations.ofNode node).reflection = (ctx.annotations.ofNode node).reflection :=
    changes.agree (n := .reflection) elsewhere
  exact ⟨r, slot.trans linked, entries r e found⟩

/-- An entry that a node is not linked to on the way is its entry from the beginning. -/
theorem before (h : ctx'.EntryAt node e) {ts : List Touch} (changes : Changes ts ctx ctx')
    (elsewhere : .slot node .reflection ∉ ts) {old : Reflection} (rooted : ctx.Rooted old)
    (entries : ∀ r e, ctx.reflection.get? r = some e → ctx'.reflection.get? r = some e) :
    ctx.EntryAt node e := by
  obtain ⟨r, linked, found⟩ := h
  have slot :
      (ctx'.annotations.ofNode node).reflection = (ctx.annotations.ofNode node).reflection :=
    changes.agree (n := .reflection) elsewhere
  have linked' := slot.symm.trans linked
  have stored := Array.getElem?_eq_getElem (rooted.linked node r linked')
  cases (entries r _ stored).symm.trans found
  exact ⟨r, linked', stored⟩

end Context.EntryAt

/-- A node that is linked to a variable is linked to an entry of the same name, and of the same type
but for a length, unless the variable is exempt from that. -/
def Context.Portrayed (exempt : VarId → Prop) (ctx : Context) (node : NodeId) : Prop :=
  ∀ id, ctx.varAt node = some id → ∃ e v, ctx.EntryAt node e ∧ ctx.vars.get? id = some v ∧
    e.name = v.name ∧ (e.ty.unsized = v.ty.unsized ∨ exempt id)

/-! ### Elsewhere -/

namespace Context.Portrayed

variable {exempt : VarId → Prop} {ctx ctx' : Context} {node : NodeId}

theorem of_unlinked (unlinked : ctx.varAt node = none) : ctx.Portrayed exempt node := by
  intro id linked
  rw [unlinked] at linked
  cases linked

/-- What links a node to nothing else leaves it portrayed, if it keeps entries. Whatever becomes of
variables is lengths. -/
theorem kept (h : ctx.Portrayed exempt node) {ts : List Touch} (changes : Changes ts ctx ctx')
    (var : .slot node .var ∉ ts) (entry : .slot node .reflection ∉ ts)
    (entries : ∀ r e, ctx.reflection.get? r = some e → ctx'.reflection.get? r = some e) :
    ctx'.Portrayed exempt node := by
  intro id linked
  have same : ctx'.varAt node = ctx.varAt node := changes.agree (n := .var) var
  obtain ⟨e, v, told, stored, named, typed⟩ := h id (same ▸ linked)
  obtain ⟨w, stored', evolves⟩ := changes.evolves.vars id v stored
  refine ⟨e, w, told.kept changes entry entries, stored', ?_, ?_⟩
  · exact named.trans evolves.name.symm
  · rwa [evolves.resizes.unsized_eq]

theorem spared {t : Touch} (unreflected : t.Unreflected) (other : t ≠ .slot node .var) :
    t.Spares (Context.Portrayed exempt · node) := by
  rintro c rfl ctx possible h
  have change : Changes [c.touch] ctx (c.apply ctx) := .single c (by simp) possible
  have entries : (c.apply ctx).reflection = ctx.reflection := by
    refine change.reflection_eq fun mem => ?_
    rw [← List.mem_singleton.mp mem] at unreflected
    exact unreflected
  refine h.kept change (by simpa using other.symm) (fun mem => ?_) (by simp [entries])
  rw [← List.mem_singleton.mp mem] at unreflected
  exact unreflected

end Context.Portrayed

/-! ### Binding one name -/

/-- An update leaves a node portrayed that is linked to no variable before. -/
def Update.Portrays {α : Type} (exempt : VarId → Prop) (ctx : Context) (u : Update α)
    (node : NodeId) : Prop :=
  ctx.varAt node = none → (u ctx).2.Portrayed exempt node

theorem Reflection.get?_snapshot (r : Reflection) (name : String) (role : Role) (m : Modifier)
    (ty : Ty) : (r.snapshot name role m ty).1.get? (r.snapshot name role m ty).2
      = some { name := name, role := role, modifier := m, ty := ty
               fields := (r.snapshotFields role m ty).2 } :=
  get?_push_self _ _

namespace Update

variable {α β : Type} {exempt : VarId → Prop} {ctx : Context} {node : NodeId}

/-- A declared name has an entry with that name, the declared role and the declared type. -/
theorem entryAt_reflectDeclared (ctx : Context) (node : NodeId) (name : String) (role : Role)
    (m : Modifier) (ty : Ty) :
    ∃ e, (reflectDeclared node name role m ty ctx).2.EntryAt node e ∧ e.name = name ∧
      e.role = role ∧ e.ty = ty := by
  refine ⟨_, ⟨(ctx.reflection.declare name role m ty).2, ?_, ctx.reflection.get?_snapshot ..⟩, rfl,
    rfl, rfl⟩
  simp [reflectDeclared, annotate, Annotations.ofNode_update]

namespace Portrays

/-- What links a node to no variable may come before. -/
theorem after {u : Update α} {f : α → Update β} {ts : List Touch} (confined : u.Confined ts)
    (elsewhere : .slot node .var ∉ ts) (rest : Portrays exempt (u ctx).2 (f (u ctx).1) node) :
    Portrays exempt ctx (u >>= f) node :=
  fun fresh => rest (((confined ctx).agree (n := .var) elsewhere).trans fresh)

/-- What is noted may be noted before. -/
theorem after_noting {r : Reported α} {f : α → Update β}
    (rest : Portrays exempt ((Change.note r.problems).apply ctx) (f r.value) node) :
    Portrays exempt ctx (noting r >>= f) node :=
  rest

/-- Reading the state. -/
theorem read {f : Context → Update β} (rest : Portrays exempt ctx (f ctx) node) :
    Portrays exempt ctx (get >>= f) node :=
  rest

/-- Giving another value. -/
theorem giving {u : Update α} {g : α → β} (h : Portrays exempt ctx u node) :
    Portrays exempt ctx (do let a ← u; return g a) node :=
  h

theorem pure (a : α) : Portrays exempt ctx (Pure.pure a) node :=
  .of_unlinked

theorem report (span : Span) (p : Problem) (b : β) :
    Portrays exempt ctx (do report span p; return b) node :=
  .of_unlinked

/-- A new variable agrees with the entry that its node has. -/
theorem declare {v : Variable} {e : Reflection.Entry} (entry : ctx.EntryAt node e)
    (named : e.name = v.name) (typed : e.ty.unsized = v.ty.unsized) :
    Portrays exempt ctx (declare v node) node := by
  intro _ id linked
  obtain ⟨r, noted, found⟩ := entry
  rw [declare_eq] at linked ⊢
  have new : ctx.vars.nextId = id := by
    simpa [Context.varAt, Change.apply, Annotations.ofNode_update, Slot.write] using linked
  subst new
  refine ⟨e, v, ⟨r, ?_, ?_⟩, ?_, named, .inl typed⟩
  · cases ctx.scopes.declareVariable? v.name ctx.vars.nextId <;>
      simpa [Change.apply, Annotations.ofNode_update, Slot.write] using noted
  · cases ctx.scopes.declareVariable? v.name ctx.vars.nextId <;> exact found
  · cases ctx.scopes.declareVariable? v.name ctx.vars.nextId <;>
      simp [Change.apply, Variables.get?_push]

end Portrays

end Update

/-- A variable that is declared again has the declared type but for a length, or else it is one of
the builtin variables that may be declared again at global scope. -/
theorem Variable.related_of_redeclaredBy {earlier v : Variable} {atGlobal : Bool}
    (related : earlier.redeclaredBy v atGlobal ≠ .unrelated) : v.ty.unsized = earlier.ty.unsized ∨
      (atGlobal = true ∧ earlier.builtin = true ∧ Builtin.redeclarable.contains v.name = true) := by
  unfold redeclaredBy at related
  split at related
  · rename_i e e' n shape shape'
    split at related
    · rename_i same
      left
      rw [shape, shape', same]
      rfl
    · exact absurd rfl related
  · split at related
    · rename_i known
      simp only [Bool.and_eq_true] at known
      exact .inr ⟨known.1.2, known.1.1, known.2⟩
    · exact absurd rfl related

section

variable {o : Options} {exempt : VarId → Prop} {ctx : Context}

/-- A declared name that is settled agrees with its entry, whether its variable is new or not. -/
theorem Declarator.portrays_settle (d : Declarator) {v : Variable} {e : Reflection.Entry}
    (agree : ctx.NamesAgree) (entry : ctx.EntryAt d.mark.id e) (named : e.name = v.name)
    (typed : e.ty.unsized = v.ty.unsized)
    (exempted : ctx.scopes.isGlobal = true → Builtin.redeclarable.contains v.name = true →
      ∀ id earlier, ctx.scopes.findLocal? v.name = some id → ctx.vars.get? id = some earlier →
        earlier.builtin = true → exempt id) :
    (d.settle v).Portrays exempt ctx d.mark.id := by
  intro fresh
  simp only [settle, Update.run_bind]
  rcases Update.redeclare_cases v ctx with same | ⟨id, earlier, change, found, stored, how, changed⟩
  · rw [same]
    exact Update.Portrays.after_noting (.giving (.declare (entry.note _) named typed)) fresh
  · rw [changed]
    intro i linked
    have again : id = i := by
      simpa [Context.varAt, Update.annotate, Annotations.ofNode_update] using linked
    subst again
    obtain ⟨r, noted, there⟩ := entry
    obtain ⟨w, stored', evolves⟩ := (change.evolves (how.possible stored)).vars id earlier stored
    have kept : (change.apply ctx).annotations = ctx.annotations ∧
        (change.apply ctx).reflection = ctx.reflection := by
      cases how <;> exact ⟨rfl, rfl⟩
    refine ⟨e, w, ⟨r, ?_, ?_⟩, stored', ?_, ?_⟩
    · simpa [Update.annotate, Annotations.ofNode_update, kept.1] using noted
    · exact kept.2 ▸ there
    · have known := agree ctx.scopes.top List.mem_cons_self v.name id found
      rw [stored, Option.map_some, Option.some.injEq] at known
      rw [named, evolves.name, known]
    · have related : earlier.redeclaredBy v ctx.scopes.isGlobal ≠ .unrelated := by
        intro unrelated
        simp only [Update.redeclare, Update.run_bind, Update.run_get, found, stored, unrelated]
          at changed
        cases congrArg Prod.fst changed
      rw [typed, evolves.resizes.unsized_eq]
      rcases Variable.related_of_redeclaredBy related with same | ⟨atGlobal, builtin, listed⟩
      · exact .inl same
      · exact .inr (exempted atGlobal listed id earlier found stored builtin)

theorem Declarator.portrays_bind {q : Qualifiers} {invariant : Bool} {d : Declarator} {ty : Ty}
    (agree : ctx.NamesAgree)
    (exempted : ctx.scopes.isGlobal = true → Builtin.redeclarable.contains d.name = true →
      ∀ id earlier, ctx.scopes.findLocal? d.name = some id → ctx.vars.get? id = some earlier →
        earlier.builtin = true → exempt id) :
    (d.bind o q invariant ty).Portrays exempt ctx d.mark.id := by
  rw [bind_eq]
  refine .read (.after (Update.confined_reflectDeclared _ _ _ _ _) (by simp) ?_)
  generalize d.sizedByInit ctx ty = sized
  obtain ⟨e, entry, named, -, typed⟩ := Update.entryAt_reflectDeclared ctx d.mark.id d.name
    (.ofQualifiers q o.stage) (.ofQualifiers q invariant) sized
  split
  · exact .report _ _ _
  · split
    · exact .pure _
    · refine .read (.after_noting ?_)
      refine d.portrays_settle (fun f mem => agree f mem) (entry.note _) ?_ ?_ ?_
      · rw [named, Declarator.name_toVariable]
      · rw [typed, (d.resizes_toVariable o _ q invariant sized).unsized_eq]
      · rw [Declarator.name_toVariable]
        exact exempted

theorem Parameter.portrays_bind (p : Parameter) :
    (p.bind o).Portrays exempt ctx p.mark.id := by
  rw [bind_eq]
  refine .read (.after_noting ?_)
  generalize (p.declaredType o ctx).value = ty
  have noted : Update.Confined [.slot p.mark.id .ty]
      (Update.annotate p.mark.id fun a => { a with ty := some ty }) :=
    .annotate _ (.ty ty) (by simp) (by simp)
  refine .after noted (by simp) ?_
  split
  · exact .pure _
  · split
    · split
      · exact .report _ _ _
      · exact .pure _
    · rename_i name _
      refine .after (Update.confined_reflectDeclared _ _ _ _ _) (by simp) ?_
      obtain ⟨e, entry, named, -, typed⟩ := Update.entryAt_reflectDeclared _ p.mark.id name
        (.ofParameter p.qualifiers) (.ofQualifiers p.qualifiers false) ty
      refine .after_noting (.after_noting (.giving (.declare ((entry.note _).note _) ?_ ?_)))
      · rw [named, Parameter.name_toVariable]
      · rw [typed, Parameter.ty_toVariable]

namespace Update

theorem portrays_bindInstance (ctx : Context) (m : Mark) (b : BlockDecl) (body : Record)
    (storage : Storage) (name : String) :
    (bindInstance o m b body storage name).Portrays exempt ctx m.id := by
  rw [bindInstance_eq]
  refine .after_noting ?_
  generalize (Ty.withDimensions o (.record body) b.dimList m.span).value = ty
  refine .after (confined_reflectDeclared _ _ _ _ _) (by simp) ?_
  obtain ⟨e, entry, named, -, typed⟩ := entryAt_reflectDeclared _ m.id name
    (.ofQualifiers b.qualifiers o.stage) (.ofQualifiers b.qualifiers false) ty
  split
  · refine .read (.after_noting (.after_noting (.giving (.declare ((entry.note _).note _) ?_ ?_))))
    · rw [named, Variable.name_ofInstance]
    · rw [typed, (Variable.resizes_ofInstance o _ name ty storage m.span).unsized_eq]
  · exact .pure _

theorem portrays_bindMember (q : Qualifiers) (storage : Storage) (d : Declarator) (f : Field) :
    (bindMember o q storage d f).Portrays exempt ctx d.mark.id := by
  refine .after (confined_reflectDeclared _ _ _ _ _) (by simp) ?_
  obtain ⟨e, entry, named, -, typed⟩ := entryAt_reflectDeclared ctx d.mark.id f.name
    (.ofQualifiers q o.stage) (.ofQualifiers q false) f.ty
  split
  · exact .after_noting (.giving (.declare (entry.note _) named (by rw [typed]; rfl)))
  · exact .pure _

/-- Each member of a block agrees with its entry, those before it and behind it notwithstanding. -/
theorem portrays_bindMembers (q : Qualifiers) (storage : Storage) {ds : List Declarator}
    {fs : List Field} (distinct : (ds.map (·.mark.id)).Nodup) {old : Reflection}
    (rooted : ctx.Rooted old) {d : Declarator} (mem : d ∈ ds) :
    (bindMembers o q storage ds fs).Portrays exempt ctx d.mark.id := by
  induction ds generalizing fs ctx with
  | nil => cases mem
  | cons e ds ih =>
    cases fs with
    | nil => exact .pure ()
    | cons f fs =>
      simp only [List.map_cons, List.nodup_cons] at distinct
      rw [bindMembers_cons]
      have reflecting := Context.Rooted.reflecting (.ofQualifiers q o.stage)
      have first := ((reflecting old).member rfl storage e f rooted).1
      rcases List.mem_cons.mp mem with rfl | mem
      · intro fresh
        have rest := confined_bindMembers o q storage ds fs (bindMember o q storage d f ctx).2
        have entries := ((reflecting _).members rfl storage ds fs first.here).1.kept
        refine (portrays_bindMember q storage d f fresh).kept rest ?_ ?_ entries
        all_goals simpa [bindingTouches] using distinct.1
      · refine .after (confined_bindMember o q storage e f) ?_ (ih distinct.2 first mem)
        have other : d.mark.id ≠ e.mark.id := by
          intro same
          exact distinct.1 (same ▸ List.mem_map_of_mem mem)
        simpa [bindingTouches] using other

end Update

/-- The nodes at which a block binds names agree with their entries. -/
theorem BlockDecl.portrayed_bind (m : Mark) (b : BlockDecl) (distinct : (b.binders m).Nodup)
    {old : Reflection} (rooted : ctx.Rooted old) {node : NodeId} (mem : node ∈ b.binders m)
    (fresh : ctx.varAt node = none) :
    (Context.reached (b.bind o m ctx)).Portrayed exempt node := by
  unfold BlockDecl.bind
  cases legal : b.qualifiers.blockStorage? with
  | none => exact .of_unlinked fresh
  | some storage =>
    simp only [AnalysisM.run_get_bind, AnalysisM.run_lift_bind, Update.run_noting]
    generalize b.body o ctx storage m.span = body
    -- the state once the body of the block is noted
    let noted := (Change.addBlock body.value).apply ((Change.note body.problems).apply ctx)
    have rooted' : noted.Rooted old := ⟨rooted.kept, rooted.planted, rooted.linked⟩
    cases instanced : b.instanceName with
    | some name =>
      obtain rfl : node = m.id := by simpa [binders, instanced] using mem
      exact Update.portrays_bindInstance noted m b body.value storage name fresh
    | none =>
      simp only [binders, instanced] at mem distinct
      obtain ⟨d, inside, rfl⟩ := List.mem_map.mp mem
      by_cases fits : (DeclList.declarators b.members).length = body.value.fields.length
      · simp only [fits, ne_eq, not_true_eq_false, ↓reduceIte]
        exact Update.portrays_bindMembers b.qualifiers storage distinct rooted' inside fresh
      · simp only [fits, ne_eq, not_false_eq_true, ↓reduceIte]
        exact .of_unlinked fresh

/-- A use agrees with its entry, which is made of the variable as it is by then. -/
theorem portrayed_checkExpr (env : Env) (m : Mark) (name : String) (fresh : ctx.varAt m.id = none)
    (unentered : (ctx.annotations.ofNode m.id).reflection = none) :
    (Context.reached (checkExpr env (.ident m name) ctx)).Portrayed exempt m.id := by
  have upholds : Upholds (Context.Portrayed exempt · m.id) ctx (checkExpr env (.ident m name))
      fun _ => True := by
    rw [checkExpr_eq]
    refine .bind (upholds_resolveIdentifier env.options m name ?_) fun _ _ _ => ?_
    · intro id v visible _ i linked
      obtain ⟨_, stored⟩ := Context.visible?_eq_some.mp visible
      have same : id = i := by
        simpa [Context.varAt, Change.apply, Annotations.ofNode_update, Slot.write] using linked
      subst same
      refine ⟨_, v, ⟨(ctx.reflection.describe v env.options.stage).2, ?_,
        Reflection.get?_snapshot ..⟩, stored, rfl, .inl rfl⟩
      simp [Change.apply, Annotations.ofNode_update, Slot.write, unentered]
    · refine .confined (Expr.confined_noteType env _) fun t mem => .spared ?_ ?_
      all_goals
        revert t
        simp [Touch.Unreflected]
  exact (upholds (.of_unlinked fresh)).1

end

/-! ### Whole units -/

/-- A name is declared in the global scope that means a builtin variable there, and one of those
that may be declared again. -/
inductive Requalified (env : Env) (unit : SourceUnit) : NodeId → VarId → Prop
  | intro {done rest : List Action} {list : DeclList} {d : Declarator} {base : Ty} {ctx : Context}
      {id : VarId} {v : Variable} : unit.agenda = done ++ .bindName list d :: rest →
    perform env done .void (.initial env.options) = .ok base ctx → ctx.scopes.isGlobal = true →
    ctx.scopes.findLocal? d.name = some id → ctx.vars.get? id = some v → v.builtin = true →
    Builtin.redeclarable.contains d.name = true → Requalified env unit d.mark.id id

section

variable {env : Env} {unit : SourceUnit} {done rest : List Action} {a : Action} {b c : Ty}
  {ctx after : Context}

/-- What an action links to a variable agrees with its entry. -/
theorem portrayed_of_touched (distinct : unit.ids.Nodup) (agenda : unit.agenda = done ++ a :: rest)
    (run : perform env done .void (.initial env.options) = .ok b ctx) (rooted : ctx.Rooted {})
    {node : NodeId} (touched : .slot node .var ∈ a.touches) :
    (Context.reached (a.act env b ctx)).Portrayed (Requalified env unit node) node := by
  have subject := Action.mem_subjects_of_touches (.inl rfl) touched
  obtain ⟨fresh, unentered⟩ := unlinked_of_perform distinct agenda run subject
  cases a with
  | check e =>
    rw [Action.act, Context.reached_giving]
    cases e with
    | ident m name =>
      obtain rfl : node = m.id := by
        simpa [Action.touches, Expr.touches] using touched
      exact portrayed_checkExpr env m name fresh unentered
    | _ => simp [Action.touches, Expr.touches] at touched
  | bindName list d =>
    obtain rfl : node = d.mark.id := by simpa [Action.touches, bindingTouches] using touched
    have agree := (Context.NamesAgree.initial env.options).changes (changes_of_perform run)
    refine d.portrays_bind agree ?_ fresh
    exact fun atGlobal listed id v found stored builtin =>
      .intro agenda run atGlobal found stored builtin listed
  | bindBlock m block =>
    have once := nodup_homes distinct .finding
    rw [agenda, homes_append, homes_cons] at once
    rw [Action.act, Context.reached_giving]
    refine block.portrayed_bind m once.of_append_right.of_append_left rooted ?_ fresh
    simpa [Action.touches, bindingTouches] using touched
  | bindParameter p =>
    obtain rfl : node = p.mark.id := by simpa [Action.touches, bindingTouches] using touched
    exact p.portrays_bind fresh
  | _ => simp [Action.touches] at touched

/-- All the way, nodes that are linked to variables agree with their entries. -/
theorem portrayed_of_perform (distinct : unit.ids.Nodup) (agenda : unit.agenda = done ++ rest)
    (run : perform env done .void (.initial env.options) = .ok b ctx) :
    ctx.Rooted {} ∧ ∀ node, ctx.Portrayed (Requalified env unit node) node := by
  refine perform_induction (I := fun _ _ ctx =>
    ctx.Rooted {} ∧ ∀ node, ctx.Portrayed (Requalified env unit node) node) ?_ ?_ agenda run
  · refine ⟨.initial env.options, fun node => .of_unlinked ?_⟩
    rw [Context.varAt, Context.annotations_initial]
    rfl
  · rintro done rest a b c ctx after agenda first act ⟨rooted, portrayed⟩
    have grown := (a.rooted env b ctx.reflection ctx rooted.here).1
    have reached : Context.reached (a.act env b ctx) = after := by rw [act]; rfl
    rw [reached] at grown
    refine ⟨rooted.trans grown, fun node => ?_⟩
    by_cases touched : .slot node .var ∈ a.touches
    · rw [← reached]
      exact portrayed_of_touched distinct agenda first rooted touched
    · have changes := Action.changes_of_act act
      by_cases entered : .slot node .reflection ∈ a.touches
      · -- a member of a struct has an entry, but no variable
        have subject := Action.mem_subjects_of_touches (.inr rfl) entered
        have fresh := (unlinked_of_perform distinct agenda first subject).1
        have same : after.varAt node = ctx.varAt node := changes.agree (n := .var) touched
        exact .of_unlinked (same.trans fresh)
      · exact (portrayed node).kept changes touched entered grown.kept

end

/-- What the host is told of a variable and what becomes of the variable, in a unit with distinct
numbers whose analysis comes to its end. A node that is linked to a variable, be it at a declaration
or at a use, is linked to a reflection entry. The entry has the name of the variable, and the type
that the variable has in the end, but for the length of the outermost array. The one exception is a
name that is declared in the global scope for a builtin variable which may be declared again. -/
theorem entries_portray {env : Env} {unit : SourceUnit} (distinct : unit.ids.Nodup)
    {final : Context} (run : analyze env unit = .ok () final) {node : NodeId} {id : VarId}
    (linked : (final.annotations.ofNode node).var = some id) :
    ∃ r e v, (final.annotations.ofNode node).reflection = some r ∧
      final.reflection.get? r = some e ∧ final.vars.get? id = some v ∧ e.name = v.name ∧
      (e.ty.unsized = v.ty.unsized ∨ Requalified env unit node id) := by
  obtain ⟨b, performed⟩ := exists_perform_of_analyze run
  have portrayed := (portrayed_of_perform distinct (List.append_nil _).symm performed).2 node
  obtain ⟨e, v, ⟨r, noted, found⟩, stored, named, typed⟩ := portrayed id linked
  exact ⟨r, e, v, noted, found, stored, named, typed⟩

/-- The use of `x` is made known as it is before `x` gets its length. -/
theorem entries_portray_sizedLater :
    ∃ final r e v, analyze (.standard {}) Sample.sizedLater = .ok () final ∧
      final.reflection.get? r = some e ∧ final.vars.get? ⟨8⟩ = some v ∧ e.name = v.name ∧
      e.ty.unsized = v.ty.unsized ∧ e.ty = .array (.scalar .float) none ∧
      v.ty = .array (.scalar .float) (some 4) := by
  let env : Env := .standard {}
  obtain ⟨final, run⟩ := exists_of_completes
    (show completes env Sample.sizedLater = true by decide +kernel)
  have linked : ((Context.reached (analyze env Sample.sizedLater)).annotations.ofNode ⟨2⟩).var
      = some ⟨8⟩ := by
    decide +kernel
  have sized : ((Context.reached (analyze env Sample.sizedLater)).vars.get? ⟨8⟩).map (·.ty)
      = some (.array (.scalar .float) (some 4)) := by
    decide +kernel
  have entry : (((Context.reached (analyze env Sample.sizedLater)).annotations.ofNode
      ⟨2⟩).reflection.bind (Context.reached
        (analyze env Sample.sizedLater)).reflection.get?).map (·.ty)
      = some (.array (.scalar .float) none) := by
    decide +kernel
  rw [run] at linked sized entry
  obtain ⟨r, e, v, noted, found, stored, named, typed⟩ := entries_portray (by decide) run linked
  have declared : ∀ list d, .bindName list d ∈ Sample.sizedLater.agenda → d.name = "x" := by
    simp [Sample.sizedLater, SourceUnit.agenda, TopLevel.agenda, FunctionDef.agenda, Region.enclose,
      Stmt.agenda, Stmt.agendas, Expr.agenda, Expr.postorder, Expr.own, DeclList.agenda,
      Declarator.agenda, Sample.float, TypeSpec.agenda, Prototype.signatureAgenda]
    rintro _ _ (⟨-, rfl⟩ | ⟨-, rfl⟩) <;> rfl
  have plain : ¬ Requalified env Sample.sizedLater ⟨2⟩ ⟨8⟩ := by
    intro requalified
    generalize (⟨2⟩ : NodeId) = node at requalified
    cases requalified with
    | @intro _ _ list d _ _ _ _ agenda _ _ _ _ _ listed =>
      rw [declared list d (by simp [agenda])] at listed
      exact absurd listed (by decide)
  refine ⟨final, r, e, v, run, found, stored, named, typed.resolve_right plain, ?_, ?_⟩
  · simpa [Context.reached, noted, found] using entry
  · simpa [Context.reached, stored] using sized

end ShaderAnalysis
