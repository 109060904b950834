import ShaderAnalysis.Proofs.Announcements
import ShaderAnalysis.Proofs.Evolution

/-!
Declared names and what becomes of them. Whatever is reported on the way, the host is told of just
the names that the source declares, in the order of its visit; and if no error is reported, the node
of each is linked to a variable of that name (`declared_names`).
-/

namespace ShaderAnalysis

open Analysis

/-! ### Names and their variables -/

/-- Names mean variables of these names. -/
def Context.NamesAgree (ctx : Context) : Prop :=
  ∀ f ∈ ctx.scopes.frames, ∀ name id, f.vars.get? name = some id →
    (ctx.vars.get? id).map (·.name) = some name

/-- A node is linked to a variable of a name. -/
def Context.Linked (ctx : Context) (node : NodeId) (name : String) : Prop :=
  ∃ id v, ctx.varAt node = some id ∧ ctx.vars.get? id = some v ∧ v.name = name

/-- Variables keep their names. -/
theorem Context.Evolves.map_name {ctx ctx' : Context} (h : ctx.Evolves ctx') {id : VarId}
    {name : String} (named : (ctx.vars.get? id).map (·.name) = some name) :
    (ctx'.vars.get? id).map (·.name) = some name := by
  obtain ⟨v, stored, same⟩ := Option.map_eq_some_iff.mp named
  obtain ⟨w, stored', evolves⟩ := h.vars id v stored
  rw [stored', Option.map_some, evolves.name, same]

namespace Context.NamesAgree

variable {ctx : Context}

theorem changes {ts : List Touch} {ctx' : Context} (h : ctx.NamesAgree)
    (changes : Changes ts ctx ctx') : ctx'.NamesAgree := by
  refine changes.invariant (I := NamesAgree) ?_ h
  intro c _ between possible agree f mem name id bound
  refine (c.evolves possible).map_name ?_
  rcases Change.bound_vars mem bound with ⟨g, old, same⟩ | rfl
  · exact agree g old name id same
  · exact possible

theorem initial (o : Options) : (Context.initial o).NamesAgree := by
  refine Context.initial_induction (I := NamesAgree) ?_ ?_
  · intro f mem name id bound
    simp [Scopes.frames] at mem
    simp [mem] at bound
  · intro ctx h v mem
    have added : Changes [.allocation] ctx ((Change.allocate v).apply ctx) :=
      .single _ (List.mem_singleton_self _) (Builtin.maxAccess_eq_zero mem)
    have bound : Changes [.names] ((Change.allocate v).apply ctx)
        ((Change.bindVariable v.name ctx.vars.nextId).apply ((Change.allocate v).apply ctx)) :=
      .single _ (List.mem_singleton_self _)
        (by simp [Change.Possible, Change.apply, Variables.get?_push])
    have agree := (h.changes added).changes bound
    exact agree

end Context.NamesAgree

theorem Context.Linked.changes {ts : List Touch} {ctx ctx' : Context} {node : NodeId}
    {name : String} (h : ctx.Linked node name) (changes : Changes ts ctx ctx')
    (elsewhere : .slot node .var ∉ ts) : ctx'.Linked node name := by
  obtain ⟨id, v, linked, stored, named⟩ := h
  obtain ⟨w, stored', evolves⟩ := changes.evolves.vars id v stored
  have kept : ctx'.varAt node = ctx.varAt node := changes.agree (n := .var) elsewhere
  exact ⟨id, w, kept.trans linked, stored', evolves.name.trans named⟩

/-! ### Linking one name -/

/-- An update links a node to a variable of a name, if names agree with their variables before and
no error has been reported afterwards. -/
def Update.Links {α : Type} (ctx : Context) (u : Update α) (node : NodeId) (name : String) : Prop :=
  ctx.NamesAgree → (u ctx).2.Faultless → (u ctx).2.Linked node name

namespace Update.Links

variable {α β : Type} {ctx : Context} {ts : List Touch} {node : NodeId} {name : String}

/-- Whatever keeps names and variables in step may come before. -/
theorem after {u : Update α} {f : α → Update β} (confined : u.Confined ts)
    (rest : Links (u ctx).2 (f (u ctx).1) node name) : Links ctx (u >>= f) node name :=
  fun agree faultless => rest (agree.changes (confined ctx)) faultless

/-- What is noted may be noted before. -/
theorem after_noting {r : Reported α} {f : α → Update β}
    (rest : Links ((Change.note r.problems).apply ctx) (f r.value) node name) :
    Links ctx (noting r >>= f) node name :=
  rest

theorem after_annotate {other : NodeId} {note : Annotation → Annotation} {f : Unit → Update β}
    (rest : Links (annotate other note ctx).2 (f ()) node name) :
    Links ctx (annotate other note >>= f) node name :=
  rest

/-- Reading the state. -/
theorem read {f : Context → Update β} (rest : Links ctx (f ctx) node name) :
    Links ctx (get >>= f) node name :=
  rest

/-- Giving another value. -/
theorem giving {u : Update α} {b : β} (h : Links ctx u node name) :
    Links ctx (do let _ ← u; return b) node name :=
  h

/-- Noting what was found wrong on the way to a value, and going on with that value. -/
theorem noting_bind {P : α → Prop} {r : Reported α} {f : α → Update β} (sound : r.Sound P)
    (confined : (f r.value).Confined ts)
    (rest : P r.value → ∀ ctx', Links ctx' (f r.value) node name) :
    Links ctx (noting r >>= f) node name := by
  intro agree faultless
  have noted : ((Change.note r.problems).apply ctx).NamesAgree := agree
  exact rest (sound.of_noting confined faultless) _ noted faultless

/-- An error is reported. -/
theorem faulty {span : Span} {p : Problem} (error : p.isError = true) {b : β} :
    Links ctx (do report span p; return b) node name := by
  intro _ faultless
  have none := faultless ⟨span, p⟩ (List.mem_append_right _ (List.mem_singleton_self _))
  rw [Diagnostic.isError, error] at none
  cases none

theorem declare {v : Variable} (named : v.name = name) : Links ctx (declare v node) node name := by
  intro _ _
  refine ⟨ctx.vars.nextId, v, ?_, ?_, named⟩
  · rw [declare_eq]
    simp [Context.varAt, Change.apply, Annotations.ofNode_update, Slot.write]
  · rw [declare_eq]
    cases ctx.scopes.declareVariable? v.name ctx.vars.nextId <;>
      simp [Change.apply, Variables.get?_push]

end Update.Links

section

variable {o : Options} {ctx : Context}

/-- A declared name that is settled is linked to its variable, whether that is new or not. -/
theorem Declarator.links_settle (d : Declarator) {v : Variable} (named : v.name = d.name) :
    (d.settle v).Links ctx d.mark.id d.name := by
  intro agree faultless
  simp only [settle, Update.run_bind] at faultless ⊢
  rcases Update.redeclare_cases v ctx with same | ⟨id, earlier, change, found, stored, how, changed⟩
  · rw [same] at faultless ⊢
    exact Update.Links.declare named (fun f mem => agree f mem) faultless
  · rw [changed]
    have before : (ctx.vars.get? id).map (·.name) = some v.name :=
      agree ctx.scopes.top List.mem_cons_self v.name id found
    have still := (change.evolves (how.possible stored)).map_name before
    obtain ⟨w, stored', same⟩ := Option.map_eq_some_iff.mp still
    refine ⟨id, w, ?_, stored', same.trans named⟩
    simp [Context.varAt, Annotations.ofNode_update, Update.annotate]

theorem Declarator.links_bind (q : Qualifiers) (invariant : Bool) (d : Declarator) {ty : Ty}
    (resolved : ty.isError = false) : (d.bind o q invariant ty).Links ctx d.mark.id d.name := by
  have sized : (d.sizedByInit ctx ty).isError = false :=
    (d.resizes_sizedByInit ctx ty).isError_eq.trans resolved
  rw [bind_eq]
  refine .read (.after (Update.confined_reflectDeclared _ _ _ _ _) ?_)
  split
  · exact .faulty rfl
  · rw [if_neg (by simp [sized])]
    exact .read (.after_noting (d.links_settle (d.name_toVariable _ _ _ _ _)))

theorem Parameter.links_settle {p : Parameter} {name : String} (given : p.name = some name)
    {ty : Ty} (void : ty.isVoid = false) : (p.settle o ty).Links ctx p.mark.id name := by
  refine .after_annotate ?_
  simp only [void, given, Bool.false_eq_true, ↓reduceIte]
  refine .after (Update.confined_reflectDeclared _ _ _ _ _) (.after_noting (.after_noting ?_))
  exact .giving (.declare (p.name_toVariable o name ty))

theorem Parameter.links_bind {p : Parameter} {name : String} (given : p.name = some name)
    (void : (p.declaredType o ctx).value.isVoid = false) :
    (p.bind o).Links ctx p.mark.id name := by
  rw [bind_eq]
  exact .read (.after_noting (p.links_settle given void))

namespace Update

theorem links_settleInstance (mark : Mark) (q : Qualifiers) (storage : Storage) (name : String)
    {ty : Ty} (resolved : ty.isError = false) :
    (settleInstance o mark q storage name ty).Links ctx mark.id name := by
  refine .after (confined_reflectDeclared _ _ _ _ _) ?_
  simp only [resolved, Bool.not_false, ↓reduceIte]
  refine .read (.after_noting (.after_noting (.giving (.declare ?_))))
  exact Variable.name_ofInstance _ _ _ _ _ _

theorem links_bindInstance (mark : Mark) (b : BlockDecl) (body : Record) (storage : Storage)
    (name : String) : (bindInstance o mark b body storage name).Links ctx mark.id name := by
  rw [bindInstance_eq]
  refine .noting_bind (Ty.withDimensions_sound .resolved o (t := .record body) rfl _ _)
    (confined_settleInstance _ _ _ _ _ _) fun resolved ctx => ?_
  exact links_settleInstance mark b.qualifiers storage name resolved

theorem links_bindMember (q : Qualifiers) (storage : Storage) (d : Declarator) {f : Field}
    (named : f.name = d.name) (resolved : f.ty.isError = false) :
    (bindMember o q storage d f).Links ctx d.mark.id d.name := by
  refine .after (confined_reflectDeclared _ _ _ _ _) ?_
  simp only [resolved, Bool.not_false, ↓reduceIte]
  exact .after_noting (.giving (.declare named))

/-- Each member of a block is linked to a variable of its own name. -/
theorem links_bindMembers (q : Qualifiers) (storage : Storage) {ds : List Declarator}
    {fs : List Field} (names : fs.map (·.name) = ds.map (·.name))
    (resolved : ∀ f ∈ fs, f.ty.isError = false) (distinct : (ds.map (·.mark.id)).Nodup)
    {d : Declarator} (mem : d ∈ ds) :
    (bindMembers o q storage ds fs).Links ctx d.mark.id d.name := by
  induction ds generalizing fs ctx with
  | nil => cases mem
  | cons e ds ih =>
    cases fs with
    | nil => cases names
    | cons f fs =>
      simp only [List.map_cons, List.cons.injEq] at names
      simp only [List.map_cons, List.nodup_cons] at distinct
      rw [bindMembers_cons]
      have first := confined_bindMember o q storage e f
      rcases List.mem_cons.mp mem with rfl | mem
      · intro agree faultless
        have rest := confined_bindMembers o q storage ds fs (bindMember o q storage d f ctx).2
        have linked := links_bindMember q storage d names.1 (resolved f (by simp)) agree
          (faultless.before rest)
        refine linked.changes rest ?_
        simpa [bindingTouches] using distinct.1
      · refine .after first (ih names.2 (fun g mem => resolved g (by simp [mem])) distinct.2 mem)

end Update

/-- The names that a block announces are linked to variables. -/
theorem BlockDecl.linked_bind {m : Mark} {b : BlockDecl} {after : Context}
    (declared : ctx.TypesDeclared) (bound : ∀ l ∈ b.members, l.type.Bound ctx)
    (distinct : (b.binders m).Nodup) (agree : ctx.NamesAgree)
    (run : b.bind o m ctx = .ok () after) (faultless : after.Faultless) {x : Announcement}
    (mem : x ∈ b.announcements m) : after.Linked x.node x.name := by
  have reached : Context.reached (b.bind o m ctx) = after := by rw [run]; rfl
  subst reached
  have fits := b.qualifiers.isSome_blockStorage?
  cases legal : b.qualifiers.blockStorage? with
  | none =>
    rw [legal, Option.isSome_none] at fits
    simp [announcements, ← fits] at mem
  | some storage =>
    rw [legal, Option.isSome_some] at fits
    simp only [announcements, ← fits, ↓reduceIte] at mem
    simp only [bind, legal, AnalysisM.run_get_bind, AnalysisM.run_lift_bind, Update.run_noting]
      at faultless ⊢
    have names := b.names_body o ctx storage m.span
    have sound := b.body_resolved (o := o) declared bound storage m.span
    generalize b.body o ctx storage m.span = body at names sound faultless ⊢
    -- the state once the body of the block is noted
    let noted := (Change.addBlock body.value).apply ((Change.note body.problems).apply ctx)
    have agree' : noted.NamesAgree := agree
    cases instanced : b.instanceName with
    | some name =>
      rw [instanced] at mem faultless
      obtain rfl := List.mem_singleton.mp mem
      exact Update.links_bindInstance m b body.value storage name agree' faultless
    | none =>
      rw [instanced] at mem faultless
      obtain ⟨d, inside, rfl⟩ := List.mem_map.mp mem
      have lengths : (DeclList.declarators b.members).length = body.value.fields.length := by
        simpa using (congrArg List.length names).symm
      simp only [lengths, ne_eq, not_true_eq_false, ↓reduceIte] at faultless ⊢
      have changes := Update.confined_bindMembers o b.qualifiers storage
        (DeclList.declarators b.members) body.value.fields noted
      have resolved := sound fun d mem =>
        faultless.before changes d (List.mem_append_right _ mem)
      have once : ((DeclList.declarators b.members).map (·.mark.id)).Nodup := by
        simpa [binders, instanced] using distinct
      exact Update.links_bindMembers b.qualifiers storage names resolved once inside agree'
        faultless

end

/-! ### Whole units -/

/-- What an action announces is at nodes that it works at. -/
theorem Action.node_mem_homes {a : Action} {x : Announcement} (mem : x ∈ a.announcements) :
    x.node ∈ a.homesIn .finding := by
  cases a with
  | bindName list d =>
    obtain rfl := List.mem_singleton.mp mem
    exact List.mem_singleton_self _
  | bindBlock m b =>
    simp only [announcements, BlockDecl.announcements] at mem
    simp only [homesIn, phase, ↓reduceIte, homes, BlockDecl.binders]
    split at mem
    · cases instanced : b.instanceName with
      | some name =>
        rw [instanced] at mem
        obtain rfl := List.mem_singleton.mp mem
        exact List.mem_singleton_self _
      | none =>
        rw [instanced] at mem
        obtain ⟨d, inside, rfl⟩ := List.mem_map.mp mem
        exact List.mem_map.mpr ⟨d, inside, rfl⟩
    · cases mem
  | bindParameter p =>
    simp only [announcements, Parameter.announcements] at mem
    split at mem
    · cases mem
    · obtain ⟨name, _, rfl⟩ := List.mem_map.mp mem
      exact List.mem_singleton_self _
  | _ => cases mem

section

variable {env : Env} {unit : SourceUnit} {done rest : List Action} {a : Action} {b c : Ty}
  {ctx after : Context}

/-- What holds of the type of a parameter when it is bound. -/
theorem isVoid_of_perform (distinct : unit.ids.Nodup) {p : Parameter}
    (agenda : unit.agenda = done ++ .bindParameter p :: rest)
    (run : perform env done .void (.initial env.options) = .ok b ctx) :
    (p.declaredType env.options ctx).value.isVoid = p.isVoid := by
  refine p.isVoid_declaredType (typesDeclared_of_perform run) ?_
  intro s mem
  exact isRecord_of_needs distinct agenda run (List.mem_map_of_mem mem)

/-- All the way, the host is told of the names that have been announced. -/
theorem announces_of_perform (distinct : unit.ids.Nodup) (agenda : unit.agenda = done ++ rest)
    (run : perform env done .void (.initial env.options) = .ok b ctx) :
    ctx.reflection.Announces ((done.flatMap Action.announcements).map (·.name)) := by
  refine perform_induction (I := fun done _ ctx =>
    ctx.reflection.Announces ((done.flatMap Action.announcements).map (·.name))) ?_ ?_ agenda run
  · rw [Context.initial_eq]
    rfl
  · intro done rest a b c ctx after agenda first act announced
    have void : ∀ p, a = .bindParameter p →
        (p.declaredType env.options ctx).value.isVoid = p.isVoid := by
      rintro p rfl
      exact isVoid_of_perform distinct agenda first
    have told := a.tells env b void
    rw [act] at told
    rw [List.flatMap_append, List.map_append, List.flatMap_singleton]
    exact told _ announced

/-- The names that an action announces are linked to variables, if no error has been reported. -/
theorem linked_of_act (distinct : unit.ids.Nodup) (agenda : unit.agenda = done ++ a :: rest)
    (run : perform env done .void (.initial env.options) = .ok b ctx)
    (act : a.act env b ctx = .ok c after) (faultless : after.Faultless) {x : Announcement}
    (mem : x ∈ a.announcements) : after.Linked x.node x.name := by
  have agree := (Context.NamesAgree.initial env.options).changes (changes_of_perform run)
  have changes := Action.changes_of_act act
  cases a with
  | bindName list d =>
    obtain rfl := List.mem_singleton.mp mem
    have resolved := declarator_resolved distinct agenda run (faultless.before changes)
    cases act
    exact d.links_bind list.qualifiers list.invariant resolved agree faultless
  | bindBlock m block =>
    obtain ⟨⟨_, bind⟩, _⟩ := AnalysisM.run_giving_ok act
    have once : (block.binders m).Nodup := by
      have once := nodup_homes distinct .finding
      rw [agenda, homes_append, homes_cons] at once
      exact once.of_append_right.of_append_left
    refine BlockDecl.linked_bind (typesDeclared_of_perform run) ?_ once agree bind faultless mem
    intro l inside s here
    refine isRecord_of_needs distinct agenda run (List.mem_map_of_mem ?_)
    exact List.mem_flatMap.mpr ⟨l, inside, here⟩
  | bindParameter p =>
    simp only [Action.announcements, Parameter.announcements] at mem
    split at mem
    · cases mem
    · rename_i written
      obtain ⟨name, given, rfl⟩ := List.mem_map.mp mem
      have void := isVoid_of_perform distinct agenda run
      rw [Bool.eq_false_iff.mpr written] at void
      cases act
      exact p.links_bind (by simpa using given) void agree faultless
  | _ => cases mem

/-- Names that are linked to variables stay so. -/
theorem linked_of_perform (distinct : unit.ids.Nodup)
    (run : perform env unit.agenda .void (.initial env.options) = .ok b ctx)
    (faultless : ctx.Faultless) {x : Announcement} (mem : x ∈ unit.announcements) :
    ctx.Linked x.node x.name := by
  rw [← unit.announcements_eq] at mem
  obtain ⟨a, inside, here⟩ := List.mem_flatMap.mp mem
  obtain ⟨done, rest, agenda⟩ := List.append_of_mem inside
  rw [agenda] at run
  obtain ⟨c, before, d, after, first, act, last⟩ := perform_split_ok run
  have ending := changes_of_perform last
  have linked := linked_of_act distinct agenda first act (faultless.before ending) here
  refine linked.changes ending fun touched => ?_
  obtain ⟨e, later, again⟩ := List.mem_flatMap.mp touched
  refine disjoint_homesIn distinct .finding agenda (Action.node_mem_homes here) ?_
  exact List.mem_flatMap.mpr ⟨e, later, Action.mem_homes_of_touches (.inl rfl) again⟩

end

/-- What becomes of declared names, in a unit with distinct numbers whose analysis comes to its end.
The declared entries of the reflection have the names that the source announces, one by one and in
the order of the visit, whatever has been reported. And if no error has been, the node of each is
linked to a variable of that name. -/
theorem declared_names {env : Env} {unit : SourceUnit} (distinct : unit.ids.Nodup)
    {final : Context} (run : analyze env unit = .ok () final) :
    final.reflection.declared.map (fun id => (final.reflection.get? id).map (·.name))
        = unit.announcements.map (fun x => some x.name) ∧
      (final.errorCount = 0 → ∀ x ∈ unit.announcements,
        ∃ id v, final.varAt x.node = some id ∧ final.vars.get? id = some v ∧ v.name = x.name) := by
  obtain ⟨b, performed⟩ := exists_perform_of_analyze run
  constructor
  · have told := announces_of_perform distinct (List.append_nil _).symm performed
    rw [unit.announcements_eq] at told
    exact told.trans (List.map_map ..)
  · intro none x mem
    exact linked_of_perform distinct performed (Context.errorCount_eq_zero.mp none) mem

theorem declared_names_shadowing :
    ∃ final, analyze (.standard {}) Sample.shadowing = .ok () final ∧
      final.reflection.declared.map (fun id => (final.reflection.get? id).map (·.name))
        = [some "x", some "x"] ∧
      ∃ id v, final.varAt ⟨4⟩ = some id ∧ final.vars.get? id = some v ∧ v.name = "x" := by
  obtain ⟨final, run⟩ := exists_of_completes
    (show completes (.standard {}) Sample.shadowing = true by decide +kernel)
  have errors : (Context.reached (analyze (.standard {}) Sample.shadowing)).errorCount = 0 := by
    decide +kernel
  rw [run] at errors
  have announced : Sample.shadowing.announcements = [⟨⟨0⟩, "x"⟩, ⟨⟨4⟩, "x"⟩] := by
    decide
  obtain ⟨told, linked⟩ := declared_names (by decide) run
  rw [announced] at told linked
  exact ⟨final, run, told, linked errors ⟨⟨4⟩, "x"⟩ (by simp)⟩

end ShaderAnalysis
