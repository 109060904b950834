import ShaderAnalysis.Proofs.CleanCheck
import ShaderAnalysis.Proofs.Forest
import ShaderAnalysis.Proofs.Upholding

/-!
The reflection along visits. Declared names, uses of names and struct definitions make entries; each
way adds a tree of new ones and changes none of the old ones, and what nodes are linked to is there
(`Context.Rooted`). So in all states the entries form a forest, which can be written out, and an
entry stays what it is (`reflection_forest`).
-/

namespace ShaderAnalysis

open Analysis

/-- The entries of a state form a forest, those of an older one among them, and nodes are linked to
entries that are there. -/
structure Context.Rooted (old : Reflection) (ctx : Context) : Prop where
  kept : ∀ id e, old.get? id = some e → ctx.reflection.get? id = some e
  planted : ctx.reflection.Planted
  linked : ∀ node id, (ctx.annotations.ofNode node).reflection = some id →
    id.index < ctx.reflection.size

/-- A thing other than entries and links to them. -/
def Touch.Unreflected : Touch → Prop
  | .reflection | .slot _ .reflection => False
  | _ => True

namespace Context.Rooted

variable {old : Reflection} {ctx : Context}

/-- A write to a slot of a node, if a link to an entry then one that is there. -/
theorem annotate (h : ctx.Rooted old) (node : NodeId) (slot : Slot)
    (range : ∀ id, slot = .reflection id → id.index < ctx.reflection.size) :
    ((Change.annotate node slot).apply ctx).Rooted old := by
  refine ⟨h.kept, h.planted, ?_⟩
  intro other i noted
  rcases (Change.annotate node slot).ofNode_apply ctx other with ⟨slot', same, written⟩ | same
  · cases same
    rw [written] at noted
    cases slot with
    | reflection id =>
      cases noted
      exact range _ rfl
    | _ => exact h.linked node i noted
  · rw [same] at noted
    exact h.linked other i noted

theorem link (h : ctx.Rooted old) (node : NodeId) {id : ReflectionId}
    (range : id.index < ctx.reflection.size) :
    ((Change.annotate node (.reflection id)).apply ctx).Rooted old :=
  h.annotate node _ fun i same => by
    cases same
    exact range

/-- A store with more entries. -/
theorem store (h : ctx.Rooted old) {r : Reflection} (planted : r.Planted)
    (kept : ∀ id e, ctx.reflection.get? id = some e → r.get? id = some e) :
    ((Change.setReflection r).apply ctx).Rooted old := by
  refine ⟨fun id e found => kept id e (h.kept id e found), planted, ?_⟩
  intro node id noted
  exact Reflection.lt_size_of_get? (kept id _ (Array.getElem?_eq_getElem (h.linked node id noted)))

theorem spared {t : Touch} (other : t.Unreflected) : t.Spares (Context.Rooted old) := by
  rintro c rfl ctx _ h
  cases c with
  | setReflection r => exact absurd other id
  | annotate node slot =>
    refine h.annotate node slot fun i same => ?_
    subst same
    exact absurd other id
  | _ => exact ⟨h.kept, h.planted, h.linked⟩

/-- What was there before is there. -/
theorem range (h : ctx.Rooted old) {id : ReflectionId} (stored : id.index < old.size) :
    id.index < ctx.reflection.size :=
  Reflection.lt_size_of_get? (h.kept id _ (Array.getElem?_eq_getElem stored))

theorem trans {ctx' : Context} (h : ctx.Rooted old) (h' : ctx'.Rooted ctx.reflection) :
    ctx'.Rooted old :=
  ⟨fun id e found => h'.kept id e (h.kept id e found), h'.planted, h'.linked⟩

/-- A state as the beginning of what comes after it. -/
theorem here (h : ctx.Rooted old) : ctx.Rooted ctx.reflection :=
  ⟨fun _ _ => id, h.planted, h.linked⟩

theorem initial (o : Options) : (Context.initial o).Rooted {} := by
  have nothing : (Context.initial o).reflection = {} := by rw [initial_eq]
  refine ⟨?_, ?_, ?_⟩
  · simp [Reflection.get?]
  · rw [nothing]
    exact .empty
  · simp [Context.annotations_initial, Annotations.ofNode]

end Context.Rooted

/-! ### Bindings -/

section

variable {old : Reflection} {ctx : Context} {α : Type}

theorem Update.Confined.rooted {u : Update α} {ts : List Touch} (h : u.Confined ts)
    (other : ∀ t ∈ ts, t.Unreflected) : u.Upholds (Context.Rooted old) ctx fun _ => True :=
  .confined h fun t mem => Context.Rooted.spared (other t mem)

theorem Update.rooted_noting (r : Reported α) :
    (Update.noting r).Upholds (Context.Rooted old) ctx fun _ => True :=
  .noting (Context.Rooted.spared trivial) trivial

/-- A declared name gets a new tree of entries, and its node is linked to the root. -/
theorem Update.rooted_reflectDeclared (node : NodeId) (name : String) (role : Role) (m : Modifier)
    (ty : Ty) (h : ctx.Rooted old) : (reflectDeclared node name role m ty ctx).2.Rooted old := by
  obtain ⟨planted, range⟩ := h.planted.declare name role m ty
  have stored := h.store planted (Reflection.Extends.snapshot ctx.reflection name role m ty).get?
  exact stored.link node range

end

/-! ### Declarations -/

/-- The role that the host is told of what an action declares. -/
def Action.declaredRole? (stage : Stage) : Action → Option Role
  | .bindName list _ => some (.ofQualifiers list.qualifiers stage)
  | .bindParameter p => some (.ofParameter p.qualifiers)
  | .bindBlock _ b => some (.ofQualifiers b.qualifiers stage)
  | _ => none

/-- What bindings do to entries, they do where a name is declared, and with one role. -/
structure Reflecting (role : Role) (J : Context → Prop) : Prop where
  spared : ∀ t : Touch, t.Unreflected → t.Spares J
  declared : ∀ (node : NodeId) (name : String) (m : Modifier) (ty : Ty) (ctx : Context), J ctx →
    J (Update.reflectDeclared node name role m ty ctx).2

namespace Reflecting

variable {role : Role} {J : Context → Prop} (h : Reflecting role J) {o : Options} {ctx : Context}

include h

theorem noting {α : Type} (r : Reported α) : (Update.noting r).Upholds J ctx fun _ => True :=
  .noting (h.spared _ trivial) trivial

theorem confined {α : Type} {u : Update α} {ts : List Touch} (confined : u.Confined ts)
    (other : ∀ t ∈ ts, t.Unreflected) : u.Upholds J ctx fun _ => True :=
  .confined confined fun t mem => h.spared t (other t mem)

theorem reflectDeclared (node : NodeId) (name : String) (m : Modifier) (ty : Ty) :
    (Update.reflectDeclared node name role m ty).Upholds J ctx fun _ => True :=
  fun holds => ⟨h.declared node name m ty ctx holds, trivial⟩

theorem declare {v : Variable} (fresh : v.maxAccess = 0) (node : NodeId) :
    (Update.declare v node).Upholds J ctx fun _ => True :=
  h.confined (Update.confined_declare fresh node)
    (by simp [Update.declareTouches, Touch.Unreflected])

theorem declarator {q : Qualifiers} (same : role = .ofQualifiers q o.stage) (invariant : Bool)
    (d : Declarator) (ty : Ty) : (d.bind o q invariant ty).Upholds J ctx fun _ => True := by
  subst same
  rw [Declarator.bind_eq]
  refine .read fun _ => .bind (h.reflectDeclared _ _ _ _) fun _ _ _ => ?_
  split
  · exact .bind (h.noting _) fun _ _ _ => .pure trivial
  · split
    · exact .pure trivial
    · refine .read fun _ => .noting_bind (h.spared _ trivial) fun _ => ?_
      exact h.confined (d.confined_settle (d.maxAccess_toVariable _ _ _ _ _))
        (by simp [Update.declareTouches, Touch.Unreflected])

theorem parameter {p : Parameter} (same : role = .ofParameter p.qualifiers) :
    (p.bind o).Upholds J ctx fun _ => True := by
  subst same
  rw [Parameter.bind_eq]
  refine .read fun _ => .bind (h.noting _) fun ty _ _ => ?_
  have typed : (Update.annotate p.mark.id fun a => { a with ty := some ty }).Confined
      [.slot p.mark.id .ty] := .annotate _ (.ty ty) (by simp) (by simp)
  refine .bind (h.confined typed (by simp [Touch.Unreflected])) fun _ _ _ => ?_
  split
  · exact .pure trivial
  · split
    · split
      · exact .bind (h.noting _) fun _ _ _ => .pure trivial
      · exact .pure trivial
    · rename_i name _
      refine .bind (h.reflectDeclared _ _ _ _) fun _ _ _ => ?_
      refine .noting_bind (h.spared _ trivial) fun _ => .bind (h.noting _) fun _ _ _ => ?_
      have declared := p.maxAccess_toVariable o name ty
      exact .bind (h.declare declared _) fun _ _ _ => .pure trivial

theorem blockInstance {b : BlockDecl} (same : role = .ofQualifiers b.qualifiers o.stage)
    (mark : Mark) (body : Record) (storage : Storage) (name : String) :
    (Update.bindInstance o mark b body storage name).Upholds J ctx fun _ => True := by
  subst same
  refine .bind (h.noting _) fun ty _ _ => .bind (h.reflectDeclared _ _ _ _) fun _ _ _ => ?_
  split
  · refine .read fun _ => .noting_bind (h.spared _ trivial) fun _ => ?_
    refine .bind (h.noting _) fun _ _ _ => .bind (h.declare ?_ _) fun _ _ _ => .done
    exact Variable.maxAccess_ofInstance _ _ _ _ _ _
  · exact .done

theorem member {q : Qualifiers} (same : role = .ofQualifiers q o.stage) (storage : Storage)
    (d : Declarator) (f : Field) :
    (Update.bindMember o q storage d f).Upholds J ctx fun _ => True := by
  subst same
  refine .bind (h.reflectDeclared _ _ _ _) fun _ _ _ => ?_
  split
  · exact .bind (h.noting _) fun _ _ _ => .bind (h.declare rfl _) fun _ _ _ => .done
  · exact .done

theorem members {q : Qualifiers} (same : role = .ofQualifiers q o.stage) (storage : Storage)
    (ds : List Declarator) (fs : List Field) :
    (Update.bindMembers o q storage ds fs).Upholds J ctx fun _ => True := by
  induction ds generalizing fs ctx with
  | nil => exact .done
  | cons d ds ih =>
    cases fs with
    | nil => exact .done
    | cons f fs =>
      rw [Update.bindMembers_cons]
      exact .bind (h.member same storage d f) fun _ _ _ => ih fs

theorem block {b : BlockDecl} (same : role = .ofQualifiers b.qualifiers o.stage) (m : Mark) :
    ShaderAnalysis.Upholds J ctx (b.bind o m) fun _ => True := by
  unfold BlockDecl.bind
  split
  · exact .lift (h.noting _)
  · rename_i storage _
    refine .read fun _ => .bind (.lift (h.noting _)) fun body _ _ => ?_
    have added : Confined [.blocks]
        (modify fun ctx => { ctx with blocks := ctx.blocks ++ [body] } : AnalysisM Unit) :=
      fun ctx => .single (.addBlock body) (by simp) trivial
    refine .bind (.confined added fun t _ => h.spared t ?_) fun _ _ _ => ?_
    · simp_all [Touch.Unreflected]
    · split
      · exact .lift (h.blockInstance same _ _ _ _)
      · dsimp only
        split
        · exact .throw _
        · exact .lift (h.members same _ _ _)

/-- What the entries of its declarations leave alone, an action does. -/
theorem act {env : Env} {a : Action} (declares : a.declaredRole? env.options.stage = some role)
    (base : Ty) : ShaderAnalysis.Upholds J ctx (a.act env base) fun _ => True := by
  cases a with
  | bindName list d =>
    have bound : ShaderAnalysis.Upholds J ctx (bindDeclarator env list base d) fun _ => True :=
      .giving (.lift (h.declarator (Option.some.inj declares).symm _ _ _)) trivial
    exact .giving bound trivial
  | bindParameter p =>
    exact .giving (.lift (h.parameter (Option.some.inj declares).symm)) trivial
  | bindBlock m b => exact .giving (h.block (Option.some.inj declares).symm m) trivial
  | _ => cases declares

end Reflecting

theorem Context.Rooted.reflecting (role : Role) (old : Reflection) :
    Reflecting role (Context.Rooted old) where
  spared _ other := Context.Rooted.spared other
  declared node name m ty _ h := Update.rooted_reflectDeclared node name role m ty h

/-! ### Struct definitions -/

section

variable {old : Reflection} {ctx : Context}

theorem Update.rooted_linkMembers (ds : List Declarator) {ids : List ReflectionId}
    (range : ∀ id ∈ ids, id.index < old.size) :
    (linkMembers ds ids).Upholds (Context.Rooted old) ctx fun _ => True := by
  induction ds generalizing ids ctx with
  | nil => exact .done
  | cons d ds ih =>
    cases ids with
    | nil => exact .done
    | cons id ids =>
      intro h
      have linked := h.link d.mark.id (h.range (range id (by simp)))
      exact ih (fun i mem => range i (by simp [mem])) linked

/-- The members of a struct are linked to what the entry of the struct holds. -/
theorem StructSpec.rooted_settle (s : StructSpec) (body : Record) {id : ReflectionId}
    (range : id.index < old.size) :
    Upholds (Context.Rooted old) ctx (s.settle body id) fun _ => True := by
  refine .read fun h => ?_
  have children : ∀ child ∈ (ctx.reflection.get? id).elim [] (·.fields),
      child.index < old.size := by
    intro child mem
    cases found : ctx.reflection.get? id with
    | none => simp [found] at mem
    | some e =>
      rw [found] at mem
      exact Nat.lt_trans (h.planted.below id e found child mem) range
  dsimp only
  split
  · exact .throw _
  · refine .bind (.lift (Update.rooted_linkMembers _ children)) fun _ ctx' _ => ?_
    refine .bind (P := fun _ => True) (.lift ?_) fun _ _ _ => ?_
    · intro h
      have typed := h.annotate s.mark.id (.ty (.record body)) (by simp)
      have linked := typed.link s.mark.id (h.range range)
      simp only [Change.apply, Annotations.update_update, Slot.write] at linked
      exact ⟨linked, trivial⟩
    · split
      · have declared := Update.confined_declareStruct s.mark.span body
        exact .giving (.lift (declared.rooted (by simp [Touch.Unreflected]))) trivial
      · exact .pure trivial

theorem StructSpec.rooted_bind (o : Options) (s : StructSpec) :
    Upholds (Context.Rooted old) ctx (s.bind o) fun _ => True := by
  rw [bind_eq]
  refine .read fun _ => .bind (.lift (Update.rooted_noting _)) fun body between _ h => ?_
  obtain ⟨planted, range⟩ := h.planted.declareStruct body
  have made := h.store planted (Reflection.Extends.declareStruct between.reflection body).get?
  have settled := s.rooted_settle body range made.here
  exact ⟨made.trans settled.1, fun _ _ _ => trivial⟩

/-! ### Expressions -/

/-- A use gets a new tree of entries, to whose root its node is linked if it had no link before. -/
theorem rooted_resolveIdentifier (o : Options) (m : Mark) (name : String) :
    Upholds (Context.Rooted old) ctx (resolveIdentifier o m name) fun _ => True := by
  refine upholds_resolveIdentifier o m name ?_
  intro id v _ h
  obtain ⟨planted, range⟩ := h.planted.describe v o.stage
  have made := h.store planted (Reflection.Extends.snapshot ctx.reflection v.name _ _ v.ty).get?
  have resolved := made.annotate m.id (.var id) (by simp)
  refine resolved.link m.id ?_
  cases noted : (ctx.annotations.ofNode m.id).reflection with
  | none => exact range
  | some earlier => exact made.linked m.id earlier noted

/-- Looking at an expression and typing it makes entries for a use only. -/
theorem rooted_checkExpr (env : Env) (e : Expr) :
    Upholds (Context.Rooted old) ctx (checkExpr env e) fun _ => True := by
  cases e with
  | ident m name =>
    rw [checkExpr_eq]
    refine .bind (rooted_resolveIdentifier _ m name) fun _ _ _ => ?_
    refine .confined (Expr.confined_noteType env _) fun t mem => Context.Rooted.spared ?_
    revert t
    simp [Touch.Unreflected]
  | _ =>
    refine .confined (confined_checkExpr env _) fun t mem => Context.Rooted.spared ?_
    revert t
    simp [Action.touches, Expr.touches, Touch.Unreflected]

end

/-! ### Histories -/

theorem Action.rooted (env : Env) (a : Action) (base : Ty) (old : Reflection) (ctx : Context) :
    Upholds (Context.Rooted old) ctx (a.act env base) fun _ => True := by
  cases a with
  | check e => exact .giving (rooted_checkExpr env e) trivial
  | bindStruct s => exact .giving (s.rooted_bind _) trivial
  | bindName list d => exact (Context.Rooted.reflecting _ old).act rfl base
  | bindBlock m b => exact (Context.Rooted.reflecting _ old).act rfl base
  | bindParameter p => exact (Context.Rooted.reflecting _ old).act rfl base
  | typeName d =>
    refine .confined (Action.confined env base _) fun t mem => Context.Rooted.spared ?_
    rcases List.mem_cons.mp mem with rfl | mem
    · trivial
    · obtain ⟨e, _, rfl⟩ := List.mem_map.mp mem
      trivial
  | _ =>
    refine .confined (Action.confined env base _) fun t mem => Context.Rooted.spared ?_
    revert t
    simp [touches, Touch.Unreflected]

/-- A later state: if entries form a forest before, they do so later, and are still there. -/
def Context.Sprouts (ctx ctx' : Context) : Prop :=
  ∀ old, ctx.Rooted old → ctx'.Rooted ctx.reflection

theorem Context.Sprouts.trans {ctx ctx' ctx'' : Context} (first : ctx.Sprouts ctx')
    (second : ctx'.Sprouts ctx'') : ctx.Sprouts ctx'' :=
  fun old h => (first old h).trans (second _ (first old h))

theorem Action.sprouts (env : Env) (a : Action) (base : Ty) (ctx : Context) :
    ctx.Sprouts (Context.reached (a.act env base ctx)) :=
  fun _ h => (a.rooted env base ctx.reflection ctx h.here).1

/-- Entries that are there before actions are there behind them. -/
theorem rooted_of_perform {env : Env} {as : List Action} {base b : Ty} {ctx ctx' : Context}
    {old : Reflection} (rooted : ctx.Rooted old) (run : perform env as base ctx = .ok b ctx') :
    ctx'.Rooted ctx.reflection := by
  refine perform_induction (I := fun _ _ between => between.Rooted ctx.reflection) rooted.here ?_
    (List.append_nil as).symm run
  intro done rest a b c between after _ _ act grown
  have sprouts := a.sprouts env b between _ grown
  rw [act] at sprouts
  exact grown.trans sprouts

/-- In all states that visits go through, fatal ones included, the reflection entries form a forest
that mirrors the types, and what nodes are linked to is there. To write out any entry comes to an
end, with one line for each entry inside it: two blanks for each level that the entry is deep, then
its number if that is shown, its role, modifier, type and name, with a blank between any two words.
And from each state to every later one, entries stay what they are. -/
theorem reflection_forest (env : Env) (fs : List Fragment) :
    (∀ ctx ∈ Fragment.history env fs (.initial env.options),
      ctx.reflection.Forest ∧
      (∀ node id, (ctx.annotations.ofNode node).reflection = some id →
        id.index < ctx.reflection.size) ∧
      ∀ id, id.index < ctx.reflection.size →
        ∃ places, ctx.reflection.Writes 0 [id] places ∧ (places.map (·.2)).Nodup ∧
          (∀ depth inner, (depth, inner) ∈ places ↔ ctx.reflection.Inside depth id inner) ∧
          (∀ depth inner, (depth, inner) ∈ places → ∃ e, ctx.reflection.get? inner = some e ∧
            ∀ numbered, ctx.reflection.lineAt numbered depth inner
              = String.join (List.replicate depth "  ")
                ++ String.intercalate " " (e.words (if numbered then some inner else none))
                ++ "\n") ∧
          ∀ numbered, ctx.reflection.render numbered id
            = String.join (places.map fun place =>
                ctx.reflection.lineAt numbered place.1 place.2)) ∧
    (Fragment.history env fs (.initial env.options)).Pairwise fun earlier later =>
      ∀ id e, earlier.reflection.get? id = some e → later.reflection.get? id = some e := by
  have rooted := Fragment.forall_mem_history (P := fun _ => True)
    (fun a base ctx _ => a.rooted env base {} ctx) fs (fun _ _ => trivial)
    (Context.Rooted.initial env.options)
  constructor
  · intro ctx mem
    have forest := (rooted ctx mem).planted.forest
    exact ⟨forest, (rooted ctx mem).linked, fun id stored => forest.exists_lines stored⟩
  · have chain := Fragment.isChain_history_of (fun a base ctx => a.sprouts env base ctx)
      (fun _ _ h => h.here) fs (.initial env.options)
    have : IsTrans Context Context.Sprouts := ⟨fun _ _ _ => .trans⟩
    refine chain.pairwise.imp_of_mem ?_
    intro earlier later mem _ sprouts
    exact (sprouts {} (rooted earlier mem)).kept

end ShaderAnalysis
