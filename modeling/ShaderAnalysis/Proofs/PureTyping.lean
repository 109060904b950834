import ShaderAnalysis.Proofs.Judgement

/-!
The analysis finds for expressions what typing as a function gives. On the way through an expression
nothing that typing reads is changed, but for the notes at the nodes that have been visited, and
these hold what the function gives there (`Progress`). A node that is visited next, after its parts,
therefore gets what the function gives there too, or fails as it does; so does the whole expression,
by induction on it (`typing_compositional`).
-/

namespace ShaderAnalysis

open Analysis

/-! ### Numbers of nodes -/

namespace Expr

/-- The nodes whose notes are read or written at an expression, apart from its parts: its own, and
that of a struct that a constructor defines. -/
def anchors : Expr → List NodeId
  | .construct m t _ => t.structs.map (·.mark.id) ++ [m.id]
  | e => [e.id]

theorem count_anchors_le (e : Expr) (x : NodeId) :
    (e.parts.flatMap Expr.ids).count x + e.anchors.count x ≤ e.ids.count x := by
  cases e with
  | construct m t args =>
    obtain ⟨head, dims⟩ := t
    cases head with
    | named name => simp [parts, anchors, ids, TypeSpec.structs, listIds_eq]
    | struct s =>
      obtain ⟨mark, name, members⟩ := s
      simp only [parts, anchors, ids, TypeSpec.structs, listIds_eq, TypeSpec.ids, TypeHead.ids,
        StructSpec.ids, List.map_cons, List.map_nil, List.count_append, List.count_cons]
      omega
  | _ => exact count_parts_le _ x

variable {e : Expr}

theorem mem_ids_of_mem_parts {x : NodeId} (mem : x ∈ e.parts.flatMap Expr.ids) : x ∈ e.ids := by
  have counted := e.count_anchors_le x
  rw [← List.count_pos_iff] at mem ⊢
  omega

theorem mem_ids_of_mem_anchors {x : NodeId} (mem : x ∈ e.anchors) : x ∈ e.ids := by
  have counted := e.count_anchors_le x
  rw [← List.count_pos_iff] at mem ⊢
  omega

theorem id_mem_anchors (e : Expr) : e.id ∈ e.anchors := by
  cases e <;> simp [anchors, Expr.id, Expr.mark]

theorem nodup_parts (distinct : e.ids.Nodup) : (e.parts.flatMap Expr.ids).Nodup := by
  rw [List.nodup_iff_count_le_one] at distinct ⊢
  intro x
  have counted := e.count_anchors_le x
  have once := distinct x
  omega

theorem not_mem_parts_of_mem_anchors (distinct : e.ids.Nodup) {x : NodeId}
    (mem : x ∈ e.anchors) : x ∉ e.parts.flatMap Expr.ids := by
  intro inside
  have counted := e.count_anchors_le x
  have once := List.nodup_iff_count_le_one.mp distinct x
  rw [← List.count_pos_iff] at mem inside
  omega

theorem id_mem_ids_of_mem_postorder {p : Expr} (mem : p ∈ e.postorder) : p.id ∈ e.ids := by
  induction e using Expr.byParts with
  | step e ih =>
    rw [postorder_eq] at mem
    rcases List.mem_append.mp mem with inside | own
    · obtain ⟨q, part, inside⟩ := List.mem_flatMap.mp inside
      exact mem_ids_of_mem_parts (List.mem_flatMap.mpr ⟨q, part, ih q part inside⟩)
    · rw [List.mem_singleton.mp own]
      exact mem_ids_of_mem_anchors (id_mem_anchors e)

theorem mem_postorder_self (e : Expr) : e ∈ e.postorder := by
  rw [postorder_eq]
  simp

end Expr

/-! ### On the way through an expression -/

/-- The type of the variable that a name means. -/
theorem Context.type_visible? (ctx : Context) (name : String) :
    (ctx.visible? name).map (·.2.ty)
      = (ctx.scopes.findVariable? name).bind fun id => (ctx.vars.get? id).map (·.ty) := by
  simp only [visible?, Option.bind_eq_bind, Option.map_bind]
  congr 1
  funext id
  simp only [Function.comp_apply]
  cases ctx.vars.get? id <;> rfl

theorem Context.typeOf_congr {ctx ctx' : Context} {id : NodeId}
    (same : (ctx'.annotations.ofNode id).ty = (ctx.annotations.ofNode id).ty) :
    ctx'.typeOf id = ctx.typeOf id := by
  rw [typeOf, typeOf, same]

/-- Some expressions have been visited, after their parts and without a fatal condition, and what
typing gives for them is noted at their nodes. -/
structure Progress (env : Env) (s : Context) (done : List Expr) (ctx : Context) : Prop where
  changes : Changes (Expr.footprint done) s ctx
  noted : ∀ p ∈ done, ∃ f, p.judge env s = .ok f ∧ f.NotedAt ctx p.id

namespace Progress

variable {env : Env} {s ctx : Context} {done : List Expr}

theorem refl (env : Env) (s : Context) : Progress env s [] s :=
  ⟨.refl, by simp⟩

theorem reads (h : Progress env s done ctx) : s.ReadsAs ctx :=
  h.changes.readsAs fun _ => Expr.atNode_of_mem_footprint

/-- A name means a variable of the type that it had before. -/
theorem visible? (h : Progress env s done ctx) (name : String) :
    (s.visible? name).map (·.2.ty) = (ctx.visible? name).map (·.2.ty) := by
  have same : ∀ id, (ctx.vars.get? id).map (·.ty) = (s.vars.get? id).map (·.ty) := h.reads.vars
  simp only [Context.type_visible?, h.reads.scopes, same]

/-- The notes at a node that has not been visited, but for the effects of what is inside it. -/
theorem agree (h : Progress env s done ctx) {id : NodeId} (fresh : id ∉ done.map Expr.id)
    (n : SlotName) : n.Agree (s.annotations.ofNode id) (ctx.annotations.ofNode id) :=
  h.changes.agree fun mem => fresh (Expr.slot_of_mem_footprint mem).1

theorem typeOf (h : Progress env s done ctx) {id : NodeId} (fresh : id ∉ done.map Expr.id) :
    ctx.typeOf id = s.typeOf id := by
  have same : (ctx.annotations.ofNode id).ty = (s.annotations.ofNode id).ty := h.agree fresh .ty
  exact Context.typeOf_congr same

theorem part (h : Progress env s done ctx) {p : Expr} (mem : p ∈ done) :
    ∃ f, p.judge env s = .ok f ∧ ctx.typeOf p.id = f.ty := by
  obtain ⟨f, judged, noted⟩ := h.noted p mem
  exact ⟨f, judged, by simp [Context.typeOf, noted.ty]⟩

theorem parts (h : Progress env s done ctx) (es : List Expr) (mem : ∀ p ∈ es, p ∈ done) :
    ∃ fs, Expr.judges env s es = .ok fs ∧ es.map (ctx.typeOf ·.id) = fs.map (·.ty) := by
  induction es with
  | nil => exact ⟨[], rfl, rfl⟩
  | cons e es ih =>
    obtain ⟨f, judged, typed⟩ := h.part (mem e (by simp))
    obtain ⟨fs, rest, types⟩ := ih fun p inside => mem p (by simp [inside])
    refine ⟨f :: fs, ?_, by simp [typed, types]⟩
    simp only [Expr.judges, judged, rest]
    rfl

end Progress

/-! ### A node -/

theorem TypeSpec.resolve_congr {t : TypeSpec} {ctx ctx' : Context}
    (scopes : ctx'.scopes = ctx.scopes)
    (structs : ∀ d ∈ t.structs, ctx'.typeOf d.mark.id = ctx.typeOf d.mark.id) (o : Options)
    (span : Span) : t.resolve o ctx' span = t.resolve o ctx span := by
  obtain ⟨head, dims⟩ := t
  cases head with
  | named name => simp only [resolve, TypeHead.resolve, scopes]
  | struct d => simp only [resolve, TypeHead.resolve, structs d (by simp [TypeSpec.structs])]

/-- The types of nodes stay when another slot of a node is written. -/
theorem Context.typeOf_annotate (ctx : Context) (i id : NodeId) {slot : Slot}
    (other : slot.name ≠ .ty) : ((Change.annotate i slot).apply ctx).typeOf id = ctx.typeOf id := by
  refine typeOf_congr ?_
  rw [Change.apply, Annotations.ofNode_update]
  split
  · rename_i here
    rw [here]
    cases slot with
    | ty => exact absurd rfl other
    | _ => rfl
  · rfl

/-- A type, and what else is noted at a node, are what has been found for it. -/
structure Finding.DueAt (f : Finding) (ty : Ty) (ctx : Context) (id : NodeId) : Prop where
  ty : ty = f.ty
  selection : (ctx.annotations.ofNode id).selection = f.selection
  builtin : (ctx.annotations.ofNode id).builtin = f.builtin

/-- Nothing that typing finds out is noted at a node. -/
structure Context.Untyped (ctx : Context) (id : NodeId) : Prop where
  var : (ctx.annotations.ofNode id).var = none
  selection : (ctx.annotations.ofNode id).selection = none
  builtin : (ctx.annotations.ofNode id).builtin = none

section

variable {env : Env} {s ctx : Context} {done : List Expr}

theorem Progress.untyped (h : Progress env s done ctx) {id : NodeId}
    (fresh : id ∉ done.map Expr.id) (blank : s.Unannotated id) : ctx.Untyped id := by
  constructor
  · exact (h.agree fresh .var).trans (by rw [blank])
  · exact (h.agree fresh .selection).trans (by rw [blank])
  · exact (h.agree fresh .builtin).trans (by rw [blank])

/-- An expression of which nothing has to be known but the types of its parts. -/
theorem Context.Untyped.due {id : NodeId} (h : ctx.Untyped id) {found ty : Ty} (same : found = ty) :
    Finding.DueAt { ty := ty } found ctx id :=
  ⟨same, h.selection, h.builtin⟩

/-- A call of which it has been noted whether it means something builtin. -/
theorem Context.Untyped.due_builtin {id : NodeId} (h : ctx.Untyped id) (b : Bool) {found ty : Ty}
    (same : found = ty) :
    Finding.DueAt { ty := ty, builtin := some b } found
      ((Change.annotate id (.builtin b)).apply ctx) id := by
  refine ⟨same, ?_, ?_⟩ <;> simp [Change.apply, Annotations.ofNode_update, Slot.write, h.selection]

/-- A selection is classified as it is found to be. -/
theorem classifySelection_judged (o : Options) {m : Mark} {base : Expr} (name : String)
    (withArgs : Bool) (apart : m.id ≠ base.id) (blank : ctx.Untyped m.id) :
    EndsAs (Finding.ofSelection o m (ctx.typeOf base.id) name withArgs)
      (fun f between => f.DueAt (Expr.typeOfSelection between m base name).value between m.id)
      (classifySelection o m base name withArgs ctx) := by
  simp only [classifySelection, AnalysisM.run_get_bind, Finding.ofSelection]
  by_cases error : (ctx.typeOf base.id).isError = true
  · simp only [error]
    exact ⟨_, rfl, blank.due (by simp [Expr.typeOfSelection, blank.selection])⟩
  · simp only [error]
    cases SelectionKind.classify (ctx.typeOf base.id) withArgs o.relaxedScalarSwizzle with
    | none => rfl
    | some kind =>
      refine ⟨_, rfl, ?_⟩
      constructor <;>
        simp [Expr.typeOfSelection, Context.typeOf, Annotations.ofNode_update, apart, blank.builtin]

/-- An identifier is resolved to a variable of the type that is found for it. -/
theorem resolveIdentifier_judged (h : Progress env s done ctx) (m : Mark) (name : String)
    (blank : ctx.Untyped m.id) :
    EndsAs (Expr.judge env s (.ident m name))
      (fun f between => f.DueAt ((Expr.ident m name).typeOf env between).value between m.id)
      (resolveIdentifier env.options m name ctx) := by
  have same := h.visible? name
  cases visible : ctx.visible? name with
  | none =>
    have hidden : s.visible? name = none := by simpa [visible] using same
    have failed : resolveIdentifier env.options m name ctx
        = .error (.undefinedVariable name m.span) ctx := by
      simp [resolveIdentifier, blank.var, visible]
    rw [failed]
    simp only [Expr.judge, hidden]
    rfl
  | some found =>
    obtain ⟨id, v⟩ := found
    obtain ⟨⟨id', v'⟩, before, type⟩ : ∃ a, s.visible? name = some a ∧ a.2.ty = v.ty := by
      simpa [visible] using same
    rw [resolveIdentifier_of_visible _ _ blank.var visible]
    have stored : ctx.vars.get? id = some v := (Context.visible?_eq_some.mp visible).2
    refine ⟨{ ty := v'.ty }, by simp only [Expr.judge, before], ?_⟩
    constructor <;>
      simp [Expr.typeOf, Context.variableOf?, Change.apply, Annotations.ofNode_update, Slot.write,
        stored, ← type, blank.selection, blank.builtin]

/-- It is noted whether a call means something builtin, and the types of its arguments are those
that are found for them. -/
theorem classifyCall_judged (h : Progress env s done ctx) (m : Mark) (name : String)
    {args : List Expr} (parts : ∀ p ∈ args, p ∈ done) (blank : ctx.Untyped m.id) :
    EndsAs (Expr.judge env s (.call m name args))
      (fun f between => f.DueAt ((Expr.call m name args).typeOf env between).value between m.id)
      (prepare env (.call m name args) ctx) := by
  obtain ⟨fs, judged, types⟩ := h.parts args parts
  let builtin := env.isBuiltinCall ctx name (args.map (ctx.typeOf ·.id))
  let between := (Change.annotate m.id (.builtin builtin)).apply ctx
  have functions : between.functions = s.functions := h.reads.functions
  have kept : args.map (between.typeOf ·.id) = fs.map (·.ty) := by
    rw [← types]
    exact List.map_congr_left fun p _ => ctx.typeOf_annotate m.id p.id (by simp)
  have called : env.isBuiltinCall s name (fs.map (·.ty)) = builtin := by
    simp only [builtin, types, Env.isBuiltinCall, h.reads.functions]
  have typed : ((Expr.call m name args).typeOf env between).value
      = (env.typeOfCall s name (fs.map (·.ty)) m.span).value := by
    simp only [Expr.typeOf, Env.typeOfCall, kept, functions]
  simp only [Expr.judge, judged]
  refine ⟨_, rfl, ?_⟩
  rw [called]
  exact blank.due_builtin builtin typed

/-- A constructor is noted to be builtin, and its type means what it meant before. -/
theorem construct_judged (h : Progress env s done ctx) (m : Mark) {type : TypeSpec}
    {args : List Expr} (parts : ∀ p ∈ args, p ∈ done)
    (fresh : ∀ d ∈ type.structs, d.mark.id ∉ done.map Expr.id) (blank : ctx.Untyped m.id) :
    EndsAs (Expr.judge env s (.construct m type args))
      (fun f between =>
        f.DueAt ((Expr.construct m type args).typeOf env between).value between m.id)
      (prepare env (.construct m type args) ctx) := by
  obtain ⟨fs, judged, _⟩ := h.parts args parts
  let between := (Change.annotate m.id (.builtin true)).apply ctx
  have scopes : between.scopes = s.scopes := h.reads.scopes
  have structs : ∀ d ∈ type.structs, between.typeOf d.mark.id = s.typeOf d.mark.id := by
    intro d mem
    rw [ctx.typeOf_annotate _ _ (by simp), h.typeOf (fresh d mem)]
  have typed : ((Expr.construct m type args).typeOf env between).value
      = (type.resolve env.options s m.span).value.sizedTo args.length := by
    rw [Expr.typeOf, TypeSpec.resolve_congr scopes structs]
    rfl
  simp only [Expr.judge, judged]
  exact ⟨_, rfl, blank.due_builtin true typed⟩

/-- An expression of which nothing has to be found out before it is typed. -/
def Expr.Plain : Expr → Prop
  | .ident .. | .field .. | .method .. | .call .. | .construct .. => False
  | _ => True

/-- The type of a plain expression is the one that is found for it. -/
theorem plain_judged (h : Progress env s done ctx) {e : Expr} (parts : ∀ p ∈ e.parts, p ∈ done)
    (plain : e.Plain) :
    ∃ ty, e.judge env s = .ok { ty := ty } ∧ (e.typeOf env ctx).value = ty := by
  cases e with
  | ident | field | method | call | construct => exact plain.elim
  | int | uint | float | bool => exact ⟨_, rfl, rfl⟩
  | unary m op a =>
    obtain ⟨f, judged, typed⟩ := h.part (parts a (by simp [Expr.parts]))
    refine ⟨if op = .logicalNot then .scalar .bool else f.ty, ?_, ?_⟩
    · simp only [Expr.judge, judged]
      rfl
    · cases op <;> simp [Expr.typeOf, typed]
  | binary m op a b =>
    obtain ⟨f, judged, typed⟩ := h.part (parts a (by simp [Expr.parts]))
    obtain ⟨g, judged', typed'⟩ := h.part (parts b (by simp [Expr.parts]))
    refine ⟨op.typeOf f.ty g.ty, ?_, by simp [Expr.typeOf, typed, typed']⟩
    simp only [Expr.judge, judged, judged']
    rfl
  | assign m op a b =>
    obtain ⟨f, judged, typed⟩ := h.part (parts a (by simp [Expr.parts]))
    obtain ⟨g, judged', _⟩ := h.part (parts b (by simp [Expr.parts]))
    refine ⟨f.ty, ?_, typed⟩
    simp only [Expr.judge, judged, judged']
    rfl
  | cond m a b c =>
    obtain ⟨f, judged, _⟩ := h.part (parts a (by simp [Expr.parts]))
    obtain ⟨g, judged', typed⟩ := h.part (parts b (by simp [Expr.parts]))
    obtain ⟨k, judged'', _⟩ := h.part (parts c (by simp [Expr.parts]))
    refine ⟨g.ty, ?_, typed⟩
    simp only [Expr.judge, judged, judged', judged'']
    rfl
  | index m a b =>
    obtain ⟨f, judged, typed⟩ := h.part (parts a (by simp [Expr.parts]))
    obtain ⟨g, judged', _⟩ := h.part (parts b (by simp [Expr.parts]))
    refine ⟨f.ty.indexed, ?_, congrArg Ty.indexed typed⟩
    simp only [Expr.judge, judged, judged']
    rfl
  | seq m es =>
    obtain ⟨fs, judged, types⟩ := h.parts es parts
    simp only [Expr.judge, judged]
    refine ⟨_, rfl, ?_⟩
    have last : es.getLast?.map (ctx.typeOf ·.id) = fs.getLast?.map (·.ty) := by
      rw [← List.getLast?_map, types, List.getLast?_map]
    calc es.getLast?.elim .error (ctx.typeOf ·.id)
        = (es.getLast?.map (ctx.typeOf ·.id)).elim .error id := by rw [Option.elim_map]; rfl
      _ = (fs.getLast?.map (·.ty)).elim .error id := by rw [last]
      _ = fs.getLast?.elim .error (·.ty) := by rw [Option.elim_map]; rfl
  | aggregate m es =>
    obtain ⟨fs, judged, _⟩ := h.parts es parts
    simp only [Expr.judge, judged]
    refine ⟨_, rfl, ?_⟩
    -- What a declaration gives to an initializer is not written by expressions.
    have kept : (ctx.annotations.ofNode m.id).aggregate = (s.annotations.ofNode m.id).aggregate :=
      h.changes.agree (n := .aggregate) fun mem => (Expr.slot_of_mem_footprint mem).2 rfl
    simp [Expr.typeOf, kept]

/-- What has to be known of an expression before it is typed is found out, and its type is then
the one that is found for it. -/
theorem prepare_judged (h : Progress env s done ctx) (e : Expr) (parts : ∀ p ∈ e.parts, p ∈ done)
    (fresh : ∀ id ∈ e.anchors, id ∉ done.map Expr.id) (blank : s.Unannotated e.id) :
    EndsAs (e.judge env s)
      (fun f between => f.DueAt (e.typeOf env between).value between e.id)
      (prepare env e ctx) := by
  have untyped : ctx.Untyped e.id := h.untyped (fresh _ e.id_mem_anchors) blank
  have apart : ∀ p ∈ e.parts, e.id ≠ p.id := by
    intro p part same
    exact fresh _ e.id_mem_anchors (same ▸ List.mem_map_of_mem (parts p part))
  cases e with
  | ident m name => exact resolveIdentifier_judged h m name untyped
  | field m a name =>
    obtain ⟨f, judged, typed⟩ := h.part (parts a (by simp [Expr.parts]))
    have classified :=
      classifySelection_judged env.options name false (apart a (by simp [Expr.parts])) untyped
    rw [typed] at classified
    simp only [Expr.judge, judged]
    exact classified
  | method m a name args =>
    obtain ⟨f, judged, typed⟩ := h.part (parts a (by simp [Expr.parts]))
    obtain ⟨fs, judged', _⟩ := h.parts args fun p mem => parts p (by simp [Expr.parts, mem])
    have classified :=
      classifySelection_judged env.options name true (apart a (by simp [Expr.parts])) untyped
    rw [typed] at classified
    simp only [Expr.judge, judged, judged']
    exact classified
  | call m name args => exact classifyCall_judged h m name parts untyped
  | construct m type args =>
    refine construct_judged h m parts (fun d mem => ?_) untyped
    exact fresh _ (List.mem_append_left _ (List.mem_map_of_mem mem))
  | _ =>
    obtain ⟨ty, judged, typed⟩ := plain_judged h parts trivial
    exact ⟨_, judged, untyped.due typed⟩

/-- What is done at an expression once its type can be told. -/
def Expr.settle (env : Env) (e : Expr) : AnalysisM Unit := do
  e.noteType env
  Update.leave (.expr e)

theorem finishExpr_eq_settle (env : Env) (e : Expr) :
    finishExpr env e = (do prepare env e; e.settle env) := by
  simp only [finishExpr_eq, checkExpr_eq, Expr.settle, bind_assoc]

theorem Expr.succeeds_settle (env : Env) (e : Expr) (ctx : Context) :
    ∃ after, e.settle env ctx = .ok () after := by
  obtain ⟨_, between, noted⟩ := e.succeeds_noteType env ctx
  exact ⟨_, AnalysisM.run_bind_of_ok noted _⟩

theorem Expr.confined_settle (env : Env) (e : Expr) :
    Confined [.diagnostics, .slot e.id .ty, .access, .slot e.id .effects] (e.settle env) :=
  .bind ((e.confined_noteType env).mono (by simp)) fun _ =>
    .lift ((Update.confined_leave (.expr e)).mono (by simp [Node.id, Node.mark, Expr.id]))

/-- The type of an expression is noted in the end. -/
theorem Expr.type_of_settle {e : Expr} {after : Context} (run : e.settle env ctx = .ok () after) :
    (after.annotations.ofNode e.id).ty = some (e.typeOf env ctx).value := by
  obtain ⟨_, between, noted, left⟩ := AnalysisM.run_bind_ok run
  have leaving := Update.confined_leave (.expr e) between
  cases left
  exact (leaving.agree (n := .ty) (by simp)).trans (type_of_noteType noted)

/-- Nothing else is noted at an expression then but its effects. -/
theorem Expr.agree_of_settle {e : Expr} {after : Context} (run : e.settle env ctx = .ok () after)
    {n : SlotName} (other : n ≠ .ty ∧ n ≠ .effects) :
    n.Agree (ctx.annotations.ofNode e.id) (after.annotations.ofNode e.id) := by
  have changes := e.confined_settle env ctx
  rw [run] at changes
  exact changes.agree (by simp [other])

/-- What has been found for an expression is noted in the end. -/
theorem Finding.DueAt.settle {f : Finding} {e : Expr} {after : Context}
    (h : f.DueAt (e.typeOf env ctx).value ctx e.id) (run : e.settle env ctx = .ok () after) :
    f.NotedAt after e.id := by
  constructor
  · rw [← h.ty]
    exact Expr.type_of_settle run
  · exact (Expr.agree_of_settle run (n := .selection) (by decide)).trans h.selection
  · exact (Expr.agree_of_settle run (n := .builtin) (by decide)).trans h.builtin

/-- A finding stays noted while other expressions are visited. -/
theorem Finding.NotedAt.keep {f : Finding} {es : List Expr} {after : Context} {id : NodeId}
    (h : f.NotedAt ctx id) (changes : Changes (Expr.footprint es) ctx after)
    (elsewhere : id ∉ es.map Expr.id) : f.NotedAt after id := by
  have agree : ∀ n : SlotName, n.Agree (ctx.annotations.ofNode id) (after.annotations.ofNode id) :=
    fun n => changes.agree fun mem => elsewhere (Expr.slot_of_mem_footprint mem).1
  constructor
  · exact (agree .ty).trans h.ty
  · exact (agree .selection).trans h.selection
  · exact (agree .builtin).trans h.builtin

/-- An expression that is finished after its parts fails as typing does, or gets what typing finds
for it. -/
theorem Progress.finish (h : Progress env s done ctx) (e : Expr) (parts : ∀ p ∈ e.parts, p ∈ done)
    (fresh : ∀ id ∈ e.anchors, id ∉ done.map Expr.id) (blank : s.Unannotated e.id) :
    EndsAs (e.judge env s) (fun _ after => Progress env s (done ++ [e]) after)
      (finishExpr env e ctx) := by
  have prepared := prepare_judged h e parts fresh blank
  rw [finishExpr_eq_settle]
  cases outcome : prepare env e ctx with
  | error fatal failed =>
    rw [outcome] at prepared
    rw [AnalysisM.run_bind_of_error outcome]
    exact prepared
  | ok u between =>
    rw [outcome] at prepared
    obtain ⟨f, judged, due⟩ := prepared
    obtain ⟨after, settled⟩ := e.succeeds_settle env between
    have finished : finishExpr env e ctx = .ok () after := by
      rw [finishExpr_eq_settle, AnalysisM.run_bind_of_ok outcome, settled]
    have changes : Changes (Expr.footprint [e]) ctx after := by
      have performed : perform env e.own .void ctx = .ok .void after := by
        rw [perform_own, AnalysisM.run_bind_of_ok finished]
        rfl
      simpa [Expr.footprint] using changes_of_perform performed
    rw [AnalysisM.run_bind_of_ok outcome, settled]
    refine ⟨f, judged, ?_⟩
    constructor
    · rw [Expr.footprint_append]
      exact (h.changes.mono (by simp)).trans (changes.mono (by simp))
    · intro p mem
      rcases List.mem_append.mp mem with before | last
      · obtain ⟨g, found, noted⟩ := h.noted p before
        refine ⟨g, found, noted.keep changes ?_⟩
        intro same
        obtain ⟨q, here, again⟩ := List.mem_map.mp same
        rw [List.mem_singleton.mp here] at again
        exact fresh _ e.id_mem_anchors (again ▸ List.mem_map_of_mem before)
      · rw [List.mem_singleton.mp last]
        exact ⟨f, judged, due.settle settled⟩

/-! ### Whole expressions -/

/-- A visit to an expression, after other expressions, ends as its typing does, with what typing
finds for each expression inside it. -/
def Expr.TypedByVisit (env : Env) (s : Context) (e : Expr) : Prop :=
  ∀ {done : List Expr} {ctx : Context}, Progress env s done ctx → (∀ q ∈ done, q.id ∉ e.ids) →
    EndsAs (e.judge env s) (fun _ after => Progress env s (done ++ e.postorder) after)
      (visitExpr env e ctx)

/-- Expressions in order, of which each is visited after those before it. -/
theorem Progress.visits (h : Progress env s done ctx) {es : List Expr}
    (each : ∀ p ∈ es, p.TypedByVisit env s) (distinct : (es.flatMap Expr.ids).Nodup)
    (fresh : ∀ q ∈ done, q.id ∉ es.flatMap Expr.ids) :
    EndsAs (Expr.judges env s es)
      (fun _ after => Progress env s (done ++ es.flatMap Expr.postorder) after)
      (visitExprs env es ctx) := by
  induction es generalizing done ctx with
  | nil => exact ⟨[], rfl, by simpa using h⟩
  | cons p ps ih =>
    rw [List.flatMap_cons] at distinct fresh
    have first := each p (by simp) h fun q before inside =>
      fresh q before (List.mem_append_left _ inside)
    simp only [Expr.judges, visitExprs]
    refine first.bind fun f between progress => ?_
    have others := ih progress (fun q mem => each q (by simp [mem])) distinct.of_append_right ?_
    · refine others.map fun fs after progress' => ?_
      rwa [List.append_assoc] at progress'
    · intro q mem inside
      rcases List.mem_append.mp mem with before | earlier
      · exact fresh q before (List.mem_append_right _ inside)
      · exact List.disjoint_of_nodup_append distinct
          (Expr.id_mem_ids_of_mem_postorder earlier) inside

theorem Expr.typedByVisit (e : Expr) (distinct : e.ids.Nodup)
    (blank : ∀ p ∈ e.postorder, s.Unannotated p.id) : e.TypedByVisit env s := by
  induction e using Expr.byParts with
  | step e ih =>
    rw [Expr.postorder_eq] at blank
    have each : ∀ p ∈ e.parts, p.TypedByVisit env s := by
      intro p part
      refine ih p part ((List.nodup_flatMap.mp (Expr.nodup_parts distinct)).1 p part) ?_
      intro q inside
      exact blank q (List.mem_append_left _ (List.mem_flatMap.mpr ⟨p, part, inside⟩))
    intro done ctx h fresh
    have parts := h.visits each (Expr.nodup_parts distinct)
      fun q mem inside => fresh q mem (Expr.mem_ids_of_mem_parts inside)
    rw [visitExpr_eq, ← Expr.judge_parts]
    refine parts.bind fun fs between progress => ?_
    have finished := progress.finish e ?_ ?_ (blank e (by simp))
    · rw [Expr.postorder_eq, ← List.append_assoc]
      exact finished
    · intro p part
      exact List.mem_append_right _ (List.mem_flatMap.mpr ⟨p, part, p.mem_postorder_self⟩)
    · intro id anchor mem
      rw [List.map_append] at mem
      rcases List.mem_append.mp mem with before | within
      · obtain ⟨p, visited, same⟩ := List.mem_map.mp before
        exact fresh p visited (same ▸ Expr.mem_ids_of_mem_anchors anchor)
      · obtain ⟨q, visited, same⟩ := List.mem_map.mp within
        obtain ⟨p, part, deeper⟩ := List.mem_flatMap.mp visited
        exact Expr.not_mem_parts_of_mem_anchors distinct anchor
          (List.mem_flatMap.mpr ⟨p, part, same ▸ Expr.id_mem_ids_of_mem_postorder deeper⟩)

end

/-- Visiting an expression with nodes of its own types it as the function does: it fails exactly
where the function fails, with the same fatal condition, and otherwise what the function finds for
each expression inside it is noted at its node. -/
theorem typing_compositional {env : Env} {s : Context} {e : Expr} (distinct : e.ids.Nodup)
    (blank : ∀ p ∈ e.postorder, s.Unannotated p.id) :
    ((∃ f, e.judge env s = .ok f) ↔ ∃ after, visitExpr env e s = .ok () after) ∧
    (∀ fatal, e.judge env s = .error fatal ↔
      ∃ failed, visitExpr env e s = .error fatal failed) ∧
    ∀ after, visitExpr env e s = .ok () after →
      ∀ p ∈ e.postorder, ∃ f, p.judge env s = .ok f ∧ f.NotedAt after p.id := by
  have ends := e.typedByVisit distinct blank (Progress.refl env s) (by simp)
  refine ⟨ends.ok_iff, ends.error_iff, ?_⟩
  intro after run p mem
  rw [run] at ends
  obtain ⟨_, _, progress⟩ := ends
  exact progress.noted p (by simpa using mem)

/-- The product `gl_FragCoord * gl_FragDepth`. -/
def Sample.scaled : Expr :=
  .binary (mark 2) .mul (.ident (mark 0) "gl_FragCoord") (.ident (mark 1) "gl_FragDepth")

/-- The expression `(gl_FragCoord * gl_FragDepth).xy`. -/
def Sample.swizzled : Expr :=
  .field (mark 3) scaled "xy"

theorem typing_compositional_swizzled :
    ∃ after, visitExpr (.standard {}) Sample.swizzled (.initial {}) = .ok () after ∧
      Finding.NotedAt { ty := .vector .float 4 } after ⟨2⟩ ∧
      Finding.NotedAt { ty := .vector .float 2, selection := some .swizzle } after ⟨3⟩ := by
  have blank : ∀ p ∈ Sample.swizzled.postorder, (Context.initial {}).Unannotated p.id := by
    intro p _
    rw [Context.Unannotated, Context.annotations_initial]
    rfl
  have product : Sample.scaled.judge (.standard {}) (.initial {})
      = .ok { ty := .vector .float 4 } := rfl
  have swizzle : Sample.swizzled.judge (.standard {}) (.initial {})
      = .ok { ty := .vector .float 2, selection := some .swizzle } := rfl
  obtain ⟨succeeds, _, noted⟩ :=
    @typing_compositional (.standard {}) (.initial {}) Sample.swizzled (by decide) blank
  obtain ⟨after, run⟩ := succeeds.mp ⟨_, swizzle⟩
  obtain ⟨f, foundProduct, atProduct⟩ := noted after run Sample.scaled
    (by simp [Sample.swizzled, Sample.scaled, Expr.postorder])
  obtain ⟨g, foundSwizzle, atSwizzle⟩ := noted after run Sample.swizzled
    Sample.swizzled.mem_postorder_self
  cases product.symm.trans foundProduct
  cases swizzle.symm.trans foundSwizzle
  exact ⟨after, run, atProduct, atSwizzle⟩

end ShaderAnalysis
