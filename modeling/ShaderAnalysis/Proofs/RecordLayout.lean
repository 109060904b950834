import ShaderAnalysis.Proofs.Evolution
import ShaderAnalysis.Proofs.FatalConditions
import ShaderAnalysis.Proofs.WrittenTypes

/-!
How records come from their members. The fields of a struct or a block, the entries of a struct's
fields and the nodes of its members are three lists that are got from the member lists in different
ways. They line up name by name, in the order of the source, however the names are grouped and
whatever is wrong with some of them (`record_layout`).
-/

namespace ShaderAnalysis

open Analysis

/-! ### Members -/

/-- The names of member lists, each with the list it stands in. -/
def DeclList.members (lists : List DeclList) : List (DeclList × Declarator) :=
  lists.flatMap fun l => l.names.map (l, ·)

theorem DeclList.map_snd_members (lists : List DeclList) :
    (members lists).map (·.2) = declarators lists := by
  simp [members, declarators, List.map_flatMap, Function.comp_def]

/-- A field is what a name of a member list says, given the type of the list: of the name's own
dimensions, with the error type in the place of `void`, and with the qualifiers of the list. The
matrix order is that of the record, unless the field consists of matrices and its qualifiers name
exactly one order. -/
structure Field.Declares (o : Options) (rowMajor : Bool) (l : DeclList) (base : Ty) (d : Declarator)
    (f : Field) : Prop where
  name : f.name = d.name
  ty : f.ty = if (base.withDimensions o d.dimList d.mark.span).value.isVoid then .error
    else (base.withDimensions o d.dimList d.mark.span).value
  location : f.layout.location = l.qualifiers.location.getD (-1)
  interpolation : f.layout.interpolation = l.qualifiers.interpolation
  centroid : f.layout.centroid = l.qualifiers.centroid
  sample : f.layout.sample = l.qualifiers.sample
  rowMajor : f.layout.rowMajor =
    if f.ty.isMatrixOrMatrixArray = true ∧ l.qualifiers.rowMajor ≠ l.qualifiers.columnMajor then
      l.qualifiers.rowMajor
    else rowMajor

/-- Fields are what the names of member lists say, one by one. The type of a list is the same for
all its names. -/
def DeclList.LaysOut (o : Options) (ctx : Context) (rowMajor : Bool) (lists : List DeclList) :
    List Field → Prop :=
  List.Forall₂
    (fun (l, d) f => f.Declares o rowMajor l (l.type.resolve o ctx l.typeSpan).value d)
    (members lists)

/-- What is reported of a member list: of its type once, then of each name. -/
def DeclList.reports (o : Options) (ctx : Context) (place : MemberContext) (l : DeclList) :
    List Diagnostic :=
  let base := l.type.resolve o ctx l.typeSpan
  base.problems ++ l.names.flatMap fun d => (d.field o place l.qualifiers base.value).problems

theorem Qualifiers.rowMajorFor_eq (q : Qualifiers) (ty : Ty) (rowMajor : Bool) :
    q.rowMajorFor ty rowMajor =
      if ty.isMatrixOrMatrixArray = true ∧ q.rowMajor ≠ q.columnMajor then q.rowMajor
      else rowMajor := by
  unfold rowMajorFor
  cases ty.isMatrixOrMatrixArray <;> cases q.rowMajor <;> cases q.columnMajor <;> rfl

section

variable {o : Options}

theorem Declarator.layout_field (place : MemberContext) (q : Qualifiers) (base : Ty)
    (d : Declarator) : (d.field o place q base).value.layout =
      { location := q.location.getD (-1), interpolation := q.interpolation
        centroid := q.centroid, sample := q.sample
        rowMajor := q.rowMajorFor (d.field o place q base).value.ty place.rowMajor } := by
  simp only [field, Reported.value_bind]
  cases (base.withDimensions o d.dimList d.mark.span).value.isVoid <;> cases place.storage <;> rfl

theorem Declarator.declares_field (place : MemberContext) (l : DeclList) (base : Ty)
    (d : Declarator) :
    (d.field o place l.qualifiers base).value.Declares o place.rowMajor l base d := by
  have layout := d.layout_field place l.qualifiers base (o := o)
  constructor
  case name => exact d.name_field o place l.qualifiers base
  case ty => exact d.ty_field place l.qualifiers base
  case rowMajor =>
    rw [← Qualifiers.rowMajorFor_eq]
    exact congrArg (·.rowMajor) layout
  all_goals rw [layout]

theorem Declarator.fields_eq (place : MemberContext) (q : Qualifiers) (base : Ty)
    (ds : List Declarator) :
    (fields o place q base ds).value = ds.map (fun d => (d.field o place q base).value) ∧
      (fields o place q base ds).problems
        = ds.flatMap fun d => (d.field o place q base).problems := by
  induction ds with
  | nil => exact ⟨rfl, rfl⟩
  | cons d ds ih =>
    obtain ⟨value, problems⟩ := ih
    simp [fields, value, problems]

theorem DeclList.laysOut_fields (ctx : Context) (place : MemberContext) (lists : List DeclList) :
    LaysOut o ctx place.rowMajor lists (fields o ctx place lists).value := by
  induction lists with
  | nil => exact .nil
  | cons l ls ih =>
    have here : (Declarator.fields o place l.qualifiers (l.type.resolve o ctx l.typeSpan).value
        l.names).value = _ := (Declarator.fields_eq place l.qualifiers _ l.names).1
    simp only [LaysOut, members, fields, Reported.value_bind, Reported.value_pure,
      List.flatMap_cons, here]
    refine List.rel_append ?_ ih
    rw [List.forall₂_map_left_iff, List.forall₂_map_right_iff, List.forall₂_same]
    intro d _
    exact d.declares_field place l _

theorem DeclList.problems_fields (ctx : Context) (place : MemberContext) (lists : List DeclList) :
    (fields o ctx place lists).problems = lists.flatMap (reports o ctx place) := by
  induction lists with
  | nil => rfl
  | cons l ls ih =>
    simp [fields, reports, ih, (Declarator.fields_eq place l.qualifiers _ l.names).2]

end

/-! ### Nodes of members -/

namespace Update

theorem linkMembers_eq (ds : List Declarator) (ids : List ReflectionId) (ctx : Context) :
    (linkMembers ds ids ctx).2 =
      { ctx with annotations := (linkMembers ds ids ctx).2.annotations } := by
  induction ds generalizing ids ctx with
  | nil => rfl
  | cons d ds ih =>
    cases ids with
    | nil => rfl
    | cons id ids => exact ih ids _

/-- Members with different nodes are linked to entries one by one. -/
theorem forall₂_linkMembers {ds : List Declarator} {ids : List ReflectionId}
    (once : (ds.map (·.mark.id)).Nodup) (same : ds.length = ids.length) (ctx : Context) :
    List.Forall₂ (fun d id =>
      ((linkMembers ds ids ctx).2.annotations.ofNode d.mark.id).reflection = some id) ds ids := by
  induction ds generalizing ids ctx with
  | nil =>
    cases ids with
    | nil => exact .nil
    | cons id ids => cases same
  | cons d ds ih =>
    cases ids with
    | nil => cases same
    | cons id ids =>
      obtain ⟨apart, once⟩ := List.nodup_cons.mp once
      let linked := (Change.annotate d.mark.id (.reflection id)).apply ctx
      have others : .slot d.mark.id .reflection
          ∉ ds.map fun d => Touch.slot d.mark.id .reflection := by
        intro mem
        obtain ⟨e, inside, equal⟩ := List.mem_map.mp mem
        obtain ⟨here, _⟩ := Touch.slot.inj equal
        exact apart (List.mem_map.mpr ⟨e, inside, here⟩)
      have kept : ((linkMembers ds ids linked).2.annotations.ofNode d.mark.id).reflection
          = (linked.annotations.ofNode d.mark.id).reflection :=
        (confined_linkMembers ds ids linked).agree others
      have own : (linked.annotations.ofNode d.mark.id).reflection = some id := by
        simp [linked, Change.apply, Annotations.ofNode_update, Slot.write]
      exact .cons (kept.trans own) (ih once (Nat.succ.inj same) linked)

end Update

/-! ### Bodies -/

section

variable {o : Options} {ctx : Context}

theorem StructSpec.body_eq (s : StructSpec) : s.body o ctx =
    { value :=
        { name := s.name, kind := .struct, fields := (DeclList.fields o ctx {} s.members).value }
      problems := (if s.name.isEmpty then [] else (checkName s.name s.mark.span).problems)
        ++ s.members.flatMap (DeclList.reports o ctx {}) } := by
  rw [← DeclList.problems_fields]
  unfold body
  cases s.name.isEmpty <;> ext1 <;> simp

theorem BlockDecl.body_eq (b : BlockDecl) (storage : Storage) (span : Span) :
    b.body o ctx storage span =
      let place : MemberContext := { rowMajor := b.qualifiers.rowMajor, storage := some storage }
      { value :=
          { name := b.name, kind := .block
            fields := (DeclList.fields o ctx place b.members).value }
        problems :=
          (if b.qualifiers.conflictingMatrixLayout then [⟨span, .matrixLayoutConflict⟩] else [])
            ++ b.members.flatMap (DeclList.reports o ctx place) } := by
  simp only [← DeclList.problems_fields]
  unfold body
  cases b.qualifiers.conflictingMatrixLayout <;> ext1 <;> simp

end

/-! ### Bindings -/

/-- A struct definition has been bound as a record. Its fields are what its members say, its entry
has one child for each of them, and each member's node is linked to its own. -/
structure StructSpec.BoundAs (o : Options) (ctx : Context) (s : StructSpec) (body : Record)
    (after : Context) : Prop where
  name : body.name = s.name
  kind : body.kind = .struct
  fields : DeclList.LaysOut o ctx false s.members body.fields
  reports : ctx.diagnostics
    ++ ((if s.name.isEmpty then [] else (checkName s.name s.mark.span).problems)
      ++ s.members.flatMap (DeclList.reports o ctx {})) <+: after.diagnostics
  typed : (after.annotations.ofNode s.mark.id).ty = some (.record body)
  entry : ∃ id e, (after.annotations.ofNode s.mark.id).reflection = some id ∧
    after.reflection.get? id = some e ∧ e.name = s.name ∧ e.ty = .record body ∧
    e.fields.Nodup ∧ after.reflection.Mirrors .temporary {} body.fields e.fields ∧
    List.Forall₂ (fun d child => (after.annotations.ofNode d.mark.id).reflection = some child)
      (DeclList.declarators s.members) e.fields

/-- An interface block has been bound, with its record behind those of earlier blocks. -/
structure BlockDecl.BoundAs (o : Options) (ctx : Context) (m : Mark) (b : BlockDecl)
    (storage : Storage) (body : Record) (after : Context) : Prop where
  name : body.name = b.name
  kind : body.kind = .block
  fields : DeclList.LaysOut o ctx b.qualifiers.rowMajor b.members body.fields
  reports : ctx.diagnostics
    ++ ((if b.qualifiers.conflictingMatrixLayout then [⟨m.span, .matrixLayoutConflict⟩] else [])
      ++ b.members.flatMap (DeclList.reports o ctx
        { rowMajor := b.qualifiers.rowMajor, storage := some storage })) <+: after.diagnostics
  listed : after.blocks = ctx.blocks ++ [body]

theorem StructSpec.nodup_members {s : StructSpec} (distinct : s.ids.Nodup) :
    (s.mark.id :: (DeclList.declarators s.members).map (·.mark.id)).Nodup := by
  obtain ⟨m, name, lists⟩ := s
  rw [List.nodup_iff_count_le_one] at distinct ⊢
  intro x
  have once := distinct x
  have members := DeclList.count_names_le lists x
  simp only [ids, List.count_append, List.count_cons, List.count_nil] at once ⊢
  omega

/-- Binding the name of a struct leaves notes and entries alone, and may report something. -/
theorem Update.declareStruct_keeps (span : Span) (body : Record) (ctx : Context) :
    (declareStruct span body ctx).2.annotations = ctx.annotations ∧
      (declareStruct span body ctx).2.reflection = ctx.reflection ∧
      ctx.diagnostics <+: (declareStruct span body ctx).2.diagnostics := by
  simp only [declareStruct, run_bind, run_get]
  cases ctx.scopes.declareType? body.name (.record body) with
  | none => exact ⟨rfl, rfl, List.prefix_append _ _⟩
  | some scopes => exact ⟨rfl, rfl, List.prefix_rfl⟩

theorem StructSpec.exists_linked {s : StructSpec} {body : Record} {id : ReflectionId}
    {ctx : Context} {e : Reflection.Entry}
    (distinct : (s.mark.id :: (DeclList.declarators s.members).map (·.mark.id)).Nodup)
    (found : ctx.reflection.get? id = some e) (children : e.fields.length = body.fields.length)
    (members : body.fields.length = (DeclList.declarators s.members).length) :
    ∃ after, s.settle body id ctx = .ok (.record body) after ∧
      after.reflection = ctx.reflection ∧ ctx.diagnostics <+: after.diagnostics ∧
      (after.annotations.ofNode s.mark.id).ty = some (.record body) ∧
      (after.annotations.ofNode s.mark.id).reflection = some id ∧
      List.Forall₂ (fun d child => (after.annotations.ofNode d.mark.id).reflection = some child)
        (DeclList.declarators s.members) e.fields := by
  obtain ⟨apart, once⟩ := List.nodup_cons.mp distinct
  let ds := DeclList.declarators s.members
  let linked := (Update.linkMembers ds e.fields ctx).2
  let noted : Context :=
    { linked with annotations := linked.annotations.update s.mark.id fun a =>
        { a with ty := some (.record body), reflection := some id } }
  have same : linked = { ctx with annotations := linked.annotations } :=
    Update.linkMembers_eq ds e.fields ctx
  obtain ⟨after, run, annotations, reflection, reported⟩ : ∃ after,
      s.settle body id ctx = .ok (.record body) after ∧ after.annotations = noted.annotations ∧
      after.reflection = noted.reflection ∧ noted.diagnostics <+: after.diagnostics := by
    refine ⟨_, settle_eq found children members, ?_⟩
    cases s.name.isEmpty with
    | true => exact ⟨rfl, rfl, List.prefix_rfl⟩
    | false => exact Update.declareStruct_keeps s.mark.span body noted
  refine ⟨after, run, ?_, ?_, ?_, ?_, ?_⟩
  · rw [reflection]
    exact congrArg (·.reflection) same
  · have kept : noted.diagnostics = ctx.diagnostics := congrArg (·.diagnostics) same
    exact kept ▸ reported
  · simp [annotations, noted, Annotations.ofNode_update]
  · simp [annotations, noted, Annotations.ofNode_update]
  · have each := Update.forall₂_linkMembers once (members.symm.trans children.symm) ctx
    have others : ∀ d ∈ ds, s.mark.id ≠ d.mark.id := by
      intro d mem same
      exact apart (List.mem_map.mpr ⟨d, mem, same.symm⟩)
    refine ((List.forall₂_and_left _ _).mpr ⟨others, each⟩).imp ?_
    rintro d child ⟨other, own⟩
    rw [annotations, Annotations.ofNode_update, if_neg other]
    exact own

theorem StructSpec.exists_boundAs (o : Options) (ctx : Context) {s : StructSpec}
    (distinct : s.ids.Nodup) :
    ∃ body after, s.bind o ctx = .ok (.record body) after ∧ s.BoundAs o ctx body after := by
  let made := s.body o ctx
  let body := made.value
  let noted := (Change.note made.problems).apply ctx
  let reflected : Context :=
    { noted with reflection := (ctx.reflection.declareStruct body).1 }
  have members := s.length_fields_body o ctx
  obtain ⟨e, found, named, shaped, once, mirrors⟩ :=
    Reflection.exists_entry_declareStruct ctx.reflection body
  have stored : reflected.reflection.get? (ctx.reflection.declareStruct body).2 = some e := found
  obtain ⟨after, run, reflection, reported, typed, entry, linked⟩ :=
    exists_linked (nodup_members distinct) stored mirrors.length_eq.symm members
  have name : body.name = s.name := by
    simp [body, made, body_eq]
  refine ⟨body, after, run, ?_⟩
  constructor
  case name => exact name
  case kind => simp [body, made, body_eq]
  case fields =>
    simp only [body, made, body_eq]
    exact DeclList.laysOut_fields ctx {} s.members
  case reports =>
    have earlier : reflected.diagnostics = ctx.diagnostics ++ made.problems := rfl
    rw [earlier] at reported
    simp only [made, body_eq] at reported
    exact reported
  case typed => exact typed
  case entry =>
    rw [reflection]
    exact ⟨_, e, entry, stored, named.trans name, shaped, once, mirrors, linked⟩

theorem BlockDecl.exists_boundAs (o : Options) (ctx : Context) (m : Mark) {b : BlockDecl}
    {storage : Storage} (legal : b.qualifiers.blockStorage? = some storage) :
    ∃ body after, b.bind o m ctx = .ok () after ∧ b.BoundAs o ctx m storage body after := by
  let made := b.body o ctx storage m.span
  let body := made.value
  let noted := (Change.note made.problems).apply ctx
  let listed := (Change.addBlock body).apply noted
  have members := b.length_fields_body o ctx storage m.span
  -- what follows is the instance or the members, which are no concern of the record
  obtain ⟨ts, after, run, changes, other⟩ : ∃ ts after, b.bind o m ctx = .ok () after ∧
      Changes ts listed after ∧ .blocks ∉ ts := by
    simp only [BlockDecl.bind, legal, AnalysisM.run_get_bind, AnalysisM.run_lift_bind,
      Update.run_noting]
    cases b.instanceName with
    | some name =>
      refine ⟨_, _, rfl, Update.confined_bindInstance o m b body storage name listed, ?_⟩
      simp [bindingTouches]
    | none =>
      simp only [members, ne_eq, not_true_eq_false, ↓reduceIte]
      refine ⟨_, _, rfl, Update.confined_bindMembers o b.qualifiers storage
        (DeclList.declarators b.members) body.fields listed, ?_⟩
      simp [bindingTouches]
  refine ⟨body, after, run, ?_⟩
  constructor
  case name => simp [body, made, body_eq]
  case kind => simp [body, made, body_eq]
  case fields =>
    simp only [body, made, body_eq]
    exact DeclList.laysOut_fields ctx { rowMajor := b.qualifiers.rowMajor, storage := some storage }
      b.members
  case reports =>
    have earlier : listed.diagnostics = ctx.diagnostics ++ made.problems := rfl
    have reported := changes.diagnostics_prefix
    rw [earlier] at reported
    simp only [made, body_eq] at reported
    exact reported
  case listed =>
    refine changes.same (·.blocks) ?_
    intro c mem between
    cases c with
    | addBlock r => exact absurd mem other
    | _ => rfl

namespace Sample

/-- The definition `struct T { float x; }`. -/
def inner : StructSpec :=
  { mark := mark 1, name := "T"
    members := [{ qualifiers := {}, type := float, invariant := false
                  names := [{ mark := mark 0, name := "x", dims := none, init := none }] }] }

/-- The members `row_major mat2 m, n[2]; struct T { float x; } t;`. -/
def matrices : List DeclList :=
  let m : Declarator := { mark := mark 2, name := "m", dims := none, init := none }
  let n : Declarator :=
    { mark := mark 4, name := "n", dims := some [.sized (.int (mark 3) 2)], init := none }
  let t : Declarator := { mark := mark 5, name := "t", dims := none, init := none }
  [{ qualifiers := { rowMajor := true }, type := ⟨.named "mat2", none⟩, invariant := false
     names := [m, n] },
    { qualifiers := {}, type := ⟨.struct inner, none⟩, invariant := false, names := [t] }]

/-- The definition of a struct with these members. -/
def outer : StructSpec :=
  { mark := mark 6, name := "S", members := matrices }

end Sample

end ShaderAnalysis
