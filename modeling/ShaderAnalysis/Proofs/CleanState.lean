import ShaderAnalysis.Proofs.CleanTypes
import ShaderAnalysis.Proofs.Footprint
import ShaderAnalysis.Proofs.Order

/-!
States in which all types are clean. Updates keep them so as long as no error is reported: a type
that did not resolve is never stored or noted anywhere without a report, except at expressions.
-/

namespace ShaderAnalysis

/-- The types that a state holds are clean: those of variables, of names, of the results of
functions, and those noted at nodes. And the variables that nodes are linked to exist. -/
structure Context.Clean (ctx : Context) : Prop where
  vars : ∀ id v, ctx.vars.get? id = some v → v.ty.clean = true
  names : ∀ f ∈ ctx.scopes.frames, ∀ name ty, f.types.get? name = some ty → ty.clean = true
  functions : ∀ name, ∀ s ∈ ctx.functions.ofName name, s.returns.clean = true
  types : ∀ id ty, (ctx.annotations.ofNode id).ty = some ty → ty.clean = true
  aggregates : ∀ id ty, (ctx.annotations.ofNode id).aggregate = some ty → ty.clean = true
  linked : ∀ id v, (ctx.annotations.ofNode id).var = some v → v.index < ctx.vars.size

/-- A change that puts clean types into a state only. -/
def Change.Clean (ctx : Context) : Change → Prop
  | .allocate v => v.ty.clean = true
  | .alter id f => ∀ v, ctx.vars.get? id = some v → v.ty.clean = true → (f v).ty.clean = true
  | .bindType _ ty => ty.clean = true
  | .addFunction s => s.returns.clean = true
  | .annotate _ (.ty t) | .annotate _ (.aggregate t) => t.clean = true
  | .annotate _ (.var id) => id.index < ctx.vars.size
  | _ => True

/-- A change that puts no types into a state. -/
def Touch.Inert : Touch → Prop
  | .allocation | .variables | .types | .functions | .slot _ .ty | .slot _ .aggregate => False
  | _ => True

theorem Change.clean_of_inert {ctx : Context} {c : Change} (inert : c.touch.Inert)
    (possible : c.Possible ctx) : c.Clean ctx := by
  cases c with
  | annotate node slot =>
    cases slot with
    | ty | aggregate => exact absurd inert id
    | var v => exact possible
    | _ => trivial
  | allocate | alter | bindType | addFunction => exact absurd inert id
  | _ => trivial

namespace Context.Clean

variable {ctx : Context}

theorem vars_change (h : ctx.Clean) {c : Change} (clean : c.Clean ctx) {id : VarId}
    {v : Variable} (found : (c.apply ctx).vars.get? id = some v) : v.ty.clean = true := by
  cases c with
  | allocate u =>
    rcases Variables.get?_push_cases found with rfl | old
    · exact clean
    · exact h.vars id v old
  | alter i f =>
    rw [Change.apply, Variables.get?_modify] at found
    split at found
    · rename_i same
      subst same
      obtain ⟨u, stored, rfl⟩ := Option.map_eq_some_iff.mp found
      exact clean u stored (h.vars i u stored)
    · exact h.vars id v found
  | access i k =>
    rw [Change.apply, Variables.get?_modify] at found
    split at found
    · rename_i same
      subst same
      obtain ⟨u, stored, rfl⟩ := Option.map_eq_some_iff.mp found
      exact h.vars i u stored
    · exact h.vars id v found
  | _ => exact h.vars id v found

theorem functions_change (h : ctx.Clean) {c : Change} (clean : c.Clean ctx) {name : String}
    {s : Signature} (mem : s ∈ (c.apply ctx).functions.ofName name) :
    s.returns.clean = true := by
  cases c with
  | addFunction t =>
    rw [Change.apply, Overloads.ofName_declare] at mem
    split at mem
    · rcases List.mem_append.mp mem with old | new
      · exact h.functions name s old
      · rw [List.mem_singleton.mp new]
        exact clean
    · exact h.functions name s mem
  | _ => exact h.functions name s mem

theorem change (h : ctx.Clean) {c : Change} (clean : c.Clean ctx) : (c.apply ctx).Clean := by
  constructor
  case vars => exact fun id v found => h.vars_change clean found
  case functions => exact fun name s mem => h.functions_change clean mem
  case names =>
    intro f mem name ty bound
    rcases Change.bound_types mem bound with ⟨g, old, same⟩ | rfl
    · exact h.names g old name ty same
    · exact clean
  case types =>
    intro id ty noted
    rcases c.ofNode_apply ctx id with ⟨slot, rfl, written⟩ | same
    · rw [written] at noted
      cases slot with
      | ty t =>
        cases noted
        exact clean
      | _ => exact h.types id ty noted
    · rw [same] at noted
      exact h.types id ty noted
  case aggregates =>
    intro id ty noted
    rcases c.ofNode_apply ctx id with ⟨slot, rfl, written⟩ | same
    · rw [written] at noted
      cases slot with
      | aggregate t =>
        cases noted
        exact clean
      | _ => exact h.aggregates id ty noted
    · rw [same] at noted
      exact h.aggregates id ty noted
  case linked =>
    intro id v noted
    refine Nat.lt_of_lt_of_le ?_ (c.vars_size_le ctx)
    rcases c.ofNode_apply ctx id with ⟨slot, rfl, written⟩ | same
    · rw [written] at noted
      cases slot with
      | var w =>
        cases noted
        exact clean
      | _ => exact h.linked id v noted
    · rw [same] at noted
      exact h.linked id v noted

/-- Builtin variables have clean types. -/
theorem initial (o : Options) : (Context.initial o).Clean := by
  have builtins : (Builtin.stageVariables o.stage).all (·.ty.clean) = true := by
    cases o.stage <;> rfl
  constructor
  case vars =>
    intro id v stored
    exact List.all_eq_true.mp builtins v (mem_stageVariables_of_initial stored)
  case names =>
    intro f mem name ty bound
    simp [types_initial mem] at bound
  all_goals rw [initial_eq]
  case functions => simp [Overloads.ofName]
  case types => simp [Annotations.ofNode]
  case aggregates => simp [Annotations.ofNode]
  case linked => simp [Annotations.ofNode]

theorem of_findType? (h : ctx.Clean) {name : String} {ty : Ty}
    (found : ctx.scopes.findType? name = some ty) : ty.clean = true := by
  obtain ⟨f, mem, bound⟩ := List.exists_of_findSome?_eq_some found
  exact h.names f mem name ty bound

/-- The type of a node that has one. -/
theorem of_typed (h : ctx.Clean) {id : NodeId}
    (typed : (ctx.annotations.ofNode id).ty.isSome) : (ctx.typeOf id).clean = true := by
  obtain ⟨ty, noted⟩ := Option.isSome_iff_exists.mp typed
  rw [Context.typeOf, noted]
  exact h.types id ty noted

end Context.Clean

/-! ### Reading a clean state -/

/-- The struct definitions of a type have been bound. -/
def TypeSpec.Known (ctx : Context) (t : TypeSpec) : Prop :=
  ∀ s ∈ t.structs, (ctx.annotations.ofNode s.mark.id).ty.isSome

section

variable {o : Options} {ctx : Context}

theorem TypeSpec.resolve_sound (h : ctx.Clean) {t : TypeSpec} (known : t.Known ctx) (span : Span) :
    (t.resolve o ctx span).Sound fun ty => ty.clean = true := by
  refine .bind ?_ fun base clean => Ty.withDimensions_sound .clean o clean _ _
  obtain ⟨head, dims⟩ := t
  cases head with
  | named name =>
    simp only [TypeHead.resolve]
    cases found : (Ty.ofName? name).or (ctx.scopes.findType? name) with
    | none => exact .reject rfl
    | some ty =>
      rcases Option.or_eq_some_iff.mp found with builtin | ⟨_, declared⟩
      · exact .pure (Ty.clean_ofName? builtin)
      · exact .pure (h.of_findType? declared)
  | struct s => exact .pure (h.of_typed (known s (by simp [structs])))

theorem StructSpec.body_sound (h : ctx.Clean) {s : StructSpec}
    (known : ∀ l ∈ s.members, l.type.Known ctx) :
    (s.body o ctx).Sound fun r => r.clean = true := by
  have fields : ∀ name kind, (do
      let fields ← DeclList.fields o ctx {} s.members
      return { name := name, kind := kind, fields := fields } : Reported Record).Sound
        fun r => r.clean = true := fun name kind =>
    (DeclList.fields_sound .clean o {} fun l mem => TypeSpec.resolve_sound h (known l mem) _).bind
      fun fs cleans => .pure (Record.clean_iff.mpr cleans)
  unfold body
  split
  · exact .after fun _ => fields _ _
  · exact fields _ _

theorem BlockDecl.body_sound (h : ctx.Clean) {b : BlockDecl}
    (known : ∀ l ∈ b.members, l.type.Known ctx) (storage : Storage) (span : Span) :
    (b.body o ctx storage span).Sound fun r => r.clean = true := by
  have fields : ∀ (place : MemberContext) name kind, (do
      let fields ← DeclList.fields o ctx place b.members
      return { name := name, kind := kind, fields := fields } : Reported Record).Sound
        fun r => r.clean = true := fun place name kind =>
    (DeclList.fields_sound .clean o place fun l mem =>
      TypeSpec.resolve_sound h (known l mem) _).bind
        fun fs cleans => .pure (Record.clean_iff.mpr cleans)
  unfold body
  split
  · exact .after fun _ => fields _ _ _
  · exact fields _ _ _

theorem Parameter.declaredType_sound (h : ctx.Clean) {p : Parameter} (known : p.type.Known ctx) :
    (p.declaredType o ctx).Sound fun ty => ty.clean = true := by
  refine (TypeSpec.resolve_sound h known _).bind ?_
  intro base clean
  refine (Ty.withDimensions_sound .clean o clean _ _).bind ?_
  intro ty clean
  split
  · exact .reject rfl
  · exact .pure clean

end

end ShaderAnalysis
