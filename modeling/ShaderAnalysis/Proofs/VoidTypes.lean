import ShaderAnalysis.Proofs.Additions
import ShaderAnalysis.Proofs.CleanCheck
import ShaderAnalysis.Proofs.Provisions
import ShaderAnalysis.Proofs.WellFormedStates
import ShaderAnalysis.Proofs.WrittenTypes

/-!
The type `void`. No variable, no member of a record and no parameter of a function has it: a name
that is declared so is refused or stands for nothing. But the type is looked at in its dimensions
only, and so `void` in dimensions is let through. Where it comes from such a declaration, and from
nowhere else, there are arrays of `void` (`void_types`, `voidArray_declared`).
-/

namespace ShaderAnalysis

open Analysis

/-! ### Arrays of void -/

namespace Ty

variable {t t' : Ty}

theorem isVoid_withoutArray_of_isRecord (h : t.isRecord = true) :
    t.withoutArray.isVoid = false := by
  cases t with
  | record r => rfl
  | _ => cases h

theorem Resizes.withoutArray_eq (h : t.Resizes t') : t'.withoutArray = t.withoutArray := by
  cases h <;> rfl

theorem Resizes.isVoid_eq (h : t.Resizes t') : t'.isVoid = t.isVoid := by
  cases h <;> rfl

/-- A type is not `void`, and an array of it, or of such arrays, on a condition only. -/
structure VoidOnlyIf (p : Prop) (t : Ty) : Prop where
  nonvoid : t.isVoid = false
  inside : t.withoutArray.isVoid = true → p

theorem VoidOnlyIf.resizes {p : Prop} (h : t.VoidOnlyIf p) (resizes : t.Resizes t') :
    t'.VoidOnlyIf p := by
  refine ⟨resizes.isVoid_eq.trans h.nonvoid, fun void => h.inside ?_⟩
  rwa [← resizes.withoutArray_eq]

/-- Dimensions keep what they are wrapped around, unless they are refused. -/
theorem isVoid_of_withDimensions {o : Options} {dims : List Dim} {span : Span}
    (h : (t.withDimensions o dims span).value.withoutArray.isVoid = true) :
    t.withoutArray.isVoid = true :=
  withDimensions_induction
    (P := fun u => u.withoutArray.isVoid = true → t.withoutArray.isVoid = true)
    (fun void => by cases void) (fun _ _ inside _ => inside) id o dims span h

end Ty

/-! ### What is declared as void -/

/-- An action declares a name with the word `void` for its type, whatever the dimensions. -/
def Action.DeclaresVoid (name : String) : Action → Prop
  | .bindName list d => d.name = name ∧ list.type.head.isVoid = true
  | .bindParameter p => p.name = some name ∧ p.type.head.isVoid = true
  | .bindStruct s => ∃ l ∈ s.members, l.type.head.isVoid = true ∧ ∃ d ∈ l.names, d.name = name
  | .bindBlock _ b => ∃ l ∈ b.members, l.type.head.isVoid = true ∧ ∃ d ∈ l.names, d.name = name
  | _ => False

/-- A name is declared with the word `void` for its type in one of some visits. -/
def DeclaredVoid (fs : List Fragment) (name : String) : Prop :=
  ∃ f ∈ fs, ∃ a ∈ f.agenda, a.DeclaresVoid name

/-- A parameter is declared with the word `void` for its type in one of some visits. -/
def ParameterVoid (fs : List Fragment) : Prop :=
  ∃ f ∈ fs, ∃ p, .bindParameter p ∈ f.agenda ∧ p.type.head.isVoid = true

/-- In a state there is nothing of type `void`, nor of arrays of it but for what is declared so. -/
structure Context.FreeOfVoid (fs : List Fragment) (ctx : Context) : Prop where
  vars : ∀ id v, ctx.vars.get? id = some v → v.ty.VoidOnlyIf (DeclaredVoid fs v.name)
  members : ∀ r ∈ ctx.structures ++ ctx.blocks, ∀ f ∈ r.fields,
    f.ty.VoidOnlyIf (DeclaredVoid fs f.name)
  params : ∀ name, ∀ s ∈ ctx.functions.ofName name, ∀ ty ∈ s.params,
    ty.VoidOnlyIf (ParameterVoid fs)
  /-- Names of types stand for records. -/
  types : ctx.TypesDeclared

section

variable {env : Env} {fs : List Fragment} {start ctx : Context}

theorem Fragment.ComesTo.mem {a : Action} {base : Ty} (h : ComesTo env fs start a base ctx) :
    ∃ f ∈ fs, a ∈ f.agenda := by
  cases h with
  | @intro before after f done rest split agenda _ =>
    exact ⟨f, by simp [split], by simp [agenda]⟩

/-- A type is an array of `void`, or `void`, only where that is written. -/
theorem TypeSpec.isVoid_head {o : Options} {t : TypeSpec} (h : ctx.TypesDeclared)
    (bound : t.Bound ctx) {span : Span}
    (void : (t.resolve o ctx span).value.withoutArray.isVoid = true) : t.head.isVoid = true := by
  refine TypeSpec.resolve_induction (t := t)
    (P := fun ty => ty.withoutArray.isVoid = true → t.head.isVoid = true)
    (fun void => by cases void) (fun _ _ inside _ => inside) o span ?_ ?_ ?_ void
  · intro name ty head known void
    rw [Ty.withoutArray_of_plain (Ty.plain_ofName? known).1, Ty.isVoid_ofName? known] at void
    simpa [head, TypeHead.isVoid] using void
  · intro name ty known void
    rw [Ty.isVoid_withoutArray_of_isRecord (h.of_findType? known)] at void
    cases void
  · intro s mem void
    rw [Ty.isVoid_withoutArray_of_isRecord (bound s mem)] at void
    cases void

theorem Parameter.isVoid_head {o : Options} {p : Parameter} (h : ctx.TypesDeclared)
    (bound : p.type.Bound ctx) (void : (p.declaredType o ctx).value.withoutArray.isVoid = true) :
    p.type.head.isVoid = true :=
  Parameter.declaredType_induction
    (P := fun ty => ty.withoutArray.isVoid = true → p.type.head.isVoid = true)
    (fun void => by cases void) (fun _ _ inside _ => inside) o (TypeSpec.isVoid_head h bound) void

theorem Field.Written.voidOnlyIf {o : Options} {l : DeclList} {f : Field} {d : Declarator}
    {p : Prop}
    (written : f.Written o l (l.type.resolve o ctx l.typeSpan).value d) (h : ctx.TypesDeclared)
    (bound : l.type.Bound ctx) (declared : l.type.head.isVoid = true → p) : f.ty.VoidOnlyIf p := by
  refine ⟨written.nonvoid, fun void => declared ?_⟩
  rcases written.ty with refused | typed
  · rw [refused] at void
    cases void
  · rw [typed] at void
    exact TypeSpec.isVoid_head h bound (Ty.isVoid_of_withDimensions void)

namespace Context.FreeOfVoid

/-- Changes that add nothing leave types as they are, but for the lengths of variables. -/
theorem spared {t : Touch} (other : ¬ t.Grows) : t.Spares (Context.FreeOfVoid fs) := by
  rintro c rfl ctx possible h
  have types := h.types.changes (.single c (List.mem_singleton_self _) possible)
  refine ⟨?_, ?_, ?_, types⟩
  · intro id w stored
    rcases c.get?_apply possible stored with ⟨v, stored', evolves⟩ | ⟨rfl, _⟩
    · rw [evolves.name]
      exact (h.vars id v stored').resizes evolves.resizes
    · exact absurd trivial other
  · have same : (c.apply ctx).structures ++ (c.apply ctx).blocks
        = ctx.structures ++ ctx.blocks := by
      cases c with
      | addStructure | addBlock => exact absurd trivial other
      | _ => rfl
    rw [same]
    exact h.members
  · have same : (c.apply ctx).functions = ctx.functions := by
      cases c with
      | addFunction => exact absurd trivial other
      | _ => rfl
    rw [same]
    exact h.params

theorem var (h : ctx.FreeOfVoid fs) {v : Variable}
    (typed : v.ty.VoidOnlyIf (DeclaredVoid fs v.name)) :
    ((Addition.var v).apply ctx).FreeOfVoid fs := by
  refine ⟨?_, h.members, h.params, h.types⟩
  intro id w stored
  rcases Variables.get?_push_cases stored with rfl | old
  · exact typed
  · exact h.vars id w old

theorem record (h : ctx.FreeOfVoid fs) {r : Record}
    (typed : ∀ f ∈ r.fields, f.ty.VoidOnlyIf (DeclaredVoid fs f.name)) :
    ((Addition.struct r).apply ctx).FreeOfVoid fs ∧
      ((Addition.block r).apply ctx).FreeOfVoid fs := by
  have named :=
    h.types.changes (.single (.bindType r.name (.record r)) (List.mem_singleton_self _) rfl)
  refine ⟨⟨h.vars, ?_, h.params, named⟩, ⟨h.vars, ?_, h.params, h.types⟩⟩
  all_goals
    intro s mem
    by_cases new : s = r
    · exact new ▸ typed
    · refine h.members s ?_
      simpa [Addition.apply, Change.apply, new] using mem

/-- What an action adds is of type `void` only where it declares it so. -/
theorem add {a : Action} {base : Ty} {x : Addition} (h : ctx.FreeOfVoid fs)
    (comes : Fragment.ComesTo env fs start a base ctx)
    (reads : a.Reads (fun t base => base.withoutArray.isVoid = true → t.head.isVoid = true)
      (·.isRecord = true) (fun ty => ty.withoutArray.isVoid = true → ParameterVoid fs) base ctx)
    (adds : a.Adds env base ctx x) {ctx' : Context} (h' : ctx'.FreeOfVoid fs) :
    (x.apply ctx').FreeOfVoid fs := by
  obtain ⟨g, visited, inside⟩ := comes.mem
  have declared : ∀ name, a.DeclaresVoid name → DeclaredVoid fs name :=
    fun name declares => ⟨g, visited, a, inside, declares⟩
  cases adds with
  | @name list d ty between typed nonvoid _ =>
    refine h'.var ⟨?_, fun void => declared _ ⟨by simp, ?_⟩⟩
    · rw [(d.resizes_toVariable _ _ _ _ ty).isVoid_eq, nonvoid]
    · rw [(d.resizes_toVariable _ _ _ _ ty).withoutArray_eq, typed,
        (d.resizes_sizedByInit ctx _).withoutArray_eq] at void
      exact reads.list list d rfl (Ty.isVoid_of_withDimensions void)
  | @parameter p name ty typed nonvoid named =>
    refine h'.var ⟨?_, fun void => declared _ ⟨by simp [named], ?_⟩⟩
    · rw [Parameter.ty_toVariable, nonvoid]
    · rw [Parameter.ty_toVariable, typed] at void
      exact Parameter.isVoid_head h.types (reads.structs p.type (by simp [Action.specs])) void
  | @block m b storage =>
    refine (h'.record fun f mem => ?_).2
    obtain ⟨l, listed, d, written⟩ := BlockDecl.exists_of_mem_body mem
    exact written.voidOnlyIf h.types (reads.structs l.type (List.mem_map_of_mem listed)) fun void =>
      declared _ ⟨l, listed, void, d, written.mem, written.name.symm⟩
  | @ofInstance m b storage name ty between _ typed =>
    have resizes := Variable.resizes_ofInstance env.options between.inputVertices? name ty storage
      m.span
    have record : ∀ p : Prop, ty.VoidOnlyIf p := by
      intro p
      refine ⟨?_, fun void => ?_⟩
      · rw [typed, Ty.isVoid_withDimensions]
        rfl
      · rw [typed] at void
        cases Ty.isVoid_of_withDimensions void
    exact h'.var ((record _).resizes resizes)
  | @member m b storage f span _ mem =>
    obtain ⟨l, listed, d, written⟩ := BlockDecl.exists_of_mem_body mem
    exact h'.var (written.voidOnlyIf h.types (reads.structs l.type (List.mem_map_of_mem listed))
      fun void => declared _ ⟨l, listed, void, d, written.mem, written.name.symm⟩)
  | @struct s =>
    refine (h'.record fun f mem => ?_).1
    obtain ⟨l, listed, d, written⟩ := StructSpec.exists_of_mem_body mem
    exact written.voidOnlyIf h.types (reads.structs l.type (List.mem_map_of_mem listed)) fun void =>
      declared _ ⟨l, listed, void, d, written.mem, written.name.symm⟩
  | @function p returns =>
    refine ⟨h'.vars, h'.members, ?_, h'.types⟩
    intro name s known ty mem
    rcases Change.holds_function (c := .addFunction _) known with old | same
    · exact h'.params name s old ty mem
    · cases same
      obtain ⟨noted, nonvoid⟩ := List.mem_filter.mp mem
      obtain ⟨q, listed, noted⟩ := List.mem_filterMap.mp noted
      exact ⟨by simpa using nonvoid, reads.params p rfl q listed ty noted⟩

theorem initial (o : Options) : (Context.initial o).FreeOfVoid fs := by
  have builtins : ∀ v ∈ Builtin.stageVariables o.stage,
      v.ty.isVoid = false ∧ v.ty.withoutArray.isVoid = false := by
    cases o.stage <;> decide
  refine ⟨?_, ?_, ?_, .initial o⟩
  · intro id v stored
    obtain ⟨nonvoid, inside⟩ := builtins v (mem_stageVariables_of_initial stored)
    exact ⟨nonvoid, by simp [inside]⟩
  · rw [initial_eq]
    simp
  · rw [initial_eq]
    simp [Overloads.ofName]

theorem upkeep (env : Env) (fs : List Fragment) (start : Context) :
    Upkeep env fs start (Context.FreeOfVoid fs)
      (fun t base => base.withoutArray.isVoid = true → t.head.isVoid = true) (·.isRecord = true)
      (fun ty => ty.withoutArray.isVoid = true → ParameterVoid fs) where
  act comes reads := Action.upholds (fun _ other => spared other) _ fun h _ adds _ h' =>
    h.add comes reads adds h'
  list h reads void := TypeSpec.isVoid_head h.types (reads.structs _ (by simp [Action.specs])) void
  struct _ _ := rfl
  parameter comes h reads void := by
    obtain ⟨f, visited, mem⟩ := comes.mem
    exact ⟨f, visited, _, mem,
      Parameter.isVoid_head h.types (reads.structs _ (by simp [Action.specs])) void⟩
  shared ty record void := by
    rw [Ty.isVoid_withoutArray_of_isRecord record] at void
    cases void

end Context.FreeOfVoid

/-! ### What is refused -/

/-- A name whose type is `void` in its dimensions gets no variable, and an error is reported. -/
theorem Declarator.bind_of_isVoid (o : Options) (q : Qualifiers) (invariant : Bool) (d : Declarator)
    {ty : Ty} (void : ty.isVoid = true) (ctx : Context) :
    (d.bind o q invariant ty ctx).1 = none ∧ (d.bind o q invariant ty ctx).2.vars = ctx.vars ∧
      ⟨d.mark.span, .voidVariable d.name⟩ ∈ (d.bind o q invariant ty ctx).2.diagnostics := by
  have sized : (d.sizedByInit ctx ty).isVoid = true :=
    (d.resizes_sizedByInit ctx ty).isVoid_eq.trans void
  rw [run_bind, bindTyped_of_isVoid sized]
  exact ⟨rfl, rfl, List.mem_append_right _ (List.mem_singleton_self _)⟩

/-- A member whose type is `void` in its dimensions gets the error type, which is reported. -/
theorem Declarator.field_of_isVoid (o : Options) (place : MemberContext) (q : Qualifiers)
    {base : Ty} {d : Declarator}
    (void : (base.withDimensions o d.dimList d.mark.span).value.isVoid = true) :
    (d.field o place q base).value.ty = .error ∧
      ⟨d.mark.span, .voidMember d.name⟩ ∈ (d.field o place q base).problems := by
  constructor
  · rw [d.ty_field, if_pos void]
  · simp [field, void]

/-- A parameter whose type is `void` in its dimensions stands for none. -/
theorem Parameter.bind_of_isVoid {o : Options} {p : Parameter} {ctx : Context}
    (void : (p.declaredType o ctx).value.isVoid = true) :
    (p.bind o ctx).1 = none ∧ (p.bind o ctx).2.vars = ctx.vars := by
  rw [bind_eq]
  simp only [settle, Update.run_bind, Update.run_get, Update.run_noting, void, ↓reduceIte,
    Update.run_pure]
  exact ⟨trivial, rfl⟩

end

/-- What is known of the type `void` in all states that visits go through, fatal ones included.
There is nothing of that type: neither a variable, nor a member of a record that is listed, nor a
parameter of a known function. There are arrays of it, or of such arrays, only where a name or a
parameter is declared with the word `void`, and in dimensions then. A name that is visited by
itself, apart from its declaration, gets its type from outside, which may be such an array only if
it is written so. Without dimensions, a declared name is refused, a member is too and gets the error
type, and a parameter is left out. -/
theorem void_types (env : Env) (fs : List Fragment)
    (given : ∀ list base d, Fragment.declarator list base d ∈ fs →
      base.withoutArray.isVoid = true → list.type.head.isVoid = true) :
    (∀ ctx ∈ Fragment.history env fs (.initial env.options), ctx.FreeOfVoid fs) ∧
    (∀ q invariant ty d ctx, ty.isVoid = true →
      let (bound, after) := Declarator.bind env.options q invariant d ty ctx
      bound = none ∧ after.vars = ctx.vars ∧
        ⟨d.mark.span, .voidVariable d.name⟩ ∈ after.diagnostics) ∧
    (∀ place q base d,
      (Ty.withDimensions env.options base d.dimList d.mark.span).value.isVoid = true →
        (Declarator.field env.options place q base d).value.ty = .error ∧
          ⟨d.mark.span, .voidMember d.name⟩
            ∈ (Declarator.field env.options place q base d).problems) ∧
    ∀ p ctx, (Parameter.declaredType env.options ctx p).value.isVoid = true →
      let (bound, after) := Parameter.bind env.options p ctx
      bound = none ∧ after.vars = ctx.vars := by
  refine ⟨?_, ?_, ?_, ?_⟩
  · exact (Context.FreeOfVoid.upkeep env fs (.initial env.options)).forall_mem_history given
      (.initial env.options)
  · exact fun q invariant ty d ctx void => d.bind_of_isVoid env.options q invariant void ctx
  · exact fun place q base d void => d.field_of_isVoid env.options place q void
  · exact fun p ctx void => p.bind_of_isVoid void

/-- The name `x[3]`, in a declaration of type `void`. -/
def Sample.voidName : List Fragment :=
  [.declarator { qualifiers := {}, type := ⟨.named "void", none⟩, invariant := false, names := [] }
    .void { mark := mark 1, name := "x", dims := some [.sized (.int (mark 0) 3)], init := none }]

theorem void_types_voidName :
    ∃ ctx ∈ Fragment.history (.standard {}) Sample.voidName (.initial {}),
      ctx.FreeOfVoid Sample.voidName ∧ ∃ v, ctx.vars.get? ⟨8⟩ = some v ∧
        v.ty = .array .void (some 3) ∧ DeclaredVoid Sample.voidName v.name := by
  have mem := List.mem_of_getLast?
    (Fragment.getLast?_history (.standard {}) Sample.voidName (.initial {}))
  have made : ((Sample.voidName.foldl
      (fun ctx f => Context.reached (f.visit (.standard {}) ctx)) (.initial {})).vars.get? ⟨8⟩).map
        (·.ty) = some (.array .void (some 3)) := by
    decide +kernel
  obtain ⟨v, stored, typed⟩ := Option.map_eq_some_iff.mp made
  have given : ∀ list base d, Fragment.declarator list base d ∈ Sample.voidName →
      base.withoutArray.isVoid = true → list.type.head.isVoid = true := by
    intro list base d visited _
    obtain ⟨rfl, _⟩ := by simpa [Sample.voidName] using visited
    rfl
  have free := (void_types (.standard {}) Sample.voidName given).1 _ mem
  exact ⟨_, mem, free, v, stored, typed, (free.vars ⟨8⟩ v stored).inside (by rw [typed]; rfl)⟩

/-- The unit `void x[3];`. -/
def Sample.voidArray : SourceUnit :=
  let d : Declarator :=
    { mark := mark 1, name := "x", dims := some [.sized (.int (mark 0) 3)], init := none }
  [.declaration (.declare (mark 2)
    { qualifiers := {}, type := ⟨.named "void", none⟩, invariant := false, names := [d] })]

/-- A variable becomes an array of `void`, and nothing is reported. -/
theorem voidArray_declared :
    ∃ final v, analyze (.standard {}) Sample.voidArray = .ok () final ∧ final.errorCount = 0 ∧
      final.vars.get? ⟨8⟩ = some v ∧ v.ty = .array .void (some 3) ∧
      ¬ v.ty.withoutArray.isVoid = false := by
  let env : Env := .standard {}
  obtain ⟨final, run⟩ := exists_of_completes
    (show completes env Sample.voidArray = true by decide +kernel)
  have errors : (Context.reached (analyze env Sample.voidArray)).errorCount = 0 := by
    decide +kernel
  have made : ((Context.reached (analyze env Sample.voidArray)).vars.get? ⟨8⟩).map (·.ty)
      = some (.array .void (some 3)) := by
    decide +kernel
  rw [run] at errors made
  obtain ⟨v, stored, typed⟩ := Option.map_eq_some_iff.mp made
  refine ⟨final, v, run, errors, stored, typed, ?_⟩
  rw [typed]
  simp [Ty.withoutArray, Ty.isVoid]

end ShaderAnalysis
