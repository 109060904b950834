import ShaderAnalysis.Proofs.Consistency

/-!
Input layouts of geometry shaders, one at a time. The first that names an input primitive fixes it,
and looks at every input that has been listed, whether its scope is still open or not. A later one
can do no more than report that it differs, and one that names no input primitive ends the analysis
where it stands (`layout_effect`).
-/

namespace ShaderAnalysis

open Analysis

/-! ### A single input -/

/-- What a layout for so many vertices makes of an input, and what it reports of it. -/
inductive Variable.LaidOut (span : Span) (n : Nat) (v : Variable) :
    Variable → List Diagnostic → Prop
  | sized {e : Ty} : v.ty = .array e none → v.maxAccess < n →
    LaidOut span n v { v with ty := .array e (some n) } []
  | belowAccess {e : Ty} : v.ty = .array e none → n ≤ v.maxAccess →
    LaidOut span n v v [⟨span, .layoutBelowAccess n v.maxAccess v.name⟩]
  | contradicts {e : Ty} {k : Nat} : v.ty = .array e (some k) → k ≠ n →
    LaidOut span n v v [⟨span, .layoutContradictsGeometryInput v.name k n⟩]
  | fits {e : Ty} : v.ty = .array e (some n) → LaidOut span n v v []
  | single : (∀ e length, v.ty ≠ .array e length) → LaidOut span n v v []

/-- An error in the size of a geometry input. -/
def Diagnostic.IsGeometrySize (d : Diagnostic) : Prop :=
  d.isError = true ∧ d.problem.kind = .geometryInputSize

namespace Variable

variable {span : Span} {n : Nat} {v w : Variable}

theorem laidOut_sizeByLayout (span : Span) (n : Nat) (user : v.builtin = false) :
    v.LaidOut span n (v.sizeByLayout span n).value (v.sizeByLayout span n).problems := by
  unfold sizeByLayout
  split
  case h_1 e unsized =>
    split
    case isTrue accessed => exact .belowAccess unsized accessed
    case isFalse beyond => exact .sized unsized (Nat.not_le.mp beyond)
  case h_2 e k sized =>
    split
    case isTrue other =>
      have differs : k ≠ n := by
        simp only [user, Bool.not_false, Bool.and_true, decide_eq_true_eq] at other
        exact other
      exact .contradicts sized differs
    case isFalse same =>
      have equal : k = n := by
        simp only [user, Bool.not_false, Bool.and_true, decide_eq_true_eq, not_not] at same
        exact same
      exact .fits (equal ▸ sized)
  case h_3 unsized sized =>
    refine .single ?_
    intro e length array
    cases length with
    | none => exact unsized e array
    | some k => exact sized e k array

theorem LaidOut.isGeometrySize {problems : List Diagnostic} (h : v.LaidOut span n w problems) :
    ∀ d ∈ problems, d.IsGeometrySize := by
  cases h with
  | sized | fits | single => exact fun d mem => absurd mem List.not_mem_nil
  | belowAccess | contradicts =>
    intro d mem
    rw [List.mem_singleton.mp mem]
    exact ⟨rfl, rfl⟩

/-- A layout that is applied again reports the same again. -/
theorem problems_sizeByLayout_sizeByLayout (span : Span) (n : Nat) (v : Variable) :
    ((v.sizeByLayout span n).value.sizeByLayout span n).problems
      = (v.sizeByLayout span n).problems := by
  cases shape : v.ty with
  | array e length =>
    cases length with
    | none =>
      by_cases accessed : n ≤ v.maxAccess <;> simp [sizeByLayout, shape, accessed]
    | some k =>
      have kept : (v.sizeByLayout span n).value = v := by
        simp only [sizeByLayout, shape]
        split <;> rfl
      rw [kept]
  | _ => simp [sizeByLayout, shape]

end Variable

/-! ### All inputs -/

/-- What a layout reports of the variable of a number. -/
def Context.layoutProblems (span : Span) (n : Nat) (ctx : Context) (id : VarId) : List Diagnostic :=
  (ctx.vars.get? id).elim [] fun v => (v.sizeByLayout span n).problems

namespace Update

/-- Sizing inputs concerns the variables and the diagnostics only, and reports what there is to
report of each input as it was before. -/
theorem sizeInputs_eq (span : Span) (n : Nat) (ids : List VarId) (ctx : Context) :
    (sizeInputs span n ids ctx).2 =
      { ctx with
        vars := (sizeInputs span n ids ctx).2.vars
        diagnostics := ctx.diagnostics ++ ids.flatMap (ctx.layoutProblems span n) } := by
  induction ids generalizing ctx with
  | nil => simp [sizeInputs]
  | cons i ids ih =>
    simp only [sizeInputs, run_bind, run_get]
    cases found : ctx.vars.get? i with
    | none =>
      rw [ih]
      simp [Context.layoutProblems, found]
    | some v =>
      let sized := (Change.alter i fun _ => (v.sizeByLayout span n).value).apply
        ((Change.note (v.sizeByLayout span n).problems).apply ctx)
      -- An input that has been sized gives rise to the same reports, so it may be listed again.
      have same : sized.layoutProblems span n = ctx.layoutProblems span n := by
        funext id
        by_cases here : i = id
        · subst here
          simp [sized, Context.layoutProblems, Change.apply, Variables.get?_modify, found,
            Variable.problems_sizeByLayout_sizeByLayout]
        · simp [sized, Context.layoutProblems, Change.apply, Variables.get?_modify, here]
      have own : ctx.layoutProblems span n i = (v.sizeByLayout span n).problems := by
        simp [Context.layoutProblems, found]
      have rest := ih sized
      rw [same] at rest
      simp only [run_bind, run_noting, run_modifyVariable, List.flatMap_cons, own,
        ← List.append_assoc]
      exact rest

end Update

/-! ### The layout -/

/-- What the first layout for a primitive makes of a state: the primitive is known, each input has
been laid out, in the order in which they are listed, and nothing else has changed. -/
structure Context.LaidOut (span : Span) (p : InputPrimitive) (ctx after : Context) : Prop where
  distinct : ctx.inputs.Nodup
  inputs : ∃ reports : List (List Diagnostic),
    List.Forall₂ (fun id problems => ∃ v w, ctx.vars.get? id = some v ∧
      after.vars.get? id = some w ∧ v.LaidOut span p.vertices w problems) ctx.inputs reports ∧
    after.diagnostics = ctx.diagnostics ++ reports.flatten
  others : ∀ id ∉ ctx.inputs, after.vars.get? id = ctx.vars.get? id
  rest : after = { ctx with
    primitive := some p, vars := after.vars, diagnostics := after.diagnostics }

/-- What comes of a layout. -/
inductive InputLayout.Effect (l : InputLayout) (ctx : Context) :
    EStateM.Result Fatal Context Unit → Prop
  | refused : l.mode.primitive? = none →
    Effect l ctx (.error (.notInputPrimitive l.mode l.mark.span) ctx)
  | again {p : InputPrimitive} : l.mode.primitive? = some p → ctx.primitive = some p →
    Effect l ctx (.ok () ctx)
  | conflicts {p previous : InputPrimitive} : l.mode.primitive? = some p →
    ctx.primitive = some previous → previous ≠ p →
    Effect l ctx (.ok () { ctx with
      diagnostics := ctx.diagnostics ++ [⟨l.mark.span, .layoutConflict p previous⟩] })
  | first {p : InputPrimitive} {after : Context} : l.mode.primitive? = some p →
    ctx.primitive = none → ctx.LaidOut l.mark.span p after → Effect l ctx (.ok () after)

/-- Inputs that are listed once each, and are all of the source, are laid out one by one. -/
theorem Context.laidOut_sizeInputs {ctx : Context} (span : Span) (p : InputPrimitive)
    (consistent : ctx.Consistent) :
    ctx.LaidOut span p (Update.sizeInputs span p.vertices ctx.inputs
      ((Change.setPrimitive p).apply ctx)).2 := by
  let fixed := (Change.setPrimitive p).apply ctx
  let after := (Update.sizeInputs span p.vertices ctx.inputs fixed).2
  have whole : after = { fixed with
      vars := after.vars
      diagnostics := ctx.diagnostics
        ++ ctx.inputs.flatMap (fixed.layoutProblems span p.vertices) } :=
    Update.sizeInputs_eq span p.vertices ctx.inputs fixed
  have reported : after.diagnostics = ctx.diagnostics
      ++ ctx.inputs.flatMap (fixed.layoutProblems span p.vertices) :=
    congrArg (·.diagnostics) whole
  have becomes : ∀ id, after.vars.get? id = if id ∈ ctx.inputs then
      (ctx.vars.get? id).map fun v => (v.sizeByLayout span p.vertices).value
      else ctx.vars.get? id :=
    Update.get?_sizeInputs span p.vertices ctx.inputs
  constructor
  case distinct => exact consistent.increasing.nodup.of_map _
  case inputs =>
    refine ⟨ctx.inputs.map (fixed.layoutProblems span p.vertices), ?_, ?_⟩
    · rw [List.forall₂_map_right_iff, List.forall₂_same]
      intro id listed
      obtain ⟨v, stored, _, user⟩ := (consistent.inputs id).mp listed
      have own : fixed.layoutProblems span p.vertices id
          = (v.sizeByLayout span p.vertices).problems := by
        have same : fixed.vars.get? id = some v := stored
        rw [layoutProblems, same, Option.elim_some]
      have sized : after.vars.get? id = some (v.sizeByLayout span p.vertices).value := by
        rw [becomes, if_pos listed, stored, Option.map_some]
      exact ⟨v, _, stored, sized, own ▸ v.laidOut_sizeByLayout span p.vertices user⟩
    · rw [← List.flatMap_def]
      exact reported
  case others =>
    intro id unlisted
    rw [becomes, if_neg unlisted]
  case rest =>
    rw [← reported] at whole
    exact whole

theorem Context.LaidOut.isGeometrySize {span : Span} {p : InputPrimitive} {ctx after : Context}
    (h : ctx.LaidOut span p after) :
    ∀ d ∈ after.diagnostics, d ∈ ctx.diagnostics ∨ d.IsGeometrySize := by
  obtain ⟨reports, laidOut, reported⟩ := h.inputs
  intro d mem
  rw [reported, List.mem_append, List.mem_flatten] at mem
  rcases mem with old | ⟨problems, listed, new⟩
  · exact .inl old
  · obtain ⟨i, bound, rfl⟩ := List.getElem_of_mem listed
    have inside : i < ctx.inputs.length := laidOut.length_eq ▸ bound
    obtain ⟨v, w, _, _, outcome⟩ := laidOut.get inside bound
    exact .inr (outcome.isGeometrySize d new)

namespace InputLayout

variable {l : InputLayout} {ctx : Context}

theorem effect_apply (l : InputLayout) (consistent : ctx.Consistent) :
    l.Effect ctx (l.apply ctx) := by
  cases mode : l.mode.primitive? with
  | none =>
    have refused : l.apply ctx = .error (.notInputPrimitive l.mode l.mark.span) ctx := by
      simp only [apply, mode]
      rfl
    exact refused ▸ .refused mode
  | some p =>
    have applied : l.apply ctx = .ok () (Update.fixPrimitive l.mark.span p ctx).2 := by
      simp only [apply, mode]
      rfl
    rw [applied]
    simp only [Update.fixPrimitive, Update.run_bind, Update.run_get]
    cases known : ctx.primitive with
    | none => exact .first mode known (ctx.laidOut_sizeInputs l.mark.span p consistent)
    | some previous =>
      by_cases same : previous = p
      · subst same
        simp only [ne_eq, not_true_eq_false, ↓reduceIte]
        exact .again mode known
      · simp only [ne_eq, same, not_false_eq_true, ↓reduceIte]
        exact .conflicts mode known same

theorem Effect.isGeometrySize {r : EStateM.Result Fatal Context Unit} (h : l.Effect ctx r) :
    ∀ d ∈ (Context.reached r).diagnostics, d ∈ ctx.diagnostics ∨ d.IsGeometrySize := by
  cases h with
  | refused | again => exact fun d mem => .inl mem
  | conflicts =>
    intro d mem
    rcases List.mem_append.mp mem with old | new
    · exact .inl old
    · rw [List.mem_singleton.mp new]
      exact .inr ⟨rfl, rfl⟩
  | first _ _ laidOut => exact laidOut.isGeometrySize

end InputLayout

/-- What a layout comes to in any state that visits go through, fatal ones included. All that it
reports is errors in the sizes of geometry inputs. -/
theorem layout_effect (env : Env) (fs : List Fragment) :
    ∀ ctx ∈ Fragment.history env fs (.initial env.options), ∀ l : InputLayout,
      l.Effect ctx (l.apply ctx) ∧ ∀ d ∈ (Context.reached (l.apply ctx)).diagnostics,
        d ∈ ctx.diagnostics ∨ d.IsGeometrySize := by
  intro ctx mem l
  have consistent : ctx.Consistent :=
    Fragment.forall_mem_history (fun a base ctx _ => a.upholds_consistent base ctx) fs
      (fun _ _ => trivial) (.initial env.options) ctx mem
  have effect := l.effect_apply consistent
  exact ⟨effect, effect.isGeometrySize⟩

/-- The declaration `in float x[];`. -/
def Sample.unsizedInput : List Fragment :=
  [.declarator { qualifiers := { input := true }, type := float, invariant := false, names := [] }
    (.scalar .float) { mark := mark 0, name := "x", dims := some [.unsized], init := none }]

/-- The layout `layout(triangles) in;`. -/
def Sample.triangles : InputLayout :=
  { mark := mark 1, mode := .input .triangles }

theorem layout_effect_triangles :
    ∃ ctx ∈ Fragment.history (.standard { stage := .geometry }) Sample.unsizedInput
        (.initial { stage := .geometry }),
      ∃ after v w, Sample.triangles.apply ctx = .ok () after ∧ ctx.inputs = [⟨5⟩] ∧
        ctx.vars.get? ⟨5⟩ = some v ∧ v.ty = .array (.scalar .float) none ∧
        after.vars.get? ⟨5⟩ = some w ∧ w.ty = .array (.scalar .float) (some 3) ∧
        after.diagnostics = ctx.diagnostics := by
  let env : Env := .standard { stage := .geometry }
  let ctx := Sample.unsizedInput.foldl
    (fun ctx f => Context.reached (f.visit env ctx)) (.initial env.options)
  have mem : ctx ∈ Fragment.history env Sample.unsizedInput (.initial env.options) :=
    List.mem_of_getLast?
      (Fragment.getLast?_history env Sample.unsizedInput (.initial env.options))
  have listed : ctx.inputs = [⟨5⟩] := by
    decide +kernel
  have unknown : ctx.primitive = none := by
    decide +kernel
  have held : (ctx.vars.get? ⟨5⟩).map (fun v => (v.ty, v.maxAccess))
      = some (.array (.scalar .float) none, 0) := by
    decide +kernel
  obtain ⟨v, stored, same⟩ := Option.map_eq_some_iff.mp held
  obtain ⟨unsized, unused⟩ := Prod.mk.inj same
  have effect := (layout_effect env Sample.unsizedInput ctx mem Sample.triangles).1
  generalize applied : Sample.triangles.apply ctx = r at effect
  cases effect with
  | refused other => cases other
  | again _ known => cases unknown.symm.trans known
  | conflicts _ known _ => cases unknown.symm.trans known
  | @first p after mode _ laidOut =>
    cases mode
    obtain ⟨reports, outcomes, reported⟩ := laidOut.inputs
    rw [listed] at outcomes
    obtain _ | ⟨⟨v', w, stored', there, outcome⟩, _ | _⟩ := outcomes
    cases stored.symm.trans stored'
    cases outcome with
    | @sized e unsized' _ =>
      cases unsized.symm.trans unsized'
      exact ⟨ctx, mem, after, v, _, applied, listed, stored, unsized, there, rfl,
        reported.trans (List.append_nil _)⟩
    | belowAccess _ accessed =>
      rw [unused] at accessed
      cases accessed
    | contradicts sized _ => cases unsized.symm.trans sized
    | fits sized => cases unsized.symm.trans sized
    | single other => exact absurd unsized (other _ _)

end ShaderAnalysis
