import ShaderAnalysis.Proofs.ExprVisits
import ShaderAnalysis.Proofs.Overloads

/-!
How calls are classified and typed. Whether a call means a builtin function and which type it has
are found out one after the other, each by a search of its own among the functions of the unit and
the builtin ones. The two agree (`CallVerdict`, `verdict_of_standard`): also for arguments of the
error type, which no builtin function admits. What a call gets is still noted when the visit of the
expression around it has ended (`calls_classified`).
-/

namespace ShaderAnalysis

open Analysis

/-! ### Verdicts -/

/-- How a call by name is classified, which type it has and what is reported at it, given the types
of its arguments and the functions that the unit has declared. -/
inductive CallVerdict (declared : Overloads) (m : Mark) (name : String) (types : List Ty) :
    Bool → Ty → List Diagnostic → Prop
  /-- An argument has no type. -/
  | untyped : Ty.error ∈ types → CallVerdict declared m name types false .error []
  | declared {s : Signature} : Ty.error ∉ types → Signature.Meant (declared.ofName name) types s →
    CallVerdict declared m name types false s.returns []
  | builtin {s : Signature} : Ty.error ∉ types → (∀ t ∈ declared.ofName name, ¬ t.Admits types) →
    Signature.Meant (Builtin.catalog.ofName name) types s →
    CallVerdict declared m name types true s.returns []
  | unknown : Ty.error ∉ types → (∀ t ∈ declared.ofName name, ¬ t.Admits types) →
    (∀ t ∈ Builtin.catalog.ofName name, ¬ t.Admits types) →
    CallVerdict declared m name types false .error [⟨m.span, .unknownFunction name types⟩]

/-- There is one verdict on a call. -/
theorem CallVerdict.unique {declared : Overloads} {m : Mark} {name : String} {types : List Ty}
    {builtin builtin' : Bool} {ty ty' : Ty} {reported reported' : List Diagnostic}
    (h : CallVerdict declared m name types builtin ty reported)
    (h' : CallVerdict declared m name types builtin' ty' reported') :
    builtin = builtin' ∧ ty = ty' ∧ reported = reported' := by
  cases h with
  | untyped error =>
    cases h' with
    | untyped => exact ⟨rfl, rfl, rfl⟩
    | declared fine | builtin fine | unknown fine => exact absurd error fine
  | declared fine meant =>
    cases h' with
    | untyped error => exact absurd error fine
    | declared _ meant' => exact ⟨rfl, congrArg (·.returns) (meant.unique meant'), rfl⟩
    | builtin _ none | unknown _ none => exact absurd meant.admits (none _ meant.mem)
  | builtin fine none meant =>
    cases h' with
    | untyped error => exact absurd error fine
    | declared _ meant' => exact absurd meant'.admits (none _ meant'.mem)
    | builtin _ _ meant' => exact ⟨rfl, congrArg (·.returns) (meant.unique meant'), rfl⟩
    | unknown _ _ none' => exact absurd meant.admits (none' _ meant.mem)
  | unknown fine none none' =>
    cases h' with
    | untyped error => exact absurd error fine
    | declared _ meant' => exact absurd meant'.admits (none _ meant'.mem)
    | builtin _ _ meant' => exact absurd meant'.admits (none' _ meant'.mem)
    | unknown => exact ⟨rfl, rfl, rfl⟩

theorem Ty.any_isError_iff {types : List Ty} : types.any Ty.isError = true ↔ .error ∈ types := by
  rw [List.any_eq_true]
  constructor
  · rintro ⟨t, mem, error⟩
    cases t <;> first | exact mem | cases error
  · intro mem
    exact ⟨.error, mem, rfl⟩

/-- The error type converts to itself only, and nothing else converts to it. -/
theorem Ty.Widens.error_iff {a b : Ty} (h : a.Widens b) : a = .error ↔ b = .error := by
  constructor <;> (rintro rfl; cases h; rfl)

theorem Ty.Widens.error_mem_iff {types types' : List Ty}
    (h : List.Forall₂ Ty.Widens types' types) : .error ∈ types' ↔ .error ∈ types := by
  induction h with
  | nil => exact Iff.rfl
  | cons widens _ ih => simp only [List.mem_cons, ih, @eq_comm Ty .error, widens.error_iff]

theorem Builtin.error_notMem_params {name : String} {s : Signature}
    (mem : s ∈ catalog.ofName name) : .error ∉ s.params := by
  have all : signatures.all (fun s => s.params.all (· ≠ .error)) = true := by decide +kernel
  rcases Overloads.mem_of_foldl_add mem with none | known
  · simp [Overloads.ofName] at none
  · have params := List.all_eq_true.mp all s known
    intro param
    simpa using List.all_eq_true.mp params .error param

theorem Builtin.catalog_find?_of_error {name : String} {types : List Ty} (mem : .error ∈ types) :
    catalog.find? name types = none := by
  rw [Overloads.find?_eq_none_iff]
  intro t known admits
  exact error_notMem_params known ((Ty.Widens.error_mem_iff admits).mp mem)

/-- The two searches that are made for a call agree. -/
theorem verdict_of_standard (o : Options) (ctx : Context) (m : Mark) (name : String)
    (types : List Ty) :
    CallVerdict ctx.functions m name types ((Env.standard o).isBuiltinCall ctx name types)
      ((Env.standard o).typeOfCall ctx name types m.span).value
      ((Env.standard o).typeOfCall ctx name types m.span).problems := by
  simp only [Env.isBuiltinCall, Env.typeOfCall, Env.standard, Overloads.resultType?]
  by_cases error : .error ∈ types
  -- The search for the flag is made also then. It fails, as no builtin function admits an error.
  · simp only [Ty.any_isError_iff.mpr error, Builtin.catalog_find?_of_error error]
    simpa using CallVerdict.untyped error
  · simp only [mt Ty.any_isError_iff.mp error]
    cases own : ctx.functions.find? name types with
    | some s => simpa using CallVerdict.declared error (Overloads.find?_eq_some_iff.mp own)
    | none =>
      have undeclared := Overloads.find?_eq_none_iff.mp own
      cases known : Builtin.catalog.find? name types with
      | some s =>
        simpa using CallVerdict.builtin error undeclared (Overloads.find?_eq_some_iff.mp known)
      | none =>
        simpa using CallVerdict.unknown error undeclared (Overloads.find?_eq_none_iff.mp known)

/-! ### Visits of calls -/

section

variable {env : Env} {ctx next : Context} {m : Mark} {args : List Expr}

/-- What is noted and reported at a call by name, given the types of its arguments. -/
theorem call_of_finishExpr {name : String}
    (run : finishExpr env (.call m name args) ctx = .ok () next) :
    (next.annotations.ofNode m.id).builtin
        = some (env.isBuiltinCall ctx name (args.map (ctx.typeOf ·.id))) ∧
      (next.annotations.ofNode m.id).ty
        = some (env.typeOfCall ctx name (args.map (ctx.typeOf ·.id)) m.span).value ∧
      next.diagnostics = ctx.diagnostics
        ++ (env.typeOfCall ctx name (args.map (ctx.typeOf ·.id)) m.span).problems := by
  let builtin := env.isBuiltinCall ctx name (args.map (ctx.typeOf ·.id))
  let classified := (Change.annotate m.id (.builtin builtin)).apply ctx
  have types : args.map (classified.typeOf ·.id) = args.map (ctx.typeOf ·.id) :=
    List.map_congr_left fun a _ => ctx.typeOf_annotate m.id a.id (by simp)
  have typed : (Expr.call m name args).typeOf env classified
      = env.typeOfCall ctx name (args.map (ctx.typeOf ·.id)) m.span := by
    rw [Expr.typeOf, types]
    rfl
  rw [finishExpr_eq_settle] at run
  obtain ⟨_, between, prepared, settled⟩ := AnalysisM.run_bind_ok run
  obtain rfl : classified = between := by
    cases prepared
    rfl
  refine ⟨?_, ?_, ?_⟩
  · have noted : (classified.annotations.ofNode m.id).builtin = some builtin := by
      simp [classified, Change.apply, Annotations.ofNode_update, Slot.write]
    exact (Expr.agree_of_settle settled (n := .builtin) (by decide)).trans noted
  · rw [← typed]
    exact Expr.type_of_settle settled
  · rw [← typed]
    cases settled
    rfl

theorem construct_of_finishExpr {type : TypeSpec}
    (run : finishExpr env (.construct m type args) ctx = .ok () next) :
    (next.annotations.ofNode m.id).builtin = some true := by
  cases run
  simp [Annotations.noteEffects, Annotations.ofNode_update, Node.id, Node.mark, Expr.id, Expr.mark]

end

/-- How calls are classified and typed, with the builtin functions of the language, at every call in
an expression that is visited without a fatal condition. A constructor is classified as builtin.
A call by name gets the verdict for the types of its arguments, and what is reported when it is
finished, behind its parts, are the diagnostics of the verdict. -/
theorem calls_classified {o : Options} {e : Expr} {ctx after : Context} (distinct : e.ids.Nodup)
    (run : visitExpr (.standard o) e ctx = .ok () after) :
    (∀ m type args, .construct m type args ∈ e.postorder →
      (after.annotations.ofNode m.id).builtin = some true) ∧
    ∀ done rest m name args, e.postorder = done ++ .call m name args :: rest →
      ∃ before next builtin ty reported,
        finishes (.standard o) done ctx = .ok () before ∧
        finishExpr (.standard o) (.call m name args) before = .ok () next ∧
        finishes (.standard o) rest next = .ok () after ∧
        CallVerdict ctx.functions m name (args.map (after.typeOf ·.id)) builtin ty reported ∧
        (after.annotations.ofNode m.id).builtin = some builtin ∧
        (after.annotations.ofNode m.id).ty = some ty ∧
        next.diagnostics = before.diagnostics ++ reported := by
  rw [visitExpr_eq_finishes] at run
  constructor
  · intro m type args mem
    obtain ⟨done, rest, split⟩ := List.append_of_mem mem
    have among := Expr.among distinct split
    rw [split] at run
    obtain ⟨before, next, _, own, last⟩ := finishes_split run
    have kept : (after.annotations.ofNode m.id).builtin = (next.annotations.ofNode m.id).builtin :=
      (changes_finishes last).agree_footprint (n := .builtin)
        (.inl (among.behind _ (Expr.id_mem_anchors _)))
    exact kept.trans (construct_of_finishExpr own)
  · intro done rest m name args split
    have among := Expr.among distinct split
    rw [split] at run
    obtain ⟨before, next, first, own, last⟩ := finishes_split run
    have types : args.map (before.typeOf ·.id) = args.map (after.typeOf ·.id) := by
      have whole : finishes (.standard o) (.call m name args :: rest) before = .ok () after := by
        rw [finishes, AnalysisM.run_bind_of_ok own]
        exact last
      refine List.map_congr_left fun a arg => ?_
      exact ((changes_finishes whole).typeOf_footprint (among.others a (among.parts a arg))).symm
    have functions : before.functions = ctx.functions :=
      ((changes_finishes first).readsAs fun _ => Expr.atNode_of_mem_footprint).functions
    have kept : ∀ n : SlotName,
        n.Agree (next.annotations.ofNode m.id) (after.annotations.ofNode m.id) :=
      fun n => (changes_finishes last).agree_footprint
        (.inl (among.behind _ (Expr.id_mem_anchors _)))
    have verdict := verdict_of_standard o before m name (args.map (before.typeOf ·.id))
    obtain ⟨builtin, ty, reported⟩ := call_of_finishExpr own
    rw [functions] at verdict
    rw [types] at verdict builtin ty reported
    exact ⟨before, next, _, _, _, first, own, last, verdict, (kept .builtin).trans builtin,
      (kept .ty).trans ty, reported⟩

/-- The expression `vec2(max(1, 2.0))`. -/
def Sample.larger : Expr :=
  .construct (mark 3) ⟨.named "vec2", none⟩
    [.call (mark 2) "max" [.int (mark 0) 1, .float (mark 1) 2]]

/-- The first argument of `max` is converted. -/
theorem calls_classified_larger :
    ∃ after reported, visitExpr (.standard {}) Sample.larger (.initial {}) = .ok () after ∧
      (after.annotations.ofNode ⟨3⟩).builtin = some true ∧
      CallVerdict {} (Sample.mark 2) "max" [.scalar .int, .scalar .float] true (.scalar .float)
        reported := by
  have run : ∃ after, visitExpr (.standard {}) Sample.larger (.initial {}) = .ok () after ∧
      (after.annotations.ofNode ⟨2⟩).builtin = some true ∧
      (after.annotations.ofNode ⟨2⟩).ty = some (.scalar .float) ∧
      [⟨0⟩, ⟨1⟩].map after.typeOf = [.scalar .int, .scalar .float] :=
    ⟨_, rfl, by decide +kernel, by decide +kernel, by decide +kernel⟩
  obtain ⟨after, run, flag, type, types⟩ := run
  obtain ⟨constructors, calls⟩ :=
    @calls_classified {} Sample.larger (.initial {}) after (by decide) run
  obtain ⟨_, _, _, _, reported, _, _, _, verdict, flag', type', _⟩ :=
    calls [.int (Sample.mark 0) 1, .float (Sample.mark 1) 2] [Sample.larger] (Sample.mark 2) "max"
      [.int (Sample.mark 0) 1, .float (Sample.mark 1) 2] rfl
  cases flag.symm.trans flag'
  cases type.symm.trans type'
  refine ⟨after, reported, run, constructors (Sample.mark 3) _ _ (Expr.mem_postorder_self _), ?_⟩
  rw [← types]
  exact verdict

end ShaderAnalysis
