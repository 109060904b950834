import ShaderAnalysis.Proofs.Evolution
import ShaderAnalysis.Proofs.ExprVisits

/-!
Visiting an expression a second time. Once an expression is finished, its notes are the ones that
finishing it again would make (`Expr.Settled`): its name is linked, its selection classified, its
type and effects are those that its parts give, and its accesses are counted. What is done at other
expressions leaves it settled (`Expr.Settled.keep`), and finishing a settled expression changes
nothing but repeats what was reported at it (`Expr.Settled.finish`). So does visiting a whole
expression again (`revisit_repeats`).
-/

namespace ShaderAnalysis

open Analysis

/-! ### Changes that change nothing -/

/-- Noting at a node what is noted there already. -/
theorem Annotations.update_eq_self {t : Annotations} {id : NodeId} {f : Annotation → Annotation}
    (noted : t.ofNode id ≠ {}) (same : f (t.ofNode id) = t.ofNode id) : t.update id f = t := by
  cases stored : t.table.get? id with
  | none => exact absurd (by simp [ofNode, stored]) noted
  | some a =>
    have here : t.ofNode id = a := by simp [ofNode, stored]
    rw [here] at same
    rw [update, here, same, Table.set_of_get? stored]

theorem Change.annotate_eq_self {c : Context} {id : NodeId} {slot : Slot}
    (noted : c.annotations.ofNode id ≠ {})
    (held : slot.write (c.annotations.ofNode id) = c.annotations.ofNode id) :
    (Change.annotate id slot).apply c = c := by
  rw [apply, Annotations.update_eq_self noted held]

theorem Variables.modify_eq_self {vs : Variables} {id : VarId} {f : Variable → Variable}
    (same : ∀ v, vs.get? id = some v → f v = v) : vs.modify id f = vs := by
  obtain ⟨entries⟩ := vs
  simp only [modify, mk.injEq]
  refine Array.ext (by simp) fun i _ inside => ?_
  rw [Array.getElem_modify]
  split
  · rename_i here
    subst here
    exact same _ (Array.getElem?_eq_getElem inside)
  · rfl

namespace Expr

/-! ### What an expression finds -/

/-- The nodes of the structs that a constructor defines. -/
def structIds : Expr → List NodeId
  | .construct _ t _ => t.structs.map (·.mark.id)
  | _ => []

theorem anchors_eq (e : Expr) : e.anchors = e.structIds ++ [e.id] := by
  cases e <;> rfl

/-- An expression finds the same in two states: what typing reads, the notes at its parts, the types
of structs that it defines, and the notes at its own node but for its type and its effects. -/
structure Alike (e : Expr) (c c' : Context) : Prop where
  reads : c.ReadsAs c'
  parts : ∀ a ∈ e.parts, ∀ n : SlotName,
    n.Agree (c.annotations.ofNode a.id) (c'.annotations.ofNode a.id)
  structs : ∀ x ∈ e.structIds, c'.typeOf x = c.typeOf x
  own : ∀ n : SlotName, n ≠ .ty → n ≠ .effects →
    n.Agree (c.annotations.ofNode e.id) (c'.annotations.ofNode e.id)

/-- A thing that an expression does not depend on, or the type or the effects of its node. -/
def Spares (e : Expr) : Touch → Prop
  | .slot x n => (∀ a ∈ e.parts, a.id ≠ x) ∧ x ∉ e.structIds ∧ (x = e.id → n = .ty ∨ n = .effects)
  | t => t.AtNode

section

variable {env : Env} {e : Expr} {c c' : Context}

theorem Spares.atNode {t : Touch} (h : e.Spares t) : t.AtNode := by
  cases t with
  | slot => trivial
  | _ => exact h

theorem Alike.of_changes {ts : List Touch} (h : Changes ts c c') (spared : ∀ t ∈ ts, e.Spares t) :
    e.Alike c c' where
  reads := h.readsAs fun t mem => (spared t mem).atNode
  parts a part n := h.agree fun mem => (spared _ mem).1 a part rfl
  structs x defined := by
    have same : (c'.annotations.ofNode x).ty = (c.annotations.ofNode x).ty :=
      h.agree (n := .ty) fun mem => (spared _ mem).2.1 defined
    exact Context.typeOf_congr same
  own n type effects := h.agree fun mem => ((spared _ mem).2.2 rfl).elim type effects

namespace Alike

variable (h : e.Alike c c')

include h

theorem typeOf {a : Expr} (part : a ∈ e.parts) : c'.typeOf a.id = c.typeOf a.id := by
  have same : (c'.annotations.ofNode a.id).ty = (c.annotations.ofNode a.id).ty := h.parts a part .ty
  exact Context.typeOf_congr same

theorem types (es : List Expr) (parts : ∀ a ∈ es, a ∈ e.parts) :
    es.map (c'.typeOf ·.id) = es.map (c.typeOf ·.id) :=
  List.map_congr_left fun a mem => h.typeOf (parts a mem)

theorem typeOfSelection {m : Mark} {base : Expr} (name : String) (own : e.id = m.id)
    (part : base ∈ e.parts) :
    Expr.typeOfSelection c' m base name = Expr.typeOfSelection c m base name := by
  have same : (c'.annotations.ofNode m.id).selection = (c.annotations.ofNode m.id).selection :=
    own ▸ h.own .selection (by simp) (by simp)
  simp only [Expr.typeOfSelection, same, h.typeOf part]

/-- The variable that the node is linked to has the same type. -/
theorem type_variableOf? :
    (c'.variableOf? e.id).map (·.ty) = (c.variableOf? e.id).map (·.ty) := by
  have same : (c'.annotations.ofNode e.id).var = (c.annotations.ofNode e.id).var :=
    h.own .var (by simp) (by simp)
  simp only [Context.variableOf?, same]
  cases (c.annotations.ofNode e.id).var with
  | none => rfl
  | some i => exact h.reads.vars i

/-- An expression is typed as before, with the same diagnostics. -/
theorem typeOf_eq (env : Env) : e.typeOf env c' = e.typeOf env c := by
  cases e with
  | ident m name =>
    have type : ∀ o : Option Variable, o.elim .error (·.ty) = (o.map (·.ty)).getD .error := by
      rintro (_ | v) <;> rfl
    have same : (c'.variableOf? m.id).map (·.ty) = (c.variableOf? m.id).map (·.ty) :=
      h.type_variableOf?
    simp only [Expr.typeOf, type, same]
  | int | uint | float | bool => rfl
  | unary m op a =>
    have operand := h.typeOf (a := a) (by simp [Expr.parts])
    cases op <;> simp [Expr.typeOf, operand]
  | binary m op a b =>
    simp only [Expr.typeOf, h.typeOf (a := a) (by simp [Expr.parts]),
      h.typeOf (a := b) (by simp [Expr.parts])]
  | assign m op a b => simp only [Expr.typeOf, h.typeOf (a := a) (by simp [Expr.parts])]
  | cond m a b d => simp only [Expr.typeOf, h.typeOf (a := b) (by simp [Expr.parts])]
  | index m a b => simp only [Expr.typeOf, h.typeOf (a := a) (by simp [Expr.parts])]
  | field m base name => exact h.typeOfSelection name rfl (by simp [Expr.parts])
  | method m base name args => exact h.typeOfSelection name rfl (by simp [Expr.parts])
  | call m name args =>
    simp only [Expr.typeOf, Env.typeOfCall, h.types args fun _ mem => mem,
      h.reads.functions]
  | construct m type args =>
    have structs : ∀ d ∈ type.structs, c'.typeOf d.mark.id = c.typeOf d.mark.id :=
      fun d mem => h.structs d.mark.id (List.mem_map_of_mem mem)
    simp only [Expr.typeOf, TypeSpec.resolve_congr h.reads.scopes structs]
  | seq m es =>
    have last : es.getLast?.map (c'.typeOf ·.id) = es.getLast?.map (c.typeOf ·.id) := by
      rw [← List.getLast?_map, ← List.getLast?_map, h.types es fun _ mem => mem]
    have type : ∀ (o : Option Expr) (s : Context),
        o.elim .error (s.typeOf ·.id) = (o.map (s.typeOf ·.id)).getD .error := by
      rintro (_ | a) s <;> rfl
    simp only [Expr.typeOf, type, last]
  | aggregate m es =>
    have same : (c'.annotations.ofNode m.id).aggregate = (c.annotations.ofNode m.id).aggregate :=
      h.own .aggregate (by simp) (by simp)
    simp only [Expr.typeOf, same]

/-- The effects that flow into the node are the same. -/
theorem effectsOf_eq :
    c'.annotations.effectsOf (.expr e) = c.annotations.effectsOf (.expr e) := by
  have same : ∀ a ∈ e.parts, (c'.annotations.ofNode a.id).effects
      = (c.annotations.ofNode a.id).effects := fun a part => h.parts a part .effects
  simp only [Annotations.effectsOf, Node.effectSources, List.foldl_map]
  refine List.foldl_ext _ _ _ fun acc a part => ?_
  rw [same a part]

/-- What is noted of a call is still noted. -/
theorem builtin_again {b : Bool} (noted : (c.annotations.ofNode e.id).builtin = some b) :
    (Change.annotate e.id (.builtin b)).apply c' = c' := by
  have same : (c'.annotations.ofNode e.id).builtin = (c.annotations.ofNode e.id).builtin :=
    h.own .builtin (by simp) (by simp)
  rw [noted] at same
  exact Change.annotate_eq_self (fun blank => by simp [blank] at same)
    (by simp [Slot.write, ← same])

end Alike

/-! ### What is done before typing -/

theorem typeOf_of_prepare {before : Context} (run : prepare env e before = .ok () c) (id : NodeId) :
    c.typeOf id = before.typeOf id := by
  have same := (kept_of_touches (changes_of_prepare run) id).1
  exact Context.typeOf_congr same

theorem classify_again {before : Context} {o : Options} {m : Mark} {base : Expr} {name : String}
    {withArgs : Bool} (run : classifySelection o m base name withArgs before = .ok () c)
    (type : c'.typeOf base.id = before.typeOf base.id)
    (same : (c'.annotations.ofNode m.id).selection = (c.annotations.ofNode m.id).selection) :
    classifySelection o m base name withArgs c' = .ok () c' := by
  simp only [classifySelection, AnalysisM.run_get_bind] at run ⊢
  rw [type]
  by_cases error : (before.typeOf base.id).isError = true
  · simp only [error]
    rfl
  · simp only [error] at run ⊢
    cases kind : SelectionKind.classify (before.typeOf base.id) withArgs o.relaxedScalarSwizzle with
    | none => simp [kind] at run
    | some k =>
      rw [kind] at run
      cases run
      have noted : (c'.annotations.ofNode m.id).selection = some k := by
        simpa [Annotations.ofNode_update] using same
      have kept : (Change.annotate m.id (.selection k)).apply c' = c' :=
        Change.annotate_eq_self (fun blank => by simp [blank] at noted)
          (by simp [Slot.write, ← noted])
      exact congrArg (EStateM.Result.ok ()) kept

/-- What has been looked at is not looked at again: an identifier is linked, and a selection or a
call is classified as it is. -/
theorem prepare_again {before : Context} (run : prepare env e before = .ok () c)
    (h : e.Alike c c') : prepare env e c' = .ok () c' := by
  have types : ∀ a ∈ e.parts, c'.typeOf a.id = before.typeOf a.id :=
    fun a part => (h.typeOf part).trans (typeOf_of_prepare run a.id)
  cases e with
  | ident m name =>
    have resolved : resolveIdentifier env.options m name before = .ok () c := run
    have linked : (c.annotations.ofNode m.id).var.isSome := by
      rcases resolveIdentifier_cases env.options m name before with
        ⟨given, same⟩ | ⟨_, _, failed⟩ | ⟨id, v, r, entry, _, _, found⟩
      · rw [same] at resolved
        cases resolved
        exact given
      · rw [failed] at resolved
        cases resolved
      · rw [found] at resolved
        cases resolved
        simp [Change.apply, Annotations.ofNode_update, Slot.write]
    have same : (c'.annotations.ofNode m.id).var = (c.annotations.ofNode m.id).var :=
      h.own .var (by simp) (by simp)
    rw [← same] at linked
    rcases resolveIdentifier_cases env.options m name c' with
      ⟨_, again⟩ | ⟨unlinked, _⟩ | ⟨_, _, _, _, unlinked, _⟩
    · exact again
    · simp [unlinked] at linked
    · simp [unlinked] at linked
  | field m base name =>
    exact classify_again run (types base (by simp [Expr.parts]))
      (h.own .selection (by simp) (by simp))
  | method m base name args =>
    exact classify_again run (types base (by simp [Expr.parts]))
      (h.own .selection (by simp) (by simp))
  | call m name args =>
    let builtin := env.isBuiltinCall before name (args.map (before.typeOf ·.id))
    have again : env.isBuiltinCall c' name (args.map (c'.typeOf ·.id)) = builtin := by
      have functions : c'.functions = before.functions := by
        cases run
        exact h.reads.functions
      have same : args.map (c'.typeOf ·.id) = args.map (before.typeOf ·.id) :=
        List.map_congr_left types
      simp only [builtin, Env.isBuiltinCall, functions, same]
    have noted : (c.annotations.ofNode m.id).builtin = some builtin := by
      cases run
      simp [Annotations.ofNode_update, builtin]
    exact congrArg (EStateM.Result.ok ()) (again ▸ h.builtin_again noted)
  | construct m type args =>
    have noted : (c.annotations.ofNode m.id).builtin = some true := by
      cases run
      simp [Annotations.ofNode_update]
    exact congrArg (EStateM.Result.ok ()) (h.builtin_again noted)
  | _ => rfl

/-! ### Accesses and reports -/

/-- A constant index of a name has been counted as an access to the variable of the name. -/
def Counted (c : Context) : Expr → Prop
  | .index _ (.ident m _) place => ∀ k i v, place.intConstant? = some k → 0 ≤ k →
    (c.annotations.ofNode m.id).var = some i → c.vars.get? i = some v → k.toNat ≤ v.maxAccess
  | _ => True

/-- Looks at the index of an expression that has one. -/
def count : Expr → Update Unit
  | .index m base place => recordAccess m base place
  | _ => pure ()

/-- What is reported of a constant index. -/
def indexProblems (c : Context) : Expr → List Diagnostic
  | .index m base place =>
    place.intConstant?.elim [] fun k =>
      (checkIndex m.span place.span (c.typeOf base.id) k).problems
  | _ => []

/-- What is reported at an expression. -/
def heard (env : Env) (e : Expr) (c : Context) : List Diagnostic :=
  (e.typeOf env c).problems ++ e.indexProblems c

theorem Alike.indexProblems_eq (h : e.Alike c c') : e.indexProblems c' = e.indexProblems c := by
  cases e with
  | index m base place => simp only [indexProblems, h.typeOf (a := base) (by simp [Expr.parts])]
  | _ => rfl

theorem Alike.heard_eq (h : e.Alike c c') (env : Env) : e.heard env c' = e.heard env c := by
  rw [heard, heard, h.typeOf_eq env, h.indexProblems_eq]

theorem noteType_eq (env : Env) (e : Expr) (c : Context) :
    e.noteType env c = .ok () (e.count ((Change.annotate e.id (.ty (e.typeOf env c).value)).apply
      ((Change.note (e.typeOf env c).problems).apply c))).2 := by
  cases e <;> rfl

/-- An index that is no literal is not looked at. -/
theorem count_of_none {m : Mark} {base place : Expr} (open_ : place.intConstant? = none) :
    (Expr.index m base place).count c = ((), c) := by
  simp [count, recordAccess, open_]

theorem count_of_some {m : Mark} {base place : Expr} {k : Int}
    (literal : place.intConstant? = some k) :
    (Expr.index m base place).count c
      = if 0 ≤ k then
          raiseAccess k.toNat base
            ((Change.note ((Expr.index m base place).indexProblems c)).apply c)
        else ((), (Change.note ((Expr.index m base place).indexProblems c)).apply c) := by
  simp only [count, recordAccess, literal, Update.run_bind, Update.run_get, Update.run_noting,
    indexProblems, Option.elim_some]
  split <;> rfl

theorem diagnostics_count (e : Expr) (c : Context) :
    (e.count c).2.diagnostics = c.diagnostics ++ e.indexProblems c := by
  cases e with
  | index m base place =>
    cases literal : place.intConstant? with
    | none => simp [count_of_none literal, indexProblems, literal]
    | some k =>
      rw [count_of_some literal]
      split
      · refine (confined_raiseAccess k.toNat base _).same (·.diagnostics) fun c mem _ => ?_
        cases c with
        | access => rfl
        | _ => simp at mem
      · rfl
  | _ => simp [count, indexProblems]

/-- Looking at an index counts the access. -/
theorem counted_count (e : Expr) (c : Context) : e.Counted (e.count c).2 := by
  cases e with
  | index m base place =>
    cases base with
    | ident m' name =>
      intro k i v literal natural linked stored
      rw [count_of_some literal, if_pos natural] at linked stored
      let noted := (Change.note
        ((Expr.index m (.ident m' name) place).indexProblems c)).apply c
      have before : (noted.annotations.ofNode m'.id).var = some i := by
        have raising := confined_raiseAccess k.toNat (.ident m' name) noted
        exact (raising.agree (n := .var) (by simp)).symm.trans linked
      have raised : raiseAccess k.toNat (.ident m' name) noted
          = ((), (Change.access i k.toNat).apply noted) := by
        simp only [raiseAccess, Update.run_bind, Update.run_get, before]
        rfl
      rw [raised, Change.apply, Variables.get?_modify, if_pos rfl] at stored
      obtain ⟨w, _, rfl⟩ := Option.map_eq_some_iff.mp stored
      exact Nat.le_max_right ..
    | _ => trivial
  | _ => trivial

/-- Looking at an index that has been counted reports what there is to report, and no more. -/
theorem count_of_counted (h : e.Counted c) :
    e.count c = ((), (Change.note (e.indexProblems c)).apply c) := by
  cases e with
  | index m base place =>
    cases literal : place.intConstant? with
    | none => simp [count_of_none literal, indexProblems, literal, Change.apply]
    | some k =>
      rw [count_of_some literal]
      split
      · rename_i natural
        cases base with
        | ident m' name =>
          let noted := (Change.note
            ((Expr.index m (.ident m' name) place).indexProblems c)).apply c
          cases linked : (noted.annotations.ofNode m'.id).var with
          | none => simp [raiseAccess, noted, linked]
          | some i =>
            have kept : noted.vars.modify i
                (fun v => { v with maxAccess := max v.maxAccess k.toNat }) = noted.vars := by
              refine Variables.modify_eq_self fun v stored => ?_
              rw [Nat.max_eq_left (h k i v literal natural linked stored)]
            simp only [raiseAccess, Update.run_bind, Update.run_get, noted, linked]
            exact congrArg (fun vs => ((), { noted with vars := vs })) kept
        | _ => rfl
      · rfl
  | _ => simp [count, indexProblems, Change.apply]

/-- What has been counted stays counted. -/
theorem Counted.keep (h : e.Counted c) (alike : e.Alike c c') (evolves : c.Evolves c') :
    e.Counted c' := by
  cases e with
  | index m base place =>
    cases base with
    | ident m' name =>
      intro k i w literal natural linked stored
      have same : (c'.annotations.ofNode m'.id).var = (c.annotations.ofNode m'.id).var :=
        alike.parts (.ident m' name) (by simp [Expr.parts]) .var
      have type := alike.reads.vars i
      rw [stored] at type
      obtain ⟨v, before, _⟩ := Option.map_eq_some_iff.mp type.symm
      have least := h k i v literal natural (same ▸ linked) before
      exact least.trans (evolves.of_get? before stored).maxAccess
    | _ => trivial
  | _ => trivial

/-! ### Settled expressions -/

/-- An expression has been finished, and its notes are those that finishing it again would make. -/
structure Settled (env : Env) (e : Expr) (c : Context) : Prop where
  prepared : prepare env e c = .ok () c
  ty : (c.annotations.ofNode e.id).ty = some (e.typeOf env c).value
  effects : (c.annotations.ofNode e.id).effects = c.annotations.effectsOf (.expr e)
  counted : e.Counted c

/-- What is done at other expressions leaves an expression settled. -/
theorem Settled.keep {ts : List Touch} (h : e.Settled env c) (changes : Changes ts c c')
    (spared : ∀ t ∈ ts, e.Spares t) (elsewhere : ∀ n, .slot e.id n ∉ ts) : e.Settled env c' := by
  have alike := Alike.of_changes changes spared
  constructor
  · exact prepare_again h.prepared alike
  · have same : (c'.annotations.ofNode e.id).ty = (c.annotations.ofNode e.id).ty :=
      changes.agree (elsewhere .ty)
    rw [same, h.ty, alike.typeOf_eq]
  · have same : (c'.annotations.ofNode e.id).effects = (c.annotations.ofNode e.id).effects :=
      changes.agree (elsewhere .effects)
    rw [same, h.effects, alike.effectsOf_eq]
  · exact h.counted.keep alike changes.evolves

theorem Alike.note (e : Expr) (c : Context) (problems : List Diagnostic) :
    e.Alike c ((Change.note problems).apply c) := by
  have noting : Changes [.diagnostics] c ((Change.note problems).apply c) :=
    .single _ (by simp) trivial
  exact .of_changes noting (by simp [Spares, Touch.AtNode])

theorem Settled.note (h : e.Settled env c) (problems : List Diagnostic) :
    e.Settled env ((Change.note problems).apply c) := by
  have noting : Changes [.diagnostics] c ((Change.note problems).apply c) :=
    .single _ (by simp) trivial
  exact h.keep noting (by simp [Spares, Touch.AtNode]) (by simp)

/-- Finishing a settled expression repeats what was reported at it, and changes nothing else. -/
theorem Settled.finish (h : e.Settled env c) :
    finishExpr env e c = .ok () ((Change.note (e.heard env c)).apply c) := by
  let noted := (Change.note (e.typeOf env c).problems).apply c
  have annotated : c.annotations.ofNode e.id ≠ {} := by
    intro blank
    have type := h.ty
    simp [blank] at type
  have typed : (Change.annotate e.id (.ty (e.typeOf env c).value)).apply noted = noted :=
    Change.annotate_eq_self annotated (by simp [Slot.write, ← h.ty, noted, Change.apply])
  have counted : e.count noted = ((), (Change.note (e.indexProblems noted)).apply noted) :=
    count_of_counted (h.note _).counted
  let heard := (Change.note (e.indexProblems noted)).apply noted
  have left : (Change.annotate e.id (.effects (c.annotations.effectsOf (.expr e)))).apply heard
      = heard := by
    rw [← h.effects]
    exact Change.annotate_eq_self annotated rfl
  have index : e.indexProblems noted = e.indexProblems c := (Alike.note e c _).indexProblems_eq
  rw [finishExpr_eq_settle, AnalysisM.run_bind_of_ok h.prepared, settle,
    AnalysisM.run_bind_of_ok (noteType_eq env e c), typed, counted]
  have reported : heard = (Change.note (e.heard env c)).apply c := by
    simp only [heard, index]
    simp [noted, Change.apply, Expr.heard]
  rw [← reported]
  exact congrArg (EStateM.Result.ok ()) left

/-- An expression is settled when it has been finished. -/
theorem settled_of_finishExpr {next : Context} (own : e.anchors.Nodup)
    (apart : ∀ a ∈ e.parts, a.id ≠ e.id) (run : finishExpr env e c = .ok () next) :
    e.Settled env next ∧ next.diagnostics = c.diagnostics ++ e.heard env next := by
  rw [finishExpr_eq_settle] at run
  obtain ⟨_, between, prepared, settled⟩ := AnalysisM.run_bind_ok run
  have spared : ∀ t ∈ [Touch.diagnostics, .slot e.id .ty, .access, .slot e.id .effects],
      e.Spares t := by
    rw [anchors_eq] at own
    have fresh : e.id ∉ e.structIds := fun defined =>
      List.disjoint_of_nodup_append own defined (List.mem_singleton_self _)
    simp only [List.forall_mem_cons, Spares, Touch.AtNode]
    simpa [fresh] using apart
  have alike : e.Alike between next := by
    have changes := e.confined_settle env between
    rw [settled] at changes
    exact .of_changes changes spared
  let typed := (Change.annotate e.id (.ty (e.typeOf env between).value)).apply
    ((Change.note (e.typeOf env between).problems).apply between)
  let mid := (e.count typed).2
  have left : next
      = (Change.annotate e.id (.effects (mid.annotations.effectsOf (.expr e)))).apply mid := by
    obtain ⟨_, mid', noted, left⟩ := AnalysisM.run_bind_ok settled
    rw [noteType_eq] at noted
    cases noted
    cases left
    rfl
  have leaving : Changes [.slot e.id .effects] mid next := by
    rw [left]
    exact .single _ (by simp) trivial
  have alike' : e.Alike mid next :=
    .of_changes leaving fun t mem => spared t (by simp [List.mem_singleton.mp mem])
  constructor
  · constructor
    · exact prepare_again prepared alike
    · rw [type_of_settle settled, alike.typeOf_eq]
    · rw [alike'.effectsOf_eq, left]
      simp [Change.apply, Annotations.ofNode_update, Slot.write]
    · exact (counted_count e typed).keep alike' leaving.evolves
  · have silent : between.diagnostics = c.diagnostics :=
      (changes_of_prepare prepared).same (·.diagnostics) fun change mem _ => by
        cases change with
        | note => cases e <;> simp [touches] at mem
        | _ => rfl
    have typing : e.Alike between typed := by
      have noted : Changes [.diagnostics, .slot e.id .ty] between
          ((Change.note (e.typeOf env between).problems).apply between) :=
        .single _ (by simp) trivial
      refine .of_changes (noted.step (.annotate e.id (.ty _)) (by simp) trivial) fun t mem => ?_
      refine spared t ?_
      simp only [List.mem_cons, List.not_mem_nil, or_false] at mem ⊢
      tauto
    calc next.diagnostics
        = mid.diagnostics := by rw [left]; rfl
      _ = typed.diagnostics ++ e.indexProblems typed := diagnostics_count e typed
      _ = between.diagnostics ++ (e.typeOf env between).problems ++ e.indexProblems between := by
        rw [typing.indexProblems_eq]
        rfl
      _ = c.diagnostics ++ e.heard env next := by
        rw [alike.heard_eq, silent, List.append_assoc]
        rfl

/-- Expressions finished behind an expression spare it. -/
theorem Among.spares {done rest : List Expr} (among : e.Among done rest) :
    (∀ t ∈ footprint rest, e.Spares t) ∧ ∀ n, .slot e.id n ∉ footprint rest := by
  have own : e.id ∉ rest.map Expr.id := among.behind _ e.id_mem_anchors
  constructor
  · intro t mem
    cases t with
    | slot x n =>
      have written : x ∈ rest.map Expr.id := (slot_of_mem_footprint mem).1
      refine ⟨?_, ?_, ?_⟩
      · rintro a part rfl
        exact among.others a (among.parts a part) (List.mem_cons_of_mem _ written)
      · intro defined
        exact among.behind x (e.anchors_eq ▸ List.mem_append_left _ defined) written
      · rintro rfl
        exact absurd written own
    | _ => exact atNode_of_mem_footprint mem
  · intro n mem
    exact own (slot_of_mem_footprint mem).1

end

end Expr

/-! ### Whole visits -/

section

variable {env : Env} {e : Expr} {c after : Context}

/-- Expressions that are finished one after the other are settled in the end, and what was reported
is what is reported at each of them. -/
theorem settled_of_finishes (distinct : e.ids.Nodup) {done es : List Expr}
    (split : e.postorder = done ++ es) (run : finishes env es c = .ok () after) :
    (∀ p ∈ es, p.Settled env after) ∧
      after.diagnostics = c.diagnostics ++ es.flatMap (Expr.heard env · after) := by
  induction es generalizing done c with
  | nil =>
    cases run
    simp
  | cons p ps ih =>
    have among := Expr.among distinct split
    obtain ⟨_, next, own, others⟩ := AnalysisM.run_bind_ok run
    obtain ⟨settled, reported⟩ := ih (show e.postorder = (done ++ [p]) ++ ps by simp [split]) others
    have apart : ∀ a ∈ p.parts, a.id ≠ p.id := by
      intro a part same
      exact among.others a (among.parts a part) (by simp [same])
    obtain ⟨here, heard⟩ := Expr.settled_of_finishExpr among.anchors apart own
    obtain ⟨spared, elsewhere⟩ := among.spares
    have changes := changes_finishes others
    constructor
    · intro q mem
      rcases List.mem_cons.mp mem with rfl | later
      -- Settled when it has been finished, and spared by all that is finished behind it.
      · exact here.keep changes spared elsewhere
      · exact settled q later
    · rw [reported, heard, List.flatMap_cons, List.append_assoc,
        (Expr.Alike.of_changes changes spared).heard_eq]

/-- Finishing settled expressions again. -/
theorem finishes_settled {es : List Expr} (settled : ∀ p ∈ es, p.Settled env c) :
    finishes env es c
      = .ok () ((Change.note (es.flatMap (Expr.heard env · c))).apply c) := by
  induction es generalizing c with
  | nil => simp [finishes, Change.apply]
  | cons p ps ih =>
    let noted := (Change.note (p.heard env c)).apply c
    have others := ih (c := noted) fun q mem => (settled q (by simp [mem])).note _
    have same : ps.flatMap (Expr.heard env · noted) = ps.flatMap (Expr.heard env · c) :=
      List.flatMap_congr fun q _ => (Expr.Alike.note q c _).heard_eq env
    rw [finishes, AnalysisM.run_bind_of_ok (settled p (by simp)).finish, others, same]
    simp [noted, Change.apply]

end

/-- Visiting an expression with nodes of its own a second time, right after the first, goes well if
the first visit did. It reports the same diagnostics once more and changes nothing else: nothing is
resolved, described or counted anew. -/
theorem revisit_repeats {env : Env} {e : Expr} {ctx after : Context} (distinct : e.ids.Nodup)
    (run : visitExpr env e ctx = .ok () after) :
    ∃ reported, after.diagnostics = ctx.diagnostics ++ reported ∧
      visitExpr env e after
        = .ok () { after with diagnostics := after.diagnostics ++ reported } := by
  rw [visitExpr_eq_finishes] at run
  obtain ⟨settled, reported⟩ :=
    settled_of_finishes distinct (show e.postorder = [] ++ e.postorder from rfl) run
  refine ⟨_, reported, ?_⟩
  rw [visitExpr_eq_finishes, finishes_settled settled]
  rfl

/-- The expression `gl_FragCoord[5]`, which is out of bounds. -/
def Sample.outside : Expr :=
  .index (mark 2) (.ident (mark 0) "gl_FragCoord") (.int (mark 1) 5)

/-- The report of an index is repeated. -/
theorem revisit_repeats_outside :
    ∃ after, visitExpr (.standard {}) Sample.outside (.initial {}) = .ok () after ∧
      after.diagnostics = [⟨(Sample.mark 2).span, .indexOutOfBounds 5 (.vector .float 4)⟩] ∧
      visitExpr (.standard {}) Sample.outside after
        = .ok () { after with diagnostics := after.diagnostics ++ after.diagnostics } := by
  have run : ∃ after, visitExpr (.standard {}) Sample.outside (.initial {}) = .ok () after ∧
      after.diagnostics = [⟨(Sample.mark 2).span, .indexOutOfBounds 5 (.vector .float 4)⟩] :=
    ⟨_, rfl, by decide +kernel⟩
  obtain ⟨after, run, heard⟩ := run
  have silent : (Context.initial {}).diagnostics = [] := by decide +kernel
  obtain ⟨reported, noted, again⟩ := revisit_repeats (by decide) run
  rw [silent, List.nil_append] at noted
  refine ⟨after, run, heard, ?_⟩
  rw [again, noted]

end ShaderAnalysis
