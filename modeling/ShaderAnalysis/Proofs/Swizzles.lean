import Mathlib.Data.List.Lattice
import Mathlib.Data.List.Nodup
import Mathlib.Data.List.Pairwise
import ShaderAnalysis.Proofs.ExprVisits
import ShaderAnalysis.Proofs.WellFormedTypes

/-!
Which swizzles are accepted. A text selects from `n` components if it is one to four letters of one
set, none of them beyond the first `n` (`Swizzle.Selects`), and these are the texts that have a type
as a swizzle (`Swizzle.select?_eq_some_iff`): on letters the limit on encoded bytes is one on their
number, and no two sets share a letter, so that it does not matter which set is tried first. A
selection on a vector, or on a scalar where the language lets it, is a swizzle, gets its type in
silence if it selects from the components that are there, and is reported once otherwise
(`Swizzle.Judged`). Nothing else of the base matters, and so swizzles of swizzles are judged by the
number of letters before them (`swizzles_judged`).
-/

namespace ShaderAnalysis

open Analysis

/-! ### Which texts are swizzles -/

namespace Swizzle

/-- A text selects from `n` components: it is one to four letters of one set, each of which stands
in it among the first `n`. Letters may come in any order, and more than once. -/
def Selects (n : Nat) (text : String) : Prop :=
  (1 ≤ text.length ∧ text.length ≤ 4) ∧
    ∃ letters ∈ ["xyzw", "rgba", "stpq"],
      ∀ c ∈ text.toList, ∃ i < n, letters.toList[i]? = some c

instance (n : Nat) (text : String) : Decidable (Selects n text) :=
  -- By going through the text: there is also a way that goes through all characters there are.
  have _ (letters : String) :
      Decidable (∀ c ∈ text.toList, ∃ i < n, letters.toList[i]? = some c) :=
    List.decidableBAll _ _
  inferInstanceAs (Decidable (_ ∧ _))

variable {set set' cs : List Char} {c : Char} {places : List Nat} {n : Nat} {text : String}

/-- The letters of all sets are different. -/
theorem nodup_flatten_letterSets : letterSets.flatten.Nodup := by
  decide

theorem nodup_of_mem_letterSets (mem : set ∈ letterSets) : set.Nodup :=
  (List.nodup_flatten.mp nodup_flatten_letterSets).1 set mem

/-- No letter is in two sets. -/
theorem eq_of_mem_letterSets (mem : set ∈ letterSets) (mem' : set' ∈ letterSets)
    (letter : c ∈ set) (letter' : c ∈ set') : set = set' := by
  have disjoint := (List.nodup_flatten.mp nodup_flatten_letterSets).2
  by_contra different
  have : Std.Symm (List.Disjoint (α := Char)) := ⟨fun _ _ => List.Disjoint.symm⟩
  exact disjoint.forall mem mem' different letter letter'

theorem utf8Size_of_mem_letterSets (mem : set ∈ letterSets) (letter : c ∈ set) :
    c.utf8Size = 1 := by
  have single : letterSets.flatten.all (·.utf8Size == 1) = true := by decide
  simpa using List.all_eq_true.mp single c (List.mem_flatten_of_mem mem letter)

theorem idxOf?_eq_some_iff_getElem? (nodup : set.Nodup) {i : Nat} :
    set.idxOf? c = some i ↔ set[i]? = some c := by
  rw [List.idxOf?_eq_some_iff, List.getElem?_eq_some_iff]
  constructor
  · rintro ⟨inside, here, _⟩
    exact ⟨inside, here⟩
  · rintro ⟨inside, here⟩
    refine ⟨inside, here, fun j before there => ?_⟩
    have same : j = i := nodup.getElem_inj_iff.mp (there.trans here.symm)
    omega

theorem mem_of_positions? (h : positions? set cs = some places) : ∀ c ∈ cs, c ∈ set := by
  induction cs generalizing places with
  | nil => simp
  | cons c cs ih =>
    simp only [positions?, Option.bind_eq_bind, Option.bind_eq_some_iff, Option.pure_def,
      Option.some.injEq] at h
    obtain ⟨i, place, rest, found, rfl⟩ := h
    intro d mem
    rcases List.mem_cons.mp mem with rfl | mem
    · by_contra outside
      simp [List.idxOf?_eq_none_iff.mpr outside] at place
    · exact ih found d mem

/-- Letters have places in a set, all among the first `n`. -/
theorem exists_positions?_iff (nodup : set.Nodup) :
    (∃ places, positions? set cs = some places ∧ ∀ i ∈ places, i < n) ↔
      ∀ c ∈ cs, ∃ i < n, set[i]? = some c := by
  induction cs with
  | nil => simp [positions?]
  | cons c cs ih =>
    simp only [positions?, Option.bind_eq_bind, Option.bind_eq_some_iff, Option.pure_def,
      Option.some.injEq, List.forall_mem_cons, ← ih, idxOf?_eq_some_iff_getElem? nodup]
    constructor
    · rintro ⟨_, ⟨i, place, is, rest, rfl⟩, inside⟩
      obtain ⟨first, others⟩ := List.forall_mem_cons.mp inside
      exact ⟨⟨i, first, place⟩, is, rest, others⟩
    · rintro ⟨⟨i, first, place⟩, is, rest, others⟩
      exact ⟨i :: is, ⟨i, place, is, rest, rfl⟩, List.forall_mem_cons.mpr ⟨first, others⟩⟩

theorem utf8Len_of_letters (single : ∀ c ∈ cs, c.utf8Size = 1) :
    String.utf8Len cs = cs.length := by
  induction cs with
  | nil => rfl
  | cons c cs ih =>
    obtain ⟨first, others⟩ := List.forall_mem_cons.mp single
    rw [String.utf8Len_cons, ih others, first, List.length_cons]

/-- At most one set has all the letters of a text, so that it does not matter which is tried
first. -/
theorem findSome?_positions?_iff (letter : c ∈ cs) :
    (letterSets.findSome? fun set => positions? set cs) = some places ↔
      ∃ set ∈ letterSets, positions? set cs = some places := by
  constructor
  · exact List.exists_of_findSome?_eq_some
  · rintro ⟨set, mem, found⟩
    have some : (letterSets.findSome? fun set => positions? set cs) ≠ none := by
      intro none
      rw [List.findSome?_eq_none_iff.mp none set mem] at found
      cases found
    obtain ⟨is, selected⟩ := Option.ne_none_iff_exists'.mp some
    obtain ⟨set', mem', found'⟩ := List.exists_of_findSome?_eq_some selected
    obtain rfl : set = set' := eq_of_mem_letterSets mem mem' (mem_of_positions? found c letter)
      (mem_of_positions? found' c letter)
    exact selected.trans (found'.symm.trans found)

/-- On letters, the limit on encoded bytes is one on their number. -/
theorem components?_eq_some_iff :
    components? text = some places ↔ (1 ≤ text.length ∧ text.length ≤ 4) ∧
      ∃ set ∈ letterSets, positions? set text.toList = some places := by
  constructor
  · intro h
    obtain ⟨some, most⟩ := length_of_components? h
    unfold components? at h
    split at h
    · cases h
    · obtain ⟨set, mem, found⟩ := List.exists_of_findSome?_eq_some h
      rw [length_of_positions? found, String.length_toList] at some most
      exact ⟨⟨some, most⟩, set, mem, found⟩
  · rintro ⟨⟨some, most⟩, set, mem, found⟩
    have letters := mem_of_positions? found
    have bytes : text.utf8ByteSize = text.length := by
      rw [← String.utf8Len_toList, ← String.length_toList]
      exact utf8Len_of_letters fun c inside => utf8Size_of_mem_letterSets mem (letters c inside)
    obtain ⟨c, first⟩ : ∃ c, c ∈ text.toList :=
      List.exists_mem_of_length_pos (by rwa [String.length_toList])
    have full : text.isEmpty = false := by
      rw [String.isEmpty_eq_false_iff]
      rintro rfl
      cases first
    have short : (text.isEmpty || decide (text.utf8ByteSize > 4)) = false := by
      simp [full, bytes, most]
    rw [components?, short]
    exact (findSome?_positions?_iff first).mpr ⟨set, mem, found⟩

/-- The texts that have a type as a swizzle, and the types that they have. -/
theorem select?_eq_some_iff {base t : Ty} {k : ScalarKind} (kind : base.baseKind? = some k) :
    select? base text = some t ↔
      Selects base.componentCount text ∧ t = Ty.ofComponents k text.length := by
  have inside : (∃ set ∈ letterSets, ∃ places, positions? set text.toList = some places ∧
      ∀ i ∈ places, i < base.componentCount) ↔
        ∃ letters ∈ ["xyzw", "rgba", "stpq"],
          ∀ c ∈ text.toList, ∃ i < base.componentCount, letters.toList[i]? = some c := by
    have sets : letterSets = ["xyzw", "rgba", "stpq"].map String.toList := by decide
    rw [sets]
    simp only [List.mem_map, exists_exists_and_eq_and]
    refine exists_congr fun letters => and_congr_right fun mem => ?_
    exact exists_positions?_iff (nodup_of_mem_letterSets (sets ▸ List.mem_map_of_mem mem))
  simp only [select?, kind, Option.bind_eq_bind, Option.bind_some, Option.bind_eq_some_iff,
    Option.ite_none_right_eq_some, Option.pure_def, Option.some.injEq, components?_eq_some_iff,
    List.all_eq_true, decide_eq_true_eq]
  rw [Selects, ← inside]
  constructor
  · rintro ⟨places, ⟨short, set, mem, found⟩, fits, rfl⟩
    refine ⟨⟨short, set, mem, places, found, fits⟩, ?_⟩
    rw [length_of_positions? found, String.length_toList]
  · rintro ⟨⟨short, set, mem, places, found, fits⟩, rfl⟩
    refine ⟨places, ⟨short, set, mem, found⟩, fits, ?_⟩
    rw [length_of_positions? found, String.length_toList]

/-- Letters may be mixed up and repeated, but not taken from two sets or from beyond the components.
What is not a letter has no place. -/
example :
    Selects 4 "wzyx" ∧ Selects 2 "gggr" ∧ ¬ Selects 3 "xyzw" ∧ ¬ Selects 4 "xg" ∧
      ¬ Selects 4 "xyxyx" ∧ ¬ Selects 4 "" ∧ ¬ Selects 4 "é" := by
  decide +kernel

end Swizzle

/-! ### Visits of swizzles -/

/-- The types that swizzles select from, with the kind and the number of their components: vectors,
and scalars where the language lets them. -/
inductive Ty.Swizzled (o : Options) : Ty → ScalarKind → Nat → Prop
  | vector (k : ScalarKind) (n : Nat) : Swizzled o (.vector k n) k n
  | scalar (k : ScalarKind) : o.relaxedScalarSwizzle = true → Swizzled o (.scalar k) k 1

namespace Ty.Swizzled

variable {o : Options} {t : Ty} {k : ScalarKind} {n : Nat}

theorem ofComponents (k : ScalarKind) (scalars : n = 1 → o.relaxedScalarSwizzle = true) :
    (Ty.ofComponents k n).Swizzled o k n := by
  unfold Ty.ofComponents
  split
  · rename_i one
    subst one
    exact .scalar k (scalars rfl)
  · exact .vector k n

/-- A selection on such a type is a swizzle. -/
theorem classify (h : t.Swizzled o k n) :
    t.isError = false ∧
      SelectionKind.classify t false o.relaxedScalarSwizzle = some .swizzle := by
  cases h with
  | vector => exact ⟨rfl, rfl⟩
  | scalar k relaxed =>
    exact ⟨rfl, by simp [SelectionKind.classify, isRecord, isVector, isScalar, relaxed]⟩

/-- A swizzle has a type if it selects from the components, and is reported otherwise. -/
theorem typeOf (h : t.Swizzled o k n) (text : String) (span : Span) :
    SelectionKind.swizzle.typeOf t text span =
      if Swizzle.Selects n text then pure (.ofComponents k text.length)
      else Reported.reject span (.invalidSwizzle t text) := by
  have kind : t.baseKind? = some k := by cases h <;> rfl
  have count : t.componentCount = n := by cases h <;> rfl
  have selected (ty : Ty) : Swizzle.select? t text = some ty ↔
      Swizzle.Selects n text ∧ ty = Ty.ofComponents k text.length := by
    rw [← count]
    exact Swizzle.select?_eq_some_iff kind
  split
  · rename_i selects
    simp only [SelectionKind.typeOf, (selected _).mpr ⟨selects, rfl⟩]
  · rename_i selects
    have none : Swizzle.select? t text = none :=
      Option.eq_none_iff_forall_ne_some.mpr fun ty found => selects ((selected ty).mp found).1
    simp only [SelectionKind.typeOf, none]

end Ty.Swizzled

namespace Swizzle

/-- A selection has been found to be a swizzle of a base with `n` components of a kind. The first
state is that in which its base has been visited, the second that in which it has been finished. -/
structure Judged (base : Ty) (k : ScalarKind) (n : Nat) (m : Mark) (text : String)
    (before after : Context) : Prop where
  selection : (after.annotations.ofNode m.id).selection = some .swizzle
  accepted : Selects n text →
    (after.annotations.ofNode m.id).ty = some (.ofComponents k text.length) ∧
      after.diagnostics = before.diagnostics
  refused : ¬ Selects n text →
    (after.annotations.ofNode m.id).ty = some .error ∧
      after.diagnostics = before.diagnostics ++ [⟨m.span, .invalidSwizzle base text⟩]

variable {env : Env} {base : Expr} {ctx before : Context} {k : ScalarKind} {n : Nat}

/-- A selection that is a swizzle is finished without a fatal condition. -/
theorem judged_finishExpr (type : (ctx.typeOf base.id).Swizzled env.options k n) (m : Mark)
    (text : String) :
    ∃ after, finishExpr env (.field m base text) ctx = .ok () after ∧
      Judged (ctx.typeOf base.id) k n m text ctx after := by
  let classified := (Change.annotate m.id (.selection .swizzle)).apply ctx
  have prepared : prepare env (.field m base text) ctx = .ok () classified := by
    obtain ⟨resolved, swizzle⟩ := type.classify
    simp only [prepare, classifySelection, AnalysisM.run_get_bind, resolved, swizzle]
    rfl
  have noted : (classified.annotations.ofNode m.id).selection = some .swizzle := by
    simp [classified, Change.apply, Annotations.ofNode_update, Slot.write]
  have typed : (Expr.field m base text).typeOf env classified =
      if Selects n text then pure (.ofComponents k text.length)
      else Reported.reject m.span (.invalidSwizzle (ctx.typeOf base.id) text) := by
    rw [Expr.typeOf, Expr.typeOfSelection, noted, ctx.typeOf_annotate _ _ (by simp)]
    exact type.typeOf text m.span
  obtain ⟨after, settled⟩ := (Expr.field m base text).succeeds_settle env classified
  have same := Expr.agree_of_settle settled (n := .selection) (by decide)
  have own := Expr.type_of_settle settled
  have heard : after.diagnostics
      = ctx.diagnostics ++ ((Expr.field m base text).typeOf env classified).problems := by
    cases settled
    rfl
  rw [typed] at own heard
  refine ⟨after, ?_, same.trans noted, fun selects => ?_, fun selects => ?_⟩
  · rw [finishExpr_eq_settle, AnalysisM.run_bind_of_ok prepared, settled]
  · rw [if_pos selects] at own heard
    exact ⟨own, by simpa using heard⟩
  · rw [if_neg selects] at own heard
    exact ⟨own, heard⟩

/-- A selection is visited after its base. -/
theorem judged_visitExpr (run : visitExpr env base ctx = .ok () before)
    (type : (before.typeOf base.id).Swizzled env.options k n) (m : Mark) (text : String) :
    ∃ after, visitExpr env (.field m base text) ctx = .ok () after ∧
      Judged (before.typeOf base.id) k n m text before after := by
  rw [visitExpr, AnalysisM.run_bind_of_ok run]
  exact judged_finishExpr type m text

/-- Where scalars have no swizzles, a selection on one reads as nothing. -/
theorem halts_visitExpr (run : visitExpr env base ctx = .ok () before)
    (type : before.typeOf base.id = .scalar k) (strict : env.options.relaxedScalarSwizzle = false)
    (m : Mark) (text : String) :
    visitExpr env (.field m base text) ctx
      = .error (.unclassifiedSelection text (.scalar k) m.span) before := by
  have nothing : SelectionKind.classify (.scalar k) false false = none := rfl
  have prepared : prepare env (.field m base text) before
      = .error (.unclassifiedSelection text (.scalar k) m.span) before := by
    simp [prepare, classifySelection, type, Ty.isError, strict, nothing]
  rw [visitExpr, AnalysisM.run_bind_of_ok run, finishExpr_eq_settle]
  exact AnalysisM.run_bind_of_error prepared _

/-- Swizzles one after the other, from `n` components to as many as the last one has letters, all
of which are accepted and may be followed by another one. -/
inductive Path (o : Options) : Nat → List (Mark × String) → Nat → Prop
  | nil (n : Nat) : Path o n [] n
  | cons {n r : Nat} {m : Mark} {text : String} {rest : List (Mark × String)} : Selects n text →
    (text.length = 1 → o.relaxedScalarSwizzle = true) → Path o text.length rest r →
    Path o n ((m, text) :: rest) r

end Swizzle

/-- An expression with selections on it, the first of which is the innermost. -/
def Expr.selections (base : Expr) : List (Mark × String) → Expr
  | [] => base
  | (m, text) :: rest => (Expr.field m base text).selections rest

namespace Swizzle

variable {env : Env} {base : Expr} {ctx before : Context} {k : ScalarKind} {n r : Nat}

/-- Accepted swizzles are visited in silence, and each leaves the next one its letters. -/
theorem Path.exists_visitExpr {path : List (Mark × String)} (h : Path env.options n path r)
    (run : visitExpr env base ctx = .ok () before)
    (type : (before.typeOf base.id).Swizzled env.options k n) :
    ∃ reached, visitExpr env (base.selections path) ctx = .ok () reached ∧
      (reached.typeOf (base.selections path).id).Swizzled env.options k r ∧
      reached.diagnostics = before.diagnostics := by
  induction h generalizing base before with
  | nil n => exact ⟨before, run, type, rfl⟩
  | @cons n r m text rest selects scalars _ ih =>
    obtain ⟨next, own, judged⟩ := judged_visitExpr run type m text
    obtain ⟨noted, silent⟩ := judged.accepted selects
    have type' : (next.typeOf m.id).Swizzled env.options k text.length := by
      rw [Context.typeOf, noted]
      exact .ofComponents k scalars
    obtain ⟨reached, others, last, silent'⟩ := ih own type'
    exact ⟨reached, others, last, silent'.trans silent⟩

end Swizzle

/-- How swizzles are judged, for a base that is visited without a fatal condition and is a vector of
`n` components or, where the language has swizzles of scalars, a scalar. Any selection on it without
arguments is a swizzle; it has a type, and nothing is reported, exactly if it selects from `n`
components. Behind any number of accepted swizzles, one after the other, the next one is judged in
the same way by the number `r` of letters of the last, whatever else the base was. An accepted
swizzle of one letter is a scalar: where these have none, a selection on it is no swizzle, and ends
the analysis. -/
theorem swizzles_judged {env : Env} {base : Expr} {ctx before : Context} {k : ScalarKind} {n : Nat}
    (run : visitExpr env base ctx = .ok () before)
    (type : (before.typeOf base.id).Swizzled env.options k n) :
    (∀ m text, ∃ after, visitExpr env (.field m base text) ctx = .ok () after ∧
      Swizzle.Judged (before.typeOf base.id) k n m text before after) ∧
    (∀ path r, Swizzle.Path env.options n path r →
      ∃ reached, visitExpr env (base.selections path) ctx = .ok () reached ∧
        reached.diagnostics = before.diagnostics ∧
        ∀ m text, ∃ after,
          visitExpr env (.field m (base.selections path) text) ctx = .ok () after ∧
          Swizzle.Judged (reached.typeOf (base.selections path).id) k r m text reached after) ∧
    ∀ m text m' text', Swizzle.Selects n text → text.length = 1 →
      env.options.relaxedScalarSwizzle = false →
      ∃ failed, visitExpr env (.field m' (.field m base text) text') ctx
        = .error (.unclassifiedSelection text' (.scalar k) m'.span) failed := by
  refine ⟨Swizzle.judged_visitExpr run type, ?_, ?_⟩
  · intro path r accepted
    obtain ⟨reached, run', type', silent⟩ := accepted.exists_visitExpr run type
    exact ⟨reached, run', silent, Swizzle.judged_visitExpr run' type'⟩
  · intro m text m' text' selects one strict
    obtain ⟨after, run', judged⟩ := Swizzle.judged_visitExpr run type m text
    have scalar : after.typeOf m.id = .scalar k := by
      rw [Context.typeOf, (judged.accepted selects).1, one]
      rfl
    exact ⟨after, Swizzle.halts_visitExpr run' scalar strict m' text'⟩

/-- The expression `vec4(1.0)`. -/
def Sample.ones : Expr :=
  .construct (mark 1) ⟨.named "vec4", none⟩ [.float (mark 0) 1]

/-- The swizzle `.zyx` of four components is accepted, and leaves `.w` nothing to select. -/
theorem swizzles_judged_ones :
    ∃ before reached after, visitExpr (.standard {}) Sample.ones (.initial {}) = .ok () before ∧
      before.typeOf ⟨1⟩ = .vector .float 4 ∧ before.diagnostics = [] ∧
      Swizzle.Judged (.vector .float 4) .float 4 (Sample.mark 2) "zyx" before reached ∧
      (reached.annotations.ofNode ⟨2⟩).ty = some (.vector .float 3) ∧
      visitExpr (.standard {})
        (.field (Sample.mark 3) (.field (Sample.mark 2) Sample.ones "zyx") "w") (.initial {})
          = .ok () after ∧
      (after.annotations.ofNode ⟨3⟩).ty = some .error ∧
      after.diagnostics = [⟨(Sample.mark 3).span, .invalidSwizzle (.vector .float 3) "w"⟩] := by
  obtain ⟨before, run, type, silent⟩ : ∃ before,
      visitExpr (.standard {}) Sample.ones (.initial {}) = .ok () before ∧
        before.typeOf ⟨1⟩ = .vector .float 4 ∧ before.diagnostics = [] :=
    ⟨_, rfl, by decide +kernel, by decide +kernel⟩
  have swizzled : (before.typeOf Sample.ones.id).Swizzled {} .float 4 := by
    rw [show Sample.ones.id = ⟨1⟩ from rfl, type]
    exact .vector .float 4
  obtain ⟨single, behind, _⟩ := @swizzles_judged (.standard {}) _ _ _ _ _ run swizzled
  obtain ⟨reached, run₁, judged⟩ := single (Sample.mark 2) "zyx"
  have noted := (judged.accepted (by decide +kernel)).1
  obtain ⟨reached', run₁', silent', next⟩ :=
    behind [(Sample.mark 2, "zyx")] 3 (.cons (by decide +kernel) (by decide) (.nil 3))
  cases run₁.symm.trans run₁'
  obtain ⟨after, run₂, judged'⟩ := next (Sample.mark 3) "w"
  obtain ⟨error, reported⟩ := judged'.refused (by decide +kernel)
  have three : reached.typeOf (Sample.ones.selections [(Sample.mark 2, "zyx")]).id
      = .vector .float 3 := by
    rw [Context.typeOf, show (Sample.ones.selections _).id = (Sample.mark 2).id from rfl, noted]
    rfl
  rw [silent', silent, three] at reported
  rw [show Sample.ones.id = ⟨1⟩ from rfl, type] at judged
  exact ⟨before, reached, after, run, type, silent, judged, noted, run₂, error, reported⟩

end ShaderAnalysis
