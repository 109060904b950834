import Mathlib.Logic.Equiv.Basic
import ShaderAnalysis.Proofs.AlikeTrees
import ShaderAnalysis.Proofs.Frames
import ShaderAnalysis.Proofs.RelabeledRuns

/-!
Units that are alike are analysed alike (`analyze_agrees`). Relabelings take both to one unit: the
nodes of the first get the numbers that the second gives them, and all places are forgotten. What
the two analyses come to is then one result, relabeled in two ways.
-/

namespace ShaderAnalysis

/-! ### Results that agree -/

/-- The variable without its place. -/
def Variable.unplaced (v : Variable) : Variable :=
  { v with span := {} }

/-- Two states that agree, given which nodes of two trees belong together: they differ in the
places of variables and diagnostics, and in the numbers under which annotations are kept. -/
structure Context.Agrees (nodes : List (NodeId × NodeId)) (ctx ctx' : Context) : Prop where
  declarations : ctx.declarations = ctx'.declarations
  reflection : ctx.reflection = ctx'.reflection
  vars : ctx.vars.entries.map Variable.unplaced = ctx'.vars.entries.map Variable.unplaced
  annotations : ∀ p ∈ nodes, ctx.annotations.table.get? p.1 = ctx'.annotations.table.get? p.2
  problems : ctx.diagnostics.map (·.problem) = ctx'.diagnostics.map (·.problem)

/-- Two analyses that come to the same: both end, or both break off under one fatal condition. -/
inductive Agree (nodes : List (NodeId × NodeId)) :
    EStateM.Result Fatal Context Unit → EStateM.Result Fatal Context Unit → Prop
  | ended {ctx ctx' : Context} : ctx.Agrees nodes ctx' → Agree nodes (.ok () ctx) (.ok () ctx')
  | broken {e e' : Fatal} {ctx ctx' : Context} : e.kind = e'.kind → e.message = e'.message →
    ctx.Agrees nodes ctx' → Agree nodes (.error e ctx) (.error e' ctx')

/-! ### Renumberings -/

/-- Distinct numbers can be renumbered to any others, as many and distinct as well. -/
theorem exists_renumbering : ∀ {ids ids' : List NodeId}, ids.length = ids'.length → ids.Nodup →
    ids'.Nodup → ∃ p : Equiv.Perm NodeId, ids.map p = ids'
  | [], [], _, _, _ => ⟨Equiv.refl _, rfl⟩
  | i :: is, j :: js, length, distinct, distinct' => by
    obtain ⟨fresh, rest⟩ := List.nodup_cons.mp distinct
    obtain ⟨fresh', rest'⟩ := List.nodup_cons.mp distinct'
    obtain ⟨p, rfl⟩ := exists_renumbering (Nat.succ.inj length) rest rest'
    refine ⟨p.trans (Equiv.swap (p i) j), ?_⟩
    have kept : ∀ k ∈ is, Equiv.swap (p i) j (p k) = p k := by
      intro k mem
      refine Equiv.swap_apply_of_ne_of_ne (fun same => fresh ?_) (fun same => fresh' ?_)
      · rwa [← p.injective same]
      · exact same ▸ List.mem_map_of_mem mem
    rw [List.map_cons, Equiv.trans_apply, Equiv.swap_apply_left]
    exact congrArg (j :: ·) (List.map_congr_left kept)
  | [], _ :: _, length, _, _ | _ :: _, [], length, _, _ => by simp at length

/-- A renumbering that forgets places, and the values of literals. -/
def Relabeling.blank (p : Equiv.Perm NodeId) : Relabeling :=
  { node := p, place := fun _ => {}, literal := fun _ => 0, injective := p.injective, nowhere := rfl }

theorem Relabeling.blind_blank (p p' : Equiv.Perm NodeId) : (blank p).Blind (blank p') :=
  ⟨fun _ _ => rfl, fun _ _ => rfl⟩

/-- Units that are alike become one if the nodes of the first are renumbered as in the second. -/
theorem SourceUnit.exists_relabel_eq {unit unit' : SourceUnit} (alike : unit.alike unit' = true)
    (distinct : unit.ids.Nodup) (distinct' : unit'.ids.Nodup) :
    ∃ p : Equiv.Perm NodeId, unit.ids.map p = unit'.ids ∧
      unit.relabel (.blank p) = unit'.relabel (.blank (Equiv.refl NodeId)) := by
  have matched := fun p : Equiv.Perm NodeId =>
    SourceUnit.matched (Relabeling.blind_blank p (Equiv.refl NodeId)) alike
  obtain ⟨p, renumbered⟩ :=
    exists_renumbering (matched (Equiv.refl NodeId)).length distinct distinct'
  refine ⟨p, renumbered, (matched p).meet ?_⟩
  exact renumbered.trans (List.map_id _).symm

/-! ### Reading results off -/

/-- States that are one when relabeled agree. -/
theorem Context.agrees_of_relabel {p : Equiv.Perm NodeId} {ids : List NodeId} {ctx ctx' : Context}
    (same : ctx.relabel (.blank p) = ctx'.relabel (.blank (Equiv.refl NodeId))) :
    ctx.Agrees (ids.zip (ids.map p)) ctx' := by
  have declarations := congrArg Context.declarations same
  have reflection := congrArg Context.reflection same
  have vars := congrArg (·.vars.entries) same
  have annotations : ctx.annotations.relabel (.blank p)
      = ctx'.annotations.relabel (.blank (Equiv.refl NodeId)) := congrArg Context.annotations same
  have problems := congrArg (fun ctx => ctx.diagnostics.map (·.problem)) same
  refine ⟨declarations, reflection, vars, fun pair mem => ?_, ?_⟩
  · rw [← List.map_prod_left_eq_zip] at mem
    obtain ⟨i, _, rfl⟩ := List.mem_map.mp mem
    calc ctx.annotations.table.get? i
        = (ctx.annotations.relabel (.blank p)).table.get? (p i) :=
          (ctx.annotations.get?_relabel (.blank p) i).symm
      _ = (ctx'.annotations.relabel (.blank (Equiv.refl NodeId))).table.get? (p i) := by
          rw [annotations]
      _ = ctx'.annotations.table.get? (p i) :=
          ctx'.annotations.get?_relabel (.blank (Equiv.refl NodeId)) (p i)
  · simpa [Context.relabel, Function.comp_def, Diagnostic.relabel] using problems

theorem Fatal.kind_relabel (r : Relabeling) (e : Fatal) : (e.relabel r).kind = e.kind := by
  cases e <;> rfl

theorem Fatal.message_relabel (r : Relabeling) (e : Fatal) : (e.relabel r).message = e.message := by
  cases e <;> rfl

/-- Results that are one when relabeled agree. -/
theorem agree_of_relabelResult {p : Equiv.Perm NodeId} {ids : List NodeId}
    {outcome outcome' : EStateM.Result Fatal Context Unit}
    (same : relabelResult (.blank p) outcome
      = relabelResult (.blank (Equiv.refl NodeId)) outcome') :
    Agree (ids.zip (ids.map p)) outcome outcome' := by
  cases outcome with
  | ok a ctx =>
    cases outcome' with
    | ok a' ctx' =>
      simp only [relabelResult, EStateM.Result.ok.injEq, true_and] at same
      exact .ended (Context.agrees_of_relabel same)
    | error e' ctx' => simp [relabelResult] at same
  | error e ctx =>
    cases outcome' with
    | ok a' ctx' => simp [relabelResult] at same
    | error e' ctx' =>
      simp only [relabelResult, EStateM.Result.error.injEq] at same
      have kinds := congrArg Fatal.kind same.1
      have messages := congrArg Fatal.message same.1
      rw [Fatal.kind_relabel, Fatal.kind_relabel] at kinds
      rw [Fatal.message_relabel, Fatal.message_relabel] at messages
      exact .broken kinds messages (Context.agrees_of_relabel same.2)

/-- Units that are alike, each with numbers that are distinct, are analysed alike. -/
theorem analyze_agrees (env : Env) {unit unit' : SourceUnit} (alike : unit.alike unit' = true)
    (distinct : unit.ids.Nodup) (distinct' : unit'.ids.Nodup) :
    unit.ids.length = unit'.ids.length ∧
      Agree (unit.ids.zip unit'.ids) (analyze env unit) (analyze env unit') := by
  obtain ⟨p, renumbered, same⟩ := SourceUnit.exists_relabel_eq alike distinct distinct'
  have results : relabelResult (.blank p) (analyze env unit)
      = relabelResult (.blank (Equiv.refl NodeId)) (analyze env unit') := by
    rw [← analyze_relabel, ← analyze_relabel, same]
  rw [← renumbered]
  exact ⟨(List.length_map _).symm, agree_of_relabelResult results⟩

/-- Twelve numbers on, and one line down. -/
def Sample.later : Relabeling where
  node i := ⟨i.index + 12⟩
  place span := if span = {} then {} else { span with line := span.line + 1 }
  literal := id
  injective i j same := by
    cases i
    cases j
    simpa using same
  nowhere := rfl

theorem analyze_shadowing_agrees :
    Sample.shadowing.alike (Sample.shadowing.relabel Sample.later) = true ∧
      Sample.shadowing.ids.Nodup ∧ (Sample.shadowing.relabel Sample.later).ids.Nodup ∧
      Agree (Sample.shadowing.ids.zip (Sample.shadowing.relabel Sample.later).ids)
        (analyze (.standard {}) Sample.shadowing)
        (analyze (.standard {}) (Sample.shadowing.relabel Sample.later)) := by
  have alike : Sample.shadowing.alike (Sample.shadowing.relabel Sample.later) = true := by
    decide +kernel
  have distinct : Sample.shadowing.ids.Nodup := by decide +kernel
  have distinct' : (Sample.shadowing.relabel Sample.later).ids.Nodup := by decide +kernel
  exact ⟨alike, distinct, distinct', (analyze_agrees (.standard {}) alike distinct distinct').2⟩

end ShaderAnalysis
