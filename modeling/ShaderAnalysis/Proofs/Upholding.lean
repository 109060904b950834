import ShaderAnalysis.Proofs.Evolution

/-!
Properties of states that steps uphold. A step that begins in a state with such a property ends in
one, also where it fails; it may rely on the property on its way, and promise something of the value
that it gives. What every action upholds holds in all states that visits go through
(`Fragment.forall_mem_history`).
-/

namespace ShaderAnalysis

open Analysis

variable {α β : Type} {I : Context → Prop} {P : α → Prop} {Q : β → Prop} {ts : List Touch}
  {ctx : Context}

/-- Changes of a thing leave a property of states alone. -/
def Touch.Spares (I : Context → Prop) (t : Touch) : Prop :=
  ∀ c : Change, c.touch = t → ∀ ctx, c.Possible ctx → I ctx → I (c.apply ctx)

theorem Changes.upholds {ctx' : Context} (h : Changes ts ctx ctx')
    (spared : ∀ t ∈ ts, t.Spares I) (before : I ctx) : I ctx' :=
  h.invariant (fun c mem ctx possible => spared _ mem c rfl ctx possible) before

/-! ### Updates -/

/-- An update that is begun in a state with a property ends in one, and gives a value with another
property. -/
def Update.Upholds (I : Context → Prop) (ctx : Context) (u : Update α) (post : α → Prop) : Prop :=
  I ctx → I (u ctx).2 ∧ post (u ctx).1

namespace Update.Upholds

theorem pure {a : α} (h : P a) : Upholds I ctx (pure a : Update α) P :=
  fun holds => ⟨holds, h⟩

theorem done : Upholds I ctx (Pure.pure () : Update Unit) fun _ => True :=
  pure trivial

theorem bind {u : Update α} {f : α → Update β} (first : Upholds I ctx u P)
    (rest : ∀ a ctx', P a → Upholds I ctx' (f a) Q) : Upholds I ctx (u >>= f) Q := by
  intro holds
  obtain ⟨between, value⟩ := first holds
  exact rest _ _ value between

/-- Reading the state. -/
theorem read {f : Context → Update β} (rest : I ctx → Upholds I ctx (f ctx) Q) :
    Upholds I ctx (get >>= f) Q :=
  fun holds => rest holds holds

theorem confined {u : Update α} (h : u.Confined ts) (spared : ∀ t ∈ ts, t.Spares I) :
    Upholds I ctx u fun _ => True :=
  fun holds => ⟨(h ctx).upholds spared holds, trivial⟩

/-- A value that is noted, with what was found wrong on the way to it. -/
theorem noting {r : Reported α} (spared : Touch.diagnostics.Spares I) (value : P r.value) :
    Upholds I ctx (Update.noting r) P :=
  fun holds => ⟨spared (.note r.problems) rfl ctx trivial holds, value⟩

/-- Going on with a value that is noted. -/
theorem noting_bind {r : Reported α} {f : α → Update β} (spared : Touch.diagnostics.Spares I)
    (rest : ∀ ctx', Upholds I ctx' (f r.value) Q) : Upholds I ctx (Update.noting r >>= f) Q :=
  fun holds => rest _ (spared (.note r.problems) rfl ctx trivial holds)

end Update.Upholds

/-! ### Steps that may fail -/

/-- A step that is begun in a state with a property ends in one, also if it fails, and gives a value
with another property if it does not. -/
def Upholds (I : Context → Prop) (ctx : Context) (m : AnalysisM α) (post : α → Prop) : Prop :=
  I ctx → I (Context.reached (m ctx)) ∧ ∀ a after, m ctx = .ok a after → post a

namespace Upholds

theorem lift {u : Update α} (h : u.Upholds I ctx P) : Upholds I ctx (liftM u) P := by
  intro holds
  refine ⟨(h holds).1, ?_⟩
  intro a after run
  cases run
  exact (h holds).2

theorem pure {a : α} (h : P a) : Upholds I ctx (Pure.pure a) P :=
  lift (.pure h)

theorem throw (e : Fatal) : Upholds I ctx (MonadExcept.throw e : AnalysisM α) P := by
  intro holds
  refine ⟨holds, ?_⟩
  intro a after run
  cases run

theorem bind {m : AnalysisM α} {f : α → AnalysisM β} (first : Upholds I ctx m P)
    (rest : ∀ a ctx', P a → Upholds I ctx' (f a) Q) : Upholds I ctx (m >>= f) Q := by
  intro holds
  obtain ⟨between, value⟩ := first holds
  cases outcome : m ctx with
  | error e failed =>
    rw [outcome] at between
    rw [AnalysisM.run_bind_of_error outcome]
    refine ⟨between, ?_⟩
    intro b after run
    cases run
  | ok a reached =>
    rw [outcome] at between
    rw [AnalysisM.run_bind_of_ok outcome]
    exact rest a reached (value a reached outcome) between

/-- Reading the state. -/
theorem read {f : Context → AnalysisM β} (rest : I ctx → Upholds I ctx (f ctx) Q) :
    Upholds I ctx (get >>= f) Q :=
  fun holds => rest holds holds

/-- Giving back what was at hand before. -/
theorem giving {m : AnalysisM α} {b : β} (h : Upholds I ctx m P) (value : Q b) :
    Upholds I ctx (do let _ ← m; return b) Q :=
  h.bind fun _ _ _ => pure value

theorem confined {m : AnalysisM α} (h : Confined ts m) (spared : ∀ t ∈ ts, t.Spares I) :
    Upholds I ctx m fun _ => True :=
  fun holds => ⟨(h ctx).upholds spared holds, fun _ _ _ => trivial⟩

end Upholds

/-- Resolving an identifier upholds what linking it does: to the variable that is visible, and to a
new entry unless it has one. -/
theorem upholds_resolveIdentifier (o : Options) (m : Mark) (name : String)
    (linked : ∀ id v, ctx.visible? name = some (id, v) → I ctx →
      I ((Change.annotate m.id (.reflection ((ctx.annotations.ofNode m.id).reflection.getD
          (ctx.reflection.describe v o.stage).2))).apply
        ((Change.annotate m.id (.var id)).apply
          ((Change.setReflection (ctx.reflection.describe v o.stage).1).apply ctx)))) :
    Upholds I ctx (resolveIdentifier o m name) fun _ => True := by
  intro holds
  refine ⟨?_, fun _ _ _ => trivial⟩
  cases fresh : (ctx.annotations.ofNode m.id).var with
  | some id =>
    have same : resolveIdentifier o m name ctx = .ok () ctx := by simp [resolveIdentifier, fresh]
    rwa [same]
  | none =>
    cases visible : ctx.visible? name with
    | none =>
      have failed : resolveIdentifier o m name ctx = .error (.undefinedVariable name m.span) ctx :=
        by simp [resolveIdentifier, fresh, visible]
      rwa [failed]
    | some found =>
      rw [resolveIdentifier_of_visible o m fresh visible]
      exact linked found.1 found.2 visible holds

/-! ### Runs -/

section

variable {env : Env} {P : Ty → Prop}
  (step : ∀ (a : Action) (base : Ty) (ctx : Context), P base → Upholds I ctx (a.act env base) P)

include step

theorem forall_mem_states (as : List Action) {base : Ty} (given : P base) (holds : I ctx) :
    ∀ s ∈ states env as base ctx, I s := by
  induction as generalizing base ctx with
  | nil => simpa [states] using holds
  | cons a as ih =>
    obtain ⟨after, value⟩ := step a base ctx given holds
    rw [states]
    cases outcome : a.act env base ctx with
    | ok b next =>
      rw [outcome] at after
      exact List.forall_mem_cons.mpr ⟨holds, ih (value b next outcome) after⟩
    | error e failed =>
      rw [outcome] at after
      exact List.forall_mem_cons.mpr ⟨holds, List.forall_mem_singleton.mpr after⟩

/-- What every action upholds holds in all states that visits go through, if it does in the first,
and if what the actions rely on of the open declarations holds of those that are open at first. -/
theorem Fragment.forall_mem_history (fs : List Fragment) (given : ∀ f ∈ fs, P f.base)
    (holds : I ctx) : ∀ s ∈ Fragment.history env fs ctx, I s := by
  induction fs generalizing ctx with
  | nil => simpa [history] using holds
  | cons f fs ih =>
    have visited := forall_mem_states step f.agenda (given f (by simp)) holds
    have ended : Context.reached (f.visit env ctx) ∈ states env f.agenda f.base ctx := by
      refine List.mem_of_getLast? ?_
      rw [getLast?_states, f.visit_eq, Context.reached_giving]
    have others := ih (fun g mem => given g (by simp [mem])) (visited _ ended)
    exact List.forall_mem_append.mpr ⟨visited, others⟩

end

end ShaderAnalysis
