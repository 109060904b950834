import ShaderAnalysis.Proofs.Binding
import ShaderAnalysis.Proofs.CleanCheck
import ShaderAnalysis.Proofs.Evolution
import ShaderAnalysis.Proofs.Following

/-!
Accesses at constant indices. The store keeps the highest one for each variable, at every point of
an analysis, and three checks look at it: the index check against the length there is, and those
of a later declaration and of a later layout against the length that comes. If none of them reports
anything, no access is out of bounds, in whatever order accesses and lengths came
(`constant_accesses`).
-/

namespace ShaderAnalysis

open Analysis

/-! ### Counting accesses -/

/-- The constant index that an expression is, unless it is negative. -/
def Expr.constantIndex? (e : Expr) : Option Nat :=
  e.intConstant?.bind fun k => if 0 ≤ k then some k.toNat else none

theorem Expr.constantIndex?_eq_some {e : Expr} {k : Int} (literal : e.intConstant? = some k)
    (natural : 0 ≤ k) : e.constantIndex? = some k.toNat := by
  simp [constantIndex?, literal, natural]

/-- The constant index that an action counts as an access to a variable: the literal at an index
into a name that is linked to the variable. -/
def Action.accesses (linked : NodeId → Option VarId) (id : VarId) : Action → List Nat
  | .check (.index _ (.ident m _) place) =>
    if linked m.id = some id then place.constantIndex?.toList else []
  | _ => []

/-- The constant indices at which a variable has been accessed, in order. -/
def accesses (linked : NodeId → Option VarId) (id : VarId) (done : List Action) : List Nat :=
  done.flatMap (Action.accesses linked id)

/-- A point of the analysis of a unit, with the actions that have been done: it stands between two
actions, or behind one that failed. -/
inductive Point (env : Env) (unit : SourceUnit) : List Action → Context → Prop
  | between {done rest : List Action} {b : Ty} {ctx : Context} : unit.agenda = done ++ rest →
    perform env done .void (.initial env.options) = .ok b ctx → Point env unit done ctx
  | failed {done rest : List Action} {a : Action} {b : Ty} {ctx after : Context} {e : Fatal} :
    unit.agenda = done ++ a :: rest →
    perform env done .void (.initial env.options) = .ok b ctx →
    a.act env b ctx = .error e after → Point env unit done after

/-- Nothing has been accessed before any source is seen. -/
theorem Context.accessOf_initial (o : Options) (id : VarId) :
    (Context.initial o).accessOf id = 0 := by
  unfold Context.accessOf
  cases stored : (Context.initial o).vars.get? id with
  | none => rfl
  | some v => exact Builtin.maxAccess_eq_zero (mem_stageVariables_of_initial stored)

/-! ### Variables of nodes -/

/-- Nodes are linked to variables that are in the store. -/
def Context.LinksStored (ctx : Context) : Prop :=
  ∀ node id, ctx.varAt node = some id → id.index < ctx.vars.size

namespace Context.LinksStored

variable {ctx : Context}

theorem change (h : ctx.LinksStored) (c : Change) (possible : c.Possible ctx) :
    (c.apply ctx).LinksStored := by
  intro node id linked
  refine Nat.lt_of_lt_of_le ?_ (c.vars_size_le ctx)
  rcases c.ofNode_apply ctx node with ⟨slot, rfl, written⟩ | same
  · rw [varAt, written] at linked
    cases slot with
    | var v =>
      cases linked
      exact possible
    | _ => exact h node id linked
  · rw [varAt, same] at linked
    exact h node id linked

theorem changes {ts : List Touch} {ctx' : Context} (h : ctx.LinksStored)
    (changes : Changes ts ctx ctx') : ctx'.LinksStored :=
  changes.invariant (fun c _ _ possible stored => stored.change c possible) h

theorem initial (o : Options) : (Context.initial o).LinksStored := by
  intro node id linked
  rw [varAt, Context.annotations_initial] at linked
  cases linked

theorem get? (h : ctx.LinksStored) {node : NodeId} {id : VarId}
    (linked : ctx.varAt node = some id) : ∃ v, ctx.vars.get? id = some v :=
  ⟨_, Array.getElem?_eq_getElem (h node id linked)⟩

end Context.LinksStored

/-! ### The check of an index -/

theorem Context.accessOf_access {ctx : Context} {i : VarId} {v : Variable}
    (stored : ctx.vars.get? i = some v) (k : Nat) (id : VarId) :
    ((Change.access i k).apply ctx).accessOf id
      = if i = id then max (ctx.accessOf id) k else ctx.accessOf id := by
  by_cases same : i = id
  · subst same
    simp [accessOf, Change.apply, Variables.get?_modify, stored]
  · simp [accessOf, Change.apply, Variables.get?_modify, same]

theorem accessOf_raiseAccess {ctx : Context} (links : ctx.LinksStored) (k : Nat) (m : Mark)
    (name : String) (id : VarId) :
    (raiseAccess k (.ident m name) ctx).2.accessOf id
      = if ctx.varAt m.id = some id then max (ctx.accessOf id) k else ctx.accessOf id := by
  simp only [raiseAccess, Update.run_bind, Update.run_get]
  cases linked : (ctx.annotations.ofNode m.id).var with
  | none => simp [Context.varAt, linked]
  | some i =>
    obtain ⟨v, stored⟩ := links.get? linked
    simp only [Context.varAt, linked, Option.some.injEq]
    exact Context.accessOf_access stored k id

/-- An index check counts the access that it looks at, whatever it reports. -/
theorem accessOf_recordAccess {ctx : Context} (links : ctx.LinksStored) (m : Mark)
    (base place : Expr) (id : VarId) :
    (recordAccess m base place ctx).2.accessOf id
      = (Action.accesses ctx.varAt id (.check (.index m base place))).foldl max
          (ctx.accessOf id) := by
  unfold recordAccess
  cases literal : place.intConstant? with
  | none => cases base <;> simp [Action.accesses, Expr.constantIndex?, literal]
  | some k =>
    simp only [Update.run_bind, Update.run_get, Update.run_noting]
    -- what is reported leaves variables and links alone
    let noted := (Change.note
      (checkIndex m.span place.span (ctx.typeOf base.id) k).problems).apply ctx
    have same : noted.accessOf id = ctx.accessOf id := rfl
    have kept : noted.LinksStored := links
    by_cases natural : 0 ≤ k
    · rw [if_pos natural]
      cases base with
      | ident m' name =>
        have raised : (raiseAccess k.toNat (.ident m' name) noted).2.accessOf id
            = if ctx.varAt m'.id = some id then max (ctx.accessOf id) k.toNat
              else ctx.accessOf id := accessOf_raiseAccess kept k.toNat m' name id
        refine raised.trans ?_
        simp only [Action.accesses, Expr.constantIndex?_eq_some literal natural]
        split <;> simp
      | _ => exact same
    · rw [if_neg natural]
      cases base with
      | ident m' name => simpa [Action.accesses, Expr.constantIndex?, literal, natural] using same
      | _ => exact same

theorem act_check_index (env : Env) (b : Ty) (m : Mark) (base place : Expr) (ctx : Context) :
    (Action.check (.index m base place)).act env b ctx
      = .ok b (recordAccess m base place ((Change.annotate m.id
          (.ty (ctx.typeOf base.id).indexed)).apply ((Change.note []).apply ctx))).2 := rfl

theorem Action.varAt_check_index (env : Env) (b : Ty) (m : Mark) (base place : Expr)
    (ctx : Context) :
    (Context.reached ((Action.check (.index m base place)).act env b ctx)).varAt = ctx.varAt := by
  funext node
  refine ((Action.check (.index m base place)).confined env b ctx).agree (n := .var) ?_
  simp [Action.touches, Expr.touches]

/-- Every action counts the access that it looks at, and no other. -/
theorem Action.accessOf_act (env : Env) (b : Ty) (a : Action) {ctx : Context}
    (links : ctx.LinksStored) (id : VarId) :
    (Context.reached (a.act env b ctx)).accessOf id
      = (a.accesses (Context.reached (a.act env b ctx)).varAt id).foldl max (ctx.accessOf id) := by
  have quiet : .access ∉ a.touches → a.accesses (Context.reached (a.act env b ctx)).varAt id = [] →
      (Context.reached (a.act env b ctx)).accessOf id
        = (a.accesses (Context.reached (a.act env b ctx)).varAt id).foldl max
            (ctx.accessOf id) := by
    intro uncounted none
    rw [none]
    exact (a.confined env b ctx).accessOf_eq uncounted id
  cases a with
  | check e =>
    cases e with
    | index m base place =>
      rw [Action.varAt_check_index, act_check_index]
      have typed : ((Change.annotate m.id (.ty (ctx.typeOf base.id).indexed)).apply
          ((Change.note []).apply ctx)).varAt = ctx.varAt := by
        funext node
        by_cases same : m.id = node
        · subst same
          simp [Context.varAt, Change.apply, Annotations.ofNode_update, Slot.write]
        · simp [Context.varAt, Change.apply, Annotations.ofNode_update, same]
      have recorded := accessOf_recordAccess
        ((links.change (.note []) trivial).change (.annotate m.id
          (.ty (ctx.typeOf base.id).indexed)) trivial) m base place id
      rwa [typed] at recorded
    | _ => exact quiet (by simp [touches, Expr.touches]) rfl
  | _ => exact quiet (by simp [touches, bindingTouches]) rfl

/-! ### Every point -/

section

variable {env : Env} {unit : SourceUnit} {done rest : List Action} {a : Action} {b : Ty}
  {ctx after : Context}

theorem accesses_congr {linked linked' : NodeId → Option VarId} (id : VarId)
    (same : ∀ m m' name place, .check (.index m (.ident m' name) place) ∈ done →
      linked m'.id = linked' m'.id) : accesses linked id done = accesses linked' id done := by
  refine List.flatMap_congr fun a mem => ?_
  cases a with
  | check e =>
    cases e with
    | index m base place =>
      cases base with
      | ident m' name => simp only [Action.accesses, same m m' name place mem]
      | _ => rfl
    | _ => rfl
  | _ => rfl

/-- An action leaves the links of names alone that have been looked at as bases of an index. -/
theorem accesses_reached (distinct : unit.ids.Nodup) (agenda : unit.agenda = done ++ a :: rest)
    (id : VarId) : accesses (Context.reached (a.act env b ctx)).varAt id done
      = accesses ctx.varAt id done := by
  refine accesses_congr id ?_
  intro m m' name place mem
  obtain ⟨first, last, rfl⟩ := List.append_of_mem mem
  have based : .check (.ident m' name) ∈ first := by
    have grounded := Grounded.unit unit
    rw [agenda, List.append_assoc, List.cons_append] at grounded
    exact grounded.needs_done rfl _ (by simp [Action.needs, Expr.parts])
  have elsewhere : m'.id ∉ a.homesIn .finding := by
    have here :
        m'.id ∈ homes .finding (first ++ .check (.index m (.ident m' name) place) :: last) :=
      List.mem_flatMap.mpr ⟨.check (.ident m' name), by simp [based],
        by simp [Action.homesIn, Action.phase, Action.homes, Expr.id, Expr.mark]⟩
    have apart := disjoint_homes distinct .finding agenda here
    rw [homes_cons] at apart
    exact fun again => apart (List.mem_append_left _ again)
  exact (a.confined env b ctx).agree (n := .var) fun mem =>
    elsewhere (Action.mem_homes_of_touches (.inl rfl) mem)

theorem accessOf_perform (distinct : unit.ids.Nodup) (agenda : unit.agenda = done ++ rest)
    (run : perform env done .void (.initial env.options) = .ok b ctx) (id : VarId) :
    ctx.accessOf id = (accesses ctx.varAt id done).foldl max 0 := by
  refine perform_induction (I := fun done _ ctx =>
    ctx.accessOf id = (accesses ctx.varAt id done).foldl max 0)
    (Context.accessOf_initial env.options id) ?_ agenda run
  intro done rest a b c ctx after agenda first act before
  have links := (Context.LinksStored.initial env.options).changes (changes_of_perform first)
  have counted := a.accessOf_act env b links id
  have same : accesses (Context.reached (a.act env b ctx)).varAt id done
      = accesses ctx.varAt id done := accesses_reached distinct agenda id
  rw [act] at counted same
  rw [before, ← same] at counted
  simpa [accesses, List.flatMap_append, Context.reached] using counted

/-- An action that fails is at no access. -/
theorem Action.accesses_of_error {e : Fatal} (failed : a.act env b ctx = .error e after)
    (linked : NodeId → Option VarId) (id : VarId) : a.accesses linked id = [] := by
  cases a with
  | check e =>
    cases e with
    | index m base place =>
      rw [act_check_index] at failed
      cases failed
    | _ => rfl
  | _ => rfl

/-- At every point the highest index that is kept for a variable is that of the accesses so far. -/
theorem Point.accessOf_eq (distinct : unit.ids.Nodup) (point : Point env unit done ctx)
    (id : VarId) : ctx.accessOf id = (accesses ctx.varAt id done).foldl max 0 := by
  cases point with
  | between agenda run => exact accessOf_perform distinct agenda run id
  | failed agenda run act =>
    rename_i a b before _
    have links := (Context.LinksStored.initial env.options).changes (changes_of_perform run)
    have counted := a.accessOf_act env b links id
    have same : accesses (Context.reached (a.act env b before)).varAt id done
        = accesses before.varAt id done := accesses_reached distinct agenda id
    rw [act] at counted same
    rw [Action.accesses_of_error act, accessOf_perform distinct agenda run id, ← same] at counted
    exact counted

end

/-! ### Accesses without reports -/

/-- An index check that reports nothing finds an index that is not negative, and is below the length
if there is one. -/
theorem checkIndex_sound (access place : Span) (base : Ty) (k : Int) :
    (checkIndex access place base k).Sound fun _ =>
      0 ≤ k ∧ ∀ n, base.indexBound? = some n → k.toNat < n := by
  intro faultless
  unfold checkIndex at faultless
  split at faultless
  · have none := faultless ⟨place, .negativeIndex k⟩ (by simp)
    cases none
  · rename_i natural
    split at faultless
    · have none := faultless ⟨access, .indexOutOfBounds k.toNat base⟩ (by simp)
      cases none
    · rename_i inside
      refine ⟨by omega, ?_⟩
      intro n bound
      simpa [bound] using inside

theorem problems_subset_recordAccess {m : Mark} {base place : Expr} {k : Int}
    (literal : place.intConstant? = some k) (ctx : Context) :
    (checkIndex m.span place.span (ctx.typeOf base.id) k).problems
      ⊆ (recordAccess m base place ctx).2.diagnostics := by
  unfold recordAccess
  simp only [literal, Update.run_bind, Update.run_get, Update.run_noting]
  refine List.Subset.trans (List.subset_append_right ctx.diagnostics _) ?_
  split
  · exact (confined_raiseAccess k.toNat base ((Change.note _).apply ctx)).diagnostics_subset
  · exact List.Subset.refl _

section

variable {env : Env} {b c : Ty} {ctx after : Context}

/-- A name that has been looked at has the type of the variable that it is linked to. -/
theorem typeOf_of_perform_ident {m : Mark} {name : String} {id : VarId} {v : Variable}
    (run : perform env (Expr.ident m name).agenda b ctx = .ok c after)
    (linked : after.varAt m.id = some id) (stored : after.vars.get? id = some v) :
    after.typeOf m.id = v.ty := by
  obtain ⟨d, checked, act, last⟩ := perform_cons_ok run
  cases last
  obtain ⟨⟨_, check⟩, _⟩ := AnalysisM.run_giving_ok act
  rw [checkExpr_eq] at check
  obtain ⟨_, between, _, noted⟩ := AnalysisM.run_bind_ok check
  cases noted
  -- noting the type and the effects leaves links and variables alone
  have linkedThere : between.varAt m.id = some id := by
    simpa [Context.varAt, Annotations.noteEffects, Annotations.ofNode_update, Expr.id, Expr.mark,
      Node.id, Node.mark] using linked
  have storedThere : between.vars.get? id = some v := stored
  have found : between.variableOf? m.id = some v := by
    rw [Context.varAt] at linkedThere
    simp [Context.variableOf?, linkedThere, storedThere]
  simp [Context.typeOf, Annotations.noteEffects, Annotations.ofNode_update, Expr.id, Expr.mark,
    Node.id, Node.mark, Expr.typeOf, found]

/-- Expressions give no variable another type. -/
theorem Expr.variables_notMem_touches (e : Expr) :
    .variables ∉ e.agenda.flatMap Action.touches := by
  intro mem
  obtain ⟨a, inside, touched⟩ := List.mem_flatMap.mp mem
  obtain ⟨p, _, here⟩ := List.mem_flatMap.mp inside
  simp only [Expr.own, List.mem_cons, List.not_mem_nil, or_false] at here
  rcases here with rfl | rfl
  · cases p <;> simp [Action.touches, Expr.touches] at touched
  · simp [Action.touches] at touched

/-- A name keeps the type of its variable while the index behind it is looked at. -/
theorem typeOf_of_perform_place {m : Mark} {name : String} {place : Expr} {id : VarId}
    {v : Variable} (links : ctx.LinksStored)
    (run : perform env ((Expr.ident m name).agenda ++ place.agenda) b ctx = .ok c after)
    (elsewhere : m.id ∉ homes .finding place.agenda) (linked : after.varAt m.id = some id)
    (stored : after.vars.get? id = some v) : after.typeOf m.id = v.ty := by
  obtain ⟨d, between, named, placed⟩ := perform_append_ok run
  have linkedThere : between.varAt m.id = some id :=
    (agree_of_perform placed (.inl rfl) elsewhere).symm.trans linked
  obtain ⟨u, storedThere⟩ := (links.changes (changes_of_perform named)).get? linkedThere
  have typed := typeOf_of_perform_ident named linkedThere storedThere
  have same := (changes_of_perform placed).ty_eq place.variables_notMem_touches storedThere stored
  have kept : (after.annotations.ofNode m.id).ty = (between.annotations.ofNode m.id).ty :=
    agree_of_perform placed (.inr rfl) elsewhere
  rw [same, ← typed, Context.typeOf, Context.typeOf, kept]

/-- An index that is checked without errors is not negative, and below the length there is. -/
theorem bounds_of_act {m : Mark} {base place : Expr} {k : Int} (apart : m.id ≠ base.id)
    (literal : place.intConstant? = some k)
    (act : (Action.check (.index m base place)).act env b ctx = .ok c after)
    (faultless : after.Faultless) :
    0 ≤ k ∧ ∀ n, (ctx.typeOf base.id).indexBound? = some n → k.toNat < n := by
  rw [act_check_index] at act
  cases act
  let noted := (Change.annotate m.id (.ty (ctx.typeOf base.id).indexed)).apply
    ((Change.note []).apply ctx)
  have same : noted.typeOf base.id = ctx.typeOf base.id := by
    simp [noted, Context.typeOf, Change.apply, Annotations.ofNode_update, apart]
  rw [← same]
  refine checkIndex_sound m.span place.span _ k ?_
  intro d mem
  exact faultless d (problems_subset_recordAccess literal noted mem)

/-- An index into a name that is checked is counted. -/
theorem le_accessOf_of_act {m m' : Mark} {name : String} {place : Expr} {k : Int} {id : VarId}
    (links : ctx.LinksStored) (literal : place.intConstant? = some k) (natural : 0 ≤ k)
    (act : (Action.check (.index m (.ident m' name) place)).act env b ctx = .ok c after)
    (linked : after.varAt m'.id = some id) : k.toNat ≤ after.accessOf id := by
  have counted := Action.accessOf_act env b (.check (.index m (.ident m' name) place)) links id
  rw [act] at counted
  simp only [Context.reached, Action.accesses, linked, ↓reduceIte,
    Expr.constantIndex?_eq_some literal natural, Option.toList_some, List.foldl_cons,
    List.foldl_nil] at counted
  rw [counted]
  exact Nat.le_max_right _ _

/-- An index into a name that is checked without errors, right behind the name and the index: it is
not negative, it is counted, and it is below the length that the variable has by then. -/
theorem index_checked {m m' : Mark} {name : String} {place : Expr} {k : Int} {id : VarId}
    (links : ctx.LinksStored) (notPlace : m'.id ∉ homes .finding place.agenda)
    (notIndex : m.id ≠ m'.id) (literal : place.intConstant? = some k)
    (run : perform env (((Expr.ident m' name).agenda ++ place.agenda)
      ++ [.check (.index m (.ident m' name) place)]) b ctx = .ok c after)
    (faultless : after.Faultless) (linked : after.varAt m'.id = some id) :
    0 ≤ k ∧ ∃ v, after.vars.get? id = some v ∧ k.toNat ≤ v.maxAccess ∧
      ∀ n, v.ty.indexBound? = some n → k.toNat < n := by
  obtain ⟨b', before, _, _, looked, act, left⟩ := perform_split_ok run
  cases left
  have linksBefore := links.changes (changes_of_perform looked)
  have linkedBefore : before.varAt m'.id = some id := by
    have kept := Action.varAt_check_index env b' m (.ident m' name) place before
    rw [act] at kept
    rwa [← kept]
  obtain ⟨u, storedBefore⟩ := linksBefore.get? linkedBefore
  have checking := Action.changes_of_act act
  obtain ⟨v, stored, _⟩ := checking.evolves.vars id u storedBefore
  have same := checking.ty_eq (by simp [Action.touches, Expr.touches]) storedBefore stored
  have typed := typeOf_of_perform_place links looked notPlace linkedBefore storedBefore
  obtain ⟨natural, below⟩ := bounds_of_act notIndex literal act faultless
  refine ⟨natural, v, stored, ?_, ?_⟩
  · rw [← Context.accessOf_eq stored]
    exact le_accessOf_of_act linksBefore literal natural act linked
  · intro n bound
    rw [same, ← typed] at bound
    exact below n bound

/-- In an analysis without errors a constant index into a name is not negative, and below the length
that the variable has in the end, if it has one. -/
theorem index_lt_length {unit : SourceUnit} (distinct : unit.ids.Nodup) {final : Context}
    (performed : perform env unit.agenda .void (.initial env.options) = .ok b final)
    (faultless : final.Faultless) {m m' : Mark} {name : String} {place : Expr} {k : Int}
    {id : VarId} (visited : .check (.index m (.ident m' name) place) ∈ unit.agenda)
    (literal : place.intConstant? = some k) (linked : final.varAt m'.id = some id) :
    0 ≤ k ∧ ∃ v, final.vars.get? id = some v ∧ ∀ e n, v.ty = .array e (some n) → k < n := by
  obtain ⟨done, rest, split⟩ := List.append_of_mem visited
  obtain ⟨before, rfl⟩ := Contiguous.unit unit done _ rest split
  -- the name and the literal are looked at right before the index
  have agenda : unit.agenda = before ++ ((((Expr.ident m' name).agenda ++ place.agenda)
      ++ [.check (.index m (.ident m' name) place)]) ++ rest) := by
    simpa [Action.lead, Expr.parts] using split
  have elsewhere : m'.id ∉ homes .finding
      (place.agenda ++ [.check (.index m (.ident m' name) place)] ++ rest) := by
    have divided : unit.agenda = (before ++ (Expr.ident m' name).agenda)
        ++ (place.agenda ++ [.check (.index m (.ident m' name) place)] ++ rest) := by
      simp only [agenda, List.append_assoc]
    refine disjoint_homes distinct .finding divided ?_
    simp [homes, Expr.agenda, Expr.postorder, Expr.own, Action.homesIn, Action.phase, Action.homes,
      Expr.id, Expr.mark]
  simp only [homes_append, homes_cons, homes_nil, List.append_nil, List.mem_append, not_or]
    at elsewhere
  obtain ⟨⟨notPlace, notIndex⟩, notRest⟩ := elsewhere
  rw [agenda] at performed
  obtain ⟨b₀, c₀, first, run⟩ := perform_append_ok performed
  obtain ⟨b₁, c₁, checked, last⟩ := perform_append_ok run
  have ending := changes_of_perform last
  have linked₁ : c₁.varAt m'.id = some id :=
    (agree_of_perform last (.inl rfl) notRest).symm.trans linked
  obtain ⟨natural, v, stored, counted, below⟩ := index_checked
    ((Context.LinksStored.initial env.options).changes (changes_of_perform first)) notPlace
    (by rintro same; exact notIndex (by simp [Action.homesIn, Action.phase, Action.homes, Expr.id,
      Expr.mark, same])) literal checked (faultless.before ending) linked₁
  obtain ⟨w, stored', evolves⟩ := ending.evolves.vars id v stored
  refine ⟨natural, w, stored', ?_⟩
  intro e n sized
  rcases evolves.ty with same | ⟨e', n', _, sized', beyond⟩
  · have bound := below n (by rw [← same, sized]; rfl)
    omega
  · rw [sized] at sized'
    cases sized'
    omega

end

/-- What is known of accesses at constant indices, in a unit with distinct numbers. At every point
of the analysis the highest index kept for a variable is the highest of those at which it has been
accessed. And if the analysis comes to its end without an error, all constant indices into a name
are natural numbers below the length that its variable has in the end, if it has one. -/
theorem constant_accesses {env : Env} {unit : SourceUnit} (distinct : unit.ids.Nodup) :
    (∀ done ctx, Point env unit done ctx → ∀ id v, ctx.vars.get? id = some v →
      v.maxAccess = (accesses ctx.varAt id done).foldl max 0) ∧
    ∀ final, analyze env unit = .ok () final → final.Faultless →
      ∀ m m' name place k id, Visited env unit (.index m (.ident m' name) place) →
        place.intConstant? = some k → final.varAt m'.id = some id →
          0 ≤ k ∧ ∃ v, final.vars.get? id = some v ∧ ∀ e n, v.ty = .array e (some n) → k < n := by
  constructor
  · intro done ctx point id v stored
    rw [← Context.accessOf_eq stored]
    exact point.accessOf_eq distinct id
  · intro final run faultless m m' name place k id visited literal linked
    obtain ⟨b, performed⟩ := exists_perform_of_analyze run
    obtain ⟨done, rest, _, _, agenda, _⟩ := visited
    have mem : .check (.index m (.ident m' name) place) ∈ unit.agenda := by simp [agenda]
    exact index_lt_length distinct performed faultless mem literal linked

/-- The unit `float x[]; void main() { x[2]; } float x[4];`. -/
def Sample.sizedLater : SourceUnit :=
  let list (d : Declarator) : DeclList :=
    { qualifiers := {}, type := float, invariant := false, names := [d] }
  let unsized : Declarator :=
    { mark := mark 0, name := "x", dims := some [.unsized], init := none }
  let sized : Declarator :=
    { mark := mark 10, name := "x", dims := some [.sized (.int (mark 9) 4)], init := none }
  let access : Expr := .index (mark 4) (.ident (mark 2) "x") (.int (mark 3) 2)
  let prototype : Prototype :=
    { mark := mark 6, returnQualifiers := {}, returns := ⟨.named "void", none⟩, name := "main",
      params := [] }
  [.declaration (.declare (mark 1) (list unsized)),
    .function { mark := mark 8, prototype := prototype,
                body := .compound (mark 7) false [.expr (mark 5) (some access)] },
    .declaration (.declare (mark 11) (list sized))]

theorem constant_accesses_sizedLater :
    ∃ final v, analyze (.standard {}) Sample.sizedLater = .ok () final ∧
      final.vars.get? ⟨8⟩ = some v ∧
      v.maxAccess = (accesses final.varAt ⟨8⟩ Sample.sizedLater.agenda).foldl max 0 ∧
      v.ty = .array (.scalar .float) (some 4) ∧ (2 : Int) < (4 : Nat) := by
  obtain ⟨final, run⟩ := exists_of_completes
    (show completes (.standard {}) Sample.sizedLater = true by decide +kernel)
  have errors : (Context.reached (analyze (.standard {}) Sample.sizedLater)).errorCount = 0 := by
    decide +kernel
  have linked : (Context.reached (analyze (.standard {}) Sample.sizedLater)).varAt ⟨2⟩
      = some ⟨8⟩ := by
    decide +kernel
  have type : ((Context.reached (analyze (.standard {}) Sample.sizedLater)).vars.get? ⟨8⟩).map
      (·.ty) = some (.array (.scalar .float) (some 4)) := by
    decide +kernel
  rw [run] at errors linked type
  have mem : .check (.index (Sample.mark 4) (.ident (Sample.mark 2) "x") (.int (Sample.mark 3) 2))
      ∈ Sample.sizedLater.agenda := by
    simp [Sample.sizedLater, SourceUnit.agenda, TopLevel.agenda, FunctionDef.agenda, Region.enclose,
      Stmt.agenda, Stmt.agendas, Expr.agenda, Expr.postorder, Expr.own]
  obtain ⟨points, bounds⟩ := @constant_accesses (.standard {}) Sample.sizedLater (by decide)
  obtain ⟨_, v, stored, below⟩ := bounds final run (Context.errorCount_eq_zero.mp errors) _ _ _ _ 2
    ⟨8⟩ (visited_of_analyze run mem) rfl linked
  obtain ⟨b, performed⟩ := exists_perform_of_analyze run
  have counted := points _ final (.between (List.append_nil _).symm performed) ⟨8⟩ v stored
  have sized : v.ty = .array (.scalar .float) (some 4) := by
    simpa [Context.reached, stored] using type
  exact ⟨final, v, run, stored, counted, sized, below _ _ sized⟩

end ShaderAnalysis
