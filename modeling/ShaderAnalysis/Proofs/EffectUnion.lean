import ShaderAnalysis.Proofs.Footprint
import ShaderAnalysis.Proofs.NodeIds
import ShaderAnalysis.Proofs.Order
import ShaderAnalysis.Proofs.Performance

/-!
Effects over a whole tree. The effects of a node are worked out from those noted at the nodes
directly inside it, at the time when it is left. In a tree with distinct numbers nothing is noted
twice and what is inside has been left before, so that the effects at the end are those of all the
nodes inside, however deep (`effects_eq_union`).
-/

namespace ShaderAnalysis

/-! ### Single effects -/

/-- One of the effects that running a piece of source may have. -/
inductive Effect where
  | general | emitsVertex | discards
deriving DecidableEq, Repr

/-- Whether an effect is among some. -/
def Effects.has (e : Effects) : Effect → Bool
  | .general => e.general
  | .emitsVertex => e.emitsVertex
  | .discards => e.discards

@[simp] theorem Effects.has_empty (k : Effect) : ({} : Effects).has k = false := by
  cases k <;> rfl

@[simp] theorem Effects.has_union (a b : Effects) (k : Effect) :
    (a.union b).has k = (a.has k || b.has k) := by
  cases k <;> rfl

/-- The nodes that have an effect of their own: assignments, increments and decrements, and
functions; the calls that emit a vertex; and the jumps that discard. -/
def Node.Does : Node → Effect → Prop
  | .expr (.assign ..), .general => True
  | .expr (.unary _ op _), .general => op ∈ [.preInc, .preDec, .postInc, .postDec]
  | .function _, .general => True
  | .expr (.call _ name _), .emitsVertex => name = "EmitVertex"
  | .stmt (.jump _ .discards), .discards => True
  | _, _ => False

theorem Node.has_ownEffects (n : Node) (k : Effect) : n.ownEffects.has k = true ↔ n.Does k := by
  cases n with
  | expr e =>
    cases e with
    | unary m op a =>
      cases op <;> cases k <;>
        simp [ownEffects, Expr.ownEffects, Effects.has, Does, UnaryOp.mutates]
    | call m name args =>
      cases k <;> simp [ownEffects, Expr.ownEffects, Effects.has, Does, Builtin.emitVertex]
    | _ => cases k <;> simp [ownEffects, Expr.ownEffects, Effects.has, Does]
  | stmt s =>
    cases s with
    | jump m j => cases j <;> cases k <;> simp [ownEffects, Stmt.ownEffects, Effects.has, Does]
    | _ => cases k <;> simp [ownEffects, Stmt.ownEffects, Effects.has, Does]
  | _ => cases k <;> simp [ownEffects, Effects.has, Does]

/-- Whether a node has an effect: by itself, or through a node directly inside it. -/
theorem Annotations.has_effectsOf (t : Annotations) (n : Node) (k : Effect) :
    (t.effectsOf n).has k = true ↔
      n.ownEffects.has k = true ∨
        ∃ c ∈ n.effectChildren, (t.ofNode c.id).effects.has k = true := by
  have joined : ∀ (ids : List NodeId) (e : Effects),
      (ids.foldl (fun acc id => acc.union (t.ofNode id).effects) e).has k = true ↔
        e.has k = true ∨ ∃ id ∈ ids, (t.ofNode id).effects.has k = true := by
    intro ids
    induction ids with
    | nil => simp
    | cons id ids ih =>
      intro e
      simp [ih, or_assoc]
  rw [effectsOf, joined, n.effectSources_eq]
  constructor
  · rintro (own | ⟨_, mem, has⟩)
    · exact .inl own
    · obtain ⟨c, child, rfl⟩ := List.mem_map.mp mem
      exact .inr ⟨c, child, has⟩
  · rintro (own | ⟨c, child, has⟩)
    · exact .inl own
    · exact .inr ⟨c.id, List.mem_map.mpr ⟨c, child, rfl⟩, has⟩

/-! ### Effects at the end -/

/-- The effects noted at a node. -/
def Context.effectsAt (ctx : Context) (id : NodeId) : Effects :=
  (ctx.annotations.ofNode id).effects

/-- Only leaving a node notes effects at it. -/
theorem Action.effects_mem_touches {a : Action} {id : NodeId} (h : .slot id .effects ∈ a.touches) :
    id ∈ a.homesIn .leaving := by
  cases a with
  | leave n =>
    simp only [touches, List.mem_singleton, Touch.slot.injEq] at h
    simp [homesIn, phase, homes, h]
  | check e => cases e <;> simp [touches, Expr.touches] at h
  | bindBlock m b => simp [touches, bindingTouches] at h
  | _ => simp [touches, bindingTouches] at h

theorem effectsAt_eq_of_perform {env : Env} {as : List Action} {base b : Ty} {ctx ctx' : Context}
    (run : perform env as base ctx = .ok b ctx') {id : NodeId} (other : id ∉ homes .leaving as) :
    ctx'.effectsAt id = ctx.effectsAt id := by
  refine (changes_of_perform run).agree (n := .effects) fun touched => other ?_
  obtain ⟨a, mem, here⟩ := List.mem_flatMap.mp touched
  exact List.mem_flatMap.mpr ⟨a, mem, Action.effects_mem_touches here⟩

theorem Context.effectsAt_initial (o : Options) (id : NodeId) :
    (Context.initial o).effectsAt id = {} := by
  simp [effectsAt, annotations_initial, Annotations.ofNode]

section

variable {env : Env} {as : List Action} {base b : Ty} {ctx final : Context}

theorem mem_homes_leave {n : Node} (h : .leave n ∈ as) : n.id ∈ homes .leaving as :=
  List.mem_flatMap.mpr ⟨.leave n, h, by simp [Action.homesIn, Action.phase, Action.homes]⟩

/-- In a run in which no node is left twice, the effects of a node that is left are in the end what
those of the nodes inside it come to. -/
theorem effectsAt_eq_effectsOf (run : perform env as base ctx = .ok b final)
    (distinct : (homes .leaving as).Nodup) (grounded : Grounded as) {n : Node}
    (left : .leave n ∈ as)
    (k : Effect) :
    (final.effectsAt n.id).has k = true ↔
      n.ownEffects.has k = true ∨ ∃ c ∈ n.effectChildren, (final.effectsAt c.id).has k = true := by
  obtain ⟨done, rest, rfl⟩ := List.append_of_mem left
  obtain ⟨c, before, d, after, _, third, last⟩ := perform_split_ok run
  have noted : after = { before with annotations := before.annotations.noteEffects n } := by
    cases third
    rfl
  have homes_eq : homes .leaving (done ++ .leave n :: rest)
      = homes .leaving done ++ n.id :: homes .leaving rest := by
    simp [homes, Action.homesIn, Action.phase, Action.homes]
  rw [homes_eq] at distinct
  have apart := List.nodup_append.mp distinct
  have here : final.effectsAt n.id = before.annotations.effectsOf n := by
    rw [effectsAt_eq_of_perform last (List.nodup_cons.mp apart.2.1).1, noted]
    simp [Context.effectsAt, Annotations.noteEffects, Annotations.ofNode_update]
  -- what is inside was left before, and so it is not left again
  have inside : ∀ c ∈ n.effectChildren, final.effectsAt c.id = before.effectsAt c.id := by
    intro c child
    have earlier := mem_homes_leave (grounded.needs_done rfl _ (List.mem_map.mpr ⟨c, child, rfl⟩))
    have later : c.id ∉ n.id :: homes .leaving rest := fun mem => apart.2.2 _ earlier _ mem rfl
    rw [effectsAt_eq_of_perform last fun mem => later (List.mem_cons_of_mem _ mem), noted]
    have other : n.id ≠ c.id := fun same => later (by simp [same])
    simp [Context.effectsAt, Annotations.noteEffects, Annotations.ofNode_update, other]
  rw [here, Annotations.has_effectsOf]
  constructor
  · rintro (own | ⟨c, child, has⟩)
    · exact .inl own
    · refine .inr ⟨c, child, ?_⟩
      rwa [inside c child]
  · rintro (own | ⟨c, child, has⟩)
    · exact .inl own
    · refine .inr ⟨c, child, ?_⟩
      rwa [inside c child] at has

/-- A node holds another: itself, a node whose effects flow into it, one whose effects flow into
that, and so on. -/
def Node.Holds : Node → Node → Prop :=
  Relation.ReflTransGen fun n c => c ∈ n.effectChildren

/-- The effects of a node that is left are in the end those of all the nodes that it holds. -/
theorem effectsAt_iff_holds (run : perform env as base ctx = .ok b final)
    (distinct : (homes .leaving as).Nodup) (grounded : Grounded as) {n : Node}
    (left : .leave n ∈ as)
    (k : Effect) :
    (final.effectsAt n.id).has k = true ↔ ∃ m, n.Holds m ∧ m.ownEffects.has k = true := by
  constructor
  · -- a node inside is left at an earlier place, by which the induction goes
    have descend : ∀ (size : Nat) (done rest : List Action) (n : Node), done.length = size →
        as = done ++ .leave n :: rest → (final.effectsAt n.id).has k = true →
        ∃ m, n.Holds m ∧ m.ownEffects.has k = true := by
      intro size
      induction size using Nat.strongRecOn with
      | ind size ih =>
        intro done rest n length split has
        have mem : .leave n ∈ as := by simp [split]
        rcases (effectsAt_eq_effectsOf run distinct grounded mem k).mp has with
          own | ⟨c, child, has⟩
        · exact ⟨n, .refl, own⟩
        · have earlier := grounded.needs_done split _ (List.mem_map.mpr ⟨c, child, rfl⟩)
          obtain ⟨done', rest', rfl⟩ := List.append_of_mem earlier
          have shorter : done'.length < size := by
            simp only [← length, List.length_append, List.length_cons]
            omega
          obtain ⟨m, holds, own⟩ := ih _ shorter done' (rest' ++ .leave n :: rest) c rfl
            (by simp [split]) has
          exact ⟨m, .head child holds, own⟩
    obtain ⟨done, rest, split⟩ := List.append_of_mem left
    exact descend _ done rest n rfl split
  · rintro ⟨m, holds, own⟩
    induction holds using Relation.ReflTransGen.head_induction_on with
    | refl => exact (effectsAt_eq_effectsOf run distinct grounded left k).mpr (.inl own)
    | head child _ ih =>
      obtain ⟨done, rest, split⟩ := List.append_of_mem left
      have earlier := grounded.needs_done split _ (List.mem_map.mpr ⟨_, child, rfl⟩)
      have inside := ih (by rw [split]; exact List.mem_append_left _ earlier)
      exact (effectsAt_eq_effectsOf run distinct grounded left k).mpr (.inr ⟨_, child, inside⟩)

end

/-! ### Visited nodes are left -/

/-- A visited node is left, unless it is the prototype of a function. -/
theorem leave_mem_agenda_of_mem_nodes {unit : SourceUnit} {n : Node} (visited : n ∈ unit.nodes) :
    .leave n ∈ unit.agenda ∨ ∃ f, .function f ∈ unit ∧ n = .prototype f.prototype := by
  let heads : Prototype → Prop := fun p => ∃ f, .function f ∈ unit ∧ p = f.prototype
  have phrased : Phrased heads unit.agenda (unit.map TopLevel.outline) :=
    .unit fun f mem => ⟨f, mem, rfl⟩
  rw [unit.nodes_eq] at visited
  rcases phrased.follows.leave_mem visited with left | ⟨p, ⟨f, mem, rfl⟩, rfl⟩
  · exact .inl left
  · exact .inr ⟨f, mem, rfl⟩

/-- The prototype of a function is not left, and nor is another node of its number. -/
theorem prototype_notMem_homes {unit : SourceUnit} (distinct : unit.ids.Nodup) {f : FunctionDef}
    (mem : .function f ∈ unit) : f.prototype.mark.id ∉ homes .leaving unit.agenda := by
  obtain ⟨before, after, rfl⟩ := List.append_of_mem mem
  have once := List.nodup_iff_count.mp distinct f.prototype.mark.id
  have shared := Action.apportions_homesIn .leaving
  have first := Within.unit shared before f.prototype.mark.id
  have own := Within.function shared f f.prototype.mark.id
  have last := Within.unit shared after f.prototype.mark.id
  have itself : (Action.homesIn .leaving (.leave (.prototype f.prototype))).count
      f.prototype.mark.id = 1 := by
    simp [Action.homesIn, Action.phase, Action.homes, Node.id, Node.mark]
  have ids : SourceUnit.ids (before ++ .function f :: after)
      = SourceUnit.ids before ++ (f.ids ++ SourceUnit.ids after) := by
    simp [SourceUnit.ids, TopLevel.ids]
  have agenda : SourceUnit.agenda (before ++ .function f :: after)
      = SourceUnit.agenda before ++ (f.agenda ++ SourceUnit.agenda after) := by
    simp [SourceUnit.agenda, TopLevel.agenda]
  rw [ids] at once
  rw [agenda, homes_append, homes_append, ← List.count_eq_zero]
  simp only [homes, List.count_append] at once ⊢
  omega

/-- In a unit with distinct numbers that is analysed to its end, the effects noted at a visited node
are the union of those that the nodes which it holds have of their own: a general one if it holds
an assignment, an increment or a decrement, or is a function; that of emitting a vertex if it holds
a call of `EmitVertex`; and that of discarding if it holds a `discard`. -/
theorem effects_eq_union {env : Env} {unit : SourceUnit} {final : Context}
    (distinct : unit.ids.Nodup) (run : analyze env unit = .ok () final) {n : Node}
    (visited : n ∈ unit.nodes) (k : Effect) :
    ((final.annotations.ofNode n.id).effects.has k = true ↔
      ∃ m, n.Holds m ∧ m.ownEffects.has k = true) ∧
    ((final.annotations.ofNode n.id).effects.has k = true ↔ ∃ m, n.Holds m ∧ m.Does k) := by
  obtain ⟨b, performed⟩ := exists_perform_of_analyze run
  have union : (final.effectsAt n.id).has k = true ↔
      ∃ m, n.Holds m ∧ m.ownEffects.has k = true := by
    rcases leave_mem_agenda_of_mem_nodes visited with left | ⟨f, mem, rfl⟩
    · exact effectsAt_iff_holds performed (nodup_homes distinct _) (Grounded.unit unit) left k
    · -- a function's prototype holds nothing and is not left, so that nothing is noted there
      have nothing : final.effectsAt (Node.prototype f.prototype).id = {} :=
        (effectsAt_eq_of_perform performed (prototype_notMem_homes distinct mem)).trans
          (Context.effectsAt_initial _ _)
      rw [nothing]
      constructor
      · simp
      · rintro ⟨m, holds, own⟩
        rcases Relation.ReflTransGen.cases_head holds with rfl | ⟨c, child, _⟩
        · simp [Node.ownEffects] at own
        · simp [Node.effectChildren] at child
  refine ⟨union, union.trans ?_⟩
  constructor
  · rintro ⟨m, holds, own⟩
    exact ⟨m, holds, m.has_ownEffects k |>.mp own⟩
  · rintro ⟨m, holds, does⟩
    exact ⟨m, holds, m.has_ownEffects k |>.mpr does⟩

theorem effects_eq_union_shadowing :
    ∃ final, analyze (.standard {}) Sample.shadowing = .ok () final ∧
      (final.annotations.ofNode Sample.body.id).effects.has .general = true := by
  obtain ⟨final, run⟩ := exists_of_completes
    (show completes (.standard {}) Sample.shadowing = true by decide +kernel)
  have visited : .stmt Sample.body ∈ Sample.shadowing.nodes := by
    simp [Sample.shadowing, SourceUnit.nodes, TopLevel.outline, FunctionDef.outline, Sample.main,
      Sample.body, Stmt.outline, Outline.nodes, Outline.listNodes]
  have holds : (Node.stmt Sample.body).Holds (.expr Sample.store) := by
    refine .tail (b := .stmt (.expr (Sample.mark 9) (some Sample.store))) (.single ?_) ?_
    · simp [Sample.body, Node.effectChildren, Stmt.effectChildren]
    · simp [Node.effectChildren, Stmt.effectChildren]
  have general := (effects_eq_union (by decide) run visited .general).2.mpr ⟨_, holds, trivial⟩
  exact ⟨final, run, general⟩

end ShaderAnalysis
