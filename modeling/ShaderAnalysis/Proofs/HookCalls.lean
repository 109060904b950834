import ShaderAnalysis.Proofs.NodeParts
import ShaderAnalysis.Proofs.Performance
import ShaderAnalysis.Traversal.Trace

/-!
The calls that a walk makes of its hooks. A walk makes them until one breaks off, and each is for a
place in the tree, which is written as the positions of the nodes on the way to it. So the calls of
a walk that is not broken off stand in brackets (`hook_calls`): a node that is entered and not
passed over is left once, behind everything that is done inside it.
-/

namespace ShaderAnalysis

/-! ### Calls -/

/-- One call of a hook. -/
structure Call where
  step : Step
  node : Node

/-- A call for the node at a place of a tree. The place is written as the positions, each among the
nodes directly inside the one before it, on the way to the node. -/
structure Visit extends Call where
  place : List Nat

namespace Call

/-- A call is written down, and may then break off the walk. -/
def record (breaks : List Call → Bool) (c : Call) : EStateM Unit (List Call) Unit := do
  modify (· ++ [c])
  if breaks (← get) then throw ()

/-- Hooks that write their calls down. Whether a node is passed over, and whether the walk is broken
off, may depend on all calls so far. -/
def hooks (passes : List Call → Node → Bool) (breaks : List Call → Bool) :
    Hooks (EStateM Unit (List Call)) where
  enter := some fun n => do
    let before ← get
    record breaks ⟨.enter, n⟩
    return !passes before n
  leave := some fun n => record breaks ⟨.leave, n⟩

end Call

mutual
/-- The visits of a walk over an outline that stands at a place, behind other calls. -/
def Outline.visits (passes : List Call → Node → Bool) (before : List Call) (here : List Nat) :
    Outline → List Visit
  | .node n inside =>
    if passes before n then [⟨⟨.enter, n⟩, here⟩]
    else ⟨⟨.enter, n⟩, here⟩
      :: (Outline.listVisits passes (before ++ [⟨.enter, n⟩]) here 0 inside
        ++ [⟨⟨.leave, n⟩, here⟩])

/-- The visits of a walk over outlines directly inside a place, from a position on. -/
def Outline.listVisits (passes : List Call → Node → Bool) (before : List Call) (here : List Nat)
    (i : Nat) : List Outline → List Visit
  | [] => []
  | o :: os =>
    o.visits passes before (here ++ [i])
      ++ Outline.listVisits passes
        (before ++ (o.visits passes before (here ++ [i])).map Visit.toCall) here (i + 1) os
end

section

variable {passes : List Call → Node → Bool} {breaks : List Call → Bool}

namespace Call

theorem run_record (c : Call) (before : List Call) :
    record breaks c before = if breaks (before ++ [c]) then .error () (before ++ [c])
      else .ok () (before ++ [c]) := by
  rw [record]
  show (if breaks (before ++ [c]) then throw () else pure () : EStateM Unit (List Call) Unit)
    (before ++ [c]) = _
  split <;> rfl

/-- What comes of calls in order, until one breaks off. -/
def outcome (breaks : List Call → Bool) (before : List Call) :
    List Call → EStateM.Result Unit (List Call) Unit
  | [] => .ok () before
  | c :: cs =>
    if breaks (before ++ [c]) then .error () (before ++ [c])
    else outcome breaks (before ++ [c]) cs

/-- What comes of more calls, behind others. -/
theorem outcome_append (before cs ds : List Call) :
    (outcome breaks before (cs ++ ds) = outcome breaks (before ++ cs) ds ∧
      outcome breaks before cs = .ok () (before ++ cs)) ∨
    ∃ done, outcome breaks before cs = .error () done ∧
      outcome breaks before (cs ++ ds) = .error () done := by
  induction cs generalizing before with
  | nil => simp [outcome]
  | cons c cs ih =>
    by_cases broken : breaks (before ++ [c]) = true
    · have here (es : List Call) :
          outcome breaks before (c :: es) = .error () (before ++ [c]) := by
        rw [outcome, if_pos broken]
      exact .inr ⟨_, here cs, here (cs ++ ds)⟩
    · have further (es : List Call) :
          outcome breaks before (c :: es) = outcome breaks (before ++ [c]) es := by
        rw [outcome, if_neg broken]
      rw [List.cons_append, further, further, List.append_cons before c cs]
      exact ih _

/-- Calls of which none breaks off. -/
theorem outcome_eq_ok {before cs : List Call}
    (never : ∀ k, 0 < k → k ≤ cs.length → breaks (before ++ cs.take k) = false) :
    outcome breaks before cs = .ok () (before ++ cs) := by
  induction cs generalizing before with
  | nil => simp [outcome]
  | cons c cs ih =>
    have first : breaks (before ++ [c]) = false := never 1 (by simp) (by simp)
    rw [outcome, if_neg (by simp [first]), List.append_cons before c cs]
    refine ih fun k _ within => ?_
    rw [← List.append_cons, ← List.take_succ_cons]
    exact never (k + 1) (by simp) (by simpa using within)

/-- Calls of which the first that breaks off is the `k`th. -/
theorem outcome_eq_error {before cs : List Call} {k : Nat} (positive : 0 < k)
    (within : k ≤ cs.length) (broken : breaks (before ++ cs.take k) = true)
    (first : ∀ j, 0 < j → j < k → breaks (before ++ cs.take j) = false) :
    outcome breaks before cs = .error () (before ++ cs.take k) := by
  induction cs generalizing before k with
  | nil =>
    simp at within
    omega
  | cons c cs ih =>
    obtain ⟨k, rfl⟩ : ∃ j, k = j + 1 := ⟨k - 1, by omega⟩
    rw [List.take_succ_cons] at broken ⊢
    rcases Nat.eq_zero_or_pos k with rfl | further
    · rw [List.take_zero] at broken ⊢
      rw [outcome, if_pos broken]
    · have here : breaks (before ++ [c]) = false := first 1 (by simp) (by omega)
      rw [outcome, if_neg (by simp [here]), List.append_cons before c (cs.take k)]
      rw [List.append_cons] at broken
      refine ih further (by simpa using within) broken fun j positive earlier => ?_
      rw [← List.append_cons, ← List.take_succ_cons]
      exact first (j + 1) (by simp) (by omega)

/-- A step that makes calls, and then another one. -/
theorem run_seq {m m' : EStateM Unit (List Call) Unit} {before cs ds : List Call}
    (first : m before = outcome breaks before cs)
    (last : m' (before ++ cs) = outcome breaks (before ++ cs) ds) :
    (do m; m' : EStateM Unit (List Call) Unit) before = outcome breaks before (cs ++ ds) := by
  show EStateM.bind m (fun _ => m') before = _
  rcases @outcome_append breaks before cs ds with ⟨whole, fine⟩ | ⟨done, broken, whole⟩
  · rw [whole, ← last]
    simp [EStateM.bind, first, fine]
  · rw [whole]
    simp [EStateM.bind, first, broken]

theorem run_record_eq_outcome (c : Call) (before : List Call) :
    record breaks c before = outcome breaks before [c] := by
  rw [run_record, outcome, outcome]

/-- A node is entered, and what is inside it comes next if it is not passed over. -/
theorem run_enter (n : Node) (rest : EStateM Unit (List Call) Unit) (before : List Call) :
    (do if ← (hooks passes breaks).onEnter n then rest : EStateM Unit (List Call) Unit) before
      = (do record breaks ⟨.enter, n⟩; if passes before n then pure () else rest
          : EStateM Unit (List Call) Unit) before := by
  have enter : (hooks passes breaks).onEnter n before
      = if breaks (before ++ [⟨.enter, n⟩]) then .error () (before ++ [⟨.enter, n⟩])
        else .ok (!passes before n) (before ++ [⟨.enter, n⟩]) := by
    show EStateM.bind (record breaks ⟨.enter, n⟩) (fun _ => pure (!passes before n)) before = _
    rw [EStateM.bind, run_record]
    by_cases broken : breaks (before ++ [⟨.enter, n⟩]) = true
    · simp [broken]
    · simp only [broken]
      rfl
  show EStateM.bind _ _ before = EStateM.bind _ _ before
  rw [EStateM.bind, EStateM.bind, enter, run_record]
  by_cases broken : breaks (before ++ [⟨.enter, n⟩]) = true
  · simp [broken]
  · cases passed : passes before n <;> simp [broken]

end Call

mutual
/-- A walk makes its calls in order, until one breaks off. -/
theorem Outline.walk_eq (before : List Call) (here : List Nat) : ∀ o : Outline,
    (Call.hooks passes breaks).walk o before
      = Call.outcome breaks before ((o.visits passes before here).map Visit.toCall)
  | .node n inside => by
    rw [Hooks.walk, Call.run_enter, visits]
    by_cases passed : passes before n = true
    · rw [if_pos passed, if_pos passed]
      have entered := @Call.run_record_eq_outcome breaks ⟨.enter, n⟩ before
      exact @Call.run_seq breaks _ _ before [⟨.enter, n⟩] [] entered rfl
    · rw [if_neg passed, if_neg passed, List.map_cons, List.map_append]
      exact Call.run_seq (Call.run_record_eq_outcome _ before)
        (Call.run_seq (Outline.walkAll_eq _ here 0 inside) (Call.run_record_eq_outcome _ _))

theorem Outline.walkAll_eq (before : List Call) (here : List Nat) (i : Nat) : ∀ os : List Outline,
    (Call.hooks passes breaks).walkAll os before
      = Call.outcome breaks before ((Outline.listVisits passes before here i os).map Visit.toCall)
  | [] => by
    rw [Hooks.walkAll, listVisits]
    rfl
  | o :: os => by
    rw [Hooks.walkAll, listVisits, List.map_append]
    exact Call.run_seq (Outline.walk_eq before _ o) (Outline.walkAll_eq _ here (i + 1) os)
end

/-! ### Places -/

namespace Outline

mutual
theorem place_visits (before : List Call) (here : List Nat) : ∀ o : Outline,
    ∀ v ∈ o.visits passes before here, here <+: v.place
  | .node n inside, v, mem => by
    rw [visits] at mem
    split at mem
    · obtain rfl := List.mem_singleton.mp mem
      exact List.prefix_refl _
    · rcases List.mem_cons.mp mem with rfl | mem
      · exact List.prefix_refl _
      · rcases List.mem_append.mp mem with within | last
        · obtain ⟨j, _, below⟩ := place_listVisits _ here 0 inside v within
          exact (List.prefix_append here [j]).trans below
        · obtain rfl := List.mem_singleton.mp last
          exact List.prefix_refl _

theorem place_listVisits (before : List Call) (here : List Nat) (i : Nat) : ∀ os : List Outline,
    ∀ v ∈ listVisits passes before here i os, ∃ j, i ≤ j ∧ here ++ [j] <+: v.place
  | [], _, mem => by simp [listVisits] at mem
  | o :: os, v, mem => by
    rw [listVisits] at mem
    rcases List.mem_append.mp mem with first | others
    · exact ⟨i, Nat.le_refl i, place_visits before _ o v first⟩
    · obtain ⟨j, later, below⟩ := place_listVisits _ here (i + 1) os v others
      exact ⟨j, by omega, below⟩
end

theorem position_unique {here p : List Nat} {i j : Nat} (h : here ++ [i] <+: p)
    (h' : here ++ [j] <+: p) : i = j := by
  have same := (List.prefix_of_prefix_length_le h h' (by simp)).eq_of_length (by simp)
  simpa using same

theorem not_below_self (p : List Nat) (i : Nat) : ¬ p ++ [i] <+: p := by
  intro below
  have longer := below.length_le
  rw [List.length_append, List.length_singleton] at longer
  omega

/-- The visits for one of several outlines stand together. -/
theorem listVisits_split {os : List Outline} {i : Nat} {o : Outline} (found : os[i]? = some o)
    (before : List Call) (here : List Nat) (k : Nat) :
    ∃ first last, listVisits passes before here k os
        = first ++ (o.visits passes (before ++ first.map Visit.toCall) (here ++ [k + i]) ++ last) ∧
      ∀ v ∈ first ++ last, ¬ here ++ [k + i] <+: v.place := by
  induction os generalizing before i k with
  | nil => simp at found
  | cons head os ih =>
    rw [listVisits]
    cases i with
    | zero =>
      cases found
      refine ⟨[], listVisits passes (before ++ (o.visits passes before (here ++ [k])).map
        Visit.toCall) here (k + 1) os, by simp, ?_⟩
      intro v mem below
      obtain ⟨j, later, place⟩ := place_listVisits _ _ _ _ v mem
      have same := position_unique below place
      omega
    | succ i =>
      obtain ⟨first, last, split, others⟩ :=
        ih (by simpa using found) (before ++ (head.visits passes before (here ++ [k])).map
          Visit.toCall) (k + 1)
      have shift : k + 1 + i = k + (i + 1) := by omega
      rw [shift] at split others
      refine ⟨head.visits passes before (here ++ [k]) ++ first, last, ?_, ?_⟩
      · rw [split, List.map_append, List.append_assoc, List.append_assoc]
      · intro v mem below
        rw [List.append_assoc] at mem
        rcases List.mem_append.mp mem with here' | mem
        · have same := position_unique below (place_visits _ _ head v here')
          omega
        · exact others v mem below

/-- The visits of an outline that is passed over, or of one that is not. -/
theorem visits_cases (before : List Call) (here : List Nat) (o : Outline) :
    (passes before o.self = true ∧ o.visits passes before here = [⟨⟨.enter, o.self⟩, here⟩]) ∨
    (passes before o.self = false ∧ o.visits passes before here = ⟨⟨.enter, o.self⟩, here⟩
      :: (listVisits passes (before ++ [⟨.enter, o.self⟩]) here 0 o.inside
        ++ [⟨⟨.leave, o.self⟩, here⟩])) := by
  obtain ⟨n, inside⟩ := o
  cases passed : passes before n with
  | true => exact .inl ⟨passed, by rw [visits, if_pos passed]; rfl⟩
  | false => exact .inr ⟨passed, by rw [visits, if_neg (by simp [passed])]; rfl⟩

/-- Every one of several outlines is entered. -/
theorem exists_mem_listVisits (before : List Call) (here : List Nat) {os : List Outline} {i : Nat}
    (within : i < os.length) : ∃ v ∈ listVisits passes before here 0 os, v.place = here ++ [i] := by
  obtain ⟨first, last, split, _⟩ :=
    @listVisits_split passes os i os[i] (List.getElem?_eq_getElem within) before here 0
  rw [Nat.zero_add] at split
  refine ⟨⟨⟨.enter, os[i].self⟩, here ++ [i]⟩, ?_, rfl⟩
  rw [split]
  rcases @visits_cases passes (before ++ first.map Visit.toCall) (here ++ [i]) os[i]
    with ⟨_, whole⟩ | ⟨_, whole⟩ <;> simp [whole]

end Outline

/-- Outlines of nodes and of everything inside them, by their places. -/
inductive Outline.At (ns : List Node) : List Nat → Outline → Prop
  /-- One of the nodes. -/
  | outermost {i : Nat} {n : Node} : ns[i]? = some n → At ns [i] n.outline
  /-- A node directly inside another. -/
  | inner {p : List Nat} {i : Nat} {o part : Outline} : At ns p o → o.inside[i]? = some part →
    At ns (p ++ [i]) part

/-! ### Brackets -/

/-- The nodes one step below a place for which a step is made, among visits below the place. -/
def Visit.directly (s : Step) (p : List Nat) (visits : List Visit) : List Node :=
  (visits.filter fun v => v.step = s ∧ v.place.length = p.length + 1).map (·.node)

theorem Visit.directly_append (s : Step) (p : List Nat) (vs ws : List Visit) :
    directly s p (vs ++ ws) = directly s p vs ++ directly s p ws := by
  simp [directly]

theorem Visit.directly_of_deeper {s : Step} {p : List Nat} {vs : List Visit}
    (deeper : ∀ v ∈ vs, p.length + 1 < v.place.length) : directly s p vs = [] := by
  have none : vs.filter (fun v => v.step = s ∧ v.place.length = p.length + 1) = [] := by
    rw [List.filter_eq_nil_iff]
    intro v mem
    have longer := deeper v mem
    simp only [decide_eq_true_eq, not_and]
    omega
  rw [directly, none, List.map_nil]

theorem Outline.within_listVisits {before : List Call} {here : List Nat} {os : List Outline}
    {v : Visit} (mem : v ∈ listVisits passes before here 0 os) :
    here <+: v.place ∧ here.length < v.place.length := by
  obtain ⟨j, _, below⟩ := place_listVisits before here 0 os v mem
  have longer := below.length_le
  rw [List.length_append, List.length_singleton] at longer
  exact ⟨(List.prefix_append here [j]).trans below, by omega⟩

theorem Outline.directly_visits {s : Step}
    (made : s = .enter ∨ ∀ before n, passes before n = false) (before : List Call)
    (here : List Nat) (i : Nat) (o : Outline) :
    Visit.directly s here (o.visits passes before (here ++ [i])) = [o.self] := by
  rcases o.visits_cases before (here ++ [i]) with ⟨passed, whole⟩ | ⟨_, whole⟩
  · rcases made with rfl | never
    · rw [whole]
      simp [Visit.directly]
    · rw [never] at passed
      cases passed
  · have inside := Visit.directly_of_deeper (s := s) (p := here) fun v
        (mem : v ∈ listVisits passes (before ++ [⟨.enter, o.self⟩]) (here ++ [i]) 0 o.inside) => by
      simpa using (within_listVisits mem).2
    rw [whole, ← List.singleton_append, Visit.directly_append, Visit.directly_append, inside]
    cases s <;> simp [Visit.directly]

/-- Every outline is entered, and is left if nothing is passed over. -/
theorem Outline.directly_listVisits {s : Step}
    (made : s = .enter ∨ ∀ before n, passes before n = false) (before : List Call)
    (here : List Nat) (i : Nat) (os : List Outline) :
    Visit.directly s here (listVisits passes before here i os) = os.map self := by
  induction os generalizing before i with
  | nil => rfl
  | cons o os ih =>
    rw [listVisits, Visit.directly_append, directly_visits made, ih]
    rfl

/-- The calls for a node and everything inside it stand in brackets, and the nodes directly inside
it whose effects flow into it are entered in order. -/
structure Brackets (passes : List Call → Node → Bool) (visits : List Visit) (p : List Nat)
    (o : Outline) (before inside after : List Visit) : Prop where
  visits_eq : visits = before ++ ⟨⟨.enter, o.self⟩, p⟩ :: (inside ++ ⟨⟨.leave, o.self⟩, p⟩ :: after)
  goesIn : passes (before.map Visit.toCall) o.self = false
  /-- The calls between the two are for places strictly below. -/
  within : ∀ v ∈ inside, p <+: v.place ∧ p.length < v.place.length
  /-- All others are for places elsewhere. -/
  outside : ∀ v ∈ before ++ after, ¬ p <+: v.place
  /-- Every node directly inside is come to. -/
  reaches : ∀ i, i < o.inside.length → ∃ v ∈ inside, v.place = p ++ [i]
  entered : ((Visit.directly .enter p inside).filter Node.carriesEffects).map Node.id
    = o.self.effectSources
  /-- They have been left, too, if nothing is passed over. -/
  left : (∀ before n, passes before n = false) →
    ((Visit.directly .leave p inside).filter Node.carriesEffects).map Node.id
      = o.self.effectSources

/-- What a walk does for a node and everything inside it. -/
inductive Treated (passes : List Call → Node → Bool) (visits : List Visit) (p : List Nat)
    (o : Outline) : Prop
  /-- Something around it is passed over. -/
  | unreached : (∀ v ∈ visits, ¬ p <+: v.place) → Treated passes visits p o
  | passedOver {before after : List Visit} :
    visits = before ++ ⟨⟨.enter, o.self⟩, p⟩ :: after →
    passes (before.map Visit.toCall) o.self = true → (∀ v ∈ before ++ after, ¬ p <+: v.place) →
    Treated passes visits p o
  | wentInto {before inside after : List Visit} : Brackets passes visits p o before inside after →
    Treated passes visits p o

/-- All that is done for an outline at a place stands together. -/
def StandsAt (passes : List Call → Node → Bool) (visits : List Visit) (p : List Nat)
    (o : Outline) : Prop :=
  ∃ before after, visits = before ++ (o.visits passes (before.map Visit.toCall) p ++ after) ∧
    ∀ v ∈ before ++ after, ¬ p <+: v.place

namespace StandsAt

variable {visits : List Visit} {p : List Nat} {o : Outline}

/-- What is done for one of several outlines. -/
theorem part {os : List Outline} {i : Nat} (before after : List Visit)
    (whole : visits = before
      ++ (Outline.listVisits passes (before.map Visit.toCall) p 0 os ++ after))
    (outside : ∀ v ∈ before ++ after, p <+: v.place → v.place = p) (found : os[i]? = some o) :
    StandsAt passes visits (p ++ [i]) o := by
  obtain ⟨first, last, split, others⟩ :=
    Outline.listVisits_split found (before.map Visit.toCall) p 0
  rw [Nat.zero_add] at split others
  refine ⟨before ++ first, last ++ after, ?_, ?_⟩
  · rw [whole, split, List.map_append]
    simp
  · intro v mem below
    have far (mem : v ∈ before ++ after) : False :=
      Outline.not_below_self p i (outside v mem ((List.prefix_append p [i]).trans below) ▸ below)
    simp only [List.mem_append] at mem far others
    rcases mem with (earlier | near) | near | later
    · exact far (.inl earlier)
    · exact others v (.inl near) below
    · exact others v (.inr near) below
    · exact far (.inr later)

/-- What is done for an outline directly inside another, for which all stands together. -/
theorem inside {i : Nat} {inner : Outline} (h : StandsAt passes visits p o)
    (found : o.inside[i]? = some inner) :
    (∀ v ∈ visits, ¬ p ++ [i] <+: v.place) ∨ StandsAt passes visits (p ++ [i]) inner := by
  obtain ⟨before, after, split, outside⟩ := h
  rcases @o.visits_cases passes (before.map Visit.toCall) p with ⟨_, same⟩ | ⟨_, same⟩
  · rw [same] at split
    refine .inl fun v mem below => ?_
    rw [split] at mem
    simp only [List.mem_append, List.mem_singleton] at mem outside
    have up := (List.prefix_append p [i]).trans below
    rcases mem with earlier | rfl | later
    · exact outside v (.inl earlier) up
    · exact Outline.not_below_self p i below
    · exact outside v (.inr later) up
  · rw [same] at split
    refine .inr (part (before ++ [⟨⟨.enter, o.self⟩, p⟩]) (⟨⟨.leave, o.self⟩, p⟩ :: after) ?_ ?_
      found)
    · rw [split]
      simp
    · intro v mem below
      have cases : v.place = p ∨ v ∈ before ++ after := by
        simp only [List.mem_append, List.mem_cons, List.not_mem_nil, or_false] at mem ⊢
        rcases mem with (earlier | rfl) | rfl | later
        · exact .inr (.inl earlier)
        · exact .inl rfl
        · exact .inl rfl
        · exact .inr (.inr later)
      exact cases.resolve_right fun far => outside v far below

theorem treated (genuine : ∃ n : Node, o = n.outline) (h : StandsAt passes visits p o) :
    Treated passes visits p o := by
  obtain ⟨before, after, whole, outside⟩ := h
  rcases @o.visits_cases passes (before.map Visit.toCall) p with ⟨passed, same⟩ | ⟨goesIn, same⟩
  · rw [same] at whole
    exact .passedOver whole passed outside
  · have sources {s : Step} (made : s = .enter ∨ ∀ before n, passes before n = false)
        (done : List Call) :
        ((Visit.directly s p (Outline.listVisits passes done p 0 o.inside)).filter
          Node.carriesEffects).map Node.id = o.self.effectSources := by
      obtain ⟨n, rfl⟩ := genuine
      rw [Outline.directly_listVisits made, n.map_self_inside, n.filter_children,
        n.self_outline, n.effectSources_eq]
    rw [same] at whole
    exact .wentInto
      { visits_eq := by simpa using whole
        goesIn := goesIn
        within := fun v mem => Outline.within_listVisits mem
        outside := outside
        reaches := fun i within => Outline.exists_mem_listVisits _ p within
        entered := sources (.inl rfl) _
        left := fun never => sources (.inr never) _ }

end StandsAt

namespace Outline.At

variable {ns : List Node} {p : List Nat} {o : Outline}

theorem exists_node (h : At ns p o) : ∃ n : Node, o = n.outline := by
  induction h with
  | outermost found => exact ⟨_, rfl⟩
  | inner _ found ih =>
    obtain ⟨n, rfl⟩ := ih
    rw [n.outline_eq, Outline.inside, List.getElem?_map, Option.map_eq_some_iff] at found
    obtain ⟨m, _, rfl⟩ := found
    exact ⟨m, rfl⟩

/-- An outline is not come to, or what is done for it stands together. -/
theorem unreached_or_stands (h : At ns p o) {visits : List Visit}
    (whole : visits = Outline.listVisits passes [] [] 0 (ns.map Node.outline)) :
    (∀ v ∈ visits, ¬ p <+: v.place) ∨ StandsAt passes visits p o := by
  induction h with
  | @outermost i n found =>
    have listed : (ns.map Node.outline)[i]? = some n.outline := by simp [found]
    exact .inr (.part [] [] (by simpa using whole) (by simp) listed)
  | @inner p i o part _ found ih =>
    rcases ih with unreached | stands
    · exact .inl fun v mem below => unreached v mem ((List.prefix_append p [i]).trans below)
    · exact stands.inside found

end Outline.At

mutual
/-- Calls are made for nodes of the tree. -/
theorem Outline.exists_at_visits {ns : List Node} (before : List Call) {here : List Nat} :
    ∀ o : Outline, At ns here o →
      ∀ v ∈ o.visits passes before here, ∃ p, At ns v.place p ∧ v.node = p.self
  | .node n inside, found, v, mem => by
    rw [visits] at mem
    split at mem
    · obtain rfl := List.mem_singleton.mp mem
      exact ⟨_, found, rfl⟩
    · rcases List.mem_cons.mp mem with rfl | mem
      · exact ⟨_, found, rfl⟩
      · rcases List.mem_append.mp mem with within | last
        · refine Outline.exists_at_listVisits _ 0 inside (fun i o part => ?_) v within
          rw [Nat.zero_add]
          exact .inner found part
        · obtain rfl := List.mem_singleton.mp last
          exact ⟨_, found, rfl⟩

theorem Outline.exists_at_listVisits {ns : List Node} (before : List Call) {here : List Nat}
    (k : Nat) : ∀ os : List Outline,
      (∀ i o, os[i]? = some o → At ns (here ++ [k + i]) o) →
      ∀ v ∈ listVisits passes before here k os, ∃ p, At ns v.place p ∧ v.node = p.self
  | [], _, _, mem => by simp [listVisits] at mem
  | o :: os, found, v, mem => by
    rw [listVisits] at mem
    rcases List.mem_append.mp mem with first | others
    · exact Outline.exists_at_visits _ o (found 0 o rfl) v first
    · refine Outline.exists_at_listVisits _ (k + 1) os (fun i p part => ?_) v others
      rw [show k + 1 + i = k + (i + 1) by omega]
      exact found (i + 1) p part
end

/-- The calls that a walk makes of its hooks. It makes them in order until one breaks off. Each is
for a node at a place of the tree; the outermost nodes are come to, and the nodes inside one that is
come to and not passed over. For a node that is come to, one call is made when it is entered. If it
is passed over, no other call is made for it or inside it. If it is not, one more is made when it is
left, with all calls inside it in between; the nodes entered directly inside it, apart from struct
definitions, parameters and prototypes, are those whose effects flow into it, in order, and if
nothing is passed over they are also left before it is. -/
theorem hook_calls (passes : List Call → Node → Bool) :
    (∀ (breaks : List Call → Bool) (unit : SourceUnit), (Call.hooks passes breaks).walkUnit unit
      = (Call.hooks passes breaks).walkAll ((unit.map TopLevel.node).map Node.outline)) ∧
    ∀ ns : List Node, ∃ visits : List Visit,
      (∀ breaks : List Call → Bool,
        ((∀ k, 0 < k → k ≤ visits.length → breaks ((visits.map Visit.toCall).take k) = false) →
          (Call.hooks passes breaks).walkAll (ns.map Node.outline) []
            = .ok () (visits.map Visit.toCall)) ∧
        ∀ k, 0 < k → k ≤ visits.length → breaks ((visits.map Visit.toCall).take k) = true →
          (∀ j, 0 < j → j < k → breaks ((visits.map Visit.toCall).take j) = false) →
          (Call.hooks passes breaks).walkAll (ns.map Node.outline) []
            = .error () ((visits.map Visit.toCall).take k)) ∧
      (∀ v ∈ visits, ∃ o, Outline.At ns v.place o ∧ v.node = o.self) ∧
      (∀ i < ns.length, ∃ v ∈ visits, v.place = [i]) ∧
      ∀ p o, Outline.At ns p o → Treated passes visits p o := by
  refine ⟨fun breaks unit => ?_, fun ns => ?_⟩
  · rw [Hooks.walkUnit, List.map_map, funext TopLevel.outline_eq]
    rfl
  refine ⟨Outline.listVisits passes [] [] 0 (ns.map Node.outline), fun breaks => ⟨?_, ?_⟩,
    ?_, ?_, ?_⟩
  · intro never
    rw [Outline.walkAll_eq [] [] 0]
    exact Call.outcome_eq_ok (by simpa using never)
  · intro k positive within broken first
    rw [Outline.walkAll_eq [] [] 0]
    exact Call.outcome_eq_error positive (by simpa using within) broken first
  · refine Outline.exists_at_listVisits [] 0 _ fun i o found => ?_
    rw [List.getElem?_map, Option.map_eq_some_iff] at found
    obtain ⟨n, found, rfl⟩ := found
    rw [Nat.zero_add]
    exact .outermost found
  · intro i within
    exact Outline.exists_mem_listVisits [] [] (by simpa using within)
  · intro p o found
    rcases found.unreached_or_stands rfl with unreached | stands
    · exact .unreached unreached
    · exact stands.treated found.exists_node

end

/-- The calls that a walk has made. -/
def Call.made : EStateM.Result Unit (List Call) Unit → List Call
  | .ok _ cs | .error _ cs => cs

/-- A walk over `void main() { float x = x; x = 1; }` that passes over the declaration, and one that
breaks off at the third call. -/
theorem hook_calls_main :
    let passes : List Call → Node → Bool := fun _ n => n.id.index == 5
    let third : List Call → Bool := fun cs => cs.length == 3
    let main := (Node.function Sample.main).outline
    ∃ visits : List Visit,
      (Call.hooks passes fun _ => false).walkAll [main] [] = .ok () (visits.map Visit.toCall) ∧
      visits.map (fun v => (v.step, v.node.id.index))
        = [(.enter, 11), (.enter, 2), (.leave, 2), (.enter, 10), (.enter, 5), (.enter, 9),
          (.enter, 8), (.enter, 6), (.leave, 6), (.enter, 7), (.leave, 7), (.leave, 8),
          (.leave, 9), (.leave, 10), (.leave, 11)] ∧
      (Call.hooks passes third).walkAll [main] [] = .error () ((visits.map Visit.toCall).take 3) ∧
      Treated passes visits [0, 1] (Node.stmt Sample.body).outline := by
  intro passes third main
  obtain ⟨_, walks⟩ := hook_calls passes
  obtain ⟨visits, runs, _, _, treated⟩ := walks [.function Sample.main]
  have calls : (Call.hooks passes fun _ => false).walkAll [main] []
      = .ok () (visits.map Visit.toCall) := (runs fun _ => false).1 fun _ _ _ => rfl
  have made : (Call.made ((Call.hooks passes fun _ => false).walkAll [main] [])).map
      (fun c => (c.step, c.node.id.index))
        = [(.enter, 11), (.enter, 2), (.leave, 2), (.enter, 10), (.enter, 5), (.enter, 9),
          (.enter, 8), (.enter, 6), (.leave, 6), (.enter, 7), (.leave, 7), (.leave, 8),
          (.leave, 9), (.leave, 10), (.leave, 11)] := by
    rfl
  rw [calls, Call.made, List.map_map] at made
  have many : visits.length = 15 := by simpa using congrArg List.length made
  have broken := (runs third).2 3 (by decide) (by omega) (by simp [third, many])
    fun j _ earlier => by simp [third, many]; omega
  have body : Outline.At [.function Sample.main] [0, 1] (Node.stmt Sample.body).outline :=
    .inner (.outermost (i := 0) rfl) rfl
  exact ⟨visits, calls, made, broken, treated _ _ body⟩

end ShaderAnalysis
