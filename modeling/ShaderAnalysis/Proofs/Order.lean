import ShaderAnalysis.Proofs.Following

/-!
What comes before what in an agenda: the parts of an expression are checked before the expression,
a struct definition is bound before the type that it stands in is used, and a node is left after
the nodes whose effects flow into it. Every agenda has what it needs within itself
(`Grounded.unit`).
-/

namespace ShaderAnalysis

/-! ### What actions need -/

/-- The actions that have to be done before an action. -/
def Action.needs : Action → List Action
  | .check e => e.parts.map .check
  | .bindStruct s => (s.members.flatMap (·.type.structs)).map .bindStruct
  | .bindBlock _ b => (b.members.flatMap (·.type.structs)).map .bindStruct
  | .typeList _ list => list.type.structs.map .bindStruct
  | .bindParameter p => p.type.structs.map .bindStruct
  | .saveFunction p => p.returns.structs.map .bindStruct
  | .leave n => n.effectChildren.map .leave
  | .openScope _ | .closeScope | .enterStruct _ | .leaveStruct | .typeName _ | .bindName ..
  | .applyLayout _ => []

/-- Actions each of which stands behind those that it needs. -/
inductive Grounded : List Action → Prop
  | nil : Grounded []
  | snoc {as : List Action} {a : Action} :
    Grounded as → (∀ b ∈ a.needs, b ∈ as) → Grounded (as ++ [a])

namespace Grounded

variable {as bs : List Action} {a : Action}

theorem append (first : Grounded as) (second : Grounded bs) : Grounded (as ++ bs) := by
  induction second with
  | nil => simpa using first
  | snoc _ met ih =>
    rw [← List.append_assoc]
    exact ih.snoc fun b need => List.mem_append_right _ (met b need)

/-- An action that needs nothing. -/
theorem single (idle : a.needs = []) : Grounded [a] :=
  nil.snoc (by simp [idle])

theorem flatMap {α : Type} {f : α → List Action} {l : List α} (h : ∀ x ∈ l, Grounded (f x)) :
    Grounded (l.flatMap f) := by
  induction l with
  | nil => exact nil
  | cons x xs ih =>
    rw [List.flatMap_cons]
    exact (h x (by simp)).append (ih fun y hy => h y (by simp [hy]))

theorem enclose (r : Region) (h : Grounded as) : Grounded (r.enclose as) :=
  ((single rfl).append h).append (single rfl)

/-- What an action needs is done before it. -/
theorem needs_done (h : Grounded as) {done rest : List Action} (split : as = done ++ a :: rest) :
    ∀ b ∈ a.needs, b ∈ done := by
  induction h generalizing rest with
  | nil => simp at split
  | @snoc as c _ met ih =>
    rcases List.eq_nil_or_concat rest with rfl | ⟨rest, d, rfl⟩
    · obtain ⟨rfl, same⟩ := List.append_inj' split rfl
      cases same
      exact met
    · have shorter : as ++ [c] = (done ++ a :: rest) ++ [d] := by simpa using split
      obtain ⟨tail, _⟩ := List.append_inj' shorter rfl
      exact ih tail

end Grounded

/-! ### Agendas hold what is needed of them -/

theorem Expr.check_mem_agenda (e : Expr) : .check e ∈ e.agenda := by
  rw [agenda_eq]
  simp [own]

theorem Expr.leave_mem_agenda (e : Expr) : .leave (.expr e) ∈ e.agenda := by
  rw [agenda_eq]
  simp [own]

theorem StructSpec.bind_mem_agenda (s : StructSpec) : .bindStruct s ∈ s.agenda := by
  cases s
  simp [agenda]

theorem TypeSpec.bind_mem_agenda {t : TypeSpec} {s : StructSpec} (h : s ∈ t.structs) :
    .bindStruct s ∈ t.agenda := by
  rw [t.agenda_eq]
  exact List.mem_flatMap.mpr ⟨s, h, s.bind_mem_agenda⟩

theorem DeclList.bind_mem_memberAgenda {lists : List DeclList} {s : StructSpec}
    (h : s ∈ lists.flatMap (·.type.structs)) : .bindStruct s ∈ memberAgenda lists := by
  rw [memberAgenda_eq]
  exact List.mem_flatMap.mpr ⟨s, h, s.bind_mem_agenda⟩

/-! ### Agendas are grounded -/

namespace Grounded

theorem expr (e : Expr) : Grounded e.agenda := by
  induction e using Expr.byParts with
  | step e parts =>
    have inside : Grounded (e.parts.flatMap Expr.agenda) := flatMap parts
    have checked : Grounded (e.parts.flatMap Expr.agenda ++ [.check e]) := by
      refine inside.snoc ?_
      intro b need
      obtain ⟨p, mem, rfl⟩ := List.mem_map.mp need
      exact List.mem_flatMap.mpr ⟨p, mem, p.check_mem_agenda⟩
    have left : Grounded (e.parts.flatMap Expr.agenda ++ [.check e] ++ [.leave (.expr e)]) := by
      refine checked.snoc fun b need => List.mem_append_left _ ?_
      obtain ⟨n, child, rfl⟩ := List.mem_map.mp need
      obtain ⟨p, mem, rfl⟩ := List.mem_map.mp child
      exact List.mem_flatMap.mpr ⟨p, mem, p.leave_mem_agenda⟩
    rw [Expr.agenda_eq]
    simpa [Expr.own] using left

theorem exprs (es : List Expr) : Grounded (es.flatMap Expr.agenda) :=
  flatMap fun e _ => expr e

/-- A node is left behind its agenda, which leaves the nodes whose effects flow into it. -/
theorem left {as : List Action} {n : Node} (h : Grounded as)
    (children : ∀ c ∈ n.effectChildren, .leave c ∈ as) : Grounded (as ++ [.leave n]) := by
  refine h.snoc ?_
  intro b need
  obtain ⟨c, child, rfl⟩ := List.mem_map.mp need
  exact children c child

theorem struct (s : StructSpec) : Grounded s.agenda := by
  induction s using StructSpec.byInner with
  | step s inner =>
    have opened : Grounded (.enterStruct s.mark.span :: s.inner.flatMap StructSpec.agenda) :=
      (single rfl).append (flatMap inner)
    have closed := opened.append (single (a := .leaveStruct) rfl)
    have bound := closed.snoc (a := .bindStruct s) fun b need => by
      obtain ⟨r, mem, rfl⟩ := List.mem_map.mp need
      have inside : .bindStruct r ∈ s.inner.flatMap StructSpec.agenda :=
        List.mem_flatMap.mpr ⟨r, mem, r.bind_mem_agenda⟩
      simp [inside]
    have all := bound.left (n := .struct s) (by simp [Node.effectChildren])
    simpa [s.agenda_eq] using all

theorem spec (t : TypeSpec) : Grounded t.agenda := by
  rw [t.agenda_eq]
  exact flatMap fun s _ => struct s

theorem members (lists : List DeclList) : Grounded (DeclList.memberAgenda lists) := by
  rw [DeclList.memberAgenda_eq]
  exact flatMap fun s _ => struct s

theorem declarator (list : DeclList) (d : Declarator) : Grounded (d.agenda list) := by
  have inside : Grounded (.typeName d :: d.init.toList.flatMap Expr.agenda) :=
    (single rfl).append (exprs d.init.toList)
  have bound := inside.append (single (a := .bindName list d) rfl)
  have all := bound.left (n := .declarator d) fun c child => by
    obtain ⟨e, mem, rfl⟩ := List.mem_map.mp child
    have here : .leave (.expr e) ∈ d.init.toList.flatMap Expr.agenda :=
      List.mem_flatMap.mpr ⟨e, mem, e.leave_mem_agenda⟩
    simp only [List.mem_append, List.mem_cons]
    exact .inl (.inr here)
  simpa [Declarator.agenda] using all

theorem declList (span : Span) (list : DeclList) : Grounded (list.agenda span) := by
  have typed := (spec list.type).snoc (a := .typeList span list) fun b need => by
    obtain ⟨s, mem, rfl⟩ := List.mem_map.mp need
    exact TypeSpec.bind_mem_agenda mem
  have all := typed.append (flatMap (l := list.names) fun d _ => declarator list d)
  simpa [DeclList.agenda] using all

theorem block (m : Mark) (b : BlockDecl) : Grounded (b.agenda m) := by
  refine (members b.members).snoc ?_
  intro c need
  obtain ⟨s, mem, rfl⟩ := List.mem_map.mp need
  exact DeclList.bind_mem_memberAgenda mem

theorem parameter (p : Parameter) : Grounded p.agenda := by
  have bound := (spec p.type).snoc (a := .bindParameter p) fun b need => by
    obtain ⟨s, mem, rfl⟩ := List.mem_map.mp need
    exact TypeSpec.bind_mem_agenda mem
  have all := bound.left (n := .parameter p) (by simp [Node.effectChildren])
  simpa [Parameter.agenda] using all

theorem signature (p : Prototype) : Grounded p.signatureAgenda := by
  have given := (spec p.returns).append (flatMap (l := p.params) fun q _ => parameter q)
  refine given.snoc fun b need => List.mem_append_left _ ?_
  obtain ⟨s, mem, rfl⟩ := List.mem_map.mp need
  exact TypeSpec.bind_mem_agenda mem

/-- The nodes whose effects flow into a node are left inside it. -/
theorem of_phrased {heads : Prototype → Prop} {os : List Outline} (h : Phrased heads as os) :
    Grounded as := by
  induction h with
  | nil => exact nil
  | append _ _ first second => exact first.append second
  | enclose r _ ih => exact ih.enclose r
  | expr e => exact expr e
  | list span l => exact declList span l
  | block m b => exact (block m b).left (by simp [Node.effectChildren, Stmt.effectChildren])
  | signature p => exact signature p
  | layout l => exact (single rfl).left (by simp [Node.effectChildren])
  | @node n as os _ spells inside ih =>
    refine ih.left fun c child => ?_
    have listed : os = n.children.map Node.outline := by
      have same := n.outline_eq.symm.trans spells.outline
      injection same with _ same
      exact same.symm
    have visited : c ∈ Outline.listNodes os := by
      rw [listed, Outline.listNodes_eq, List.flatMap_map]
      exact List.mem_flatMap.mpr ⟨c, List.mem_append_right _ child, c.mem_nodes_outline⟩
    rcases inside.follows.leave_mem visited with left | ⟨p, _, rfl⟩
    · exact left
    · cases n.carriesEffects_effectChildren _ child
  | head _ _ ih => exact ih

theorem unit (unit : SourceUnit) : Grounded unit.agenda :=
  of_phrased (.wholeUnit unit)

end Grounded

end ShaderAnalysis
