import ShaderAnalysis.Proofs.Performance
import ShaderAnalysis.Proofs.Phrases

/-!
Agendas follow outlines. What is done for a tree comes in the order in which its nodes are visited:
around what is inside a node stands what is done for the node itself. What can be told from the
actions at each node is told by induction on this (`Phrased.follows`, `Fragment.follows`).
-/

namespace ShaderAnalysis

/-- An action between nodes. -/
def Action.IsAside : Action → Prop
  | .typeList .. | .saveFunction _ => True
  | _ => False

/-- What is bound at a node behind what is inside it, just before it is left. -/
inductive Node.BoundBy : Node → List Action → Prop
  | parameter (p : Parameter) : BoundBy (.parameter p) [.bindParameter p]
  | block (m : Mark) (b : BlockDecl) : BoundBy (.stmt (.block m b)) [.bindBlock m b]
  | layout (l : InputLayout) : BoundBy (.layout l) [.applyLayout l]
  | plain {n : Node} : n.IsPlain → BoundBy n []

/-- Actions come in the order of outlines. The heads are prototypes that are not left. -/
inductive Follows (heads : Prototype → Prop) : List Action → List Outline → Prop
  | nil : Follows heads [] []
  | append {as bs : List Action} {os ps : List Outline} :
    Follows heads as os → Follows heads bs ps → Follows heads (as ++ bs) (os ++ ps)
  | aside {a : Action} : a.IsAside → Follows heads [a] []
  | enclose (r : Region) {as : List Action} {os : List Outline} :
    Follows heads as os → Follows heads (r.enclose as) os
  | ofExpr {e : Expr} : Follows heads (e.parts.flatMap Expr.agenda) (e.parts.map Expr.outline) →
    Follows heads e.agenda [e.outline]
  | ofStruct {s : StructSpec} :
    Follows heads (s.inner.flatMap StructSpec.agenda) (s.inner.map StructSpec.outline) →
    Follows heads s.agenda [s.outline]
  | ofDeclarator (list : DeclList) {d : Declarator} :
    Follows heads (d.init.toList.flatMap Expr.agenda) (d.init.toList.map Expr.outline) →
    Follows heads (d.agenda list) [d.outline]
  | node {n : Node} {as bs : List Action} {os : List Outline} : n.BoundBy bs →
    n.Spells (as ++ bs) os → Follows heads as os →
    Follows heads (as ++ bs ++ [.leave n]) [.node n os]
  | head {p : Prototype} {as : List Action} {os : List Outline} : heads p →
    Follows heads as os → Follows heads as [.node (.prototype p) os]

namespace Follows

variable {heads : Prototype → Prop}

theorem flatMap {α : Type} {f : α → List Action} {g : α → Outline} {l : List α}
    (h : ∀ x ∈ l, Follows heads (f x) [g x]) : Follows heads (l.flatMap f) (l.map g) := by
  induction l with
  | nil => exact nil
  | cons x xs ih =>
    rw [List.flatMap_cons, List.map_cons]
    exact (h x (by simp)).append (ih fun y hy => h y (by simp [hy]))

theorem expr (e : Expr) : Follows heads e.agenda [e.outline] := by
  induction e using Expr.byParts with
  | step e parts => exact .ofExpr (flatMap parts)

theorem struct (s : StructSpec) : Follows heads s.agenda [s.outline] := by
  induction s using StructSpec.byInner with
  | step s inner => exact .ofStruct (flatMap inner)

theorem spec (t : TypeSpec) : Follows heads t.agenda t.outlines := by
  rw [t.agenda_eq, t.outlines_eq]
  exact flatMap fun s _ => struct s

theorem declarator (list : DeclList) (d : Declarator) : Follows heads (d.agenda list) [d.outline] :=
  .ofDeclarator list (flatMap fun e _ => expr e)

theorem parameter (p : Parameter) : Follows heads p.agenda [p.outline] := by
  have typed : Follows heads p.type.agenda p.type.outlines := spec p.type
  have all := typed.node (.parameter p) ⟨rfl, by simp⟩
  simpa [Parameter.agenda, Parameter.outline] using all

end Follows

theorem Phrased.follows {heads : Prototype → Prop} {as : List Action} {os : List Outline}
    (h : Phrased heads as os) : Follows heads as os := by
  induction h with
  | nil => exact .nil
  | append _ _ first second => exact first.append second
  | enclose r _ ih => exact ih.enclose r
  | expr e => exact .expr e
  | list span l =>
    have typed : Follows heads [.typeList span l] [] := .aside trivial
    exact (Follows.spec l.type).append (typed.append (.flatMap fun d _ => .declarator l d))
  | block m b =>
    have inside : Follows heads (DeclList.memberAgenda b.members)
        (DeclList.memberOutlines b.members) := by
      rw [DeclList.memberAgenda_eq, DeclList.memberOutlines_eq]
      exact .flatMap fun s _ => .struct s
    exact inside.node (.block m b) ⟨rfl, by rintro _ ⟨⟩; rw [Stmt.agenda]; rfl⟩
  | signature p =>
    have saved : Follows heads [.saveFunction p] [] := .aside trivial
    have params : Follows heads (p.params.flatMap Parameter.agenda)
        (p.params.map Parameter.outline) := .flatMap fun q _ => .parameter q
    have all := ((Follows.spec p.returns).append params).append saved
    simpa only [List.append_nil, Prototype.signatureAgenda] using all
  | layout l => exact Follows.nil.node (.layout l) ⟨rfl, by simp⟩
  | @node n as os plain spells _ ih =>
    have idle : n.Spells (as ++ []) os := by rwa [List.append_nil]
    simpa only [List.append_nil] using ih.node (.plain plain) idle
  | head head _ ih => exact ih.head head

/-- What is done for a part of a tree follows its outlines. -/
theorem Fragment.follows (f : Fragment) : ∃ os, Follows (fun _ => True) f.agenda os := by
  cases f with
  | expr e => exact ⟨_, .expr e⟩
  | spec t => exact ⟨_, .spec t⟩
  | struct s => exact ⟨_, .struct s⟩
  | declarator list _ d => exact ⟨_, .declarator list d⟩
  | parameter p => exact ⟨_, .parameter p⟩
  | stmt s => exact ⟨_, (Phrased.stmt s).follows⟩
  | switchBody b => exact ⟨_, (Phrased.switchBody b).follows⟩
  | case c => exact ⟨_, (Phrased.case c).follows⟩
  | prototype p => exact ⟨_, (Phrased.prototype p).follows⟩
  | function d => exact ⟨_, (Phrased.function trivial).follows⟩
  | layout l => exact ⟨_, (Phrased.layout l).follows⟩

/-! ### Nodes that are left -/

/-- The nodes of outlines are left, apart from heads. -/
theorem Follows.leave_mem {heads : Prototype → Prop} {as : List Action} {os : List Outline}
    (h : Follows heads as os) {n : Node} (mem : n ∈ Outline.listNodes os) :
    .leave n ∈ as ∨ ∃ p, heads p ∧ n = .prototype p := by
  induction h with
  | nil | aside => simp [Outline.listNodes] at mem
  | @append as bs os ps _ _ first second =>
    rw [Outline.listNodes_append] at mem
    rcases List.mem_append.mp mem with mem | mem
    · exact (first mem).imp_left (List.mem_append_left bs)
    · exact (second mem).imp_left (List.mem_append_right as)
  | enclose r _ ih => exact (ih mem).imp_left fun left => by simp [Region.enclose, left]
  | @ofExpr e _ ih =>
    rw [e.outline_eq, Outline.mem_listNodes_node] at mem
    rw [e.agenda_eq]
    rcases mem with inside | rfl
    · exact (ih inside).imp_left (List.mem_append_left _)
    · exact .inl (by simp [Expr.own])
  | @ofStruct s _ ih =>
    rw [s.outline_eq, Outline.mem_listNodes_node] at mem
    rw [s.agenda_eq]
    rcases mem with inside | rfl
    · exact (ih inside).imp_left fun left => by simp [left]
    · exact .inl (by simp)
  | @ofDeclarator list d _ ih =>
    rw [Declarator.outline, Outline.mem_listNodes_node] at mem
    rw [Declarator.agenda]
    rcases mem with inside | rfl
    · exact (ih inside).imp_left fun left => by simp [left]
    · exact .inl (by simp)
  | node _ _ _ ih =>
    rw [Outline.mem_listNodes_node] at mem
    rcases mem with inside | rfl
    · exact (ih inside).imp_left fun left => by simp [left]
    · exact .inl (by simp)
  | @head p _ _ head _ ih =>
    rw [Outline.mem_listNodes_node] at mem
    rcases mem with inside | rfl
    · exact ih inside
    · exact .inr ⟨p, head, rfl⟩

/-! ### Right before -/

/-- What stands right before an action: at an expression what is done for its parts, and at a
declared name its type and its initializer. -/
def Action.lead : Action → List Action
  | .check e => e.parts.flatMap Expr.agenda
  | .bindName _ d => .typeName d :: d.init.toList.flatMap Expr.agenda
  | _ => []

/-- Each action stands right behind what leads up to it. -/
def Contiguous (as : List Action) : Prop :=
  ∀ done a rest, as = done ++ a :: rest → ∃ before, done = before ++ a.lead

namespace Contiguous

variable {as bs : List Action}

theorem nil : Contiguous [] := by
  intro done a rest split
  simp at split

theorem append (first : Contiguous as) (second : Contiguous bs) : Contiguous (as ++ bs) := by
  intro done a rest split
  rcases List.append_eq_append_iff.mp split with ⟨more, rfl, later⟩ | ⟨more, earlier, later⟩
  · obtain ⟨before, rfl⟩ := second more a rest later
    exact ⟨as ++ before, by simp⟩
  · cases more with
    | nil =>
      obtain ⟨before, none⟩ := second [] a rest later.symm
      obtain ⟨_, nothing⟩ := List.append_eq_nil_iff.mp none.symm
      exact ⟨done, by rw [nothing, List.append_nil]⟩
    | cons b more =>
      cases later
      exact first done a more earlier

/-- One more action, behind what leads up to it. -/
theorem snoc {a : Action} {before : List Action} (h : Contiguous (before ++ a.lead)) :
    Contiguous (before ++ a.lead ++ [a]) := by
  intro done b rest split
  rcases List.eq_nil_or_concat rest with rfl | ⟨rest, c, rfl⟩
  · obtain ⟨rfl, same⟩ := List.append_inj' split rfl
    cases same
    exact ⟨before, rfl⟩
  · have shorter : before ++ a.lead ++ [a] = (done ++ b :: rest) ++ [c] := by simpa using split
    obtain ⟨tail, _⟩ := List.append_inj' shorter rfl
    exact h done b rest tail

theorem single {a : Action} (alone : a.lead = []) : Contiguous [a] := by
  have led : Contiguous ([] ++ a.lead) := by
    rw [alone]
    exact nil
  simpa [alone] using led.snoc

theorem of_follows {heads : Prototype → Prop} {os : List Outline} (h : Follows heads as os) :
    Contiguous as := by
  induction h with
  | nil => exact nil
  | append _ _ first second => exact first.append second
  | @aside a aside =>
    refine single ?_
    cases a with
    | check | bindName => exact absurd aside id
    | _ => rfl
  | enclose r _ ih => exact ((single rfl).append ih).append (single rfl)
  | @ofExpr e _ ih =>
    have led : Contiguous ([] ++ (Action.check e).lead) := ih
    have all := led.snoc.append (single (a := .leave (.expr e)) rfl)
    simpa [Expr.agenda_eq e, Expr.own, Action.lead] using all
  | @ofStruct s _ ih =>
    have opened := (single (a := .enterStruct s.mark.span) rfl).append ih
    have bound := (single (a := .leaveStruct) rfl).append (single (a := .bindStruct s) rfl)
    have all := (opened.append bound).append (single (a := .leave (.struct s)) rfl)
    simpa [s.agenda_eq] using all
  | @ofDeclarator list d _ ih =>
    have led : Contiguous ([] ++ (Action.bindName list d).lead) :=
      (single (a := .typeName d) rfl).append ih
    have all := led.snoc.append (single (a := .leave (.declarator d)) rfl)
    simpa [Declarator.agenda, Action.lead] using all
  | node binds _ _ ih =>
    refine (ih.append ?_).append (single rfl)
    cases binds <;> first | exact nil | exact single rfl
  | head _ _ ih => exact ih

theorem unit (unit : SourceUnit) : Contiguous unit.agenda :=
  of_follows (Phrased.wholeUnit unit).follows

end Contiguous

end ShaderAnalysis
