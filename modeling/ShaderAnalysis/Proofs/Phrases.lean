import ShaderAnalysis.Proofs.Agenda
import ShaderAnalysis.Proofs.NodeParts

/-!
Agendas in phrases. What is done for an expression, for a declaration, for a block or for the
signature of a function stands together. Around these phrases scopes are opened and closed, and
nodes are left, in the order of the outlines. For this the recursion through statements, cases and
declarations is gone through once (`Phrased.unit`); what actions and outlines tell by themselves is
then shown by induction on phrases, whatever kinds of statements there are.
-/

namespace ShaderAnalysis

/-! ### Struct definitions -/

theorem TypeSpec.agenda_eq (t : TypeSpec) : t.agenda = t.structs.flatMap StructSpec.agenda := by
  obtain ⟨_ | s, dims⟩ := t
  · rfl
  · exact (List.flatMap_singleton ..).symm

theorem DeclList.memberAgenda_eq (ls : List DeclList) :
    memberAgenda ls = (ls.flatMap (·.type.structs)).flatMap StructSpec.agenda := by
  induction ls with
  | nil => rfl
  | cons list ls ih =>
    obtain ⟨_, type, _, _⟩ := list
    rw [memberAgenda, ih, type.agenda_eq, List.flatMap_cons, List.flatMap_append]

/-- What is done for a struct definition, around what is done for those inside it. -/
theorem StructSpec.agenda_eq (s : StructSpec) :
    s.agenda = .enterStruct s.mark.span :: s.inner.flatMap StructSpec.agenda
      ++ [.leaveStruct, .bindStruct s, .leave (.struct s)] := by
  obtain ⟨mark, name, members⟩ := s
  rw [agenda, DeclList.memberAgenda_eq]
  rfl

theorem StructSpec.outline_eq (s : StructSpec) :
    s.outline = .node (.struct s) (s.inner.map StructSpec.outline) := by
  obtain ⟨mark, name, members⟩ := s
  rw [outline, DeclList.memberOutlines_eq]
  rfl

/-- Whether an action is done for a struct definition. -/
def Action.isOfStruct : Action → Bool
  | .enterStruct _ | .leaveStruct | .bindStruct _ | .leave (.struct _) => true
  | _ => false

theorem StructSpec.isOfStruct_agenda (s : StructSpec) : ∀ a ∈ s.agenda, a.isOfStruct = true := by
  induction s using StructSpec.byInner with
  | step s inner =>
    intro a mem
    rw [s.agenda_eq] at mem
    simp only [List.cons_append, List.mem_cons, List.mem_append, List.not_mem_nil, or_false] at mem
    rcases mem with rfl | inside | rfl | rfl | rfl
    · rfl
    · obtain ⟨r, listed, mem⟩ := List.mem_flatMap.mp inside
      exact inner r listed a mem
    · rfl
    · rfl
    · rfl

theorem TypeSpec.isOfStruct_agenda (t : TypeSpec) : ∀ a ∈ t.agenda, a.isOfStruct = true := by
  intro a mem
  rw [t.agenda_eq] at mem
  obtain ⟨s, _, mem⟩ := List.mem_flatMap.mp mem
  exact s.isOfStruct_agenda a mem

theorem DeclList.isOfStruct_memberAgenda (ls : List DeclList) :
    ∀ a ∈ memberAgenda ls, a.isOfStruct = true := by
  intro a mem
  rw [memberAgenda_eq] at mem
  obtain ⟨s, _, mem⟩ := List.mem_flatMap.mp mem
  exact s.isOfStruct_agenda a mem

/-! ### Phrases -/

/-- A node that is left behind what is inside it, with nothing bound in between. -/
def Node.IsPlain : Node → Prop
  | .stmt (.block ..) => False
  | .stmt _ | .switchBody _ | .case _ | .prototype _ | .function _ => True
  | .expr _ | .declarator _ | .struct _ | .parameter _ | .layout _ => False

/-- A node has some outlines inside it, and if it is a statement, it has these actions before it is
left. -/
structure Node.Spells (n : Node) (as : List Action) (os : List Outline) : Prop where
  outline : n.outline = .node n os
  agenda : ∀ s, n = .stmt s → s.agenda = as ++ [.leave n]

/-- Actions in phrases, in the order of outlines. The heads are prototypes that are not left: those
of functions. -/
inductive Phrased (heads : Prototype → Prop) : List Action → List Outline → Prop
  | nil : Phrased heads [] []
  | append {as bs : List Action} {os ps : List Outline} :
    Phrased heads as os → Phrased heads bs ps → Phrased heads (as ++ bs) (os ++ ps)
  | enclose (r : Region) {as : List Action} {os : List Outline} :
    Phrased heads as os → Phrased heads (r.enclose as) os
  | expr (e : Expr) : Phrased heads e.agenda [e.outline]
  | list (span : Span) (l : DeclList) :
    Phrased heads (l.agenda span) (l.type.outlines ++ l.names.map Declarator.outline)
  | block (m : Mark) (b : BlockDecl) :
    Phrased heads (Stmt.agenda (.block m b)) [Stmt.outline (.block m b)]
  | signature (p : Prototype) :
    Phrased heads p.signatureAgenda (p.returns.outlines ++ p.params.map Parameter.outline)
  | layout (l : InputLayout) : Phrased heads l.agenda [l.outline]
  | node {n : Node} {as : List Action} {os : List Outline} : n.IsPlain → n.Spells as os →
    Phrased heads as os → Phrased heads (as ++ [.leave n]) [.node n os]
  | head {p : Prototype} {as : List Action} {os : List Outline} : heads p →
    Phrased heads as os → Phrased heads as [.node (.prototype p) os]

namespace Phrased

variable {heads : Prototype → Prop} {as : List Action} {os : List Outline}

theorem encloseIf (r : Region) (own : Bool) (h : Phrased heads as os) :
    Phrased heads (r.encloseIf own as) os := by
  cases own with
  | true => exact h.enclose r
  | false => exact h

theorem exprs (es : List Expr) :
    Phrased heads (es.flatMap Expr.agenda) (es.map Expr.outline) := by
  induction es with
  | nil => exact nil
  | cons e es ih => exact (expr e).append ih

/-- A statement other than a block, given what is done before it is left. -/
theorem left {s : Stmt} (h : Phrased heads as os) (plain : (Node.stmt s).IsPlain)
    (agenda : s.agenda = as ++ [.leave (.stmt s)]) (outline : s.outline = .node (.stmt s) os) :
    Phrased heads s.agenda [s.outline] := by
  rw [agenda, outline]
  refine h.node plain ⟨outline, ?_⟩
  rintro _ ⟨⟩
  exact agenda

mutual
theorem stmt : ∀ s : Stmt, Phrased heads s.agenda [s.outline]
  | .compound m true body =>
    ((stmts body).enclose m.region).left trivial (by rw [Stmt.agenda]) (by rw [Stmt.outline])
  | .compound m false body =>
    (stmts body).left trivial (by rw [Stmt.agenda]) (by rw [Stmt.outline])
  | .declare m l => (list m.span l).left trivial (by rw [Stmt.agenda]) (by rw [Stmt.outline])
  | .block m b => block m b
  | .expr m e => (exprs e.toList).left trivial (by rw [Stmt.agenda]) (by rw [Stmt.outline])
  | .ifElse m test onTrue none => by
    have inside := (expr test).append ((stmt onTrue).enclose m.region)
    exact inside.left trivial (by rw [Stmt.agenda]) (by rw [Stmt.outline]; rfl)
  | .ifElse m test onTrue (some onFalse) => by
    have inside := ((expr test).append ((stmt onTrue).enclose m.region)).append
      ((stmt onFalse).enclose m.elseRegion)
    exact inside.left trivial (by rw [Stmt.agenda]) (by rw [Stmt.outline]; rfl)
  | .switch m test body => by
    have inside := (expr test).append ((switchBody body).enclose m.region)
    exact inside.left trivial (by rw [Stmt.agenda]) (by rw [Stmt.outline]; rfl)
  | .loop m mode init test step body => by
    have inside := (((stmt? init).append (exprs test.toList)).append (stmt body)).append
      (exprs step.toList)
    refine (inside.encloseIf m.region mode.hasScope).left trivial (by rw [Stmt.agenda]) ?_
    rw [Stmt.outline, List.append_assoc _ [body.outline], List.singleton_append]
  | .jump m j => (exprs j.value?.toList).left trivial (by rw [Stmt.agenda]) (by rw [Stmt.outline])

theorem stmts : ∀ ss : List Stmt, Phrased heads (Stmt.agendas ss) (Stmt.outlines ss)
  | [] => nil
  | s :: ss => (stmt s).append (stmts ss)

theorem stmt? : ∀ s : Option Stmt, Phrased heads (Stmt.optionAgenda s) (Stmt.optionOutlines s)
  | none => nil
  | some s => stmt s

theorem switchBody : ∀ b : SwitchBody, Phrased heads b.agenda [b.outline]
  | ⟨m, cs⟩ => (cases cs).node trivial ⟨rfl, by simp⟩

theorem case : ∀ c : Case, Phrased heads c.agenda [c.outline]
  | ⟨m, labels, body⟩ => by
    have inside := (exprs (labels.filterMap Label.value?)).append (stmts body)
    exact inside.node trivial ⟨rfl, by simp⟩

theorem cases : ∀ cs : List Case, Phrased heads (Case.agendas cs) (Case.outlines cs)
  | [] => nil
  | c :: cs => (case c).append (cases cs)
end

theorem prototype (p : Prototype) : Phrased heads p.agenda [p.outline] :=
  ((signature p).enclose p.mark.region).node trivial ⟨rfl, by simp⟩

theorem function {f : FunctionDef} (head : heads f.prototype) :
    Phrased heads f.agenda [f.outline] := by
  have inside := ((signature f.prototype).head head).append (stmt f.body)
  exact (inside.enclose f.mark.region).node trivial ⟨rfl, by simp⟩

theorem topLevel {d : TopLevel} (head : ∀ f, d = .function f → heads f.prototype) :
    Phrased heads d.agenda [d.outline] := by
  cases d with
  | declaration s => exact stmt s
  | prototype p => exact prototype p
  | function f => exact function (head f rfl)
  | layout l => exact layout l

theorem unit {unit : SourceUnit} (head : ∀ f, .function f ∈ unit → heads f.prototype) :
    Phrased heads unit.agenda (unit.map TopLevel.outline) := by
  induction unit with
  | nil => exact nil
  | cons d ds ih =>
    have first : Phrased heads d.agenda [d.outline] :=
      topLevel fun f same => head f (same ▸ List.mem_cons_self)
    exact first.append (ih fun f mem => head f (List.mem_cons_of_mem d mem))

/-- A unit, whatever the prototypes of its functions are. -/
theorem wholeUnit (unit : SourceUnit) :
    Phrased (fun _ => True) unit.agenda (unit.map TopLevel.outline) :=
  Phrased.unit fun _ _ => trivial

end Phrased

end ShaderAnalysis
