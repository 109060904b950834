import ShaderAnalysis.Tree.Alike
import ShaderAnalysis.Proofs.NodeIds
import ShaderAnalysis.Proofs.Relabeling

/-!
Trees that are alike have as many nodes, in one order. They become one tree where relabelings give
nodes at the same place of that order the same number, and forget the rest of their marks
(`SourceUnit.matched`).
-/

namespace ShaderAnalysis

/-- Two relabelings that leave only numbers to tell trees apart. -/
structure Relabeling.Blind (r r' : Relabeling) : Prop where
  place : ∀ span span', r.place span = r'.place span'
  literal : ∀ value value', r.literal value = r'.literal value'

/-- Two lists of numbers are of one length, and something is so where the relabelings make them one
list. The length lets lists be taken apart where the trees are. -/
structure Matched (r r' : Relabeling) (ids ids' : List NodeId) (P : Prop) : Prop where
  length : ids.length = ids'.length
  meet : ids.map r.node = ids'.map r'.node → P

namespace Matched

variable {r r' : Relabeling} {ids ids' others others' : List NodeId} {P Q : Prop}

theorem nil (h : P) : Matched r r' [] [] P :=
  ⟨rfl, fun _ => h⟩

theorem append (first : Matched r r' ids ids' P) (rest : Matched r r' others others' Q) :
    Matched r r' (ids ++ others) (ids' ++ others') (P ∧ Q) := by
  refine ⟨by simp [first.length, rest.length], fun meet => ?_⟩
  rw [List.map_append, List.map_append] at meet
  obtain ⟨here, there⟩ := List.append_inj meet (by simp [first.length])
  exact ⟨first.meet here, rest.meet there⟩

theorem imp (h : Matched r r' ids ids' P) (q : P → Q) : Matched r r' ids ids' Q :=
  ⟨h.length, fun meet => q (h.meet meet)⟩

/-- A node after those inside it. -/
theorem close (blind : r.Blind r') (inside : Matched r r' ids ids' P) (m m' : Mark)
    (q : P → m.relabel r = m'.relabel r' → Q) :
    Matched r r' (ids ++ [m.id]) (ids' ++ [m'.id]) Q := by
  have marked : Matched r r' [m.id] [m'.id] (m.relabel r = m'.relabel r') := by
    refine ⟨rfl, fun meet => ?_⟩
    have ids : r.node m.id = r'.node m'.id := by simpa using meet
    simp [Mark.relabel, ids, blind.place m.span m'.span]
  exact (inside.append marked).imp fun both => q both.1 both.2

end Matched

section

variable {r r' : Relabeling}

/-- Members that are alike become one when their types and their names do. -/
theorem DeclList.relabel_of_alike : ∀ {ls ls' : List DeclList}, DeclList.alikeList ls ls' = true →
    ls.map (·.type.relabel r) = ls'.map (·.type.relabel r') →
    ls.map (·.names.map (Declarator.relabel r)) = ls'.map (·.names.map (Declarator.relabel r')) →
    ls.map (DeclList.relabel r) = ls'.map (DeclList.relabel r')
  | [], [], _, _, _ => rfl
  | ⟨_, _, _, _⟩ :: _, ⟨_, _, _, _⟩ :: _, h, types, names => by
    simp only [alikeList, alike, Bool.and_eq_true, beq_iff_eq] at h
    obtain ⟨⟨⟨⟨rfl, _⟩, rfl⟩, _⟩, rest⟩ := h
    simp only [List.map_cons, List.cons.injEq] at types names
    simp [DeclList.relabel, types.1, names.1, DeclList.relabel_of_alike rest types.2 names.2]
  | [], _ :: _, h, _, _ | _ :: _, [], h, _, _ => by simp [alikeList] at h

mutual
/-- Expressions that are alike are of one constructor, and alike in their parts. -/
theorem Expr.matched (blind : r.Blind r') : ∀ {e e' : Expr}, e.alike e' = true →
    Matched r r' e.ids e'.ids (e.relabel r = e'.relabel r')
  | .ident m v, e', h => by
    cases e' with
    | ident m' v' =>
      simp only [Expr.alike, beq_iff_eq] at h
      subst h
      exact (Matched.nil trivial).close blind m m' fun _ marks => by simp [Expr.relabel, marks]
    | _ => simp [Expr.alike] at h
  | .int m v, e', h => by
    cases e' with
    | int m' v' =>
      simp only [Expr.alike, beq_iff_eq] at h
      subst h
      exact (Matched.nil trivial).close blind m m' fun _ marks => by simp [Expr.relabel, marks]
    | _ => simp [Expr.alike] at h
  | .uint m v, e', h => by
    cases e' with
    | uint m' v' =>
      simp only [Expr.alike, beq_iff_eq] at h
      subst h
      exact (Matched.nil trivial).close blind m m' fun _ marks => by simp [Expr.relabel, marks]
    | _ => simp [Expr.alike] at h
  | .bool m v, e', h => by
    cases e' with
    | bool m' v' =>
      simp only [Expr.alike, beq_iff_eq] at h
      subst h
      exact (Matched.nil trivial).close blind m m' fun _ marks => by simp [Expr.relabel, marks]
    | _ => simp [Expr.alike] at h
  | .float m v, e', h => by
    cases e' with
    | float m' v' =>
      exact (Matched.nil trivial).close blind m m' fun _ marks => by
        simp [Expr.relabel, marks, blind.literal v v']
    | _ => simp [Expr.alike] at h
  | .unary m o a, e', h => by
    cases e' with
    | unary m' o' a' =>
      simp only [Expr.alike, Bool.and_eq_true, beq_iff_eq] at h
      obtain ⟨rfl, operand⟩ := h
      exact (Expr.matched blind operand).close blind m m' fun operand marks => by
        simp [Expr.relabel, marks, operand]
    | _ => simp [Expr.alike] at h
  | .binary m o a b, e', h => by
    cases e' with
    | binary m' o' a' b' =>
      simp only [Expr.alike, Bool.and_eq_true, beq_iff_eq] at h
      obtain ⟨⟨rfl, left⟩, right⟩ := h
      exact ((Expr.matched blind left).append (Expr.matched blind right)).close blind m m'
        fun ⟨left, right⟩ marks => by simp [Expr.relabel, marks, left, right]
    | _ => simp [Expr.alike] at h
  | .assign m o a b, e', h => by
    cases e' with
    | assign m' o' a' b' =>
      simp only [Expr.alike, Bool.and_eq_true, beq_iff_eq] at h
      obtain ⟨⟨rfl, left⟩, right⟩ := h
      exact ((Expr.matched blind left).append (Expr.matched blind right)).close blind m m'
        fun ⟨left, right⟩ marks => by simp [Expr.relabel, marks, left, right]
    | _ => simp [Expr.alike] at h
  | .cond m a b c, e', h => by
    cases e' with
    | cond m' a' b' c' =>
      simp only [Expr.alike, Bool.and_eq_true] at h
      obtain ⟨⟨test, onTrue⟩, onFalse⟩ := h
      exact (((Expr.matched blind test).append (Expr.matched blind onTrue)).append
        (Expr.matched blind onFalse)).close blind m m' fun ⟨⟨test, onTrue⟩, onFalse⟩ marks => by
          simp [Expr.relabel, marks, test, onTrue, onFalse]
    | _ => simp [Expr.alike] at h
  | .index m a b, e', h => by
    cases e' with
    | index m' a' b' =>
      simp only [Expr.alike, Bool.and_eq_true] at h
      exact ((Expr.matched blind h.1).append (Expr.matched blind h.2)).close blind m m'
        fun ⟨base, place⟩ marks => by simp [Expr.relabel, marks, base, place]
    | _ => simp [Expr.alike] at h
  | .field m a n, e', h => by
    cases e' with
    | field m' a' n' =>
      simp only [Expr.alike, Bool.and_eq_true, beq_iff_eq] at h
      obtain ⟨base, rfl⟩ := h
      exact (Expr.matched blind base).close blind m m' fun base marks => by
        simp [Expr.relabel, marks, base]
    | _ => simp [Expr.alike] at h
  | .method m a n as, e', h => by
    cases e' with
    | method m' a' n' as' =>
      simp only [Expr.alike, Bool.and_eq_true, beq_iff_eq] at h
      obtain ⟨⟨base, rfl⟩, args⟩ := h
      exact ((Expr.matched blind base).append (Expr.matchedList blind args)).close blind m m'
        fun ⟨base, args⟩ marks => by simp [Expr.relabel, marks, base, args]
    | _ => simp [Expr.alike] at h
  | .call m n as, e', h => by
    cases e' with
    | call m' n' as' =>
      simp only [Expr.alike, Bool.and_eq_true, beq_iff_eq] at h
      obtain ⟨rfl, args⟩ := h
      exact (Expr.matchedList blind args).close blind m m' fun args marks => by
        simp [Expr.relabel, marks, args]
    | _ => simp [Expr.alike] at h
  | .construct m t as, e', h => by
    cases e' with
    | construct m' t' as' =>
      simp only [Expr.alike, Bool.and_eq_true] at h
      exact ((TypeSpec.matched blind h.1).append (Expr.matchedList blind h.2)).close blind m m'
        fun ⟨type, args⟩ marks => by simp [Expr.relabel, marks, type, args]
    | _ => simp [Expr.alike] at h
  | .seq m es, e', h => by
    cases e' with
    | seq m' es' =>
      simp only [Expr.alike] at h
      exact (Expr.matchedList blind h).close blind m m' fun elements marks => by
        simp [Expr.relabel, marks, elements]
    | _ => simp [Expr.alike] at h
  | .aggregate m es, e', h => by
    cases e' with
    | aggregate m' es' =>
      simp only [Expr.alike] at h
      exact (Expr.matchedList blind h).close blind m m' fun elements marks => by
        simp [Expr.relabel, marks, elements]
    | _ => simp [Expr.alike] at h

theorem Expr.matchedList (blind : r.Blind r') : ∀ {es es' : List Expr},
    Expr.alikeList es es' = true →
    Matched r r' (Expr.listIds es) (Expr.listIds es')
      (es.map (Expr.relabel r) = es'.map (Expr.relabel r'))
  | [], [], _ => .nil rfl
  | _ :: _, _ :: _, h => by
    simp only [Expr.alikeList, Bool.and_eq_true] at h
    exact ((Expr.matched blind h.1).append (Expr.matchedList blind h.2)).imp
      fun ⟨first, rest⟩ => by simp [first, rest]
  | [], _ :: _, h | _ :: _, [], h => by simp [Expr.alikeList] at h

theorem Expr.matchedOption (blind : r.Blind r') : ∀ {e e' : Option Expr},
    Expr.alikeOption e e' = true →
    Matched r r' (Expr.optionIds e) (Expr.optionIds e')
      (e.map (Expr.relabel r) = e'.map (Expr.relabel r'))
  | none, none, _ => .nil rfl
  | some _, some _, h => by
    simp only [Expr.alikeOption] at h
    exact (Expr.matched blind h).imp fun same => by simp [same]
  | none, some _, h | some _, none, h => by simp [Expr.alikeOption] at h

theorem Dim.matched (blind : r.Blind r') : ∀ {d d' : Dim}, d.alike d' = true →
    Matched r r' d.ids d'.ids (d.relabel r = d'.relabel r')
  | .unsized, .unsized, _ => .nil rfl
  | .sized _, .sized _, h => by
    simp only [Dim.alike] at h
    exact (Expr.matched blind h).imp fun same => by simp [Dim.relabel, same]
  | .unsized, .sized _, h | .sized _, .unsized, h => by simp [Dim.alike] at h

theorem Dim.matchedList (blind : r.Blind r') : ∀ {ds ds' : List Dim}, Dim.alikeList ds ds' = true →
    Matched r r' (Dim.listIds ds) (Dim.listIds ds')
      (ds.map (Dim.relabel r) = ds'.map (Dim.relabel r'))
  | [], [], _ => .nil rfl
  | _ :: _, _ :: _, h => by
    simp only [Dim.alikeList, Bool.and_eq_true] at h
    exact ((Dim.matched blind h.1).append (Dim.matchedList blind h.2)).imp
      fun ⟨first, rest⟩ => by simp [first, rest]
  | [], _ :: _, h | _ :: _, [], h => by simp [Dim.alikeList] at h

theorem Dim.matchedSpec (blind : r.Blind r') : ∀ {ds ds' : Option (List Dim)},
    Dim.alikeSpec ds ds' = true →
    Matched r r' (Dim.optionIds ds) (Dim.optionIds ds')
      (ds.map (List.map (Dim.relabel r)) = ds'.map (List.map (Dim.relabel r')))
  | none, none, _ => .nil rfl
  | some _, some _, h => by
    simp only [Dim.alikeSpec] at h
    exact (Dim.matchedList blind h).imp fun same => by simp [same]
  | none, some _, h | some _, none, h => by simp [Dim.alikeSpec] at h

theorem TypeHead.matched (blind : r.Blind r') : ∀ {t t' : TypeHead}, t.alike t' = true →
    Matched r r' t.ids t'.ids (t.relabel r = t'.relabel r')
  | .named n, .named n', h => .nil (by
      simp only [TypeHead.alike, beq_iff_eq] at h
      simp [TypeHead.relabel, h])
  | .struct _, .struct _, h => by
    simp only [TypeHead.alike] at h
    exact (StructSpec.matched blind h).imp fun same => by simp [TypeHead.relabel, same]
  | .named _, .struct _, h | .struct _, .named _, h => by simp [TypeHead.alike] at h

theorem TypeSpec.matched (blind : r.Blind r') : ∀ {t t' : TypeSpec}, t.alike t' = true →
    Matched r r' t.ids t'.ids (t.relabel r = t'.relabel r')
  | ⟨_, _⟩, ⟨_, _⟩, h => by
    simp only [TypeSpec.alike, Bool.and_eq_true] at h
    exact ((TypeHead.matched blind h.1).append (Dim.matchedSpec blind h.2)).imp
      fun ⟨head, dims⟩ => by simp [TypeSpec.relabel, head, dims]

theorem StructSpec.matched (blind : r.Blind r') : ∀ {s s' : StructSpec}, s.alike s' = true →
    Matched r r' s.ids s'.ids (s.relabel r = s'.relabel r')
  | ⟨m, n, ls⟩, ⟨m', n', ls'⟩, h => by
    simp only [StructSpec.alike, Bool.and_eq_true, beq_iff_eq] at h
    obtain ⟨rfl, members⟩ := h
    have inside :=
      (DeclList.matchedTypes blind members).append (DeclList.matchedNames blind members)
    exact inside.close blind m m' fun ⟨types, names⟩ marks => by
      simp [StructSpec.relabel, marks, DeclList.relabel_of_alike members types names]

/-- The numbers of members stand in two lists, those of types and those of names. -/
theorem DeclList.matchedTypes (blind : r.Blind r') : ∀ {ls ls' : List DeclList},
    DeclList.alikeList ls ls' = true →
    Matched r r' (DeclList.typeIds ls) (DeclList.typeIds ls')
      (ls.map (·.type.relabel r) = ls'.map (·.type.relabel r'))
  | [], [], _ => .nil rfl
  | ⟨_, _, _, _⟩ :: _, ⟨_, _, _, _⟩ :: _, h => by
    simp only [DeclList.alikeList, DeclList.alike, Bool.and_eq_true] at h
    exact ((TypeSpec.matched blind h.1.1.1.2).append (DeclList.matchedTypes blind h.2)).imp
      fun ⟨first, rest⟩ => by simp [first, rest]
  | [], _ :: _, h | _ :: _, [], h => by simp [DeclList.alikeList] at h

theorem DeclList.matchedNames (blind : r.Blind r') : ∀ {ls ls' : List DeclList},
    DeclList.alikeList ls ls' = true →
    Matched r r' (DeclList.nameIds ls) (DeclList.nameIds ls')
      (ls.map (·.names.map (Declarator.relabel r)) = ls'.map (·.names.map (Declarator.relabel r')))
  | [], [], _ => .nil rfl
  | ⟨_, _, _, _⟩ :: _, ⟨_, _, _, _⟩ :: _, h => by
    simp only [DeclList.alikeList, DeclList.alike, Bool.and_eq_true] at h
    exact ((Declarator.matchedList blind h.1.2).append (DeclList.matchedNames blind h.2)).imp
      fun ⟨first, rest⟩ => by simp [first, rest]
  | [], _ :: _, h | _ :: _, [], h => by simp [DeclList.alikeList] at h

theorem Declarator.matched (blind : r.Blind r') : ∀ {d d' : Declarator}, d.alike d' = true →
    Matched r r' d.ids d'.ids (d.relabel r = d'.relabel r')
  | ⟨m, n, ds, i⟩, ⟨m', n', ds', i'⟩, h => by
    simp only [Declarator.alike, Bool.and_eq_true, beq_iff_eq] at h
    obtain ⟨⟨rfl, dims⟩, init⟩ := h
    exact ((Dim.matchedSpec blind dims).append (Expr.matchedOption blind init)).close blind m m'
      fun ⟨dims, init⟩ marks => by simp [Declarator.relabel, marks, dims, init]

theorem Declarator.matchedList (blind : r.Blind r') : ∀ {ds ds' : List Declarator},
    Declarator.alikeList ds ds' = true →
    Matched r r' (Declarator.listIds ds) (Declarator.listIds ds')
      (ds.map (Declarator.relabel r) = ds'.map (Declarator.relabel r'))
  | [], [], _ => .nil rfl
  | _ :: _, _ :: _, h => by
    simp only [Declarator.alikeList, Bool.and_eq_true] at h
    exact ((Declarator.matched blind h.1).append (Declarator.matchedList blind h.2)).imp
      fun ⟨first, rest⟩ => by simp [first, rest]
  | [], _ :: _, h | _ :: _, [], h => by simp [Declarator.alikeList] at h
end

theorem DeclList.matched (blind : r.Blind r') {l l' : DeclList} (h : l.alike l' = true) :
    Matched r r' l.ids l'.ids (l.relabel r = l'.relabel r') := by
  obtain ⟨q, type, invariant, names⟩ := l
  obtain ⟨q', type', invariant', names'⟩ := l'
  simp only [alike, Bool.and_eq_true, beq_iff_eq] at h
  obtain ⟨⟨⟨rfl, types⟩, rfl⟩, declared⟩ := h
  exact ((TypeSpec.matched blind types).append (Declarator.matchedList blind declared)).imp
    fun ⟨types, declared⟩ => by simp [relabel, types, declared]

theorem BlockDecl.matched (blind : r.Blind r') {b b' : BlockDecl} (h : b.alike b' = true) :
    Matched r r' b.ids b'.ids (b.relabel r = b'.relabel r') := by
  obtain ⟨q, name, instanceName, dims, members⟩ := b
  obtain ⟨q', name', instanceName', dims', members'⟩ := b'
  simp only [alike, Bool.and_eq_true, beq_iff_eq] at h
  obtain ⟨⟨⟨⟨rfl, rfl⟩, rfl⟩, dimensions⟩, fields⟩ := h
  have inside := (DeclList.matchedTypes blind fields).append (DeclList.matchedNames blind fields)
  exact (inside.append (Dim.matchedSpec blind dimensions)).imp
    fun ⟨⟨types, names⟩, dimensions⟩ => by
      simp [relabel, dimensions, DeclList.relabel_of_alike fields types names]

theorem Jump.matched (blind : r.Blind r') {j j' : Jump} (h : j.alike j' = true) :
    Matched r r' j.ids j'.ids (j.relabel r = j'.relabel r') := by
  cases j <;> cases j'
  case returns.returns =>
    exact (Expr.matchedOption blind h).imp fun same => by simp [relabel, same]
  all_goals first
    | exact .nil rfl
    | simp [alike] at h

theorem Label.matchedList (blind : r.Blind r') : ∀ {ls ls' : List Label},
    Label.alikeList ls ls' = true →
    Matched r r' ((ls.filterMap Label.value?).flatMap Expr.ids)
      ((ls'.filterMap Label.value?).flatMap Expr.ids)
      (ls.map (Label.relabel r) = ls'.map (Label.relabel r'))
  | [], [], _ => .nil rfl
  | .value _ :: _, .value _ :: _, h => by
    simp only [alikeList, alike, Bool.and_eq_true] at h
    exact ((Expr.matched blind h.1).append (Label.matchedList blind h.2)).imp
      fun ⟨first, rest⟩ => by simp [relabel, first, rest]
  | .fallback :: _, .fallback :: _, h => by
    simp only [alikeList, alike, Bool.true_and] at h
    exact (Label.matchedList blind h).imp fun rest => by simp [relabel, rest]
  | [], _ :: _, h | _ :: _, [], h | .value _ :: _, .fallback :: _, h
  | .fallback :: _, .value _ :: _, h => by simp [alikeList, alike] at h

mutual
theorem Stmt.matched (blind : r.Blind r') : ∀ {s s' : Stmt}, s.alike s' = true →
    Matched r r' s.ids s'.ids (s.relabel r = s'.relabel r')
  | .compound m n ss, s', h => by
    cases s' with
    | compound m' n' ss' =>
      simp only [Stmt.alike, Bool.and_eq_true, beq_iff_eq] at h
      obtain ⟨rfl, body⟩ := h
      exact (Stmt.matchedList blind body).close blind m m' fun body marks => by
        simp [Stmt.relabel, marks, body]
    | _ => simp [Stmt.alike] at h
  | .declare m l, s', h => by
    cases s' with
    | declare m' l' =>
      simp only [Stmt.alike] at h
      exact (DeclList.matched blind h).close blind m m' fun list marks => by
        simp [Stmt.relabel, marks, list]
    | _ => simp [Stmt.alike] at h
  | .block m b, s', h => by
    cases s' with
    | block m' b' =>
      simp only [Stmt.alike] at h
      exact (BlockDecl.matched blind h).close blind m m' fun block marks => by
        simp [Stmt.relabel, marks, block]
    | _ => simp [Stmt.alike] at h
  | .expr m e, s', h => by
    cases s' with
    | expr m' e' =>
      simp only [Stmt.alike] at h
      exact (Expr.matchedOption blind h).close blind m m' fun value marks => by
        simp [Stmt.relabel, marks, value]
    | _ => simp [Stmt.alike] at h
  | .ifElse m c t none, s', h => by
    cases s' with
    | ifElse m' c' t' f' =>
      cases f' with
      | none =>
        simp only [Stmt.alike, Stmt.alikeOption, Bool.and_eq_true, and_true] at h
        exact ((Expr.matched blind h.1).append (Stmt.matched blind h.2)).close blind m m'
          fun ⟨test, onTrue⟩ marks => by simp [Stmt.relabel, marks, test, onTrue]
      | some f' => simp [Stmt.alike, Stmt.alikeOption] at h
    | _ => simp [Stmt.alike] at h
  | .ifElse m c t (some f), s', h => by
    cases s' with
    | ifElse m' c' t' f' =>
      cases f' with
      | none => simp [Stmt.alike, Stmt.alikeOption] at h
      | some f' =>
        simp only [Stmt.alike, Stmt.alikeOption, Bool.and_eq_true] at h
        obtain ⟨⟨test, onTrue⟩, onFalse⟩ := h
        exact (((Expr.matched blind test).append (Stmt.matched blind onTrue)).append
          (Stmt.matched blind onFalse)).close blind m m' fun ⟨⟨test, onTrue⟩, onFalse⟩ marks => by
            simp [Stmt.relabel, marks, test, onTrue, onFalse]
    | _ => simp [Stmt.alike] at h
  | .switch m c b, s', h => by
    cases s' with
    | switch m' c' b' =>
      simp only [Stmt.alike, Bool.and_eq_true] at h
      exact ((Expr.matched blind h.1).append (SwitchBody.matched blind h.2)).close blind m m'
        fun ⟨test, body⟩ marks => by simp [Stmt.relabel, marks, test, body]
    | _ => simp [Stmt.alike] at h
  | .loop m k i c t b, s', h => by
    cases s' with
    | loop m' k' i' c' t' b' =>
      simp only [Stmt.alike, Bool.and_eq_true, beq_iff_eq] at h
      obtain ⟨⟨⟨⟨rfl, init⟩, test⟩, step⟩, body⟩ := h
      have begun := (Stmt.matchedOption blind init).append (Expr.matchedOption blind test)
      exact ((begun.append (Stmt.matched blind body)).append
        (Expr.matchedOption blind step)).close blind m m'
          fun ⟨⟨⟨init, test⟩, body⟩, step⟩ marks => by
            simp [Stmt.relabel, marks, init, test, step, body]
    | _ => simp [Stmt.alike] at h
  | .jump m j, s', h => by
    cases s' with
    | jump m' j' =>
      simp only [Stmt.alike] at h
      exact (Jump.matched blind h).close blind m m' fun jump marks => by
        simp [Stmt.relabel, marks, jump]
    | _ => simp [Stmt.alike] at h

theorem Stmt.matchedList (blind : r.Blind r') : ∀ {ss ss' : List Stmt},
    Stmt.alikeList ss ss' = true →
    Matched r r' (Stmt.listIds ss) (Stmt.listIds ss')
      (ss.map (Stmt.relabel r) = ss'.map (Stmt.relabel r'))
  | [], [], _ => .nil rfl
  | _ :: _, _ :: _, h => by
    simp only [Stmt.alikeList, Bool.and_eq_true] at h
    exact ((Stmt.matched blind h.1).append (Stmt.matchedList blind h.2)).imp
      fun ⟨first, rest⟩ => by simp [first, rest]
  | [], _ :: _, h | _ :: _, [], h => by simp [Stmt.alikeList] at h

theorem Stmt.matchedOption (blind : r.Blind r') : ∀ {s s' : Option Stmt},
    Stmt.alikeOption s s' = true →
    Matched r r' (Stmt.optionIds s) (Stmt.optionIds s')
      (s.map (Stmt.relabel r) = s'.map (Stmt.relabel r'))
  | none, none, _ => .nil rfl
  | some _, some _, h => by
    simp only [Stmt.alikeOption] at h
    exact (Stmt.matched blind h).imp fun same => by simp [same]
  | none, some _, h | some _, none, h => by simp [Stmt.alikeOption] at h

theorem SwitchBody.matched (blind : r.Blind r') : ∀ {b b' : SwitchBody}, b.alike b' = true →
    Matched r r' b.ids b'.ids (b.relabel r = b'.relabel r')
  | ⟨m, _⟩, ⟨m', _⟩, h => by
    simp only [SwitchBody.alike] at h
    exact (Case.matchedList blind h).close blind m m' fun cases marks => by
      simp [SwitchBody.relabel, marks, cases]

theorem Case.matched (blind : r.Blind r') : ∀ {c c' : Case}, c.alike c' = true →
    Matched r r' c.ids c'.ids (c.relabel r = c'.relabel r')
  | ⟨m, _, _⟩, ⟨m', _, _⟩, h => by
    simp only [Case.alike, Bool.and_eq_true] at h
    exact ((Label.matchedList blind h.1).append (Stmt.matchedList blind h.2)).close blind m m'
      fun ⟨labels, body⟩ marks => by simp [Case.relabel, marks, labels, body]

theorem Case.matchedList (blind : r.Blind r') : ∀ {cs cs' : List Case},
    Case.alikeList cs cs' = true →
    Matched r r' (Case.listIds cs) (Case.listIds cs')
      (cs.map (Case.relabel r) = cs'.map (Case.relabel r'))
  | [], [], _ => .nil rfl
  | _ :: _, _ :: _, h => by
    simp only [Case.alikeList, Bool.and_eq_true] at h
    exact ((Case.matched blind h.1).append (Case.matchedList blind h.2)).imp
      fun ⟨first, rest⟩ => by simp [first, rest]
  | [], _ :: _, h | _ :: _, [], h => by simp [Case.alikeList] at h
end

theorem Parameter.matched (blind : r.Blind r') {p p' : Parameter} (h : p.alike p' = true) :
    Matched r r' p.ids p'.ids (p.relabel r = p'.relabel r') := by
  obtain ⟨m, q, type, name, dims, formal⟩ := p
  obtain ⟨m', q', type', name', dims', formal'⟩ := p'
  simp only [alike, Bool.and_eq_true, beq_iff_eq] at h
  obtain ⟨⟨⟨⟨rfl, types⟩, rfl⟩, dimensions⟩, rfl⟩ := h
  exact ((TypeSpec.matched blind types).append (Dim.matchedSpec blind dimensions)).close blind m m'
    fun ⟨types, dimensions⟩ marks => by simp [relabel, marks, types, dimensions]

theorem Parameter.matchedList (blind : r.Blind r') : ∀ {ps ps' : List Parameter},
    Parameter.alikeList ps ps' = true →
    Matched r r' (ps.flatMap Parameter.ids) (ps'.flatMap Parameter.ids)
      (ps.map (Parameter.relabel r) = ps'.map (Parameter.relabel r'))
  | [], [], _ => .nil rfl
  | _ :: _, _ :: _, h => by
    simp only [alikeList, Bool.and_eq_true] at h
    exact ((Parameter.matched blind h.1).append (Parameter.matchedList blind h.2)).imp
      fun ⟨first, rest⟩ => by simp [first, rest]
  | [], _ :: _, h | _ :: _, [], h => by simp [alikeList] at h

theorem Prototype.matched (blind : r.Blind r') {p p' : Prototype} (h : p.alike p' = true) :
    Matched r r' p.ids p'.ids (p.relabel r = p'.relabel r') := by
  obtain ⟨m, q, returns, name, params⟩ := p
  obtain ⟨m', q', returns', name', params'⟩ := p'
  simp only [alike, Bool.and_eq_true, beq_iff_eq] at h
  obtain ⟨⟨⟨rfl, result⟩, rfl⟩, parameters⟩ := h
  exact ((TypeSpec.matched blind result).append
    (Parameter.matchedList blind parameters)).close blind m m'
      fun ⟨result, parameters⟩ marks => by simp [relabel, marks, result, parameters]

theorem TopLevel.matched (blind : r.Blind r') {d d' : TopLevel} (h : d.alike d' = true) :
    Matched r r' d.ids d'.ids (d.relabel r = d'.relabel r') := by
  cases d <;> cases d'
  case declaration.declaration =>
    exact (Stmt.matched blind h).imp fun same => by simp [relabel, same]
  case prototype.prototype p p' =>
    simp only [alike] at h
    exact (Prototype.matched blind h).imp fun same => by simp [relabel, same]
  case function.function f f' =>
    simp only [alike, Bool.and_eq_true] at h
    exact ((Prototype.matched blind h.1).append (Stmt.matched blind h.2)).close blind f.mark f'.mark
      fun same marks => by
        simp [relabel, FunctionDef.relabel, marks, same.1, same.2]
  case layout.layout l l' =>
    obtain ⟨m, mode⟩ := l
    obtain ⟨m', mode'⟩ := l'
    simp only [alike, beq_iff_eq] at h
    subst h
    exact (Matched.nil trivial).close blind m m' fun _ marks => by
      simp [relabel, InputLayout.relabel, marks]
  all_goals simp [alike] at h

theorem SourceUnit.matched (blind : r.Blind r') : ∀ {unit unit' : SourceUnit},
    unit.alike unit' = true → Matched r r' unit.ids unit'.ids (unit.relabel r = unit'.relabel r')
  | [], [], _ => .nil rfl
  | _ :: _, _ :: _, h => by
    simp only [alike, Bool.and_eq_true] at h
    exact ((TopLevel.matched blind h.1).append (SourceUnit.matched blind h.2)).imp
      fun ⟨first, rest⟩ => congrArg₂ List.cons first rest
  | [], _ :: _, h | _ :: _, [], h => by simp [alike] at h

end

end ShaderAnalysis
