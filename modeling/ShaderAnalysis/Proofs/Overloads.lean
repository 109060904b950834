import Mathlib.Data.List.Forall2
import ShaderAnalysis.Proofs.Evolution

/-!
The table of functions, and what a call means by it. A table keeps what has been declared, without
the signatures whose parameters an earlier one of the same name has (`Overloads.ofName_ofList`). A
call means the signature with exactly its argument types as parameters, or else the first one that
the arguments convert to (`Signature.Meant`, `Overloads.find?_eq_some_iff`). The overloads of a name
are only ever added to at the end, so that a further declaration takes no meaning away, and leaves
an exact match as it is (`Overloads.declared_calls`); so it is along every analysis
(`calls_keep_meaning`).
-/

namespace ShaderAnalysis

/-! ### Implicit conversion -/

/-- Implicit conversion: of a type to itself, and of a scalar or vector to one of the same shape
with wider components. -/
inductive Ty.Widens : Ty → Ty → Prop
  | same (t : Ty) : Widens t t
  | scalar {k k' : ScalarKind} : k.widensTo k' = true → Widens (.scalar k) (.scalar k')
  | vector {k k' : ScalarKind} (n : Nat) : k.widensTo k' = true →
    Widens (.vector k n) (.vector k' n)

theorem Ty.convertsTo_iff {a p : Ty} : a.convertsTo p = true ↔ a.Widens p := by
  constructor
  · intro h
    by_cases same : a = p
    · exact same ▸ .same a
    · simp only [convertsTo, same, decide_false, Bool.false_or] at h
      split at h
      next k k' kind kind' =>
        obtain ⟨shaped, widens⟩ := Bool.and_eq_true_iff.mp h
        have shaped : a.withBaseKind k' = p := of_decide_eq_true shaped
        cases a with
        | scalar k₀ =>
          obtain rfl : k₀ = k := Option.some.inj kind
          subst shaped
          exact .scalar widens
        | vector k₀ n =>
          obtain rfl : k₀ = k := Option.some.inj kind
          subst shaped
          exact .vector n widens
        | _ => exact absurd shaped same
      next => cases h
  · rintro (_ | widens | ⟨n, widens⟩)
    · simp [convertsTo]
    · simp [convertsTo, baseKind?, withBaseKind, widens]
    · simp [convertsTo, baseKind?, withBaseKind, widens]

/-- There is one argument for each parameter of a signature, and it converts to that parameter. -/
def Signature.Admits (s : Signature) (args : List Ty) : Prop :=
  List.Forall₂ Ty.Widens args s.params

namespace Signature

variable {s t : Signature} {ss ts : List Signature} {args : List Ty}

theorem admits_of_params_eq (h : s.params = args) : s.Admits args := by
  rw [Admits, h]
  exact List.forall₂_same.mpr fun a _ => .same a

theorem allConvert_iff : ∀ {as ps : List Ty},
    Ty.allConvert as ps = true ↔ List.Forall₂ Ty.Widens as ps
  | [], [] => by simp [Ty.allConvert]
  | [], _ :: _ => by simp [Ty.allConvert]
  | _ :: _, [] => by simp [Ty.allConvert]
  | a :: as, p :: ps => by simp [Ty.allConvert, Ty.convertsTo_iff, allConvert_iff]

theorem accepts_iff : s.accepts args = true ↔ s.Admits args :=
  allConvert_iff

end Signature

/-! ### The first signature with a property -/

/-- An element is the first of a list to have a property. -/
inductive IsFirst {α : Type} (P : α → Prop) : List α → α → Prop
  | head {a : α} (as : List α) : P a → IsFirst P (a :: as) a
  | tail {a b : α} {as : List α} : ¬ P b → IsFirst P as a → IsFirst P (b :: as) a

namespace IsFirst

variable {α : Type} {P : α → Prop} {a b : α} {as bs : List α}

theorem has (h : IsFirst P as a) : P a := by
  induction h with
  | head _ has => exact has
  | tail _ _ ih => exact ih

theorem mem (h : IsFirst P as a) : a ∈ as := by
  induction h with
  | head => exact List.mem_cons_self
  | tail _ _ ih => exact List.mem_cons_of_mem _ ih

theorem unique (h : IsFirst P as a) (h' : IsFirst P as b) : a = b := by
  induction h with
  | head _ has =>
    cases h' with
    | head => rfl
    | tail lacks => exact absurd has lacks
  | tail lacks _ ih =>
    cases h' with
    | head _ has => exact absurd has lacks
    | tail _ first => exact ih first

theorem append (h : IsFirst P as a) (bs : List α) : IsFirst P (as ++ bs) a := by
  induction h with
  | head as has => exact .head (as ++ bs) has
  | tail lacks _ ih => exact .tail lacks ih

theorem cons_iff : IsFirst P (b :: as) a ↔ (P b ∧ a = b) ∨ (¬ P b ∧ IsFirst P as a) := by
  constructor
  · rintro (_ | ⟨lacks, first⟩)
    · exact .inl ⟨‹_›, rfl⟩
    · exact .inr ⟨lacks, first⟩
  · rintro (⟨has, rfl⟩ | ⟨lacks, first⟩)
    · exact .head as has
    · exact .tail lacks first

theorem find?_iff {p : α → Bool} : as.find? p = some a ↔ IsFirst (p · = true) as a := by
  induction as with
  | nil => exact ⟨nofun, nofun⟩
  | cons b bs ih =>
    rw [cons_iff, List.find?_cons]
    by_cases has : p b = true
    · simp [has, @eq_comm _ b a]
    · simp [has, ih]

theorem exists_iff : (∃ a, IsFirst P as a) ↔ ∃ a ∈ as, P a := by
  constructor
  · rintro ⟨a, first⟩
    exact ⟨a, first.mem, first.has⟩
  · intro h
    induction as with
    | nil =>
      obtain ⟨a, mem, _⟩ := h
      cases mem
    | cons b bs ih =>
      by_cases has : P b
      · exact ⟨b, .head bs has⟩
      · have later : ∃ a ∈ bs, P a := by simpa [has] using h
        obtain ⟨a, first⟩ := ih later
        exact ⟨a, .tail has first⟩

/-- The first among the elements that a filter keeps. -/
theorem filter_iff {Q : α → Prop} {q : α → Bool} (both : ∀ b, Q b ↔ q b = true ∧ P b) :
    IsFirst P (as.filter q) a ↔ IsFirst Q as a := by
  induction as with
  | nil => exact ⟨nofun, nofun⟩
  | cons b bs ih =>
    rw [cons_iff]
    by_cases keeps : q b = true
    · rw [List.filter_cons_of_pos keeps, cons_iff, ih]
      simp [both, keeps]
    · rw [List.filter_cons_of_neg keeps, ih]
      simp [both, keeps]

end IsFirst

/-! ### What is kept of a list of signatures -/

namespace Signature

variable {s t : Signature} {ss ts : List Signature} {args : List Ty}

/-- The signatures of a list, without those whose parameters an earlier one has. -/
def firsts : List Signature → List Signature
  | [] => []
  | s :: ss => s :: (firsts ss).filter (·.params ≠ s.params)

theorem firsts_concat : ∀ (ss : List Signature) (s : Signature),
    firsts (ss ++ [s]) = if ∃ t ∈ ss, t.params = s.params then firsts ss else firsts ss ++ [s]
  | [], s => by simp [firsts]
  | t :: ts, s => by
    rw [List.cons_append, firsts, firsts_concat ts s, firsts]
    by_cases same : t.params = s.params
    · by_cases known : ∃ u ∈ ts, u.params = s.params <;> simp [known, same]
    · by_cases known : ∃ u ∈ ts, u.params = s.params
      · simp [known]
      · simp [known, same, Ne.symm same]

/-- The first signature with a property of its parameters is kept. -/
theorem isFirst_firsts_iff {Q : List Ty → Prop} :
    IsFirst (fun t => Q t.params) (firsts ss) s ↔ IsFirst (fun t => Q t.params) ss s := by
  induction ss with
  | nil => rfl
  | cons t ts ih =>
    rw [firsts, IsFirst.cons_iff, IsFirst.cons_iff]
    by_cases has : Q t.params
    · simp [has]
    -- The signatures that the head hides have its parameters, and lack the property with it.
    · have kept : ∀ u : Signature,
          Q u.params ↔ decide (u.params ≠ t.params) = true ∧ Q u.params := by
        intro u
        simp only [decide_eq_true_eq]
        exact ⟨fun has' => ⟨fun same => has (same ▸ has'), has'⟩, And.right⟩
      rw [IsFirst.filter_iff kept, ih]

theorem exists_firsts_iff {Q : List Ty → Prop} :
    (∃ t ∈ firsts ss, Q t.params) ↔ ∃ t ∈ ss, Q t.params := by
  rw [← IsFirst.exists_iff, ← IsFirst.exists_iff]
  exact exists_congr fun s => isFirst_firsts_iff

end Signature

/-! ### What a call means -/

/-- A call with arguments of these types means a signature, among those of its name: the first one
that has exactly these parameters, or, if there is none, the first one that admits the arguments. -/
inductive Signature.Meant (ss : List Signature) (args : List Ty) : Signature → Prop
  | exact {s : Signature} : IsFirst (·.params = args) ss s → Meant ss args s
  | converted {s : Signature} : (∀ t ∈ ss, t.params ≠ args) → IsFirst (·.Admits args) ss s →
    Meant ss args s

namespace Signature

variable {s t : Signature} {ss ts : List Signature} {args : List Ty}

theorem Meant.admits (h : Meant ss args s) : s.Admits args := by
  cases h with
  | exact first => exact admits_of_params_eq first.has
  | converted _ first => exact first.has

theorem Meant.mem (h : Meant ss args s) : s ∈ ss := by
  cases h with
  | exact first => exact first.mem
  | converted _ first => exact first.mem

theorem Meant.unique (h : Meant ss args s) (h' : Meant ss args t) : s = t := by
  cases h with
  | exact first =>
    cases h' with
    | exact first' => exact first.unique first'
    | converted inexact => exact absurd first.has (inexact s first.mem)
  | converted inexact first =>
    cases h' with
    | exact first' => exact absurd first'.has (inexact t first'.mem)
    | converted _ first' => exact first.unique first'

/-- A call means something as soon as there is a signature that admits its arguments. -/
theorem exists_meant_iff : (∃ s, Meant ss args s) ↔ ∃ s ∈ ss, s.Admits args := by
  constructor
  · rintro ⟨s, meant⟩
    exact ⟨s, meant.mem, meant.admits⟩
  · intro admitted
    by_cases exact_ : ∃ t ∈ ss, t.params = args
    · obtain ⟨s, first⟩ := IsFirst.exists_iff.mpr exact_
      exact ⟨s, .exact first⟩
    · obtain ⟨s, first⟩ := IsFirst.exists_iff.mpr admitted
      exact ⟨s, .converted (fun t mem same => exact_ ⟨t, mem, same⟩) first⟩

end Signature

namespace Overloads

variable {o : Overloads} {name : String} {args : List Ty} {s : Signature}

theorem find?_eq_some_iff :
    o.find? name args = some s ↔ Signature.Meant (o.ofName name) args s := by
  rw [find?, Option.or_eq_some_iff, List.find?_eq_none, IsFirst.find?_iff, IsFirst.find?_iff]
  simp only [beq_iff_eq, Signature.accepts_iff]
  constructor
  · rintro (first | ⟨inexact, first⟩)
    · exact .exact first
    · exact .converted inexact first
  · rintro (first | ⟨inexact, first⟩)
    · exact .inl first
    · exact .inr ⟨inexact, first⟩

theorem find?_eq_none_iff :
    o.find? name args = none ↔ ∀ t ∈ o.ofName name, ¬ t.Admits args := by
  rw [Option.eq_none_iff_forall_ne_some]
  simp only [ne_eq, find?_eq_some_iff]
  rw [← not_exists, Signature.exists_meant_iff]
  simp

/-- More overloads at the end leave an exact match as it is. -/
theorem find?_eq_of_prefix {o' : Overloads} (grown : o.ofName name <+: o'.ofName name)
    (exact_ : s.params = args) (h : o.find? name args = some s) : o'.find? name args = some s := by
  obtain ⟨more, grown⟩ := grown
  rw [find?_eq_some_iff] at h ⊢
  cases h with
  | exact first =>
    rw [← grown]
    exact .exact (first.append more)
  | converted inexact first => exact absurd exact_ (inexact s first.mem)

/-- More overloads at the end leave no call without a meaning that had one. -/
theorem find?_ne_none_of_prefix {o' : Overloads} (grown : o.ofName name <+: o'.ofName name)
    (h : o.find? name args ≠ none) : o'.find? name args ≠ none := by
  rw [ne_eq, find?_eq_none_iff] at h ⊢
  intro unmatched
  exact h fun t mem => unmatched t (grown.subset mem)

/-! ### Tables made by declarations -/

/-- The table after these declarations, one after the other. -/
def ofList (ss : List Signature) : Overloads :=
  ss.foldl declare {}

theorem ofList_append (ss ts : List Signature) :
    ofList (ss ++ ts) = ts.foldl declare (ofList ss) := by
  rw [ofList, ofList, List.foldl_append]

theorem ofName_ofList (ss : List Signature) (name : String) :
    (ofList ss).ofName name = Signature.firsts (ss.filter (·.name = name)) := by
  induction ss using List.reverseRecOn with
  | nil => rfl
  | append_singleton ss s ih =>
    have known : (∃ t ∈ Signature.firsts (ss.filter (·.name = name)), t.params = s.params) ↔
        ∃ t ∈ ss.filter (·.name = name), t.params = s.params :=
      Signature.exists_firsts_iff (Q := (· = s.params))
    rw [ofList_append, List.foldl_cons, List.foldl_nil, ofName_declare, ih, List.filter_append]
    by_cases named : s.name = name
    · rw [List.filter_cons_of_pos (by simpa using named), List.filter_nil, Signature.firsts_concat]
      by_cases dup : ∃ t ∈ ss.filter (·.name = name), t.params = s.params
      · rw [if_neg (fun h => h.2 (known.mpr dup)), if_pos dup]
      · rw [if_pos ⟨named, fun h => dup (known.mp h)⟩, if_neg dup]
    · rw [if_neg (fun h => named h.1), List.filter_cons_of_neg (by simpa using named),
        List.filter_nil, List.append_nil]

theorem ofName_prefix_foldl (ts : List Signature) (o : Overloads) (name : String) :
    o.ofName name <+: (ts.foldl declare o).ofName name := by
  induction ts generalizing o with
  | nil => exact List.prefix_rfl
  | cons t ts ih =>
    have step : o.ofName name <+: (o.declare t).ofName name := by
      rw [ofName_declare]
      split
      · exact List.prefix_append ..
      · exact List.prefix_rfl
    exact step.trans (ih (o.declare t))

section Declared

variable {ss : List Signature}

theorem isFirst_ofList_iff :
    IsFirst (·.params = args) ((ofList ss).ofName name) s ↔
      IsFirst (fun t => t.name = name ∧ t.params = args) ss s := by
  rw [ofName_ofList, Signature.isFirst_firsts_iff (Q := (· = args))]
  exact IsFirst.filter_iff (by simp)

theorem forall_ofList_iff {Q : List Ty → Prop} :
    (∀ t ∈ (ofList ss).ofName name, Q t.params) ↔ ∀ t ∈ ss, t.name = name → Q t.params := by
  have same : (∃ t ∈ Signature.firsts (ss.filter (·.name = name)), ¬ Q t.params) ↔
      ∃ t ∈ ss.filter (·.name = name), ¬ Q t.params := Signature.exists_firsts_iff (Q := (¬ Q ·))
  rw [ofName_ofList, ← not_iff_not]
  push Not
  simpa [and_assoc] using same

/-- What declarations make of a table, and what calls mean by it. The overloads of a name are its
signatures in the order of their declarations, each list of parameters once. A call means the first
declared signature with exactly its argument types, wherever that one stands; or else the first of
the overloads that admits the arguments; or else nothing. More declarations leave an exact match as
it is, and leave no call without a meaning that had one. -/
theorem declared_calls (ss : List Signature) (name : String) (args : List Ty) :
    (ofList ss).ofName name = Signature.firsts (ss.filter (·.name = name)) ∧
      (∀ s, (ofList ss).find? name args = some s ↔
        IsFirst (fun t => t.name = name ∧ t.params = args) ss s ∨
          (∀ t ∈ ss, t.name = name → t.params ≠ args) ∧
            IsFirst (·.Admits args) ((ofList ss).ofName name) s) ∧
      ((ofList ss).find? name args = none ↔ ∀ t ∈ ss, t.name = name → ¬ t.Admits args) ∧
      ∀ ts,
        (∀ s, IsFirst (fun t => t.name = name ∧ t.params = args) ss s →
          (ofList (ss ++ ts)).find? name args = some s) ∧
        ((ofList ss).find? name args ≠ none → (ofList (ss ++ ts)).find? name args ≠ none) := by
  have found : ∀ (us : List Signature) (s : Signature),
      (ofList us).find? name args = some s ↔
        IsFirst (fun t => t.name = name ∧ t.params = args) us s ∨
          (∀ t ∈ us, t.name = name → t.params ≠ args) ∧
            IsFirst (·.Admits args) ((ofList us).ofName name) s := by
    intro us s
    rw [find?_eq_some_iff, ← isFirst_ofList_iff, ← forall_ofList_iff (Q := (· ≠ args))]
    constructor
    · rintro (first | ⟨inexact, first⟩)
      · exact .inl first
      · exact .inr ⟨inexact, first⟩
    · rintro (first | ⟨inexact, first⟩)
      · exact .exact first
      · exact .converted inexact first
  refine ⟨ofName_ofList ss name, found ss, ?_, ?_⟩
  · rw [find?_eq_none_iff]
    exact forall_ofList_iff (Q := (¬ List.Forall₂ Ty.Widens args ·))
  · intro ts
    constructor
    · intro s first
      exact (found (ss ++ ts) s).mpr (.inl (first.append ts))
    · have grown := ofName_prefix_foldl ts (ofList ss) name
      rw [← ofList_append] at grown
      exact find?_ne_none_of_prefix grown

/-- An exact match is meant also where an earlier signature admits the argument. -/
example :
    let one : Signature := { name := "f", params := [.scalar .float], returns := .void }
    let other : Signature := { name := "f", params := [.scalar .int], returns := .void }
    (ofList [one, other, one]).ofName "f" = [one, other] ∧
      (ofList [one, other, one]).find? "f" [.scalar .int] = some other ∧
      (ofList [one, other, one]).find? "f" [.scalar .uint] = some one := by
  decide +kernel

end Declared

end Overloads

/-! ### Tables along an analysis -/

/-- One table comes of another by declarations. -/
def Overloads.Grows (o o' : Overloads) : Prop :=
  ∃ ts : List Signature, o' = ts.foldl Overloads.declare o

theorem Overloads.Grows.trans {o o' o'' : Overloads} (first : o.Grows o') (second : o'.Grows o'') :
    o.Grows o'' := by
  obtain ⟨ss, rfl⟩ := first
  obtain ⟨ts, rfl⟩ := second
  exact ⟨ss ++ ts, by rw [List.foldl_append]⟩

/-- The declared functions only ever get more. -/
theorem Changes.functions_grow {touched : List Touch} {ctx ctx' : Context}
    (h : Changes touched ctx ctx') : ctx.functions.Grows ctx'.functions := by
  refine h.invariant (I := fun c => ctx.functions.Grows c.functions) ?_ ⟨[], rfl⟩
  intro c _ before _ grown
  cases c with
  | addFunction s => exact grown.trans ⟨[s], rfl⟩
  | _ => exact grown

/-- A call keeps its meaning along any visits, from every state to every later one, if it is an
exact match; and a call that means something never comes to mean nothing. -/
theorem calls_keep_meaning (env : Env) (fs : List Fragment) (ctx : Context) :
    (Fragment.history env fs ctx).Pairwise fun c c' => ∀ name args,
      (∀ s, s.params = args → c.functions.find? name args = some s →
        c'.functions.find? name args = some s) ∧
      (c.functions.find? name args ≠ none → c'.functions.find? name args ≠ none) := by
  have chain : (Fragment.history env fs ctx).IsChain fun c c' => c.functions.Grows c'.functions :=
    Fragment.isChain_history_of (fun a base ctx => (a.confined env base ctx).functions_grow)
      (fun _ => ⟨[], rfl⟩) fs ctx
  have : IsTrans Context fun c c' => c.functions.Grows c'.functions := ⟨fun _ _ _ => .trans⟩
  refine chain.pairwise.imp ?_
  rintro c c' ⟨ts, grown⟩ name args
  have longer := Overloads.ofName_prefix_foldl ts c.functions name
  rw [← grown] at longer
  exact ⟨fun s => Overloads.find?_eq_of_prefix longer,
    Overloads.find?_ne_none_of_prefix longer⟩

end ShaderAnalysis
