import ShaderAnalysis.Qualifiers

/-!
Side effects as sets, joined by union.
-/

namespace ShaderAnalysis

/-- The effects that running a piece of source may have. General ones are those of assignments,
increments and function bodies. -/
structure Effects where
  general : Bool := false
  emitsVertex : Bool := false
  discards : Bool := false
deriving DecidableEq, Repr, Inhabited

namespace Effects

/-- The effects of either part. -/
def union (a b : Effects) : Effects :=
  { general := a.general || b.general, emitsVertex := a.emitsVertex || b.emitsVertex,
    discards := a.discards || b.discards }

/-- The effects as one number. -/
def bits (e : Effects) : Nat :=
  packBits [e.general, e.emitsVertex, e.discards]

@[simp] theorem union_empty (a : Effects) : a.union {} = a := by
  simp [union]

@[simp] theorem empty_union (a : Effects) : union {} a = a := by
  simp [union]

@[simp] theorem union_self (a : Effects) : a.union a = a := by
  simp [union]

theorem union_comm (a b : Effects) : a.union b = b.union a := by
  simp [union, Bool.or_comm]

theorem union_assoc (a b c : Effects) : (a.union b).union c = a.union (b.union c) := by
  simp [union, Bool.or_assoc]

end Effects

end ShaderAnalysis
