import ShaderAnalysis.Table
import ShaderAnalysis.Ty.Conversion

/-!
Function signatures, and the choice of an overload for a call: an exact match wants no conversion,
and otherwise the first signature that all arguments convert to is taken.
-/

namespace ShaderAnalysis

structure Signature where
  name : String
  params : List Ty
  returns : Ty
deriving DecidableEq

/-- Whether arguments convert to parameters, one by one. -/
def Ty.allConvert : List Ty → List Ty → Bool
  | [], [] => true
  | a :: as, p :: ps => a.convertsTo p && allConvert as ps
  | _, _ => false

/-- Whether a call with these arguments may mean this signature. -/
def Signature.accepts (s : Signature) (args : List Ty) : Bool :=
  Ty.allConvert args s.params

/-- Functions by name, with the overloads of a name in the order in which they came. -/
structure Overloads where
  table : Table String (List Signature) := {}
deriving DecidableEq

namespace Overloads

/-- The overloads of a name. -/
def ofName (o : Overloads) (name : String) : List Signature :=
  (o.table.get? name).getD []

def contains (o : Overloads) (name : String) : Bool :=
  o.table.contains name

/-- Adds a signature to the overloads of its name. -/
def add (o : Overloads) (s : Signature) : Overloads :=
  ⟨o.table.set s.name (o.ofName s.name ++ [s])⟩

/-- Adds a signature unless one with the same parameters is known: a function may be declared
before it is defined. -/
def declare (o : Overloads) (s : Signature) : Overloads :=
  if (o.ofName s.name).any (·.params == s.params) then o else o.add s

/-- The overload that a call means: an exact match, or else the first that the arguments convert
to. -/
def find? (o : Overloads) (name : String) (args : List Ty) : Option Signature :=
  ((o.ofName name).find? (·.params == args)).or ((o.ofName name).find? (·.accepts args))

/-- All signatures, by ascending name. -/
def toList (o : Overloads) : List Signature :=
  (o.table.bindings.mergeSort fun a b => a.1 ≤ b.1).flatMap (·.2)

theorem ofName_add (o : Overloads) (s : Signature) (name : String) :
    (o.add s).ofName name = if s.name = name then o.ofName name ++ [s] else o.ofName name := by
  by_cases h : s.name = name
  · subst h
    simp [ofName, add]
  · simp [ofName, add, Table.get?_set, h]

theorem ofName_declare (o : Overloads) (s : Signature) (name : String) :
    (o.declare s).ofName name =
      if s.name = name ∧ ¬ ∃ t ∈ o.ofName name, t.params = s.params then o.ofName name ++ [s]
      else o.ofName name := by
  by_cases h : s.name = name
  · subst h
    by_cases hd : ∃ t ∈ o.ofName s.name, t.params = s.params
    · simp [declare, hd]
    · simp [declare, hd, ofName_add]
  · by_cases hd : ∃ t ∈ o.ofName s.name, t.params = s.params <;> simp [declare, hd, ofName_add, h]

end Overloads

end ShaderAnalysis
