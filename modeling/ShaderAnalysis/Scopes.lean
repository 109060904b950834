import ShaderAnalysis.Table
import ShaderAnalysis.Variable

/-!
Nested scopes. A name is looked up from the innermost frame outwards; declaring writes to the
innermost frame only and never replaces a binding. Variables and types have name spaces of their
own. There is always a frame, and the outermost one, the global scope, cannot be closed.
-/

namespace ShaderAnalysis

/-- The names declared in one scope. -/
structure Frame where
  vars : Table String VarId := {}
  types : Table String Ty := {}
deriving DecidableEq

/-- The open scopes: the innermost one, and those around it, innermost first. -/
structure Scopes where
  top : Frame := {}
  below : List Frame := []
deriving DecidableEq

namespace Scopes

/-- The open scopes, innermost first. -/
def frames (s : Scopes) : List Frame :=
  s.top :: s.below

/-- How many scopes are open inside the global one. -/
def depth (s : Scopes) : Nat :=
  s.below.length

def isGlobal (s : Scopes) : Bool :=
  s.below.isEmpty

/-- The outermost scope. -/
def global (s : Scopes) : Frame :=
  s.below.getLast?.getD s.top

/-- Opens a scope. -/
def push (s : Scopes) : Scopes :=
  { top := {}, below := s.frames }

/-- Closes the innermost scope, unless it is the global one. -/
def pop? (s : Scopes) : Option (Frame × Scopes) :=
  match s.below with
  | [] => none
  | f :: fs => some (s.top, { top := f, below := fs })

/-- The variable of a name, from the innermost scope that has one. -/
def findVariable? (s : Scopes) (name : String) : Option VarId :=
  s.frames.findSome? (·.vars.get? name)

/-- The type of a name, from the innermost scope that has one. -/
def findType? (s : Scopes) (name : String) : Option Ty :=
  s.frames.findSome? (·.types.get? name)

/-- The variable of a name in the innermost scope. -/
def findLocal? (s : Scopes) (name : String) : Option VarId :=
  s.top.vars.get? name

/-- Binds a variable in the innermost scope, if its name is free there. -/
def declareVariable? (s : Scopes) (name : String) (id : VarId) : Option Scopes :=
  if s.top.vars.contains name then none
  else some { s with top := { s.top with vars := s.top.vars.set name id } }

/-- Binds a type in the innermost scope, if its name is free there. -/
def declareType? (s : Scopes) (name : String) (ty : Ty) : Option Scopes :=
  if s.top.types.contains name then none
  else some { s with top := { s.top with types := s.top.types.set name ty } }

@[simp] theorem pop?_push (s : Scopes) : s.push.pop? = some ({}, s) := rfl

@[simp] theorem depth_push (s : Scopes) : s.push.depth = s.depth + 1 := rfl

@[simp] theorem global_push (s : Scopes) : s.push.global = s.global := by
  obtain ⟨t, b⟩ := s
  cases b <;> simp [global, push, frames, List.getLast?_cons]

@[simp] theorem findVariable?_push (s : Scopes) (name : String) :
    s.push.findVariable? name = s.findVariable? name := by
  simp [findVariable?, push, frames, List.findSome?_cons]

@[simp] theorem findType?_push (s : Scopes) (name : String) :
    s.push.findType? name = s.findType? name := by
  simp [findType?, push, frames, List.findSome?_cons]

theorem isGlobal_iff (s : Scopes) : s.isGlobal ↔ s.depth = 0 := by
  simp [isGlobal, depth]

/-- A variable is declared where its name is free. -/
theorem declareVariable?_eq_some {s s' : Scopes} {name : String} {id : VarId} :
    s.declareVariable? name id = some s' ↔
      s.findLocal? name = none ∧
        s' = { s with top := { s.top with vars := s.top.vars.set name id } } := by
  by_cases free : s.findLocal? name = none
  · have unbound : s.top.vars.contains name = false := by
      simpa [Table.contains, findLocal?] using free
    simp [declareVariable?, unbound, free, eq_comm]
  · have bound : s.top.vars.contains name = true := by
      simpa [Table.contains, findLocal?, Option.isSome_iff_ne_none] using free
    simp [declareVariable?, bound, free]

theorem declareVariable?_eq_none {s : Scopes} {name : String} {id : VarId} :
    s.declareVariable? name id = none ↔ (s.findLocal? name).isSome := by
  cases bound : s.top.vars.get? name <;>
    simp [declareVariable?, findLocal?, Table.contains, bound]

/-- A type is declared where its name is free. -/
theorem declareType?_eq_some {s s' : Scopes} {name : String} {ty : Ty} :
    s.declareType? name ty = some s' ↔
      s.top.types.get? name = none ∧
        s' = { s with top := { s.top with types := s.top.types.set name ty } } := by
  by_cases free : s.top.types.get? name = none
  · simp [declareType?, Table.contains, free, eq_comm]
  · have bound : s.top.types.contains name = true := by
      simpa [Table.contains, Option.isSome_iff_ne_none] using free
    simp [declareType?, bound, free]

/-- A declaration leaves the scopes around the innermost one alone. -/
theorem below_of_declareVariable? {s s' : Scopes} {name : String} {id : VarId}
    (h : s.declareVariable? name id = some s') : s'.below = s.below := by
  obtain ⟨_, rfl⟩ := declareVariable?_eq_some.mp h
  rfl

theorem below_of_declareType? {s s' : Scopes} {name : String} {ty : Ty}
    (h : s.declareType? name ty = some s') : s'.below = s.below := by
  obtain ⟨_, rfl⟩ := declareType?_eq_some.mp h
  rfl

/-- A declared variable is found by its name, and hides no other name. -/
theorem findVariable?_of_declareVariable? {s s' : Scopes} {name : String} {id : VarId}
    (h : s.declareVariable? name id = some s') (other : String) :
    s'.findVariable? other = if name = other then some id else s.findVariable? other := by
  obtain ⟨_, rfl⟩ := declareVariable?_eq_some.mp h
  by_cases hn : name = other <;>
    simp [findVariable?, frames, List.findSome?_cons, Table.get?_set, hn]

/-- A declared type is found by its name, and hides no other name. -/
theorem findType?_of_declareType? {s s' : Scopes} {name : String} {ty : Ty}
    (h : s.declareType? name ty = some s') (other : String) :
    s'.findType? other = if name = other then some ty else s.findType? other := by
  obtain ⟨_, rfl⟩ := declareType?_eq_some.mp h
  by_cases hn : name = other <;>
    simp [findType?, frames, List.findSome?_cons, Table.get?_set, hn]

end Scopes

end ShaderAnalysis
