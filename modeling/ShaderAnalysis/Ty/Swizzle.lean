import ShaderAnalysis.Ty.Basic

/-!
Swizzles: one to four component letters, all from one of three naming sets.
-/

namespace ShaderAnalysis.Swizzle

/-- The sets of component letters: positions, colours and texture coordinates. -/
def letterSets : List (List Char) :=
  [['x', 'y', 'z', 'w'], ['r', 'g', 'b', 'a'], ['s', 't', 'p', 'q']]

/-- The places of letters in one set, if all of them are in it. -/
def positions? (set : List Char) : List Char → Option (List Nat)
  | [] => some []
  | c :: cs => do
    let i ← set.idxOf? c
    let is ← positions? set cs
    return i :: is

/-- The components that a swizzle selects: those of the first set that has all its letters. The
length is limited in encoded bytes, which for letters of the sets is their number. -/
def components? (field : String) : Option (List Nat) :=
  if field.isEmpty || field.utf8ByteSize > 4 then none
  else letterSets.findSome? fun set => positions? set field.toList

/-- The type of a swizzle on a type, if all the components it selects are there. -/
def select? (base : Ty) (field : String) : Option Ty := do
  let kind ← base.baseKind?
  let selected ← components? field
  if selected.all (· < base.componentCount) then
    return Ty.ofComponents kind selected.length
  else
    none

end ShaderAnalysis.Swizzle
