import ShaderAnalysis.Typing.Dimensions
import ShaderAnalysis.Annotation

/-!
The types of initializers in braces. The declaration gives a type to the whole, and each element
that is in braces itself gets the type of its component; an unsized array takes as many elements as
there are. Elements that have no component to go to are left alone, with all that is in them.
-/

namespace ShaderAnalysis

/-- The type of a component of a composite type: an array element, a field, a column, a vector's
component. -/
def Ty.component? (place : Nat) : Ty → Option Ty
  | .array e _ => some e
  | .record r => r.fields[place]?.map (·.ty)
  | .matrix k _ rows => some (.vector k rows)
  | .vector k _ => some (.scalar k)
  | _ => none

namespace Annotations

mutual
/-- Gives a type to an initializer, and to those inside it. -/
def typeAggregate (ty : Ty) : Expr → Annotations → Annotations
  | .aggregate mark elements, t =>
    let sized := ty.sizedTo elements.length
    (typeElements sized 0 elements t).update mark.id fun a => { a with aggregate := some sized }
  | _, t => t

/-- Gives types to the elements of an initializer, from a place onwards. -/
def typeElements (ty : Ty) (place : Nat) : List Expr → Annotations → Annotations
  | [], t => t
  | e :: es, t =>
    typeElements ty (place + 1) es
      (match ty.component? place with
       | some component => typeAggregate component e t
       | none => t)
end

end Annotations

end ShaderAnalysis
