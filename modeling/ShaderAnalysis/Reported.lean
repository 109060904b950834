import ShaderAnalysis.Problem

/-!
Results that come with diagnostics. A `Reported` value is always there; the problems found on the
way to it stand beside it, in the order in which they were found.
-/

namespace ShaderAnalysis

/-- A value, and what was found wrong on the way to it. -/
structure Reported (α : Type) where
  value : α
  problems : List Diagnostic := []

namespace Reported

variable {α β : Type}

instance : Monad Reported where
  pure a := { value := a }
  bind x f := { value := (f x.value).value, problems := x.problems ++ (f x.value).problems }

@[simp] theorem value_pure (a : α) : (pure a : Reported α).value = a := rfl

@[simp] theorem problems_pure (a : α) : (pure a : Reported α).problems = [] := rfl

@[simp] theorem value_bind (x : Reported α) (f : α → Reported β) :
    (x >>= f).value = (f x.value).value := rfl

@[simp] theorem problems_bind (x : Reported α) (f : α → Reported β) :
    (x >>= f).problems = x.problems ++ (f x.value).problems := rfl

@[simp] theorem value_map (f : α → β) (x : Reported α) : (f <$> x).value = f x.value := rfl

@[simp] theorem problems_map (f : α → β) (x : Reported α) : (f <$> x).problems = x.problems :=
  List.append_nil _

@[ext] theorem ext {x y : Reported α} (value : x.value = y.value)
    (problems : x.problems = y.problems) : x = y := by
  cases x; cases y; simp_all

instance : LawfulMonad Reported :=
  LawfulMonad.mk' Reported
    (fun x => by ext1 <;> simp [Functor.map])
    (fun a f => by ext1 <;> simp)
    (fun x f g => by ext1 <;> simp)

/-- The errors that are reported on the way to a value. -/
def errorCount (x : Reported α) : Nat :=
  x.problems.countP (·.isError)

@[simp] theorem errorCount_pure (a : α) : (pure a : Reported α).errorCount = 0 := rfl

@[simp] theorem errorCount_bind (x : Reported α) (f : α → Reported β) :
    (x >>= f).errorCount = x.errorCount + (f x.value).errorCount :=
  List.countP_append

/-- A problem at a place. -/
def report (span : Span) (problem : Problem) : Reported Unit :=
  { value := (), problems := [⟨span, problem⟩] }

@[simp] theorem value_report (span : Span) (p : Problem) : (report span p).value = () := rfl

@[simp] theorem problems_report (span : Span) (p : Problem) :
    (report span p).problems = [⟨span, p⟩] := rfl

/-- The error type, for a reason that is reported. -/
def reject (span : Span) (problem : Problem) : Reported Ty :=
  { value := .error, problems := [⟨span, problem⟩] }

@[simp] theorem value_reject (span : Span) (p : Problem) : (reject span p).value = .error := rfl

@[simp] theorem problems_reject (span : Span) (p : Problem) :
    (reject span p).problems = [⟨span, p⟩] := rfl

end Reported

end ShaderAnalysis
