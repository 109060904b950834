import Mathlib.Data.List.Infix
import ShaderAnalysis.Proofs.Binding

/-!
The scoping rule. A name refers to the builtin variables of that name, and to those that nodes where
it is declared were given. Of the candidates whose region is still open at a place the one that
counts is in the innermost region, and there it is the first (`Chosen`). The same variable is found
by asking the scopes in order, from the inside to the outside, if each knows the first candidate of
its region (`exists_chosen`).
-/

namespace ShaderAnalysis

/-- What a name may refer to: a variable, with the regions around the place where it is declared,
innermost first. -/
structure Candidate where
  regions : List Region
  var : VarId
deriving DecidableEq, Repr

/-- The region that a candidate is declared in encloses a place in these regions. -/
def Candidate.Reaches (c : Candidate) (here : List Region) : Prop :=
  c.regions <:+ here

/-- The candidate that counts at a place: it reaches the place, any other that does is declared in
the same region or further outside, and none before it is declared in the same region. -/
def Chosen (here : List Region) (cs : List Candidate) (c : Candidate) : Prop :=
  c.Reaches here ∧ (∀ d ∈ cs, d.Reaches here → d.regions <:+ c.regions) ∧
    ∃ earlier later, cs = earlier ++ c :: later ∧ ∀ d ∈ earlier, d.regions ≠ c.regions

/-- The candidates that variables are which are predeclared in this order. -/
def predeclaredCandidates (vs : List Variable) (name : String) : List Candidate :=
  vs.zipIdx.filterMap fun (v, i) =>
    if v.name = name then some { regions := [], var := ⟨i⟩ } else none

/-- The candidate that a site is for a name, if it declares that name and was given a variable. -/
def Site.candidate? (ctx : Context) (name : String) (s : Site) : Option Candidate :=
  if s.role = .declares ∧ s.name = name then
    (ctx.varAt s.mark.id).map fun id => { regions := s.regions, var := id }
  else none

/-- The candidates for a name behind some sites: the builtin variables, then what the sites
declare. -/
def candidates (ctx : Context) (stage : Stage) (seen : List Site) (name : String) :
    List Candidate :=
  predeclaredCandidates (Builtin.stageVariables stage) name
    ++ seen.filterMap (Site.candidate? ctx name)

/-! ### The first candidate of a region -/

/-- The variable of the first candidate that is declared in a region. -/
def firstIn (cs : List Candidate) (here : List Region) : Option VarId :=
  (cs.find? (·.regions = here)).map (·.var)

theorem firstIn_append (cs ds : List Candidate) (here : List Region) :
    firstIn (cs ++ ds) here = (firstIn cs here).or (firstIn ds here) := by
  rw [firstIn, List.find?_append, Option.map_or]
  rfl

theorem firstIn_eq_none {cs : List Candidate} {here : List Region} :
    firstIn cs here = none ↔ ∀ c ∈ cs, c.regions ≠ here := by
  simp [firstIn]

theorem exists_of_firstIn {cs : List Candidate} {here : List Region} {id : VarId}
    (h : firstIn cs here = some id) :
    ∃ c earlier later, cs = earlier ++ c :: later ∧ c.regions = here ∧ c.var = id ∧
      ∀ d ∈ earlier, d.regions ≠ here := by
  obtain ⟨c, found, rfl⟩ := Option.map_eq_some_iff.mp h
  obtain ⟨same, earlier, later, rfl, others⟩ := List.find?_eq_some_iff_append.mp found
  refine ⟨c, earlier, later, rfl, by simpa using same, rfl, fun d mem => ?_⟩
  simpa using others d mem

theorem Chosen.mem {here : List Region} {cs : List Candidate} {c : Candidate}
    (h : Chosen here cs c) : c ∈ cs := by
  obtain ⟨_, _, earlier, later, rfl, _⟩ := h
  simp

theorem Chosen.firstIn_eq {here : List Region} {cs : List Candidate} {c : Candidate}
    (h : Chosen here cs c) : firstIn cs c.regions = some c.var := by
  obtain ⟨_, _, earlier, later, rfl, others⟩ := h
  rw [firstIn_append, firstIn_eq_none.mpr others]
  simp [firstIn]

/-- One candidate at most counts at a place. -/
theorem Chosen.var_unique {here : List Region} {cs : List Candidate} {c d : Candidate}
    (hc : Chosen here cs c) (hd : Chosen here cs d) : c.var = d.var := by
  have inner : d.regions <:+ c.regions := hc.2.1 d hd.mem hd.1
  have outer : c.regions <:+ d.regions := hd.2.1 c hc.mem hc.1
  have same : c.regions = d.regions := outer.eq_of_length_le inner.length_le
  have first := hc.firstIn_eq
  rw [same, hd.firstIn_eq] at first
  exact (Option.some.inj first).symm

/-! ### Asking the scopes in order -/

/-- If the first candidate of each region is asked for, from the inside to the outside, the one that
is found counts. -/
theorem exists_chosen {cs : List Candidate} {here : List Region} {id : VarId}
    (h : here.tails.findSome? (firstIn cs) = some id) : ∃ c, Chosen here cs c ∧ c.var = id := by
  have innermost : ∀ rs : List Region, firstIn cs rs = some id →
      ∃ c, Chosen rs cs c ∧ c.var = id := by
    intro rs found
    obtain ⟨c, earlier, later, rfl, same, var, others⟩ := exists_of_firstIn found
    subst same
    exact ⟨c, ⟨List.suffix_refl _, fun d _ reaches => reaches, earlier, later, rfl, others⟩, var⟩
  induction here with
  | nil =>
    rw [List.tails, List.findSome?_singleton] at h
    exact innermost [] h
  | cons r rs ih =>
    rw [List.tails, List.findSome?_cons] at h
    cases found : firstIn cs (r :: rs) with
    | some i =>
      rw [found] at h
      cases h
      exact innermost _ found
    | none =>
      rw [found] at h
      obtain ⟨c, ⟨reaches, outer, place⟩, var⟩ := ih h
      refine ⟨c, ⟨reaches.trans (List.suffix_cons r rs), fun d mem deeper => ?_, place⟩, var⟩
      rcases List.suffix_cons_iff.mp deeper with same | inside
      · exact absurd same (firstIn_eq_none.mp found d mem)
      · exact outer d mem inside

theorem not_reaches_of_findSome? {cs : List Candidate} {here : List Region}
    (h : here.tails.findSome? (firstIn cs) = none) : ∀ c ∈ cs, ¬ c.Reaches here := by
  intro c mem reaches
  have unknown := List.findSome?_eq_none_iff.mp h c.regions ((List.mem_tails _ _).mpr reaches)
  exact firstIn_eq_none.mp unknown c mem rfl

/-! ### Candidates as the analysis goes on -/

theorem candidates_congr {ctx ctx' : Context} {stage : Stage} {seen : List Site}
    (same : ∀ s ∈ seen, ctx'.varAt s.mark.id = ctx.varAt s.mark.id) :
    candidates ctx' stage seen = candidates ctx stage seen := by
  funext name
  have each : seen.filterMap (Site.candidate? ctx' name)
      = seen.filterMap (Site.candidate? ctx name) := by
    refine List.filterMap_congr ?_
    intro s mem
    simp [Site.candidate?, same s mem]
  rw [candidates, candidates, each]

theorem candidates_append (ctx : Context) (stage : Stage) (seen more : List Site) (name : String) :
    candidates ctx stage (seen ++ more) name
      = candidates ctx stage seen name ++ more.filterMap (Site.candidate? ctx name) := by
  simp [candidates]

/-- A use is no candidate. -/
theorem candidates_append_use (ctx : Context) (stage : Stage) (seen : List Site) {u : Site}
    (use : u.role = .use) : candidates ctx stage (seen ++ [u]) = candidates ctx stage seen := by
  funext name
  simp [candidates_append, Site.candidate?, use]

/-- The candidates that are not predeclared are declared in the regions around their sites. -/
theorem regions_of_mem_candidates {ctx : Context} {stage : Stage} {seen : List Site} {name : String}
    {c : Candidate} (mem : c ∈ candidates ctx stage seen name) :
    c.regions = [] ∨ ∃ s ∈ seen, c.regions = s.regions := by
  rcases List.mem_append.mp mem with builtin | declared
  · obtain ⟨⟨v, i⟩, _, found⟩ := List.mem_filterMap.mp builtin
    simp only [Option.ite_none_right_eq_some, Option.some.injEq] at found
    exact .inl (found.2 ▸ rfl)
  · obtain ⟨s, seen, found⟩ := List.mem_filterMap.mp declared
    simp only [Site.candidate?, Option.ite_none_right_eq_some, Option.map_eq_some_iff] at found
    obtain ⟨_, _, _, rfl⟩ := found
    exact .inr ⟨s, seen, rfl⟩

end ShaderAnalysis
