import ShaderAnalysis.Proofs.Performance
import ShaderAnalysis.Proofs.RecordLayout

/-!
Members looked up by name. A look-up finds the first field of a name, so a member is found in its
place exactly if no earlier member of the record has its name (`field_lookup`). The names of members
are not compared with each other when a struct or a block with an instance name is bound, and a
member whose name is taken is out of reach without a word (`sameName_hidden`).
-/

namespace ShaderAnalysis

open Analysis

/-! ### Names and places -/

namespace Record

variable {r : Record} {name : String} {i : Nat}

/-- A name leads to the field at a place. -/
structure Finds (r : Record) (name : String) (i : Nat) : Prop where
  inside : i < r.fields.length
  place : r.fieldIndex? name = some i
  field : r.field? name = some r.fields[i]

/-- A name leads to the first field that has it. -/
theorem finds_iff : r.Finds name i ↔ (r.fields.map (·.name))[i]? = some name ∧
    ∀ j < i, (r.fields.map (·.name))[j]? ≠ some name := by
  have at_place : ∀ j (bound : j < r.fields.length),
      (r.fields.map (·.name))[j]? = some r.fields[j].name := by
    intro j bound
    rw [List.getElem?_map, List.getElem?_eq_getElem bound, Option.map_some]
  have indexed : r.fieldIndex? name = some i ↔ ∃ inside : i < r.fields.length,
      r.fields[i].name = name ∧ ∀ j (before : j < i), r.fields[j].name ≠ name := by
    simp [fieldIndex?, List.findIdx?_eq_some_iff_getElem]
  constructor
  · intro found
    obtain ⟨inside, named, first⟩ := indexed.mp found.place
    constructor
    · rw [at_place i inside, named]
    · intro j before same
      rw [at_place j (by omega)] at same
      exact first j before (Option.some.inj same)
  · rintro ⟨named, first⟩
    have inside : i < r.fields.length := by
      simpa using (List.getElem?_eq_some_iff.mp named).1
    have own : r.fields[i].name = name := Option.some.inj ((at_place i inside).symm.trans named)
    have earlier : ∀ j (before : j < i), r.fields[j].name ≠ name := by
      intro j before same
      exact first j before ((at_place j (by omega)).trans (congrArg some same))
    have field : r.field? name = some r.fields[i] := by
      refine List.find?_eq_some_iff_getElem.mpr ⟨by simpa using own, i, inside, rfl, ?_⟩
      intro j before
      simpa using earlier j before
    exact ⟨inside, indexed.mpr ⟨inside, own, earlier⟩, field⟩

/-- All names lead to their own places exactly if they are distinct. -/
theorem finds_all_iff :
    (∀ i name, (r.fields.map (·.name))[i]? = some name → r.Finds name i) ↔
      (r.fields.map (·.name)).Nodup := by
  rw [List.nodup_iff_getElem?_ne_getElem?]
  constructor
  · intro all i j before inside same
    have named := List.getElem?_eq_getElem inside
    exact (finds_iff.mp (all j _ named)).2 i before (same.trans named)
  · intro distinct i name named
    refine finds_iff.mpr ⟨named, ?_⟩
    intro j before same
    obtain ⟨inside, _⟩ := List.getElem?_eq_some_iff.mp named
    exact distinct j i before inside (same.trans named.symm)

end Record

/-! ### Members -/

/-- What looking up the members of a record comes to. -/
structure DeclList.LookedUp (o : Options) (ctx : Context) (rowMajor : Bool) (lists : List DeclList)
    (r : Record) : Prop where
  /-- A member is found in its place exactly if no earlier one has its name. -/
  finds : ∀ i l d, (members lists)[i]? = some (l, d) → (r.Finds d.name i ↔
    ∀ j < i, ∀ l' e, (members lists)[j]? = some (l', e) → e.name ≠ d.name)
  /-- What is found in the place of a member is what it declares. -/
  own : ∀ i l d, (members lists)[i]? = some (l, d) → r.Finds d.name i →
    ∃ f, r.field? d.name = some f ∧
      f.Declares o rowMajor l (l.type.resolve o ctx l.typeSpan).value d
  /-- All members are found in their places exactly if their names are distinct. -/
  all : (∀ i l d, (members lists)[i]? = some (l, d) → r.Finds d.name i) ↔
    ((declarators lists).map (·.name)).Nodup

theorem DeclList.LaysOut.lookedUp {o : Options} {ctx : Context} {rowMajor : Bool}
    {lists : List DeclList} {r : Record} (h : LaysOut o ctx rowMajor lists r.fields) :
    LookedUp o ctx rowMajor lists r := by
  have names : (members lists).map (·.2.name) = r.fields.map (·.name) := by
    rw [← List.forall₂_eq_eq_eq, List.forall₂_map_left_iff, List.forall₂_map_right_iff]
    exact h.imp fun m f declares => declares.name.symm
  have named : ∀ (i : Nat) name, (r.fields.map (·.name))[i]? = some name ↔
      ∃ l d, (members lists)[i]? = some (l, d) ∧ d.name = name := by
    intro i name
    simp [← names]
  constructor
  case finds =>
    intro i l d member
    rw [Record.finds_iff]
    constructor
    · intro found j before l' e earlier same
      exact found.2 j before ((named j d.name).mpr ⟨l', e, earlier, same⟩)
    · intro first
      refine ⟨(named i d.name).mpr ⟨l, d, member, rfl⟩, ?_⟩
      intro j before same
      obtain ⟨l', e, earlier, same⟩ := (named j d.name).mp same
      exact first j before l' e earlier same
  case own =>
    intro i l d member found
    obtain ⟨inside, here⟩ := List.getElem?_eq_some_iff.mp member
    have declares := h.get inside found.inside
    rw [List.get_eq_getElem, List.get_eq_getElem, here] at declares
    exact ⟨_, found.field, declares⟩
  case all =>
    have declared : (declarators lists).map (·.name) = r.fields.map (·.name) := by
      rw [← names, ← map_snd_members, List.map_map]
      rfl
    rw [declared, ← Record.finds_all_iff]
    constructor
    · intro all i name same
      obtain ⟨l, d, member, rfl⟩ := (named i name).mp same
      exact all i l d member
    · intro all i l d member
      exact all i d.name ((named i d.name).mpr ⟨l, d, member, rfl⟩)

/-- Looking up a member by its name finds what it declares, in its place, exactly if no earlier one
has the name: in the record of any struct definition, and of any legal block. -/
theorem field_lookup (o : Options) (ctx : Context) :
    (∀ s : StructSpec, ∃ body after, s.bind o ctx = .ok (.record body) after ∧
      DeclList.LookedUp o ctx false s.members body) ∧
    ∀ (m : Mark) (b : BlockDecl) (storage : Storage), b.qualifiers.blockStorage? = some storage →
      ∃ body after, b.bind o m ctx = .ok () after ∧ after.blocks = ctx.blocks ++ [body] ∧
        DeclList.LookedUp o ctx b.qualifiers.rowMajor b.members body := by
  constructor
  · intro s
    obtain ⟨after, run⟩ := s.exists_bind o ctx
    have lays : DeclList.LaysOut o ctx false s.members (s.body o ctx).value.fields := by
      rw [StructSpec.body_eq]
      exact DeclList.laysOut_fields ctx {} s.members
    exact ⟨_, after, run, lays.lookedUp⟩
  · intro m b storage legal
    obtain ⟨body, after, run, bound⟩ := b.exists_boundAs o ctx m legal
    exact ⟨body, after, run, bound.listed, bound.fields.lookedUp⟩

/-- The block `uniform Light { float near; float far; } light;`. -/
def Sample.light : BlockDecl :=
  let near : Declarator := { mark := mark 0, name := "near", dims := none, init := none }
  let far : Declarator := { mark := mark 1, name := "far", dims := none, init := none }
  { qualifiers := { uniform := true }, name := "Light"
    members := [{ qualifiers := {}, type := float, invariant := false, names := [near] },
      { qualifiers := {}, type := float, invariant := false, names := [far] }]
    instanceName := some "light", dims := none }

/-- The second member of the block is found in its place. -/
theorem field_lookup_light :
    ∃ body after, Sample.light.bind {} (Sample.mark 2) (.initial {}) = .ok () after ∧
      after.blocks = [body] ∧ body.fieldIndex? "far" = some 1 ∧
      ∃ f, body.field? "far" = some f ∧ f.ty = .scalar .float := by
  obtain ⟨body, after, run, listed, found⟩ :=
    (field_lookup {} (.initial {})).2 (Sample.mark 2) Sample.light .uniform rfl
  have all := found.all.mpr (by decide)
  have far := all 1 _ _ rfl
  obtain ⟨f, field, declares⟩ := found.own 1 _ _ rfl far
  have typed : f.ty = .scalar .float := declares.ty.trans (by decide +kernel)
  exact ⟨body, after, run, listed, far.place, f, field, typed⟩

/-- The unit `struct S { float x; int x; };`. -/
def Sample.sameName : SourceUnit :=
  let first : Declarator := { mark := mark 0, name := "x", dims := none, init := none }
  let second : Declarator := { mark := mark 1, name := "x", dims := none, init := none }
  let s : StructSpec :=
    { mark := mark 2, name := "S"
      members := [{ qualifiers := {}, type := float, invariant := false, names := [first] },
        { qualifiers := {}, type := ⟨.named "int", none⟩, invariant := false
          names := [second] }] }
  [.declaration (.declare (mark 3)
    { qualifiers := {}, type := ⟨.struct s, none⟩, invariant := false, names := [] })]

/-- The second member has the name of the first, which hides it, and nothing is reported. -/
theorem sameName_hidden :
    ∃ final r, analyze (.standard {}) Sample.sameName = .ok () final ∧ final.diagnostics = [] ∧
      final.structures = [r] ∧ r.fields.map (·.name) = ["x", "x"] ∧
      ¬ r.fieldIndex? "x" = some 1 ∧ ¬ r.field? "x" = r.fields[1]? := by
  let env : Env := .standard {}
  obtain ⟨final, run⟩ := exists_of_completes
    (show completes env Sample.sameName = true by decide +kernel)
  have silent : (Context.reached (analyze env Sample.sameName)).diagnostics = [] := by
    decide +kernel
  have made : (Context.reached (analyze env Sample.sameName)).structures
      = [⟨"S", .struct, [⟨"x", .scalar .float, {}⟩, ⟨"x", .scalar .int, {}⟩]⟩] := by
    decide +kernel
  rw [run] at silent made
  exact ⟨final, _, run, silent, made, rfl, by decide, by decide +kernel⟩

end ShaderAnalysis
