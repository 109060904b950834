import Mathlib.Data.List.Nodup
import ShaderAnalysis.Reflection.Text

/-!
The store of reflection entries as a forest. Entries are only ever added. What an entry holds was
added before it, mirrors the fields of its type one by one, and is held by nothing else
(`Reflection.Forest`). So writing an entry out comes to an end, and every entry inside it has one
line there, as far in as it is deep (`Reflection.Forest.writes`).
-/

namespace ShaderAnalysis

/-- The fields of the record that a type is, or holds in arrays. -/
def Ty.members (t : Ty) : List Field :=
  t.withoutArray.record?.elim [] (·.fields)

namespace Reflection

/-! ### More entries -/

mutual
/-- What is kept by adding entries of some types is kept by making the entries of the fields of a
type, if the fields have such types, and the fields of these, and so on. -/
theorem snapshotFields_induction {P : Reflection → Prop} {Q : Ty → Prop}
    (push : ∀ r e, Q e.ty → P r → P (r.push e).1) (deep : ∀ t, Q t → ∀ f ∈ t.members, Q f.ty)
    (role : Role) : ∀ (ty : Ty) (r : Reflection) (m : Modifier), (∀ f ∈ ty.members, Q f.ty) →
      P r → P (r.snapshotFields role m ty).1
  | .array e _, r, m, fields, h => snapshotFields_induction push deep role e r m fields h
  | .record ⟨_, _, fs⟩, r, m, fields, h => snapshotList_induction push deep role fs r m fields h
  | .void, _, _, _, h | .error, _, _, _, h | .scalar _, _, _, _, h | .vector .., _, _, _, h
  | .matrix .., _, _, _, h | .sampler _, _, _, _, h => h

theorem snapshotList_induction {P : Reflection → Prop} {Q : Ty → Prop}
    (push : ∀ r e, Q e.ty → P r → P (r.push e).1) (deep : ∀ t, Q t → ∀ f ∈ t.members, Q f.ty)
    (role : Role) : ∀ (fs : List Field) (r : Reflection) (m : Modifier), (∀ f ∈ fs, Q f.ty) →
      P r → P (r.snapshotList role m fs).1
  | [], _, _, _, h => h
  | ⟨_, ty, layout⟩ :: rest, r, m, fields, h =>
    have here : Q ty := fields _ List.mem_cons_self
    have inside := snapshotFields_induction push deep role ty r (m.ofField layout) (deep ty here) h
    snapshotList_induction push deep role rest _ m
      (fun f mem => fields f (List.mem_cons_of_mem _ mem)) (push _ _ here inside)
end

/-- There are more entries, and no more declared ones. -/
structure Extends (r r' : Reflection) : Prop where
  get? : ∀ id e, r.get? id = some e → r'.get? id = some e
  declared : r'.declared = r.declared

namespace Extends

variable {r r' r'' : Reflection}

theorem refl (r : Reflection) : r.Extends r :=
  ⟨fun _ _ => id, rfl⟩

theorem trans (h : r.Extends r') (h' : r'.Extends r'') : r.Extends r'' :=
  ⟨fun id e found => h'.get? id e (h.get? id e found), h'.declared.trans h.declared⟩

theorem push (r : Reflection) (e : Entry) : r.Extends (r.push e).1 := by
  constructor
  · intro id e' found
    rw [get?_push]
    split
    · rename_i new
      obtain ⟨lt, _⟩ := Array.getElem?_eq_some_iff.mp found
      rw [new] at lt
      exact absurd lt (Nat.lt_irrefl _)
    · exact found
  · rfl

theorem snapshotFields (r : Reflection) (role : Role) (m : Modifier) (ty : Ty) :
    r.Extends (r.snapshotFields role m ty).1 :=
  snapshotFields_induction (Q := fun _ => True) (fun _ e _ h => h.trans (push _ e))
    (fun _ _ _ _ => trivial) role ty r m (fun _ _ => trivial) (refl r)

theorem snapshotList (r : Reflection) (role : Role) (m : Modifier) (fs : List Field) :
    r.Extends (r.snapshotList role m fs).1 :=
  snapshotList_induction (Q := fun _ => True) (fun _ e _ h => h.trans (push _ e))
    (fun _ _ _ _ => trivial) role fs r m (fun _ _ => trivial) (refl r)

theorem snapshot (r : Reflection) (name : String) (role : Role) (m : Modifier) (ty : Ty) :
    r.Extends (r.snapshot name role m ty).1 :=
  (snapshotFields r role m ty).trans (push _ _)

theorem declareStruct (r : Reflection) (body : Record) : r.Extends (r.declareStruct body).1 :=
  have made := snapshot r body.name .temporary {} (.record body)
  ⟨made.get?, made.declared⟩

end Extends

/-! ### Entries of fields -/

/-- The entry of a field, given the role and the modifier of the entry that holds it. Of that
modifier it takes invariance only. -/
structure Entry.OfField (role : Role) (m : Modifier) (f : Field) (e : Entry) : Prop where
  name : e.name = f.name
  ty : e.ty = f.ty
  role : e.role = role
  modifier : e.modifier =
    { invariant := m.invariant
      flat := f.layout.interpolation = .flat
      smooth := f.layout.interpolation = .smooth
      noperspective := f.layout.interpolation = .noperspective
      centroid := f.layout.centroid
      sample := f.layout.sample }

/-- The entries of some numbers are those of fields, one by one. -/
def Mirrors (r : Reflection) (role : Role) (m : Modifier) : List Field → List ReflectionId → Prop :=
  List.Forall₂ fun f id => ∃ e, r.get? id = some e ∧ e.OfField role m f

theorem Mirrors.mono {r r' : Reflection} {role : Role} {m : Modifier} {fs : List Field}
    {ids : List ReflectionId} (h : r.Mirrors role m fs ids) (more : r.Extends r') :
    r'.Mirrors role m fs ids :=
  h.imp fun _ id ⟨e, found, same⟩ => ⟨e, more.get? id e found, same⟩

/-- The numbers that entries hold. -/
def held (r : Reflection) : List ReflectionId :=
  r.entries.toList.flatMap (·.fields)

@[simp] theorem held_push (r : Reflection) (e : Entry) :
    (r.push e).1.held = r.held ++ e.fields := by
  simp [held, push]

theorem lt_size_of_get? {r : Reflection} {id : ReflectionId} {e : Entry}
    (found : r.get? id = some e) : id.index < r.size :=
  (Array.getElem?_eq_some_iff.mp found).1

theorem Extends.size_le {r r' : Reflection} (h : r.Extends r') : r.size ≤ r'.size := by
  by_contra fewer
  have inside : r'.size < r.entries.size := Nat.lt_of_not_le fewer
  have kept := h.get? ⟨r'.size⟩ _ (Array.getElem?_eq_getElem inside)
  exact absurd (lt_size_of_get? kept) (Nat.lt_irrefl _)

theorem mem_held {r : Reflection} {child : ReflectionId} :
    child ∈ r.held ↔ ∃ id e, r.get? id = some e ∧ child ∈ e.fields := by
  simp only [held, List.mem_flatMap, Array.mem_toList_iff, Array.mem_iff_getElem?]
  constructor
  · rintro ⟨e, ⟨i, found⟩, mem⟩
    exact ⟨⟨i⟩, e, found, mem⟩
  · rintro ⟨id, e, found, mem⟩
    exact ⟨e, ⟨id.index, found⟩, mem⟩

/-! ### Groves -/

/-- Entries hold entries that came before them and mirror the fields of their types. None is held
twice, and those of some numbers are not held at all. -/
structure Grove (r : Reflection) (roots : List ReflectionId) : Prop where
  below : ∀ id e, r.get? id = some e → ∀ child ∈ e.fields, child.index < id.index
  mirrors : ∀ id e, r.get? id = some e → r.Mirrors e.role e.modifier e.ty.members e.fields
  range : ∀ id ∈ roots, id.index < r.size
  once : (r.held ++ roots).Nodup

namespace Grove

variable {r : Reflection} {root : ReflectionId} {roots ids : List ReflectionId}

theorem empty : ({} : Reflection).Grove [] := by
  constructor <;> simp [Reflection.get?, held]

/-- What an entry holds is there. -/
theorem held_range (h : r.Grove roots) {child : ReflectionId} (mem : child ∈ r.held) :
    child.index < r.size := by
  obtain ⟨id, e, found, inside⟩ := mem_held.mp mem
  exact Nat.lt_trans (h.below id e found child inside) (lt_size_of_get? found)

/-- The order in which roots are named does not matter. -/
theorem perm (h : r.Grove roots) {others : List ReflectionId} (same : roots.Perm others) :
    r.Grove others :=
  { h with
    range := fun id mem => h.range id (same.mem_iff.mpr mem)
    once := (same.append_left r.held).nodup_iff.mp h.once }

/-- An entry that holds some of the roots is a root instead of them. -/
theorem push (h : r.Grove (ids ++ roots)) {e : Entry} (fields : e.fields = ids)
    (mirrors : r.Mirrors e.role e.modifier e.ty.members ids) :
    (r.push e).1.Grove ((r.push e).2 :: roots) := by
  have more := Extends.push r e
  have new : ∀ id, id ∈ r.held ∨ id ∈ ids ++ roots → id ≠ (r.push e).2 := by
    rintro id known rfl
    have lt : r.size < r.size := known.elim h.held_range (h.range _)
    exact absurd lt (Nat.lt_irrefl _)
  constructor
  case below =>
    intro id e' found child mem
    rw [get?_push] at found
    split at found
    · rename_i top
      cases found
      rw [fields] at mem
      rw [top]
      exact h.range child (List.mem_append_left _ mem)
    · exact h.below id e' found child mem
  case mirrors =>
    intro id e' found
    rw [get?_push] at found
    split at found
    · cases found
      exact (fields ▸ mirrors).mono more
    · exact (h.mirrors id e' found).mono more
  case range =>
    intro id mem
    rw [size_push]
    rcases List.mem_cons.mp mem with rfl | mem
    · exact Nat.lt_succ_self _
    · exact Nat.lt_succ_of_lt (h.range id (List.mem_append_right _ mem))
  case once =>
    have once := h.once
    rw [← List.append_assoc] at once
    rw [held_push, fields, List.nodup_middle, List.nodup_cons]
    refine ⟨?_, once⟩
    intro mem
    refine new _ ?_ rfl
    simpa [or_assoc] using mem

/-- A root may be forgotten. -/
theorem forget (h : r.Grove (root :: roots)) : r.Grove roots :=
  { h with
    range := fun id mem => h.range id (List.mem_cons_of_mem _ mem)
    once := h.once.sublist ((List.sublist_cons_self root roots).append_left r.held) }

end Grove

/-! ### Snapshots -/

/-- A field gets its entry behind those of its own fields, and before those of the fields after. -/
theorem snapshotList_cons (r : Reflection) (role : Role) (m : Modifier) (f : Field)
    (fs : List Field) : r.snapshotList role m (f :: fs) =
      let inner := r.snapshotFields role (m.ofField f.layout) f.ty
      let own := inner.1.push
        { name := f.name, role := role, modifier := m.ofField f.layout, ty := f.ty
          fields := inner.2 }
      let others := own.1.snapshotList role m fs
      (others.1, own.2 :: others.2) := by
  cases f
  rfl

/-- What is made for the fields of a type mirrors them. -/
theorem snapshotFields_eq (r : Reflection) (role : Role) (m : Modifier) (ty : Ty) :
    r.snapshotFields role m ty = r.snapshotList role m ty.members := by
  match ty with
  | .array e n => exact snapshotFields_eq r role m e
  | .record ⟨name, kind, fields⟩ => rfl
  | .void | .error | .scalar _ | .vector .. | .matrix .. | .sampler _ => rfl

section

variable (role : Role)

theorem get?_push_self (r : Reflection) (e : Entry) : (r.push e).1.get? (r.push e).2 = some e := by
  simp [get?_push]

theorem mirrors_snapshotList (fs : List Field) (r : Reflection) (m : Modifier) :
    (r.snapshotList role m fs).1.Mirrors role m fs (r.snapshotList role m fs).2 := by
  induction fs generalizing r with
  | nil => exact .nil
  | cons f fs ih =>
    rw [snapshotList_cons]
    refine .cons ⟨_, (Extends.snapshotList _ role m fs).get? _ _ (get?_push_self _ _), ?_⟩ (ih _)
    exact ⟨rfl, rfl, rfl, rfl⟩

/-- The entries of fields get numbers beyond those there are, in order. -/
theorem snapshotList_increasing (fs : List Field) (r : Reflection) (m : Modifier) :
    (∀ id ∈ (r.snapshotList role m fs).2, r.size ≤ id.index) ∧
      (r.snapshotList role m fs).2.Pairwise (·.index < ·.index) := by
  induction fs generalizing r with
  | nil => exact ⟨fun id mem => absurd mem List.not_mem_nil, .nil⟩
  | cons f fs ih =>
    rw [snapshotList_cons]
    let inner := r.snapshotFields role (m.ofField f.layout) f.ty
    let own : Entry :=
      { name := f.name, role := role, modifier := m.ofField f.layout, ty := f.ty
        fields := inner.2 }
    have grown : r.size ≤ inner.1.size := (Extends.snapshotFields r role _ f.ty).size_le
    obtain ⟨beyond, increasing⟩ := ih (inner.1.push own).1
    rw [size_push] at beyond
    constructor
    · intro id mem
      rcases List.mem_cons.mp mem with rfl | mem
      · exact grown
      · have later := beyond id mem
        omega
    · exact .cons (fun id mem => beyond id mem) increasing

variable {roots : List ReflectionId}

mutual
theorem Grove.snapshotFields : ∀ (ty : Ty) {r : Reflection} {roots : List ReflectionId}
    (m : Modifier), r.Grove roots →
    (r.snapshotFields role m ty).1.Grove ((r.snapshotFields role m ty).2 ++ roots)
  | .array e _, _, _, m, h => Grove.snapshotFields e m h
  | .record ⟨_, _, fields⟩, _, _, m, h => Grove.snapshotList fields m h
  | .void, _, _, _, h | .error, _, _, _, h | .scalar _, _, _, _, h | .vector .., _, _, _, h
  | .matrix .., _, _, _, h | .sampler _, _, _, _, h => h

theorem Grove.snapshotList : ∀ (fs : List Field) {r : Reflection} {roots : List ReflectionId}
    (m : Modifier), r.Grove roots →
    (r.snapshotList role m fs).1.Grove ((r.snapshotList role m fs).2 ++ roots)
  | [], _, _, _, h => h
  | ⟨name, ty, layout⟩ :: rest, r, roots, m, h => by
    have inner := Grove.snapshotFields ty (m.ofField layout) h
    have mirrors := mirrors_snapshotList role ty.members r (m.ofField layout)
    rw [← snapshotFields_eq] at mirrors
    have own := inner.push (e := { name, role, modifier := m.ofField layout, ty, fields := _ }) rfl
      mirrors
    have others := Grove.snapshotList rest m own
    exact others.perm List.perm_middle
end

/-- A snapshot is a new root. -/
theorem Grove.snapshot {r : Reflection} (h : r.Grove roots) (name : String) (m : Modifier)
    (ty : Ty) : (r.snapshot name role m ty).1.Grove ((r.snapshot name role m ty).2 :: roots) := by
  have inner := Grove.snapshotFields role ty m h
  have mirrors := mirrors_snapshotList role ty.members r m
  rw [← snapshotFields_eq] at mirrors
  exact inner.push (e := { name, role, modifier := m, ty, fields := _ }) rfl mirrors

theorem structTypes_snapshot (r : Reflection) (name : String) (m : Modifier) (ty : Ty) :
    (r.snapshot name role m ty).1.structTypes = r.structTypes :=
  snapshotFields_induction (P := fun made => made.structTypes = r.structTypes) (Q := fun _ => True)
    (fun _ _ _ same => same) (fun _ _ _ _ => trivial) role ty r m (fun _ _ => trivial) rfl

end

/-- The entry of a struct type, and those that it holds, one for each field and no two the same. -/
theorem exists_entry_declareStruct (r : Reflection) (body : Record) :
    ∃ e, (r.declareStruct body).1.get? (r.declareStruct body).2 = some e ∧
      e.name = body.name ∧ e.ty = .record body ∧ e.fields.Nodup ∧
      (r.declareStruct body).1.Mirrors .temporary {} body.fields e.fields := by
  obtain ⟨name, kind, fields⟩ := body
  have mirrors := mirrors_snapshotList .temporary fields r {}
  have distinct : (r.snapshotList .temporary {} fields).2.Nodup := by
    refine (snapshotList_increasing .temporary fields r {}).2.imp ?_
    rintro id _ less rfl
    exact Nat.lt_irrefl _ less
  exact ⟨_, get?_push_self _ _, rfl, rfl, distinct, mirrors.mono ⟨(Extends.push _ _).get?, rfl⟩⟩

/-- A store in which the entries that are listed are held by nothing, and are listed once. -/
def Planted (r : Reflection) : Prop :=
  r.Grove (r.declared ++ r.structTypes)

namespace Planted

variable {r : Reflection}

theorem describe (h : r.Planted) (v : Variable) (stage : Stage) :
    (r.describe v stage).1.Planted ∧
      (r.describe v stage).2.index < (r.describe v stage).1.size := by
  have made := Grove.snapshot (.ofVariable v stage) h v.name (.ofVariable v) v.ty
  refine ⟨?_, made.range _ List.mem_cons_self⟩
  have listed := made.forget
  rwa [← (Extends.snapshot r v.name _ (.ofVariable v) v.ty).declared,
    ← structTypes_snapshot _ r v.name (.ofVariable v) v.ty] at listed

theorem declare (h : r.Planted) (name : String) (role : Role) (m : Modifier) (ty : Ty) :
    (r.declare name role m ty).1.Planted ∧
      (r.declare name role m ty).2.index < (r.declare name role m ty).1.size := by
  have made := Grove.snapshot role h name m ty
  refine ⟨?_, made.range _ List.mem_cons_self⟩
  have last : ((r.snapshot name role m ty).2 :: (r.declared ++ r.structTypes)).Perm
      ((r.declared ++ [(r.snapshot name role m ty).2]) ++ r.structTypes) := by
    simpa using List.perm_middle.symm
  have listed := made.perm last
  rw [← (Extends.snapshot r name role m ty).declared, ← structTypes_snapshot role r name m ty]
    at listed
  exact ⟨listed.below, listed.mirrors, listed.range, listed.once⟩

theorem declareStruct (h : r.Planted) (body : Record) :
    (r.declareStruct body).1.Planted ∧
      (r.declareStruct body).2.index < (r.declareStruct body).1.size := by
  have made := Grove.snapshot .temporary h body.name {} (.record body)
  refine ⟨?_, made.range _ List.mem_cons_self⟩
  have last := List.perm_append_singleton (r.snapshot body.name .temporary {} (.record body)).2
    (r.declared ++ r.structTypes)
  have listed := made.perm last.symm
  rw [List.append_assoc, ← (Extends.snapshot r body.name .temporary {} (.record body)).declared,
    ← structTypes_snapshot .temporary r body.name {} (.record body)] at listed
  exact ⟨listed.below, listed.mirrors, listed.range, listed.once⟩

end Planted

/-! ### Forests -/

/-- A store that the host can walk: from an entry to those that it holds, never back, and on one way
only to each. The entries that are listed are where the ways begin. -/
structure Forest (r : Reflection) : Prop where
  below : ∀ id e, r.get? id = some e → ∀ child ∈ e.fields, child.index < id.index
  mirrors : ∀ id e, r.get? id = some e → r.Mirrors e.role e.modifier e.ty.members e.fields
  distinct : ∀ id e, r.get? id = some e → e.fields.Nodup
  oneHolder : ∀ p q e e' child, r.get? p = some e → r.get? q = some e' →
    child ∈ e.fields → child ∈ e'.fields → p = q
  listed : (r.declared ++ r.structTypes).Nodup
  listed_range : ∀ id ∈ r.declared ++ r.structTypes, id.index < r.size
  unheld : ∀ id ∈ r.declared ++ r.structTypes, ∀ p e, r.get? p = some e → id ∉ e.fields

theorem Planted.forest {r : Reflection} (h : r.Planted) : r.Forest := by
  have once := h.once
  rw [List.nodup_append'] at once
  obtain ⟨held, listed, apart⟩ := once
  obtain ⟨distinct, disjoint⟩ := List.nodup_flatMap.mp held
  constructor
  case below => exact h.below
  case mirrors => exact h.mirrors
  case listed => exact listed
  case listed_range => exact h.range
  case unheld =>
    intro id mem p e found inside
    exact apart (mem_held.mpr ⟨p, e, found, inside⟩) mem
  case distinct =>
    intro id e found
    exact distinct e (Array.mem_toList_iff.mpr (Array.mem_of_getElem? found))
  case oneHolder =>
    intro p q e e' child found found' mem mem'
    by_contra different
    have other : p.index ≠ q.index := fun same => different (congrArg ReflectionId.mk same)
    obtain ⟨lt, rfl⟩ := Array.getElem?_eq_some_iff.mp found
    obtain ⟨lt', rfl⟩ := Array.getElem?_eq_some_iff.mp found'
    have pairwise := List.pairwise_iff_getElem.mp disjoint
    rcases Nat.lt_or_gt_of_ne other with before | after
    · exact pairwise p.index q.index lt lt' before mem mem'
    · exact pairwise q.index p.index lt' lt after mem' mem

/-! ### Text -/

/-- An entry is inside another, so many levels further in. -/
inductive Inside (r : Reflection) : Nat → ReflectionId → ReflectionId → Prop
  | self {id : ReflectionId} : r.Inside 0 id id
  | field {depth : Nat} {id child inner : ReflectionId} {e : Entry} : r.get? id = some e →
    child ∈ e.fields → r.Inside depth child inner → r.Inside (depth + 1) id inner

/-- Writing entries, one after the other at some depth, comes to an end: an entry has its own line,
and after it those of its fields, one level further in. -/
inductive Writes (r : Reflection) : Nat → List ReflectionId → List (Nat × ReflectionId) → Prop
  | nil {depth : Nat} : r.Writes depth [] []
  | cons {depth : Nat} {id : ReflectionId} {ids : List ReflectionId} {e : Entry}
    {inner rest : List (Nat × ReflectionId)} : r.get? id = some e →
    r.Writes (depth + 1) e.fields inner → r.Writes depth ids rest →
    r.Writes depth (id :: ids) ((depth, id) :: inner ++ rest)

namespace Inside

variable {r : Reflection} {depth : Nat} {id inner : ReflectionId}

/-- What is inside further in is held by something inside. -/
theorem holder (h : r.Inside (depth + 1) id inner) :
    ∃ p e, r.Inside depth id p ∧ r.get? p = some e ∧ inner ∈ e.fields := by
  induction depth generalizing id with
  | zero =>
    cases h with
    | field found mem last =>
      cases last
      exact ⟨id, _, .self, found, mem⟩
  | succ depth ih =>
    cases h with
    | field found mem rest =>
      obtain ⟨p, e, inside, found', mem'⟩ := ih rest
      exact ⟨p, e, .field found mem inside, found', mem'⟩

end Inside

namespace Forest

variable {r : Reflection}

theorem index_le (h : r.Forest) {depth : Nat} {id inner : ReflectionId}
    (inside : r.Inside depth id inner) : inner.index ≤ id.index := by
  induction inside with
  | self => exact Nat.le_refl _
  | field found mem _ ih => exact Nat.le_trans ih (Nat.le_of_lt (h.below _ _ found _ mem))

/-- Of two entries around the same one, the nearer one is inside the other. -/
theorem inside_of_le (h : r.Forest) {k l : Nat} {near far inner : ReflectionId} (le : k ≤ l)
    (first : r.Inside k near inner) (second : r.Inside l far inner) :
    r.Inside (l - k) far near := by
  induction k generalizing l inner with
  | zero =>
    cases first
    exact second
  | succ k ih =>
    obtain ⟨l, rfl⟩ : ∃ l', l = l' + 1 := ⟨l - 1, by omega⟩
    obtain ⟨p, e, around, found, mem⟩ := first.holder
    obtain ⟨q, e', around', found', mem'⟩ := second.holder
    obtain rfl := h.oneHolder p q e e' inner found found' mem mem'
    have inside := ih (by omega) around around'
    rwa [Nat.add_sub_add_right]

/-- Nothing is inside two fields of an entry. -/
theorem apart (h : r.Forest) {id : ReflectionId} {e : Entry} (found : r.get? id = some e)
    {k l : Nat} {a b inner : ReflectionId} (mem : a ∈ e.fields) (mem' : b ∈ e.fields)
    (first : r.Inside k a inner) (second : r.Inside l b inner) : a = b := by
  have ordered : ∀ {k l a b}, k ≤ l → a ∈ e.fields → b ∈ e.fields → r.Inside k a inner →
      r.Inside l b inner → a = b := by
    intro k l a b le mem mem' first second
    have inside := h.inside_of_le le first second
    cases levels : l - k with
    | zero =>
      rw [levels] at inside
      cases inside
      rfl
    | succ further =>
      -- the entry that holds both would be inside one of them
      rw [levels] at inside
      obtain ⟨p, e', around, found', holds⟩ := inside.holder
      obtain rfl := h.oneHolder p id e' e a found' found holds mem
      have low := h.index_le around
      have high := h.below p e found b mem'
      omega
  rcases Nat.le_total k l with le | le
  · exact ordered le mem mem' first second
  · exact (ordered le mem' mem second first).symm

/-- Writing entries that are there comes to an end. -/
theorem exists_writes (h : r.Forest) {n : Nat} (stored : n ≤ r.size) (depth : Nat)
    (ids : List ReflectionId) (bound : ∀ id ∈ ids, id.index < n) :
    ∃ places, r.Writes depth ids places := by
  induction n generalizing depth ids with
  | zero =>
    cases ids with
    | nil => exact ⟨[], .nil⟩
    | cons id ids => exact absurd (bound id (by simp)) (Nat.not_lt_zero _)
  | succ n ih =>
    induction ids with
    | nil => exact ⟨[], .nil⟩
    | cons id ids others =>
      have lt := bound id (by simp)
      obtain ⟨e, found⟩ : ∃ e, r.get? id = some e :=
        ⟨_, Array.getElem?_eq_getElem (Nat.lt_of_lt_of_le lt stored)⟩
      have low : ∀ child ∈ e.fields, child.index < n := fun child mem =>
        Nat.lt_of_lt_of_le (h.below id e found child mem) (Nat.le_of_lt_succ lt)
      obtain ⟨inner, first⟩ := ih (Nat.le_of_succ_le stored) (depth + 1) e.fields low
      obtain ⟨rest, last⟩ := others fun other mem => bound other (by simp [mem])
      exact ⟨_, .cons found first last⟩

end Forest

namespace Writes

variable {r : Reflection} {depth : Nat} {ids : List ReflectionId}
  {places : List (Nat × ReflectionId)}

/-- The places of the lines are those of all that is inside. -/
theorem mem_iff (h : r.Writes depth ids places) {d : Nat} {inner : ReflectionId} :
    (d, inner) ∈ places ↔ ∃ id ∈ ids, ∃ k, d = depth + k ∧ r.Inside k id inner := by
  induction h with
  | nil => simp
  | @cons depth id ids e inner' rest found first last ih ih' =>
    simp only [List.cons_append, List.mem_cons, List.mem_append, ih, ih', Prod.mk.injEq]
    constructor
    · rintro (⟨rfl, rfl⟩ | ⟨child, mem, k, rfl, inside⟩ | ⟨other, mem, k, rfl, inside⟩)
      · exact ⟨inner, .inl rfl, 0, rfl, .self⟩
      · exact ⟨id, .inl rfl, k + 1, by omega, .field found mem inside⟩
      · exact ⟨other, .inr mem, k, rfl, inside⟩
    · rintro ⟨other, rfl | mem, k, rfl, inside⟩
      · cases inside with
        | self => exact .inl ⟨rfl, rfl⟩
        | @field k _ child _ e' found' mem inside =>
          cases found.symm.trans found'
          exact .inr (.inl ⟨child, mem, k, by omega, inside⟩)
      · exact .inr (.inr ⟨other, mem, k, rfl, inside⟩)

/-- There is an entry at each place that gets a line. -/
theorem exists_get? (h : r.Writes depth ids places) {place : Nat × ReflectionId}
    (mem : place ∈ places) : ∃ e, r.get? place.2 = some e := by
  induction h with
  | nil => simp at mem
  | @cons depth id ids e inner rest found _ _ ih ih' =>
    rcases List.mem_cons.mp mem with rfl | mem
    · exact ⟨e, found⟩
    · exact (List.mem_append.mp mem).elim ih ih'

/-- No entry has two lines, unless it is inside two of those that are written. -/
theorem nodup (forest : r.Forest) (h : r.Writes depth ids places) (distinct : ids.Nodup)
    (apart : ∀ a ∈ ids, ∀ b ∈ ids, ∀ k l inner, r.Inside k a inner → r.Inside l b inner → a = b) :
    (places.map (·.2)).Nodup := by
  induction h with
  | nil => exact List.nodup_nil
  | @cons depth id ids e inner rest found first last ih ih' =>
    have inside : ∀ i, i ∈ inner.map (·.2) → ∃ k, r.Inside (k + 1) id i := by
      intro i mem
      obtain ⟨place, written, rfl⟩ := List.mem_map.mp mem
      obtain ⟨child, mem, k, _, inside⟩ := first.mem_iff.mp written
      exact ⟨k, .field found mem inside⟩
    have outside : ∀ i, i ∈ rest.map (·.2) → ∃ other ∈ ids, ∃ k, r.Inside k other i := by
      intro i mem
      obtain ⟨place, written, rfl⟩ := List.mem_map.mp mem
      obtain ⟨other, mem, k, _, inside⟩ := last.mem_iff.mp written
      exact ⟨other, mem, k, inside⟩
    obtain ⟨new, distinct⟩ := List.nodup_cons.mp distinct
    have elsewhere : ∀ i k, r.Inside k id i → i ∉ rest.map (·.2) := by
      intro i k around mem
      obtain ⟨other, mem, l, around'⟩ := outside i mem
      exact new (apart id (by simp) other (by simp [mem]) k l i around around' ▸ mem)
    rw [List.cons_append, List.map_cons, List.map_append, List.nodup_cons, List.nodup_append']
    refine ⟨?_, ?_, ?_, ?_⟩
    · rw [List.mem_append]
      rintro (mem | mem)
      · obtain ⟨k, around⟩ := inside id mem
        obtain ⟨p, e', around', found', holds⟩ := around.holder
        have low := forest.index_le around'
        have high := forest.below p e' found' id holds
        omega
      · exact elsewhere id 0 .self mem
    · exact ih (forest.distinct id e found) fun a mem b mem' k l i =>
        forest.apart found mem mem'
    · exact ih' distinct fun a mem b mem' => apart a (by simp [mem]) b (by simp [mem'])
    · intro i mem mem'
      obtain ⟨k, around⟩ := inside i mem
      exact elsewhere i _ around mem'

/-- The text is that of the lines, if the bound on its depth is large enough. -/
theorem lines_eq (forest : r.Forest) (h : r.Writes depth ids places) (numbered : Bool) {bound : Nat}
    (enough : ∀ id ∈ ids, id.index ≤ bound) :
    String.join (ids.map (r.lines numbered bound depth))
      = String.join (places.map fun place => r.lineAt numbered place.1 place.2) := by
  induction h generalizing bound with
  | nil => rfl
  | @cons depth id ids e inner rest found first last ih ih' =>
    have low : ∀ child ∈ e.fields, child.index < bound := fun child mem =>
      Nat.lt_of_lt_of_le (forest.below id e found child mem) (enough id (by simp))
    have own : r.lines numbered bound depth id = r.lineAt numbered depth id
        ++ String.join (inner.map fun place => r.lineAt numbered place.1 place.2) := by
      cases bound with
      | zero =>
        have none : e.fields = [] :=
          List.eq_nil_iff_forall_not_mem.mpr fun child mem => absurd (low child mem) (by omega)
        rw [none] at first
        cases first
        simp [lines]
      | succ bound =>
        rw [← ih fun child mem => Nat.le_of_lt_succ (low child mem), lines, found]
        rfl
    have others := ih' fun other mem => enough other (by simp [mem])
    simp only [List.cons_append, List.map_cons, List.map_append, String.join_cons,
      String.join_append, own, others, String.append_assoc]

end Writes

/-- The writing of an entry comes to an end. Everything inside the entry has one line, as far in as
it is deep, with the words of what stands there, and the text is made of these lines. -/
theorem Forest.exists_lines {r : Reflection} (h : r.Forest) {id : ReflectionId}
    (stored : id.index < r.size) :
    ∃ places, r.Writes 0 [id] places ∧ (places.map (·.2)).Nodup ∧
      (∀ depth inner, (depth, inner) ∈ places ↔ r.Inside depth id inner) ∧
      (∀ depth inner, (depth, inner) ∈ places → ∃ e, r.get? inner = some e ∧
        ∀ numbered, r.lineAt numbered depth inner = String.join (List.replicate depth "  ")
          ++ String.intercalate " " (e.words (if numbered then some inner else none)) ++ "\n") ∧
      ∀ numbered, r.render numbered id
        = String.join (places.map fun place => r.lineAt numbered place.1 place.2) := by
  obtain ⟨places, written⟩ := h.exists_writes stored 0 [id] (by simp)
  refine ⟨places, written, ?_, ?_, ?_, ?_⟩
  · refine written.nodup h (List.nodup_singleton id) ?_
    intro a mem b mem' k l inner _ _
    exact (List.mem_singleton.mp mem).trans (List.mem_singleton.mp mem').symm
  · intro depth inner
    simp [written.mem_iff]
  · intro depth inner mem
    obtain ⟨e, found⟩ := written.exists_get? mem
    exact ⟨e, found, fun numbered => lineAt_eq found numbered depth⟩
  · intro numbered
    have text := written.lines_eq h numbered fun other mem =>
      Nat.le_of_eq (congrArg ReflectionId.index (List.mem_singleton.mp mem))
    simpa [render] using text

end Reflection

end ShaderAnalysis
