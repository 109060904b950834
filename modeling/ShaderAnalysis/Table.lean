/-!
Finite maps that remember the order in which their keys were first set. `get?` is the view of a
table; `get?_set` says that setting a key changes that key and nothing else, and `keys_set` that a
key keeps the place it was first given.
-/

namespace ShaderAnalysis

/-- A finite map, as a list of bindings in the order in which their keys were first set. -/
structure Table (κ α : Type) where
  bindings : List (κ × α) := []
deriving DecidableEq, Repr

namespace Table

variable {κ α : Type} [DecidableEq κ]

instance : Inhabited (Table κ α) := ⟨{}⟩

/-- The value of a key in a list of bindings: that of its first binding. -/
def lookup (k : κ) : List (κ × α) → Option α
  | [] => none
  | (k', a) :: rest => if k' = k then some a else lookup k rest

/-- Gives a key a value, in place if the key is bound and at the end if it is not. -/
def assign (k : κ) (a : α) : List (κ × α) → List (κ × α)
  | [] => [(k, a)]
  | (k', a') :: rest => if k' = k then (k, a) :: rest else (k', a') :: assign k a rest

/-- The value of a key, if it has one. -/
def get? (t : Table κ α) (k : κ) : Option α :=
  lookup k t.bindings

/-- Gives a key a value. -/
def set (t : Table κ α) (k : κ) (a : α) : Table κ α :=
  ⟨assign k a t.bindings⟩

/-- Whether a key has a value. -/
def contains (t : Table κ α) (k : κ) : Bool :=
  (t.get? k).isSome

/-- The keys, in the order in which they were first set. -/
def keys (t : Table κ α) : List κ :=
  t.bindings.map (·.1)

@[simp] theorem get?_empty (k : κ) : ({} : Table κ α).get? k = none := rfl

omit [DecidableEq κ] in
@[simp] theorem keys_empty : ({} : Table κ α).keys = [] := rfl

theorem lookup_assign (k k' : κ) (a : α) (bs : List (κ × α)) :
    lookup k' (assign k a bs) = if k = k' then some a else lookup k' bs := by
  induction bs with
  | nil => simp [assign, lookup]
  | cons b bs ih =>
    obtain ⟨l, c⟩ := b
    by_cases h : l = k
    · subst h
      by_cases h' : l = k' <;> simp [assign, lookup, h']
    · by_cases h' : l = k'
      · subst h'
        simp [assign, lookup, h, Ne.symm h]
      · simp [assign, lookup, h, h', ih]

/-- Setting a key changes the value of that key only. -/
theorem get?_set (t : Table κ α) (k k' : κ) (a : α) :
    (t.set k a).get? k' = if k = k' then some a else t.get? k' :=
  lookup_assign k k' a t.bindings

@[simp] theorem get?_set_self (t : Table κ α) (k : κ) (a : α) : (t.set k a).get? k = some a := by
  simp [get?_set]

theorem get?_set_of_ne (t : Table κ α) {k k' : κ} (a : α) (h : k ≠ k') :
    (t.set k a).get? k' = t.get? k' := by
  simp [get?_set, h]

theorem mem_keys_iff (t : Table κ α) (k : κ) : k ∈ t.keys ↔ (t.get? k).isSome := by
  obtain ⟨bs⟩ := t
  simp only [keys, get?]
  induction bs with
  | nil => simp [lookup]
  | cons b bs ih =>
    obtain ⟨l, c⟩ := b
    by_cases h : l = k
    · simp [lookup, h]
    · simp only [List.map_cons, List.mem_cons, lookup, h, if_false, ih]
      simp [Ne.symm h]

/-- A bound key keeps its place, and a new one comes last. -/
theorem keys_set (t : Table κ α) (k : κ) (a : α) :
    (t.set k a).keys = if (t.get? k).isSome then t.keys else t.keys ++ [k] := by
  obtain ⟨bs⟩ := t
  simp only [keys, get?, set]
  induction bs with
  | nil => simp [assign, lookup]
  | cons b bs ih =>
    obtain ⟨l, c⟩ := b
    by_cases h : l = k
    · simp [assign, lookup, h]
    · simp only [assign, lookup, h, if_false, List.map_cons, ih]
      by_cases hb : (lookup k bs).isSome = true <;> simp [hb]

theorem assign_assign (k : κ) (a b : α) (bs : List (κ × α)) :
    assign k b (assign k a bs) = assign k b bs := by
  induction bs with
  | nil => simp [assign]
  | cons head bs ih =>
    obtain ⟨l, c⟩ := head
    by_cases h : l = k <;> simp [assign, h, ih]

/-- The last of the values given to a key is the one that counts. -/
@[simp] theorem set_set (t : Table κ α) (k : κ) (a b : α) : (t.set k a).set k b = t.set k b := by
  simp [set, assign_assign]

theorem assign_of_lookup {k : κ} {a : α} {bs : List (κ × α)} (h : lookup k bs = some a) :
    assign k a bs = bs := by
  induction bs with
  | nil => simp [lookup] at h
  | cons b bs ih =>
    obtain ⟨l, c⟩ := b
    by_cases hl : l = k
    · simp_all [lookup, assign]
    · simp only [lookup, hl, if_false] at h
      simp [assign, hl, ih h]

/-- Setting a key to the value it already has changes nothing. -/
theorem set_of_get? {t : Table κ α} {k : κ} {a : α} (h : t.get? k = some a) : t.set k a = t := by
  obtain ⟨bs⟩ := t
  simp only [get?] at h
  simp [set, assign_of_lookup h]

end Table

end ShaderAnalysis
