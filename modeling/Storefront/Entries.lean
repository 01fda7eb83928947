/-! Maps that keep the order in which their keys first came: a list of keys with their values. -/

namespace Storefront

abbrev Entries (α : Type) := List (String × α)

namespace Entries
variable {α β : Type}

def keys (m : Entries α) : List String := m.map Prod.fst

def get? (m : Entries α) (k : String) : Option α := List.lookup k m

def has (m : Entries α) (k : String) : Bool := m.any fun e => e.1 == k

/-- Puts `v` under `k`: in the place of the key if it is there, else at the end. -/
def put (m : Entries α) (k : String) (v : α) : Entries α :=
  match m with
  | [] => [(k, v)]
  | e :: r => if e.1 = k then (k, v) :: r else e :: put r k v

def putAll (m : Entries α) (es : Entries α) : Entries α := es.foldl (fun m e => m.put e.1 e.2) m

/-- The map that a list of entries gives: a repeated key keeps its first place and its last value. -/
def settle (es : Entries α) : Entries α := putAll [] es

def mapValues (f : α → β) (m : Entries α) : Entries β := m.map fun e => (e.1, f e.2)

def insertSorted (e : String × α) : Entries α → Entries α
  | [] => [e]
  | f :: r => if e.1 ≤ f.1 then e :: f :: r else f :: insertSorted e r

/-- The entries in the order of their keys, code point by code point. -/
def sortByKey (m : Entries α) : Entries α := m.foldr insertSorted []

@[simp] theorem keys_nil : keys ([] : Entries α) = [] := rfl
@[simp] theorem keys_cons (e : String × α) (m : Entries α) : keys (e :: m) = e.1 :: keys m := rfl

theorem keys_put (m : Entries α) (k : String) (v : α) :
    (m.put k v).keys = if k ∈ m.keys then m.keys else m.keys ++ [k] := by
  induction m with
  | nil => simp [put]
  | cons e r ih =>
    by_cases h : e.1 = k
    · simp [put, h]
    · have h' : k ≠ e.1 := fun e' => h e'.symm
      by_cases hk : k ∈ keys r <;> simp_all [put]

theorem get?_cons (e : String × α) (m : Entries α) (j : String) :
    get? (e :: m) j = if j = e.1 then some e.2 else m.get? j := by
  obtain ⟨k, v⟩ := e
  by_cases h : j = k
  · simp [get?, h]
  · have hb : (j == k) = false := beq_false_of_ne h
    simp [get?, List.lookup_cons, hb, h]

theorem get?_put (m : Entries α) (k j : String) (v : α) :
    (m.put k v).get? j = if j = k then some v else m.get? j := by
  induction m with
  | nil => simp [put, get?_cons]
  | cons e r ih =>
    by_cases he : e.1 = k
    · by_cases hj : j = k <;> simp [put, he, get?_cons, hj]
    · by_cases hj : j = e.1
      · simp [put, he, get?_cons, hj]
      · simp [put, he, get?_cons, hj, ih]

theorem has_iff {m : Entries α} {k : String} : m.has k = true ↔ k ∈ m.keys := by
  simp [has, keys]

theorem get?_eq_none_iff {m : Entries α} {k : String} : m.get? k = none ↔ k ∉ m.keys := by
  induction m with
  | nil => simp [get?]
  | cons e r ih =>
    by_cases h : k = e.1
    · simp [get?_cons, h]
    · simp [get?_cons, h, ih]

theorem mem_keys_iff {m : Entries α} {k : String} : k ∈ m.keys ↔ ∃ v, m.get? k = some v := by
  cases hv : m.get? k with
  | none => simp [get?_eq_none_iff.mp hv]
  | some v =>
    have hk : ¬ (k ∉ m.keys) := by
      rw [← get?_eq_none_iff, hv]
      simp
    simpa using hk

end Entries

end Storefront
