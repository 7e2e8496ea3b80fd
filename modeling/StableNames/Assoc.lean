-- Tables of a key and a value each, in the order in which the keys first
-- came. Every key stands at most once; a later value takes the place of
-- an earlier one.

namespace StableNames

/-- A table whose entries keep the order of their first insertion. -/
structure Assoc (κ ν : Type) where
  entries : List (κ × ν)
deriving Repr

namespace Assoc

variable {κ ν : Type} [DecidableEq κ]

instance : EmptyCollection (Assoc κ ν) := ⟨⟨[]⟩⟩

instance : Inhabited (Assoc κ ν) := ⟨∅⟩

/-- The value under a key. -/
def get? (t : Assoc κ ν) (k : κ) : Option ν :=
  (t.entries.find? (·.1 = k)).map (·.2)

/-- The entries with `v` under `k`. -/
def put (k : κ) (v : ν) : List (κ × ν) → List (κ × ν)
  | [] => [(k, v)]
  | e :: rest => if e.1 = k then (k, v) :: rest else e :: put k v rest

/-- The table with `v` under `k`. -/
def insert (t : Assoc κ ν) (k : κ) (v : ν) : Assoc κ ν :=
  ⟨put k v t.entries⟩

/-- The table with `v` under every one of the keys. -/
def insertAll (t : Assoc κ ν) (ks : List κ) (v : ν) : Assoc κ ν :=
  ks.foldl (fun t k => t.insert k v) t

/-- The table without `k`. -/
def erase (t : Assoc κ ν) (k : κ) : Assoc κ ν :=
  ⟨t.entries.filter (·.1 ≠ k)⟩

def size (t : Assoc κ ν) : Nat := t.entries.length

/-- The table of a list of pairs, read from the left. -/
def ofList (pairs : List (κ × ν)) : Assoc κ ν :=
  pairs.foldl (fun t e => t.insert e.1 e.2) ∅

@[simp] theorem get?_empty (k : κ) : (∅ : Assoc κ ν).get? k = none := rfl

theorem get?_insert (t : Assoc κ ν) (k k' : κ) (v : ν) :
    (t.insert k v).get? k' = if k = k' then some v else t.get? k' := by
  obtain ⟨es⟩ := t
  simp only [insert, get?]
  induction es with
  | nil => by_cases h : k = k' <;> simp [put, h]
  | cons e es ih =>
    by_cases he : e.1 = k
    · by_cases h : k = k' <;> simp [put, he, h]
    · by_cases h' : e.1 = k'
      · subst h'
        simp [put, he, Ne.symm he]
      · simpa [put, he, h'] using ih

@[simp] theorem get?_insert_self (t : Assoc κ ν) (k : κ) (v : ν) :
    (t.insert k v).get? k = some v := by
  simp [get?_insert]

/-- Beside the entry of a new key, a table has the entries that it had. -/
theorem get?_insert_eq_some {t : Assoc κ ν} {k k' : κ} {v v' : ν} (h : t.get? k = none) :
    (t.insert k v).get? k' = some v' ↔ t.get? k' = some v' ∨ k' = k ∧ v' = v := by
  rw [get?_insert]
  by_cases hk : k = k'
  · subst hk
    simp [h, eq_comm]
  · simp [hk, Ne.symm hk]

theorem get?_insertAll (t : Assoc κ ν) (ks : List κ) (v : ν) (k : κ) :
    (t.insertAll ks v).get? k = if k ∈ ks then some v else t.get? k := by
  induction ks generalizing t with
  | nil => simp [insertAll]
  | cons a ks ih =>
    have : t.insertAll (a :: ks) v = (t.insert a v).insertAll ks v := rfl
    rw [this, ih, get?_insert]
    by_cases h : k = a
    · subst h; simp
    · simp [h, Ne.symm h]

theorem get?_erase (t : Assoc κ ν) (k k' : κ) :
    (t.erase k).get? k' = if k = k' then none else t.get? k' := by
  obtain ⟨es⟩ := t
  simp only [erase, get?]
  induction es with
  | nil => simp
  | cons e es ih =>
    by_cases he : e.1 = k <;> by_cases h : k = k' <;> by_cases h' : e.1 = k' <;>
      simp_all

/-- A new key adds one entry. -/
theorem size_insert_of_none {t : Assoc κ ν} {k : κ} (h : t.get? k = none) (v : ν) :
    (t.insert k v).size = t.size + 1 := by
  obtain ⟨es⟩ := t
  unfold get? at h
  unfold insert size
  simp only [Option.map_eq_none_iff] at h ⊢
  induction es with
  | nil => rfl
  | cons e es ih =>
    rw [List.find?_cons] at h
    split at h
    · cases h
    · rename_i hne
      rw [put, if_neg (by simpa using hne), List.length_cons, ih h, List.length_cons]

end Assoc

end StableNames
