/-!
# Insertion-ordered tables

A table of entries with distinct keys that remembers the order in which the keys first came. Setting
a key that is already there replaces its value and keeps its place.

## Main definitions

* `Keyed` — the table.
* `Keyed.find?`, `Keyed.contains`, `Keyed.insert`, `Keyed.update` — look-up and change.
* `Keyed.ofList` — the table built by inserting entries one after the other.
* `Keyed.groupBy` — the elements of a list under the keys they belong to.

## Main results

* `Keyed.find?_insert_self`, `Keyed.find?_insert_of_ne` — look-up after insertion.
* `Keyed.keys_insert_of_mem`, `Keyed.keys_insert_of_not_mem` — the keys after insertion.
-/

namespace TypedSheets

/-- A table with distinct keys, in the order in which the keys were first inserted. -/
structure Keyed (κ : Type) (α : Type) where
  /-- The entries in order. -/
  entries : List (κ × α)
  /-- No key occurs twice. -/
  distinct : (entries.map Prod.fst).Nodup

namespace Keyed

variable {κ α β : Type}

/-- The table without entries. -/
def empty : Keyed κ α := ⟨[], List.nodup_nil⟩

instance : Inhabited (Keyed κ α) := ⟨empty⟩

instance [DecidableEq κ] [DecidableEq α] : DecidableEq (Keyed κ α) := fun a b =>
  decidable_of_iff (a.entries = b.entries)
    ⟨fun h => by cases a; cases b; cases h; rfl, fun h => h ▸ rfl⟩

/-- Tables with the same entries are equal. -/
@[ext] theorem ext_entries {a b : Keyed κ α} (h : a.entries = b.entries) : a = b := by
  cases a; cases b; cases h; rfl

/-- The keys in order. -/
def keys (t : Keyed κ α) : List κ := t.entries.map Prod.fst

/-- The values in the order of their keys. -/
def values (t : Keyed κ α) : List α := t.entries.map Prod.snd

/-- The number of entries. -/
def size (t : Keyed κ α) : Nat := t.entries.length

/-- Whether there is no entry. -/
def isEmpty (t : Keyed κ α) : Bool := t.entries.isEmpty

section Lookup

variable [DecidableEq κ]

/-- The value of the first entry with a key. -/
def lookup (k : κ) : List (κ × α) → Option α
  | [] => none
  | (k', a) :: rest => if k' = k then some a else lookup k rest

/-- The value of a key. -/
def find? (t : Keyed κ α) (k : κ) : Option α := lookup k t.entries

/-- Whether a key has a value. -/
def contains (t : Keyed κ α) (k : κ) : Bool := (t.find? k).isSome

/-- The entries after setting the value of a key: in its place, or at the end. -/
def put (k : κ) (a : α) : List (κ × α) → List (κ × α)
  | [] => [(k, a)]
  | (k', b) :: rest => if k' = k then (k, a) :: rest else (k', b) :: put k a rest

theorem mem_keys_put {k k' : κ} {a : α} {l : List (κ × α)} :
    k' ∈ (put k a l).map Prod.fst ↔ k' = k ∨ k' ∈ l.map Prod.fst := by
  induction l with
  | nil => simp [put]
  | cons e l ih =>
    obtain ⟨k₀, b⟩ := e
    by_cases h : k₀ = k
    · simp [put, h]
    · simp only [put, if_neg h, List.map_cons, List.mem_cons, ih]
      constructor
      · rintro (h | h | h) <;> simp [h]
      · rintro (h | h | h) <;> simp [h]

theorem nodup_keys_put {k : κ} {a : α} {l : List (κ × α)} (h : (l.map Prod.fst).Nodup) :
    ((put k a l).map Prod.fst).Nodup := by
  induction l with
  | nil => simp [put]
  | cons e l ih =>
    obtain ⟨k₀, b⟩ := e
    simp only [List.map_cons, List.nodup_cons] at h
    by_cases hk : k₀ = k
    · simp only [put, if_pos hk, List.map_cons, List.nodup_cons]
      exact ⟨hk ▸ h.1, h.2⟩
    · simp only [put, if_neg hk, List.map_cons, List.nodup_cons]
      refine ⟨fun hm => ?_, ih h.2⟩
      rcases mem_keys_put.1 hm with he | he
      · exact hk he
      · exact h.1 he

/-- Sets the value of a key. -/
def insert (t : Keyed κ α) (k : κ) (a : α) : Keyed κ α :=
  ⟨put k a t.entries, nodup_keys_put t.distinct⟩

/-- Changes the value of a key, starting from `fresh` if it has none. -/
def update (t : Keyed κ α) (k : κ) (fresh : α) (f : α → α) : Keyed κ α :=
  t.insert k (f ((t.find? k).getD fresh))

/-- The table of the entries inserted one after the other. -/
def ofList (entries : List (κ × α)) : Keyed κ α :=
  entries.foldl (fun t e => t.insert e.1 e.2) empty

/-- The elements of a list under their keys, keys in first-seen order, elements in list order. -/
def groupBy (key : α → κ) (l : List α) : Keyed κ (List α) :=
  l.foldl (fun t a => t.update (key a) [] (· ++ [a])) empty

theorem mem_of_lookup {k : κ} {a : α} {l : List (κ × α)} (h : lookup k l = some a) :
    (k, a) ∈ l := by
  induction l with
  | nil => simp [lookup] at h
  | cons e l ih =>
    obtain ⟨k₀, b⟩ := e
    by_cases hk : k₀ = k
    · simp only [lookup, if_pos hk, Option.some.injEq] at h
      simp [hk, h]
    · simp only [lookup, if_neg hk] at h
      exact List.mem_cons_of_mem _ (ih h)

/-- A value that is found is an entry. -/
theorem mem_of_find? {t : Keyed κ α} {k : κ} {a : α} (h : t.find? k = some a) :
    (k, a) ∈ t.entries :=
  mem_of_lookup h

/-- A key that has a value is one of the keys. -/
theorem mem_keys_of_find? {t : Keyed κ α} {k : κ} {a : α} (h : t.find? k = some a) :
    k ∈ t.keys :=
  List.mem_map.2 ⟨(k, a), mem_of_find? h, rfl⟩

/-- A value that is found is one of the values. -/
theorem mem_values_of_find? {t : Keyed κ α} {k : κ} {a : α} (h : t.find? k = some a) :
    a ∈ t.values :=
  List.mem_map.2 ⟨(k, a), mem_of_find? h, rfl⟩

theorem lookup_put_self {k : κ} {a : α} {l : List (κ × α)} : lookup k (put k a l) = some a := by
  induction l with
  | nil => simp [put, lookup]
  | cons e l ih =>
    obtain ⟨k₀, b⟩ := e
    by_cases h : k₀ = k <;> simp [put, lookup, h, ih]

theorem lookup_put_of_ne {k k' : κ} {a : α} {l : List (κ × α)} (hne : k' ≠ k) :
    lookup k' (put k a l) = lookup k' l := by
  induction l with
  | nil => simp [put, lookup, Ne.symm hne]
  | cons e l ih =>
    obtain ⟨k₀, b⟩ := e
    by_cases h : k₀ = k
    · subst h; simp [put, lookup, Ne.symm hne]
    · simp only [put, if_neg h, lookup, ih]

/-- The key just set has the value it was set to. -/
@[simp] theorem find?_insert_self (t : Keyed κ α) (k : κ) (a : α) :
    (t.insert k a).find? k = some a :=
  lookup_put_self

/-- Setting one key leaves the others alone. -/
theorem find?_insert_of_ne (t : Keyed κ α) {k k' : κ} (a : α) (hne : k' ≠ k) :
    (t.insert k a).find? k' = t.find? k' :=
  lookup_put_of_ne hne

/-- The empty table has no value for any key. -/
@[simp] theorem find?_empty (k : κ) : (empty : Keyed κ α).find? k = none := rfl

theorem map_fst_put_of_mem {k : κ} {a : α} {l : List (κ × α)} (h : k ∈ l.map Prod.fst) :
    (put k a l).map Prod.fst = l.map Prod.fst := by
  induction l with
  | nil => simp at h
  | cons e l ih =>
    obtain ⟨k₀, b⟩ := e
    by_cases hk : k₀ = k
    · simp [put, hk]
    · simp only [List.map_cons, List.mem_cons] at h
      have hm : k ∈ l.map Prod.fst := h.resolve_left (Ne.symm hk)
      simp only [put, if_neg hk, List.map_cons, ih hm]

theorem map_fst_put_of_not_mem {k : κ} {a : α} {l : List (κ × α)} (h : k ∉ l.map Prod.fst) :
    (put k a l).map Prod.fst = l.map Prod.fst ++ [k] := by
  induction l with
  | nil => simp [put]
  | cons e l ih =>
    obtain ⟨k₀, b⟩ := e
    simp only [List.map_cons, List.mem_cons, not_or] at h
    simp only [put, if_neg (Ne.symm h.1), List.map_cons, List.cons_append, ih h.2]

/-- Setting a known key keeps the keys and their order. -/
theorem keys_insert_of_mem {t : Keyed κ α} {k : κ} {a : α} (h : k ∈ t.keys) :
    (t.insert k a).keys = t.keys :=
  map_fst_put_of_mem h

/-- Setting a new key appends it. -/
theorem keys_insert_of_not_mem {t : Keyed κ α} {k : κ} {a : α} (h : k ∉ t.keys) :
    (t.insert k a).keys = t.keys ++ [k] :=
  map_fst_put_of_not_mem h

end Lookup

/-- The table with every value changed. -/
def mapValues (f : α → β) (t : Keyed κ α) : Keyed κ β :=
  ⟨t.entries.map fun e => (e.1, f e.2), by simpa [Function.comp_def] using t.distinct⟩

/-- The entries whose value passes a test. -/
def filterValues (p : α → Bool) (t : Keyed κ α) : Keyed κ α :=
  ⟨t.entries.filter fun e => p e.2,
    List.Nodup.sublist (List.Sublist.map _ List.filter_sublist) t.distinct⟩

end Keyed

end TypedSheets
