import Mathlib.Data.List.Nodup

/-!
# Insertion-ordered dictionaries

A `Dict κ ν` is an association list whose keys are pairwise distinct, kept in
insertion order: overwriting a key keeps its place, a new key goes to the end.
This is the iteration order of a Python `dict`, which listing operations expose.
The distinctness of the keys is carried as a field, so that no operation can
produce a dictionary with two entries for one key.
-/

/-- An association list with distinct keys, in insertion order. -/
structure Dict (κ ν : Type) where
  entries : List (κ × ν)
  nodup : (entries.map Prod.fst).Nodup

namespace Dict

variable {κ ν : Type} [DecidableEq κ]

/-- The empty dictionary. -/
def empty : Dict κ ν := ⟨[], List.nodup_nil⟩

instance : EmptyCollection (Dict κ ν) := ⟨empty⟩

instance : Inhabited (Dict κ ν) := ⟨empty⟩

/-- Keys in insertion order. -/
def keys (d : Dict κ ν) : List κ := d.entries.map Prod.fst

/-- Values in insertion order. -/
def values (d : Dict κ ν) : List ν := d.entries.map Prod.snd

/-- Look a key up. -/
def get? (d : Dict κ ν) (k : κ) : Option ν :=
  go d.entries
where
  /-- First entry for `k`. -/
  go : List (κ × ν) → Option ν
    | [] => none
    | (k', v) :: rest => if k' = k then some v else go rest

/-- Look a key up, with a default. -/
def getD (d : Dict κ ν) (k : κ) (default : ν) : ν := (d.get? k).getD default

/-- Overwrite the entry of `k` in place, or append one. -/
def setEntries (k : κ) (v : ν) : List (κ × ν) → List (κ × ν)
  | [] => [(k, v)]
  | (k', v') :: rest => if k' = k then (k, v) :: rest else (k', v') :: setEntries k v rest

theorem mem_keys_setEntries {k a : κ} {v : ν} {l : List (κ × ν)} :
    a ∈ (setEntries k v l).map Prod.fst ↔ a = k ∨ a ∈ l.map Prod.fst := by
  induction l with
  | nil => simp [setEntries]
  | cons e rest ih =>
    obtain ⟨k', v'⟩ := e
    simp only [setEntries]
    split
    · rename_i h; subst h; simp
    · simp only [List.map_cons, List.mem_cons, ih]
      tauto

theorem nodup_setEntries {k : κ} {v : ν} {l : List (κ × ν)} (h : (l.map Prod.fst).Nodup) :
    ((setEntries k v l).map Prod.fst).Nodup := by
  induction l with
  | nil => simp [setEntries]
  | cons e rest ih =>
    obtain ⟨k', v'⟩ := e
    simp only [List.map_cons, List.nodup_cons] at h
    simp only [setEntries]
    split
    · rename_i hk; subst hk
      simpa using h
    · rename_i hk
      simp only [List.map_cons, List.nodup_cons]
      refine ⟨?_, ih h.2⟩
      rw [mem_keys_setEntries]
      rintro (h' | h')
      · exact hk h'
      · exact h.1 h'

/-- `d[k] = v`. -/
def set (d : Dict κ ν) (k : κ) (v : ν) : Dict κ ν :=
  ⟨setEntries k v d.entries, nodup_setEntries d.nodup⟩

/-- `d.setdefault(k, v)`: keep an existing entry. -/
def setDefault (d : Dict κ ν) (k : κ) (v : ν) : Dict κ ν :=
  match d.get? k with
  | some _ => d
  | none => d.set k v

/-- `d.pop(k, None)`. -/
def erase (d : Dict κ ν) (k : κ) : Dict κ ν :=
  ⟨d.entries.filter fun e => e.1 ≠ k, by
    have h := d.nodup
    exact (List.Sublist.map Prod.fst List.filter_sublist).nodup h⟩

/-- Apply `f` to the value of every entry. -/
def mapValues (d : Dict κ ν) (f : κ → ν → ν) : Dict κ ν :=
  ⟨d.entries.map fun e => (e.1, f e.1 e.2), by
    have h := d.nodup
    rwa [List.map_map, show (Prod.fst ∘ fun e : κ × ν => (e.1, f e.1 e.2)) = Prod.fst from rfl]⟩

/-- The dictionary of a list of pairs; later pairs overwrite earlier ones. -/
def ofList (l : List (κ × ν)) : Dict κ ν :=
  l.foldl (fun d e => d.set e.1 e.2) ∅

/-! ## Lookup lemmas -/

@[simp] theorem get?_empty (k : κ) : (∅ : Dict κ ν).get? k = none := rfl

theorem get?_go_setEntries (k a : κ) (v : ν) (l : List (κ × ν)) :
    get?.go a (setEntries k v l) = if a = k then some v else get?.go a l := by
  induction l with
  | nil =>
    simp only [setEntries, get?.go]
    by_cases h : a = k
    · simp [h]
    · simp [h, Ne.symm h]
  | cons e rest ih =>
    obtain ⟨k', v'⟩ := e
    simp only [setEntries]
    by_cases hk : k' = k
    · subst hk
      by_cases h : a = k'
      · simp [get?.go, h]
      · simp [get?.go, h, Ne.symm h]
    · rw [if_neg hk]
      simp only [get?.go, ih]
      by_cases h : k' = a
      · subst h; simp [hk]
      · simp [h]

/-- Reading after a write. -/
@[simp] theorem get?_set (d : Dict κ ν) (k a : κ) (v : ν) :
    (d.set k v).get? a = if a = k then some v else d.get? a :=
  get?_go_setEntries k a v d.entries

/-- Reading after `setDefault`. -/
theorem get?_setDefault (d : Dict κ ν) (k a : κ) (v : ν) :
    (d.setDefault k v).get? a = if a = k then some ((d.get? k).getD v) else d.get? a := by
  simp only [setDefault]
  cases h : d.get? k with
  | none => simp
  | some v' =>
    by_cases ha : a = k
    · simp [ha, h]
    · simp [ha]

theorem get?_go_eq_some_of_mem {k : κ} {v : ν} {l : List (κ × ν)}
    (hn : (l.map Prod.fst).Nodup) (h : (k, v) ∈ l) : get?.go k l = some v := by
  induction l with
  | nil => simp at h
  | cons e rest ih =>
    obtain ⟨k', v'⟩ := e
    simp only [List.map_cons, List.nodup_cons] at hn
    rcases List.mem_cons.mp h with h | h
    · cases h; simp [get?.go]
    · have hne : k' ≠ k := by
        rintro rfl
        exact hn.1 (List.mem_map_of_mem h)
      simp [get?.go, hne, ih hn.2 h]

theorem mem_of_get?_go_eq_some {k : κ} {v : ν} {l : List (κ × ν)}
    (h : get?.go k l = some v) : (k, v) ∈ l := by
  induction l with
  | nil => simp [get?.go] at h
  | cons e rest ih =>
    obtain ⟨k', v'⟩ := e
    simp only [get?.go] at h
    split at h
    · rename_i hk; subst hk
      cases h; simp
    · exact List.mem_cons_of_mem _ (ih h)

/-- Lookup and membership agree. -/
theorem mem_entries_iff {d : Dict κ ν} {k : κ} {v : ν} :
    (k, v) ∈ d.entries ↔ d.get? k = some v :=
  ⟨get?_go_eq_some_of_mem d.nodup, mem_of_get?_go_eq_some⟩

/-- Reading after `erase`. -/
theorem get?_erase (d : Dict κ ν) (k a : κ) :
    (d.erase k).get? a = if a = k then none else d.get? a := by
  have hiff : ∀ v, (d.erase k).get? a = some v ↔ a ≠ k ∧ d.get? a = some v := by
    intro v
    rw [← mem_entries_iff, ← mem_entries_iff]
    simp [erase, and_comm]
  split
  · rename_i h
    cases hv : (d.erase k).get? a with
    | none => rfl
    | some v => exact absurd h ((hiff v).mp hv).1
  · rename_i h
    cases hv : d.get? a with
    | none =>
      cases hv' : (d.erase k).get? a with
      | none => rfl
      | some v => rw [((hiff v).mp hv').2] at hv; cases hv
    | some v => exact (hiff v).mpr ⟨h, hv⟩

theorem get?_go_map (f : κ → ν → ν) (a : κ) (l : List (κ × ν)) :
    get?.go a (l.map fun e => (e.1, f e.1 e.2)) = (get?.go a l).map (f a) := by
  induction l with
  | nil => rfl
  | cons e rest ih =>
    obtain ⟨k', v'⟩ := e
    simp only [List.map_cons, get?.go]
    split
    · rename_i h; subst h; rfl
    · exact ih

/-- Reading after `mapValues`. -/
@[simp] theorem get?_mapValues (d : Dict κ ν) (f : κ → ν → ν) (a : κ) :
    (d.mapValues f).get? a = (d.get? a).map (f a) :=
  get?_go_map f a d.entries

theorem mem_values_iff {d : Dict κ ν} {v : ν} :
    v ∈ d.values ↔ ∃ k, d.get? k = some v := by
  simp only [values, List.mem_map]
  constructor
  · rintro ⟨⟨k, v'⟩, h, rfl⟩
    exact ⟨k, mem_entries_iff.mp h⟩
  · rintro ⟨k, h⟩
    exact ⟨(k, v), mem_entries_iff.mpr h, rfl⟩

theorem mem_keys_set {d : Dict κ ν} {k a : κ} {v : ν} :
    a ∈ (d.set k v).keys ↔ a = k ∨ a ∈ d.keys := mem_keys_setEntries

theorem mem_keys_iff {d : Dict κ ν} {k : κ} : k ∈ d.keys ↔ ∃ v, d.get? k = some v := by
  simp only [keys, List.mem_map]
  constructor
  · rintro ⟨⟨k, v⟩, h, rfl⟩
    exact ⟨v, mem_entries_iff.mp h⟩
  · rintro ⟨v, h⟩
    exact ⟨(k, v), mem_entries_iff.mpr h, rfl⟩

/-- Overwriting a key keeps its place, a new key goes to the end. -/
theorem keys_set (d : Dict κ ν) (k : κ) (v : ν) :
    (d.set k v).keys = if k ∈ d.keys then d.keys else d.keys ++ [k] := by
  show (setEntries k v d.entries).map Prod.fst = _
  rw [keys]
  induction d.entries with
  | nil => rfl
  | cons e rest ih =>
    obtain ⟨k', v'⟩ := e
    simp only [setEntries, List.map_cons, List.mem_cons]
    by_cases hk : k' = k
    · simp [hk]
    · rw [if_neg hk, List.map_cons, ih]
      by_cases hmem : k ∈ rest.map Prod.fst
      · simp [hmem]
      · simp [hmem, Ne.symm hk]

/-- Writing some entries leaves every other key alone. -/
theorem get?_foldl_set_of_notMem {β : Type} (key : β → κ) (val : β → ν) {l : List β} {a : κ} (h : a ∉ l.map key)
    (d : Dict κ ν) : (l.foldl (fun d b => d.set (key b) (val b)) d).get? a = d.get? a := by
  induction l generalizing d with
  | nil => rfl
  | cons b rest ih =>
    rw [List.map_cons, List.mem_cons, not_or] at h
    rw [List.foldl_cons, ih h.2, get?_set, if_neg h.1]

/-- Entries with distinct keys are all found. -/
theorem get?_foldl_set_of_mem {β : Type} (key : β → κ) (val : β → ν) {l : List β} (hn : (l.map key).Nodup) {b : β}
    (h : b ∈ l) (d : Dict κ ν) : (l.foldl (fun d b => d.set (key b) (val b)) d).get? (key b) = some (val b) := by
  induction l generalizing d with
  | nil => cases h
  | cons c rest ih =>
    rw [List.map_cons, List.nodup_cons] at hn
    rw [List.foldl_cons]
    rcases List.mem_cons.mp h with rfl | h
    · rw [get?_foldl_set_of_notMem key val hn.1, get?_set, if_pos rfl]
    · exact ih hn.2 h _

private theorem mem_keys_foldl_set {a : κ} (l : List (κ × ν)) (d : Dict κ ν) :
    a ∈ (l.foldl (fun d e => d.set e.1 e.2) d).keys ↔ a ∈ d.keys ∨ a ∈ l.map Prod.fst := by
  induction l generalizing d with
  | nil => simp
  | cons e rest ih =>
    rw [List.foldl_cons, ih, mem_keys_set, List.map_cons, List.mem_cons]
    tauto

theorem mem_keys_ofList {a : κ} {l : List (κ × ν)} :
    a ∈ (ofList l).keys ↔ a ∈ l.map Prod.fst := by
  rw [ofList, mem_keys_foldl_set]
  simp [keys, show (∅ : Dict κ ν).entries = [] from rfl]

end Dict
