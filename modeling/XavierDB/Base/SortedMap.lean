import Mathlib.Data.String.Basic

/-!
# Maps sorted by key

A map as its entries in strictly increasing key order (Rust's `BTreeMap`). The
order is a field, so equal maps are equal lists.
-/

namespace XavierDB

variable {κ ν : Type} [LinearOrder κ]

namespace SortedMap

/-! ## Entries -/

def lookup : List (κ × ν) → κ → Option ν
  | [], _ => none
  | (k', v) :: rest, k => if k = k' then some v else lookup rest k

def insertEntry (k : κ) (v : ν) : List (κ × ν) → List (κ × ν)
  | [] => [(k, v)]
  | (k', v') :: rest =>
    if k < k' then (k, v) :: (k', v') :: rest
    else if k = k' then (k, v) :: rest
    else (k', v') :: insertEntry k v rest

theorem lookup_insertEntry (k k' : κ) (v : ν) (l : List (κ × ν)) :
    lookup (insertEntry k v l) k' = if k' = k then some v else lookup l k' := by
  induction l with
  | nil => rfl
  | cons p l ih =>
    obtain ⟨j, w⟩ := p
    simp only [insertEntry]
    split
    · rfl
    · split
      case isTrue h =>
        subst h
        simp only [lookup]
        split <;> rfl
      case isFalse h =>
        simp only [lookup, ih]
        by_cases hj : k' = j
        · rw [if_pos hj, if_pos hj, if_neg fun hk => h (hk.symm.trans hj)]
        · rw [if_neg hj, if_neg hj]

theorem lookup_filter (k k' : κ) (l : List (κ × ν)) :
    lookup (l.filter fun p => p.1 ≠ k) k' = if k' = k then none else lookup l k' := by
  induction l with
  | nil => simp [lookup]
  | cons p l ih =>
    obtain ⟨j, w⟩ := p
    by_cases hj : j = k
    · subst hj
      rw [List.filter_cons_of_neg (by simp), ih, lookup]
      split
      · rfl
      · rfl
    · rw [List.filter_cons_of_pos (by simpa using hj), lookup, ih, lookup]
      by_cases hk : k' = j
      · rw [if_pos hk, if_pos hk, if_neg fun h => hj (hk.symm.trans h)]
      · rw [if_neg hk, if_neg hk]

theorem mem_of_lookup {k : κ} {v : ν} {l : List (κ × ν)} (h : lookup l k = some v) :
    (k, v) ∈ l := by
  induction l with
  | nil => cases h
  | cons p l ih =>
    obtain ⟨j, w⟩ := p
    rw [lookup] at h
    split at h
    case isTrue he =>
      obtain rfl := Option.some.inj h
      exact he ▸ List.mem_cons_self
    case isFalse he => exact List.mem_cons_of_mem _ (ih h)

/-- Keys are unique. -/
theorem lookup_of_mem {k : κ} {v : ν} {l : List (κ × ν)}
    (hl : l.Pairwise fun a b => a.1 < b.1) (h : (k, v) ∈ l) : lookup l k = some v := by
  induction l with
  | nil => cases h
  | cons p l ih =>
    obtain ⟨j, w⟩ := p
    obtain ⟨hj, hl⟩ := List.pairwise_cons.mp hl
    rcases List.mem_cons.mp h with h | h
    · obtain ⟨rfl, rfl⟩ := Prod.mk.inj h
      exact if_pos rfl
    · rw [lookup, if_neg (hj _ h).ne', ih hl h]

theorem fst_mem_insertEntry {k : κ} {v : ν} {l : List (κ × ν)} {p : κ × ν}
    (h : p ∈ insertEntry k v l) : p.1 = k ∨ p ∈ l := by
  induction l with
  | nil => exact .inl (by rw [List.mem_singleton.mp h])
  | cons q l ih =>
    obtain ⟨j, w⟩ := q
    simp only [insertEntry] at h
    split at h
    · rcases List.mem_cons.mp h with h | h
      · exact .inl (by rw [h])
      · exact .inr h
    · split at h
      · rcases List.mem_cons.mp h with h | h
        · exact .inl (by rw [h])
        · exact .inr (List.mem_cons_of_mem _ h)
      · rcases List.mem_cons.mp h with h | h
        · exact .inr (h ▸ List.mem_cons_self)
        · exact (ih h).imp_right (List.mem_cons_of_mem _)

theorem pairwise_insertEntry (k : κ) (v : ν) {l : List (κ × ν)}
    (h : l.Pairwise fun a b => a.1 < b.1) :
    (insertEntry k v l).Pairwise fun a b => a.1 < b.1 := by
  induction l with
  | nil => exact List.pairwise_singleton _ _
  | cons p l ih =>
    obtain ⟨j, w⟩ := p
    obtain ⟨hj, hl⟩ := List.pairwise_cons.mp h
    simp only [insertEntry]
    split
    case isTrue hk =>
      refine List.pairwise_cons.mpr ⟨fun q hq => ?_, h⟩
      rcases List.mem_cons.mp hq with rfl | hq
      · exact hk
      · exact lt_trans hk (hj q hq)
    case isFalse hk =>
      split
      case isTrue he =>
        subst he
        exact List.pairwise_cons.mpr ⟨hj, hl⟩
      case isFalse he =>
        refine List.pairwise_cons.mpr ⟨fun q hq => ?_, ih hl⟩
        rcases fst_mem_insertEntry hq with hq | hq
        · rw [hq]
          exact lt_of_le_of_ne (not_lt.mp hk) (Ne.symm he)
        · exact hj q hq

/-- Writing again what a map holds. -/
theorem insertEntry_of_lookup {k : κ} {v : ν} {l : List (κ × ν)}
    (hl : l.Pairwise fun a b => a.1 < b.1) (h : lookup l k = some v) : insertEntry k v l = l := by
  induction l with
  | nil => cases h
  | cons p l ih =>
    obtain ⟨j, w⟩ := p
    obtain ⟨hj, hl⟩ := List.pairwise_cons.mp hl
    rw [lookup] at h
    split at h
    case isTrue he =>
      obtain rfl := Option.some.inj h
      subst he
      rw [insertEntry, if_neg (lt_irrefl k), if_pos rfl]
    case isFalse he =>
      have hlt : j < k := hj _ (mem_of_lookup h)
      rw [insertEntry, if_neg hlt.not_gt, if_neg he, ih hl h]

theorem length_insertEntry_le (k : κ) (v : ν) (l : List (κ × ν)) :
    (insertEntry k v l).length ≤ l.length + 1 := by
  induction l with
  | nil => simp [insertEntry]
  | cons p l ih =>
    rw [insertEntry]
    split
    · rfl
    · split
      · simp
      · simpa using ih

theorem length_insertEntry_of_some {k : κ} (v : ν) {l : List (κ × ν)}
    (hl : l.Pairwise fun a b => a.1 < b.1) (h : (lookup l k).isSome) :
    (insertEntry k v l).length = l.length := by
  induction l with
  | nil => cases h
  | cons p l ih =>
    obtain ⟨j, w⟩ := p
    obtain ⟨hj, hl⟩ := List.pairwise_cons.mp hl
    rw [lookup] at h
    split at h
    case isTrue he =>
      rw [insertEntry, if_neg he.ge.not_gt, if_pos he, List.length_cons, List.length_cons]
    case isFalse he =>
      obtain ⟨w', hw'⟩ := Option.isSome_iff_exists.mp h
      have hlt : j < k := hj _ (mem_of_lookup hw')
      rw [insertEntry, if_neg hlt.not_gt, if_neg he, List.length_cons, ih hl h, List.length_cons]

/-- A key that is new adds an entry. -/
theorem perm_insertEntry {k : κ} (v : ν) {l : List (κ × ν)} (h : lookup l k = none) :
    (insertEntry k v l).Perm ((k, v) :: l) := by
  induction l with
  | nil => exact .refl _
  | cons p l ih =>
    rw [lookup] at h
    split at h
    case isTrue => cases h
    case isFalse hne =>
      rw [insertEntry, if_neg hne]
      split
      · exact .refl _
      · exact ((ih h).cons p).trans (.swap _ _ _)

theorem map_insertEntry (f : ν → ν) (k : κ) (v : ν) (l : List (κ × ν)) :
    (insertEntry k v l).map (fun p => (p.1, f p.2)) =
      insertEntry k (f v) (l.map fun p => (p.1, f p.2)) := by
  induction l with
  | nil => rfl
  | cons p l ih =>
    obtain ⟨j, w⟩ := p
    simp only [insertEntry, List.map_cons]
    split
    · rfl
    · split
      · rfl
      · rw [List.map_cons, ih]

end SortedMap

/-- A map whose entries are in strictly increasing key order. -/
structure SortedMap (κ ν : Type) [LinearOrder κ] where
  entries : List (κ × ν)
  sorted : entries.Pairwise fun a b => a.1 < b.1
  deriving DecidableEq

namespace SortedMap

def empty : SortedMap κ ν := ⟨[], List.Pairwise.nil⟩

/-- Entries in order, or nothing. -/
def ofEntries (l : List (κ × ν)) : SortedMap κ ν :=
  if h : l.Pairwise fun a b => a.1 < b.1 then ⟨l, h⟩ else empty

theorem ofEntries_entries (m : SortedMap κ ν) : ofEntries m.entries = m := dif_pos m.sorted

def get? (m : SortedMap κ ν) (k : κ) : Option ν := lookup m.entries k

def insert (m : SortedMap κ ν) (k : κ) (v : ν) : SortedMap κ ν :=
  ⟨insertEntry k v m.entries, pairwise_insertEntry k v m.sorted⟩

def remove (m : SortedMap κ ν) (k : κ) : SortedMap κ ν :=
  ⟨m.entries.filter fun p => p.1 ≠ k, m.sorted.filter _⟩

/-- `values_mut`. -/
def mapVal (f : ν → ν) (m : SortedMap κ ν) : SortedMap κ ν :=
  ⟨m.entries.map fun p => (p.1, f p.2), by rw [List.pairwise_map]; exact m.sorted⟩

def contains (m : SortedMap κ ν) (k : κ) : Bool := (m.get? k).isSome

theorem get?_insert (m : SortedMap κ ν) (k k' : κ) (v : ν) :
    (m.insert k v).get? k' = if k' = k then some v else m.get? k' :=
  lookup_insertEntry k k' v m.entries

theorem get?_remove (m : SortedMap κ ν) (k k' : κ) :
    (m.remove k).get? k' = if k' = k then none else m.get? k' :=
  lookup_filter k k' m.entries

theorem mem_of_get? {m : SortedMap κ ν} {k : κ} {v : ν} (h : m.get? k = some v) :
    (k, v) ∈ m.entries := mem_of_lookup h

theorem get?_of_mem {m : SortedMap κ ν} {k : κ} {v : ν} (h : (k, v) ∈ m.entries) :
    m.get? k = some v := lookup_of_mem m.sorted h

theorem length_insert_le (m : SortedMap κ ν) (k : κ) (v : ν) :
    (m.insert k v).entries.length ≤ m.entries.length + 1 := length_insertEntry_le k v m.entries

theorem perm_insert {m : SortedMap κ ν} {k : κ} (h : m.get? k = none) (v : ν) :
    (m.insert k v).entries.Perm ((k, v) :: m.entries) := perm_insertEntry v h

theorem length_insert_of_some {m : SortedMap κ ν} {k : κ} (h : (m.get? k).isSome) (v : ν) :
    (m.insert k v).entries.length = m.entries.length := length_insertEntry_of_some v m.sorted h

theorem length_remove_lt {m : SortedMap κ ν} {k : κ} (h : (m.get? k).isSome) :
    (m.remove k).entries.length < m.entries.length := by
  obtain ⟨v, hv⟩ := Option.isSome_iff_exists.mp h
  exact List.length_filter_lt_length_iff_exists.mpr ⟨_, mem_of_get? hv, by simp⟩

theorem insert_of_get? {m : SortedMap κ ν} {k : κ} {v : ν} (h : m.get? k = some v) :
    m.insert k v = m := by
  cases m with
  | mk entries sorted => simp only [insert, insertEntry_of_lookup sorted h]

theorem mapVal_insert (f : ν → ν) (m : SortedMap κ ν) (k : κ) (v : ν) :
    (m.insert k v).mapVal f = (m.mapVal f).insert k (f v) := by
  simp only [mapVal, insert, map_insertEntry]

theorem mapVal_mapVal {f : ν → ν} (hf : ∀ v, f (f v) = f v) (m : SortedMap κ ν) :
    (m.mapVal f).mapVal f = m.mapVal f := by
  simp only [mapVal, List.map_map, Function.comp_def, hf]

end SortedMap

end XavierDB
