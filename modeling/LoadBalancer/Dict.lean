import Mathlib.Data.List.Nodup

/-! A dictionary that remembers insertion order, as Python's `dict` does: writing to a key that is
present replaces its value and keeps its place, writing to a new key appends it. The keys are distinct
by construction. -/

/-- Key-value pairs in insertion order, with distinct keys. -/
structure Dict (κ ν : Type) where
  items : List (κ × ν)
  nodup_keys : (items.map Prod.fst).Nodup

namespace Dict

variable {κ ν : Type}

/-- The dictionary with no entry. -/
def empty : Dict κ ν := ⟨[], List.nodup_nil⟩

variable [DecidableEq κ]

def lookup (k : κ) : List (κ × ν) → Option ν
  | [] => none
  | (k', v) :: rest => if k' = k then some v else lookup k rest

/-- `d.get(k)` -/
def get? (d : Dict κ ν) (k : κ) : Option ν := lookup k d.items

def write (k : κ) (v : ν) : List (κ × ν) → List (κ × ν)
  | [] => [(k, v)]
  | (k', v') :: rest => if k' = k then (k', v) :: rest else (k', v') :: write k v rest

theorem map_fst_write (k : κ) (v : ν) (items : List (κ × ν)) :
    (write k v items).map Prod.fst =
      if k ∈ items.map Prod.fst then items.map Prod.fst else items.map Prod.fst ++ [k] := by
  induction items with
  | nil => rfl
  | cons item rest ih =>
      obtain ⟨k', v'⟩ := item
      by_cases hk : k' = k
      · simp [write, hk]
      · simp only [write, if_neg hk, List.map_cons, ih, List.mem_cons, Ne.symm hk, false_or]
        split <;> rfl

/-- `d[k] = v` -/
def set (d : Dict κ ν) (k : κ) (v : ν) : Dict κ ν where
  items := write k v d.items
  nodup_keys := by
    rw [map_fst_write]
    split
    · exact d.nodup_keys
    · next hk => exact List.nodup_append.mpr ⟨d.nodup_keys, List.nodup_singleton k, by
        rintro a ha b hb rfl
        exact hk (List.mem_singleton.mp hb ▸ ha)⟩

/-- `d.pop(k, None)` without its result. -/
def pop (d : Dict κ ν) (k : κ) : Dict κ ν where
  items := d.items.filter fun item => item.1 ≠ k
  nodup_keys := d.nodup_keys.sublist (List.filter_sublist.map Prod.fst)

/-- `d.setdefault(k, v)` -/
def setDefault (d : Dict κ ν) (k : κ) (v : ν) : Dict κ ν :=
  match d.get? k with
  | some _ => d
  | none => d.set k v

@[simp] theorem get?_empty (k : κ) : (empty : Dict κ ν).get? k = none := rfl

theorem lookup_write (k k' : κ) (v : ν) (items : List (κ × ν)) :
    lookup k' (write k v items) = if k = k' then some v else lookup k' items := by
  induction items with
  | nil => rfl
  | cons item rest ih =>
      obtain ⟨j, w⟩ := item
      by_cases hj : j = k
      · subst hj
        simp only [write, if_true, lookup]
        split <;> rfl
      · simp only [write, if_neg hj, lookup, ih]
        by_cases hjk' : j = k'
        · simp only [hjk', if_true, if_neg (fun h => hj (hjk'.trans (Eq.symm h)))]
        · simp only [if_neg hjk']

theorem get?_set (d : Dict κ ν) (k k' : κ) (v : ν) :
    (d.set k v).get? k' = if k = k' then some v else d.get? k' :=
  lookup_write k k' v d.items

@[simp] theorem get?_set_self (d : Dict κ ν) (k : κ) (v : ν) : (d.set k v).get? k = some v := by
  rw [get?_set, if_pos rfl]

theorem get?_set_of_ne (d : Dict κ ν) {k k' : κ} (v : ν) (h : k ≠ k') :
    (d.set k v).get? k' = d.get? k' := by
  rw [get?_set, if_neg h]

theorem lookup_filter_ne (k k' : κ) (items : List (κ × ν)) :
    lookup k' (items.filter fun item => item.1 ≠ k) = if k = k' then none else lookup k' items := by
  induction items with
  | nil => simp [lookup]
  | cons item rest ih =>
      obtain ⟨j, w⟩ := item
      by_cases hj : j = k
      · subst hj
        rw [List.filter_cons_of_neg (by simp), ih, lookup]
        split <;> rfl
      · rw [List.filter_cons_of_pos (by simpa using hj), lookup, lookup, ih]
        by_cases hjk' : j = k'
        · rw [if_pos hjk', if_pos hjk', if_neg (fun h => hj (hjk'.trans (Eq.symm h)))]
        · rw [if_neg hjk', if_neg hjk']

theorem get?_pop (d : Dict κ ν) (k k' : κ) :
    (d.pop k).get? k' = if k = k' then none else d.get? k' :=
  lookup_filter_ne k k' d.items

theorem lookup_eq_some_iff {k : κ} {v : ν} {items : List (κ × ν)}
    (hnodup : (items.map Prod.fst).Nodup) : lookup k items = some v ↔ (k, v) ∈ items := by
  induction items with
  | nil => simp [lookup]
  | cons item rest ih =>
      obtain ⟨j, w⟩ := item
      obtain ⟨hnot, hrest⟩ := List.nodup_cons.mp hnodup
      by_cases hj : j = k
      · subst hj
        have habs : (j, v) ∉ rest := fun h => hnot (List.mem_map.mpr ⟨(j, v), h, rfl⟩)
        simp [lookup, habs, eq_comm]
      · simp [lookup, hj, ih hrest, Ne.symm hj]

theorem get?_eq_some_iff {d : Dict κ ν} {k : κ} {v : ν} : d.get? k = some v ↔ (k, v) ∈ d.items :=
  lookup_eq_some_iff d.nodup_keys

theorem get?_setDefault (d : Dict κ ν) (k k' : κ) (v : ν) :
    (d.setDefault k v).get? k' = if k = k' then some ((d.get? k).getD v) else d.get? k' := by
  unfold setDefault
  by_cases hkk' : k = k'
  · subst hkk'
    cases hk : d.get? k <;> simp [hk]
  · cases hk : d.get? k <;> simp [get?_set, hkk']

/-! ### Building a dictionary from pairs -/

theorem write_of_not_mem {k : κ} {items : List (κ × ν)} (h : k ∉ items.map Prod.fst) (v : ν) :
    write k v items = items ++ [(k, v)] := by
  induction items with
  | nil => rfl
  | cons item rest ih =>
      obtain ⟨k', v'⟩ := item
      rw [List.map_cons, List.mem_cons, not_or] at h
      rw [write, if_neg (Ne.symm h.1), ih h.2, List.cons_append]

/-- Writing to a key that is present changes its value in its place. -/
theorem write_append_cons {k : κ} {before : List (κ × ν)} (h : ∀ item ∈ before, item.1 ≠ k) (v w : ν)
    (after : List (κ × ν)) : write k w (before ++ (k, v) :: after) = before ++ (k, w) :: after := by
  induction before with
  | nil => exact if_pos rfl
  | cons item rest ih =>
      obtain ⟨j, u⟩ := item
      have hj : j ≠ k := h (j, u) List.mem_cons_self
      rw [List.cons_append, write, if_neg hj, ih fun item hitem => h item (List.mem_cons_of_mem _ hitem)]
      rfl

theorem mem_write {k : κ} {v : ν} {items : List (κ × ν)} {item : κ × ν} (h : item ∈ write k v items) :
    item = (k, v) ∨ item ∈ items := by
  induction items with
  | nil => exact Or.inl (List.mem_singleton.mp h)
  | cons first rest ih =>
      obtain ⟨j, w⟩ := first
      rw [write] at h
      split at h
      · next hj =>
        rcases List.mem_cons.mp h with rfl | h
        · exact Or.inl (by rw [hj])
        · exact Or.inr (List.mem_cons_of_mem _ h)
      · rcases List.mem_cons.mp h with rfl | h
        · exact Or.inr List.mem_cons_self
        · exact (ih h).imp_right (List.mem_cons_of_mem _)

theorem filter_write (p : κ → Bool) (k : κ) (v : ν) (items : List (κ × ν)) :
    (write k v items).filter (fun item => p item.1) =
      if p k then write k v (items.filter fun item => p item.1) else items.filter fun item => p item.1 := by
  induction items with
  | nil =>
      rw [write, List.filter_cons]
      split <;> rfl
  | cons item rest ih =>
      obtain ⟨j, w⟩ := item
      by_cases hj : j = k
      · subst hj
        by_cases hp : p j = true
        · simp only [write, List.filter_cons, hp, if_true]
        · simp only [write, List.filter_cons, hp, if_true, Bool.false_eq_true, if_false]
      · rw [write, if_neg hj, List.filter_cons, List.filter_cons, ih]
        by_cases hp : p j = true
        · rw [if_pos hp, if_pos hp]
          split
          · rw [write, if_neg hj]
          · rfl
        · rw [if_neg hp, if_neg hp]

/-- `dict(pairs)`: later values replace earlier ones, in the place of the first. -/
def ofPairs (pairs : List (κ × ν)) : Dict κ ν := pairs.foldl (fun d pair => d.set pair.1 pair.2) empty

theorem items_foldl_set (pairs : List (κ × ν)) (d : Dict κ ν) :
    (pairs.foldl (fun d pair => d.set pair.1 pair.2) d).items =
      pairs.foldl (fun items pair => write pair.1 pair.2 items) d.items := by
  induction pairs generalizing d with
  | nil => rfl
  | cons pair rest ih => exact ih (d.set pair.1 pair.2)

theorem mem_ofPairs {pairs : List (κ × ν)} {item : κ × ν} (h : item ∈ (ofPairs pairs).items) :
    item ∈ pairs := by
  suffices hall : ∀ items : List (κ × ν),
      item ∈ pairs.foldl (fun items pair => write pair.1 pair.2 items) items →
        item ∈ pairs ∨ item ∈ items by
    rw [ofPairs, items_foldl_set] at h
    exact (hall [] h).resolve_right List.not_mem_nil
  clear h
  induction pairs with
  | nil => exact fun _ h => Or.inr h
  | cons pair rest ih =>
      intro items h
      rcases ih _ h with hrest | hwritten
      · exact Or.inl (List.mem_cons_of_mem _ hrest)
      · exact (mem_write hwritten).imp_left fun heq => List.mem_cons.mpr (Or.inl heq)

/-- Leaving keys out before or after building the dictionary is the same. -/
theorem filter_ofPairs (p : κ → Bool) (pairs : List (κ × ν)) :
    (ofPairs pairs).items.filter (fun item => p item.1) =
      (ofPairs (pairs.filter fun pair => p pair.1)).items := by
  suffices h : ∀ items : List (κ × ν),
      (pairs.foldl (fun items pair => write pair.1 pair.2 items) items).filter (fun item => p item.1) =
        (pairs.filter fun pair => p pair.1).foldl (fun items pair => write pair.1 pair.2 items)
          (items.filter fun item => p item.1) by
    rw [ofPairs, ofPairs, items_foldl_set, items_foldl_set]
    exact h []
  induction pairs with
  | nil => exact fun _ => rfl
  | cons pair rest ih =>
      intro items
      rw [List.foldl_cons, ih, filter_write, List.filter_cons]
      split <;> rfl

/-- A dictionary keeps all pairs exactly when their keys are distinct. -/
theorem items_ofPairs_eq_iff {pairs : List (κ × ν)} :
    (ofPairs pairs).items = pairs ↔ (pairs.map Prod.fst).Nodup := by
  constructor
  · intro h
    have hkeys := (ofPairs pairs).nodup_keys
    rwa [h] at hkeys
  · suffices h : ∀ front : List (κ × ν), ((front ++ pairs).map Prod.fst).Nodup →
        pairs.foldl (fun items pair => write pair.1 pair.2 items) front = front ++ pairs by
      intro hnodup
      rw [ofPairs, items_foldl_set]
      exact h [] hnodup
    induction pairs with
    | nil => exact fun front _ => (List.append_nil front).symm
    | cons pair rest ih =>
        intro front hnodup
        have hnew : pair.1 ∉ front.map Prod.fst := by
          rw [List.map_append, List.map_cons] at hnodup
          intro hmem
          exact (List.nodup_append.mp hnodup).2.2 _ hmem _ List.mem_cons_self rfl
        rw [List.foldl_cons, write_of_not_mem hnew, ih (front ++ [pair]) (by simpa using hnodup)]
        simp

end Dict
