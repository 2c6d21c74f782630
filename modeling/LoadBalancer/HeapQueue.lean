import Mathlib.Data.List.Sort
import Mathlib.Data.List.TakeWhile

/-! A priority queue that pops a least element, kept as the sorted list of its entries, and the loop
that lazy deletion runs on it: pop entries, drop the dead ones, set some aside, stop at the first that
is taken, and push back what was set aside. -/

namespace HeapQueue

/-! ### The search loop of lazy deletion -/

section Scan

variable {α : Type}

/-- What the search does with a popped entry. -/
inductive Verdict where
  | drop
  | defer
  | take
  deriving DecidableEq

/-- The search loop on the sorted entries: the entry taken, the deferred ones in the order they were
popped, and the entries never popped. -/
def scan (verdict : α → Verdict) : List α → Option α × List α × List α
  | [] => (none, [], [])
  | x :: rest =>
      match verdict x with
      | .drop => scan verdict rest
      | .defer => let (taken, deferred, left) := scan verdict rest; (taken, x :: deferred, left)
      | .take => (some x, [], rest)

theorem scan_left_suffix (verdict : α → Verdict) (entries : List α) :
    (scan verdict entries).2.2 <:+ entries := by
  induction entries with
  | nil => exact List.suffix_rfl
  | cons x rest ih =>
      unfold scan
      split
      · exact ih.trans (List.suffix_cons x rest)
      · exact ih.trans (List.suffix_cons x rest)
      · exact List.suffix_cons x rest

/-- The search keeps at most what it found, less the entry it takes. -/
theorem scan_length (verdict : α → Verdict) (entries : List α) :
    (scan verdict entries).1.toList.length + (scan verdict entries).2.1.length +
      (scan verdict entries).2.2.length ≤ entries.length := by
  induction entries with
  | nil => exact le_rfl
  | cons x rest ih =>
      unfold scan
      split
      · exact ih.trans (Nat.le_succ _)
      · change (scan verdict rest).1.toList.length + (x :: (scan verdict rest).2.1).length +
          (scan verdict rest).2.2.length ≤ _
        simp only [List.length_cons]
        omega
      · simp only [Option.toList_some, List.length_cons, List.length_nil]
        omega

theorem scan_none {verdict : α → Verdict} {entries : List α}
    (h : (scan verdict entries).1 = none) : ∀ x ∈ entries, verdict x ≠ .take := by
  induction entries with
  | nil => simp
  | cons y rest ih =>
      intro x hx
      unfold scan at h
      split at h
      · next hy =>
        rcases List.mem_cons.mp hx with rfl | hx
        · simp [hy]
        · exact ih h x hx
      · next hy =>
        rcases List.mem_cons.mp hx with rfl | hx
        · simp [hy]
        · exact ih h x hx
      · simp at h

/-- The search loses no entry but dropped ones and the one it takes, and makes none up. -/
theorem scan_mem (verdict : α → Verdict) (entries : List α) (y : α) :
    (y ∈ (scan verdict entries).2.1 ∨ y ∈ (scan verdict entries).2.2 → y ∈ entries) ∧
      (y ∈ entries → verdict y ≠ .drop → (scan verdict entries).1 ≠ some y →
        y ∈ (scan verdict entries).2.1 ∨ y ∈ (scan verdict entries).2.2) := by
  induction entries with
  | nil => simp [scan]
  | cons z rest ih =>
      unfold scan
      split
      · next hz =>
        refine ⟨fun h => List.mem_cons_of_mem z (ih.1 h), fun hy hdrop hne => ?_⟩
        rcases List.mem_cons.mp hy with rfl | hy
        · exact absurd hz hdrop
        · exact ih.2 hy hdrop hne
      · next hz =>
        simp only [List.mem_cons]
        refine ⟨fun h => ?_, fun hy hdrop hne => ?_⟩
        · rcases h with (rfl | h) | h
          · exact Or.inl rfl
          · exact Or.inr (ih.1 (Or.inl h))
          · exact Or.inr (ih.1 (Or.inr h))
        · rcases hy with rfl | hy
          · exact Or.inl (Or.inl rfl)
          · exact (ih.2 hy hdrop hne).imp_left Or.inr
      · next hz =>
        refine ⟨fun h => ?_, fun hy hdrop hne => ?_⟩
        · exact List.mem_cons_of_mem z (h.resolve_left (by simp))
        · rcases List.mem_cons.mp hy with rfl | hy
          · exact absurd rfl hne
          · exact Or.inr hy

end Scan

end HeapQueue

/-- The entries of a priority queue, least first. -/
structure HeapQueue (α : Type) [LinearOrder α] where
  entries : List α
  sorted : entries.Pairwise (· ≤ ·)

namespace HeapQueue

variable {α : Type} [LinearOrder α]

def empty : HeapQueue α := ⟨[], List.Pairwise.nil⟩

/-- `heappush` -/
def push (x : α) (h : HeapQueue α) : HeapQueue α :=
  ⟨h.entries.orderedInsert (· ≤ ·) x, h.sorted.orderedInsert x h.entries⟩

@[simp] theorem mem_push {x y : α} {h : HeapQueue α} :
    y ∈ (push x h).entries ↔ y = x ∨ y ∈ h.entries :=
  List.mem_orderedInsert _

@[simp] theorem length_push (x : α) (h : HeapQueue α) :
    (push x h).entries.length = h.entries.length + 1 :=
  List.orderedInsert_length _ _ _

/-- An entry that is pushed goes between the smaller ones and the others. -/
theorem entries_push_between {x : α} {h : HeapQueue α} {smaller others : List α}
    (hentries : h.entries = smaller ++ others) (hsmaller : ∀ y ∈ smaller, y < x)
    (hothers : ∀ y ∈ others, x ≤ y) : (push x h).entries = smaller ++ x :: others := by
  change h.entries.orderedInsert (· ≤ ·) x = _
  rw [hentries]
  clear hentries
  induction smaller with
  | nil =>
      cases others with
      | nil => rfl
      | cons y others => exact List.orderedInsert_cons_of_le _ _ (hothers y List.mem_cons_self)
  | cons y smaller ih =>
      have hlt : ¬ x ≤ y := not_le.mpr (hsmaller y List.mem_cons_self)
      rw [List.cons_append, List.orderedInsert_cons, if_neg hlt,
        ih fun z hz => hsmaller z (List.mem_cons_of_mem y hz), List.cons_append]

/-- Push a list of entries, first to last. -/
def pushAll (xs : List α) (h : HeapQueue α) : HeapQueue α := xs.foldl (fun h x => push x h) h

theorem mem_pushAll {xs : List α} {y : α} {h : HeapQueue α} :
    y ∈ (pushAll xs h).entries ↔ y ∈ xs ∨ y ∈ h.entries := by
  induction xs generalizing h with
  | nil => simp [pushAll]
  | cons x xs ih =>
      have hcons : pushAll (x :: xs) h = pushAll xs (push x h) := rfl
      rw [hcons, ih, mem_push, List.mem_cons]
      tauto

theorem length_pushAll (xs : List α) (h : HeapQueue α) :
    (pushAll xs h).entries.length = h.entries.length + xs.length := by
  induction xs generalizing h with
  | nil => rfl
  | cons x xs ih =>
      have hcons : pushAll (x :: xs) h = pushAll xs (push x h) := rfl
      rw [hcons, ih, length_push, List.length_cons]
      omega

/-- Pop entries as long as `p` holds of the least one; the popped entries and the queue that is left. -/
def popWhile (p : α → Bool) (h : HeapQueue α) : List α × HeapQueue α :=
  (h.entries.takeWhile p, ⟨h.entries.dropWhile p, h.sorted.sublist (List.dropWhile_sublist p)⟩)

theorem mem_popWhile {p : α → Bool} {h : HeapQueue α} {x : α} :
    x ∈ h.entries ↔ x ∈ (h.popWhile p).1 ∨ x ∈ (h.popWhile p).2.entries := by
  conv_lhs => rw [← List.takeWhile_append_dropWhile (p := p) (l := h.entries)]
  exact List.mem_append

theorem of_mem_popWhile {p : α → Bool} {h : HeapQueue α} {x : α} (hx : x ∈ (h.popWhile p).1) :
    p x = true :=
  List.mem_takeWhile_imp hx

/-- What is left of an upward closed test is left because the test fails for it. -/
theorem not_of_mem_popWhile {p : α → Bool} (hp : ∀ x y, x ≤ y → p y = true → p x = true)
    {h : HeapQueue α} {x : α} (hx : x ∈ (h.popWhile p).2.entries) : ¬ p x = true := by
  obtain ⟨entries, sorted⟩ := h
  intro hpx
  simp only [popWhile] at hx
  induction entries with
  | nil => simp at hx
  | cons y rest ih =>
      by_cases hy : p y = true
      · rw [List.dropWhile_cons_of_pos hy] at hx
        exact ih sorted.of_cons hx
      · rw [List.dropWhile_cons_of_neg hy] at hx
        rcases List.mem_cons.mp hx with rfl | hx
        · exact hy hpx
        · exact hy (hp y x (List.rel_of_pairwise_cons sorted hx) hpx)

/-- The least entry, without popping it. -/
def peek (h : HeapQueue α) : Option α := h.entries.head?

theorem peek_le {h : HeapQueue α} {x y : α} (hpeek : h.peek = some x) (hy : y ∈ h.entries) :
    x ≤ y := by
  obtain ⟨entries, sorted⟩ := h
  cases entries with
  | nil => simp at hy
  | cons z rest =>
      obtain rfl : z = x := Option.some.inj hpeek
      rcases List.mem_cons.mp hy with rfl | hy
      · exact le_rfl
      · exact List.rel_of_pairwise_cons sorted hy

theorem peek_eq_none {h : HeapQueue α} (hpeek : h.peek = none) : h.entries = [] :=
  List.head?_eq_none_iff.mp hpeek

/-! ### Entries that carry more than what orders them -/

section Map

variable {β : Type} [LinearOrder β] {f : α → β}

theorem eq_of_entries {h h' : HeapQueue α} (heq : h.entries = h'.entries) : h = h' := by
  cases h
  cases h'
  cases heq
  rfl

theorem perm_push (x : α) (h : HeapQueue α) : (push x h).entries.Perm (x :: h.entries) :=
  List.perm_orderedInsert _ x h.entries

/-- What a monotone view shows of the entries. -/
def map (f : α → β) (hf : Monotone f) (h : HeapQueue α) : HeapQueue β :=
  ⟨h.entries.map f, h.sorted.map f fun _ _ hle => hf hle⟩

theorem map_push (hf : Monotone f) (x : α) (h : HeapQueue α) : map f hf (push x h) = push (f x) (map f hf h) := by
  have hperm : (map f hf (push x h)).entries.Perm (push (f x) (map f hf h)).entries :=
    ((perm_push x h).map f).trans (perm_push (f x) (map f hf h)).symm
  exact eq_of_entries (hperm.eq_of_pairwise' (map f hf (push x h)).sorted (push (f x) (map f hf h)).sorted)

theorem map_popWhile (hf : Monotone f) (p : β → Bool) (h : HeapQueue α) :
    map f hf (h.popWhile fun x => p (f x)).2 = ((map f hf h).popWhile p).2 :=
  eq_of_entries List.dropWhile_map.symm

end Map

/-! ### Lazy deletion -/

/-- Pop until an entry is taken, then push the deferred entries back. -/
def search (verdict : α → Verdict) (h : HeapQueue α) : Option α × HeapQueue α :=
  let result := scan verdict h.entries
  (result.1, pushAll result.2.1
    ⟨result.2.2, h.sorted.sublist (scan_left_suffix verdict h.entries).sublist⟩)

/-- The entry taken is an entry that passes the test, and no smaller one passes it. -/
theorem scan_some {verdict : α → Verdict} {entries : List α} (hsorted : entries.Pairwise (· ≤ ·))
    {x : α} (h : (scan verdict entries).1 = some x) :
    x ∈ entries ∧ verdict x = .take ∧ ∀ y ∈ entries, verdict y = .take → x ≤ y := by
  induction entries with
  | nil => simp [scan] at h
  | cons z rest ih =>
      have hpassed : verdict z ≠ .take → (scan verdict rest).1 = some x →
          x ∈ z :: rest ∧ verdict x = .take ∧ ∀ y ∈ z :: rest, verdict y = .take → x ≤ y := by
        intro hz hrest
        obtain ⟨hmem, htake, hmin⟩ := ih hsorted.of_cons hrest
        refine ⟨List.mem_cons_of_mem z hmem, htake, fun y hy hytake => ?_⟩
        rcases List.mem_cons.mp hy with rfl | hy
        · exact absurd hytake hz
        · exact hmin y hy hytake
      unfold scan at h
      split at h
      · next hz => exact hpassed (by simp [hz]) h
      · next hz => exact hpassed (by simp [hz]) h
      · next hz =>
        obtain rfl : z = x := Option.some.inj h
        refine ⟨List.mem_cons_self, hz, fun y hy _ => ?_⟩
        rcases List.mem_cons.mp hy with rfl | hy
        · exact le_rfl
        · exact List.rel_of_pairwise_cons hsorted hy

section Search

variable {verdict : α → Verdict} {h : HeapQueue α}

theorem search_none (hnone : (h.search verdict).1 = none) :
    ∀ x ∈ h.entries, verdict x ≠ .take :=
  scan_none hnone

theorem search_some {x : α} (hsome : (h.search verdict).1 = some x) :
    x ∈ h.entries ∧ verdict x = .take ∧ ∀ y ∈ h.entries, verdict y = .take → x ≤ y :=
  scan_some h.sorted hsome

theorem length_search_le (h : HeapQueue α) (verdict : α → Verdict) :
    (h.search verdict).1.toList.length + (h.search verdict).2.entries.length ≤ h.entries.length := by
  have hscan := scan_length verdict h.entries
  rw [search, length_pushAll]
  dsimp only
  omega

/-- A least entry that passes the test is taken at once, and nothing else is popped. -/
theorem search_cons {x : α} {rest : List α} (hentries : h.entries = x :: rest)
    (htake : verdict x = .take) :
    (h.search verdict).1 = some x ∧ (h.search verdict).2.entries = rest := by
  obtain ⟨entries, sorted⟩ := h
  obtain rfl : entries = x :: rest := hentries
  simp [search, scan, htake, pushAll]

theorem mem_search {y : α} (hy : y ∈ h.entries) (hdrop : verdict y ≠ .drop)
    (hne : (h.search verdict).1 ≠ some y) : y ∈ (h.search verdict).2.entries :=
  mem_pushAll.mpr ((scan_mem verdict h.entries y).2 hy hdrop hne)

theorem of_mem_search {y : α} (hy : y ∈ (h.search verdict).2.entries) : y ∈ h.entries :=
  (scan_mem verdict h.entries y).1 (mem_pushAll.mp hy)

end Search

end HeapQueue
