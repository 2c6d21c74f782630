import Mathlib.Data.List.Infix
import Mathlib.Data.List.TakeWhile

/-! Searching, splitting and slicing sequences as Python does on `bytes` and `str`: `find` gives the
first occurrence, slice bounds may be negative or out of range, `split` cuts at every occurrence of a
separator. Around the first occurrence of a pattern a prefix of the sequence is enough to know it. -/

namespace ListSearch

variable {α : Type} [DecidableEq α]

/-- The index of the first occurrence of `pat`, `none` where Python gives `-1`. -/
def find (pat : List α) : List α → Option Nat
  | [] => if pat = [] then some 0 else none
  | a :: rest => if pat <+: a :: rest then some 0 else (find pat rest).map (· + 1)

theorem find_eq_some_iff {pat l : List α} {k : Nat} :
    find pat l = some k ↔ k ≤ l.length ∧ pat <+: l.drop k ∧ ∀ j < k, ¬ pat <+: l.drop j := by
  induction l generalizing k with
  | nil =>
      unfold find
      split
      · next h => subst h; cases k <;> simp
      · next h => simp [List.prefix_nil, h]
  | cons a rest ih =>
      unfold find
      split
      · next h =>
        constructor
        · rintro hk
          obtain rfl := Option.some.inj hk
          exact ⟨Nat.zero_le _, h, fun j hj => absurd hj (Nat.not_lt_zero j)⟩
        · rintro ⟨-, -, hfirst⟩
          cases k with
          | zero => rfl
          | succ k => exact absurd h (hfirst 0 (Nat.succ_pos k))
      · next h =>
        cases k with
        | zero => simp [h]
        | succ k =>
            simp only [Option.map_eq_some_iff, Nat.add_right_cancel_iff, exists_eq_right, ih,
              List.length_cons, Nat.add_le_add_iff_right, List.drop_succ_cons]
            refine and_congr_right fun _ => and_congr_right fun _ => ⟨fun hall j hj => ?_, fun hall j hj => ?_⟩
            · cases j with
              | zero => exact h
              | succ j => exact hall j (Nat.lt_of_succ_lt_succ hj)
            · exact hall (j + 1) (Nat.succ_lt_succ hj)

theorem find_eq_none_iff {pat l : List α} :
    find pat l = none ↔ ∀ j ≤ l.length, ¬ pat <+: l.drop j := by
  constructor
  · intro hnone j
    induction j using Nat.strong_induction_on with
    | _ j ih =>
        intro hj hpre
        have hsome : find pat l = some j :=
          find_eq_some_iff.mpr ⟨hj, hpre, fun i hi => ih i hi (by omega)⟩
        rw [hnone] at hsome
        cases hsome
  · intro hall
    cases hfind : find pat l with
    | none => rfl
    | some k =>
        obtain ⟨hk, hpre, -⟩ := find_eq_some_iff.mp hfind
        exact absurd hpre (hall k hk)

theorem find_eq_none_iff_absent {pat l : List α} : find pat l = none ↔ ¬ pat <:+: l := by
  rw [find_eq_none_iff]
  constructor
  · rintro hall ⟨front, rest, rfl⟩
    refine hall front.length (by rw [List.length_append, List.length_append]; omega) ?_
    rw [List.append_assoc, List.drop_left]
    exact List.prefix_append _ _
  · exact fun hnot j _ hpre => hnot (hpre.isInfix.trans (List.drop_suffix j l).isInfix)

theorem isSome_find_iff {pat l : List α} : (find pat l).isSome ↔ pat <:+: l := by
  rw [Option.isSome_iff_ne_none, ne_eq, find_eq_none_iff_absent, not_not]

theorem add_length_le_of_find {pat l : List α} {k : Nat} (h : find pat l = some k) :
    k + pat.length ≤ l.length := by
  obtain ⟨hk, hpre, -⟩ := find_eq_some_iff.mp h
  have hlen := hpre.length_le
  rw [List.length_drop] at hlen
  omega

omit [DecidableEq α] in
theorem prefix_drop_take_iff {pat l : List α} {j n : Nat} (hj : j ≤ n) :
    pat <+: (l.take n).drop j ↔ pat <+: l.drop j ∧ j + pat.length ≤ n := by
  rw [List.drop_take, List.prefix_take_iff]
  exact and_congr_right fun _ => by omega

/-- A prefix of the sequence shows the first occurrence exactly when it reaches its end. -/
theorem find_take_eq_some_iff {pat l : List α} {n k : Nat} (hn : n ≤ l.length) :
    find pat (l.take n) = some k ↔ find pat l = some k ∧ k + pat.length ≤ n := by
  simp only [find_eq_some_iff, List.length_take, Nat.min_eq_left hn]
  constructor
  · rintro ⟨hk, hpre, hfirst⟩
    obtain ⟨hpre', hle⟩ := (prefix_drop_take_iff hk).mp hpre
    refine ⟨⟨hk.trans hn, hpre', fun j hj hj' => hfirst j hj ?_⟩, hle⟩
    exact (prefix_drop_take_iff (by omega)).mpr ⟨hj', by omega⟩
  · rintro ⟨⟨-, hpre, hfirst⟩, hle⟩
    refine ⟨by omega, (prefix_drop_take_iff (by omega)).mpr ⟨hpre, hle⟩, fun j hj hj' => ?_⟩
    exact hfirst j hj ((prefix_drop_take_iff (by omega)).mp hj').1

/-- A prefix that ends before the first occurrence does has none. -/
theorem find_take_eq_none {pat l : List α} {n k : Nat} (h : find pat l = some k) (hn : n < k + pat.length) :
    find pat (l.take n) = none := by
  have hle := add_length_le_of_find h
  cases hpart : find pat (l.take n) with
  | none => rfl
  | some j =>
      obtain ⟨hj, hend⟩ := (find_take_eq_some_iff (by omega)).mp hpart
      obtain rfl := Option.some.inj (h.symm.trans hj)
      omega

theorem find_append_of_some {pat l : List α} {k : Nat} (more : List α) (h : find pat l = some k) :
    find pat (l ++ more) = some k := by
  have htake : find pat ((l ++ more).take l.length) = some k := by
    rwa [List.take_left' rfl]
  exact ((find_take_eq_some_iff (by simp)).mp htake).1

/-- The first occurrence of a pattern behind a part it does not start in. -/
theorem find_append_left {pat front rest : List α}
    (hfront : ∀ j < front.length, ¬ pat <+: (front ++ rest).drop j) :
    find pat (front ++ rest) = (find pat rest).map (· + front.length) := by
  induction front with
  | nil => simp
  | cons a front ih =>
      have hhead : ¬ pat <+: a :: (front ++ rest) := hfront 0 (Nat.succ_pos _)
      have htail : ∀ j < front.length, ¬ pat <+: (front ++ rest).drop j :=
        fun j hj => hfront (j + 1) (Nat.succ_lt_succ hj)
      rw [List.cons_append, find, if_neg hhead, ih htail, Option.map_map]
      congr 1

/-! ### Slices -/

/-- A slice bound on a sequence of `len` elements: negative bounds count from the end, and bounds
outside the sequence are moved to its ends. -/
def bound (len : Nat) (i : Int) : Nat := if i < 0 then (len + i).toNat else min i.toNat len

/-- `l[lo:hi]` -/
def slice (l : List α) (lo hi : Int) : List α :=
  (l.take (bound l.length hi)).drop (bound l.length lo)

/-- `l.find(pat, start)`, an index into `l`. -/
def findFrom (pat l : List α) (start : Int) : Option Nat :=
  (find pat (l.drop (bound l.length start))).map (· + bound l.length start)

@[simp] theorem bound_natCast (len i : Nat) : bound len (i : Int) = min i len := by
  rw [bound, if_neg (by omega), Int.toNat_natCast]

theorem add_length_le_of_findFrom {pat l : List α} {start : Int} {k : Nat}
    (h : findFrom pat l start = some k) : k + pat.length ≤ l.length := by
  obtain ⟨j, hj, rfl⟩ := Option.map_eq_some_iff.mp h
  have hle := add_length_le_of_find hj
  rw [List.length_drop] at hle
  have hstart : bound l.length start ≤ l.length := by
    unfold bound
    split <;> omega
  omega

theorem le_of_findFrom {pat l : List α} {start k : Nat} (hstart : start ≤ l.length)
    (h : findFrom pat l start = some k) : start ≤ k := by
  obtain ⟨j, -, rfl⟩ := Option.map_eq_some_iff.mp h
  rw [bound_natCast, Nat.min_eq_left hstart]
  omega

theorem findFrom_append_of_some {pat l : List α} {start k : Nat} (hstart : start ≤ l.length)
    (more : List α) (h : findFrom pat l start = some k) : findFrom pat (l ++ more) start = some k := by
  obtain ⟨j, hj, rfl⟩ := Option.map_eq_some_iff.mp h
  rw [bound_natCast, Nat.min_eq_left hstart] at hj ⊢
  rw [findFrom, bound_natCast, List.length_append, Nat.min_eq_left (by omega),
    List.drop_append_of_le_length hstart, find_append_of_some more hj]
  rfl

theorem findFrom_length (pat front rest : List α) :
    findFrom pat (front ++ rest) (front.length : Int) = (find pat rest).map (· + front.length) := by
  simp [findFrom]

omit [DecidableEq α] in
theorem slice_length_add (front middle rest : List α) (n : Nat) (hn : n = front.length + middle.length) :
    slice (front ++ (middle ++ rest)) (front.length : Int) (n : Int) = middle := by
  subst hn
  simp only [slice, bound_natCast, List.length_append]
  rw [Nat.min_eq_left (by omega), Nat.min_eq_left (by omega), List.take_length_add_append,
    List.drop_left, List.take_left]

omit [DecidableEq α] in
theorem slice_length_take (front rest : List α) (n k : Nat) (hk : k = front.length + n) :
    slice (front ++ rest) (front.length : Int) (k : Int) = rest.take n := by
  subst hk
  simp only [slice, bound_natCast, List.length_append]
  rw [Nat.min_eq_left (by omega), List.drop_take, List.drop_left]
  by_cases hn : n ≤ rest.length
  · rw [Nat.min_eq_left (by omega), Nat.add_sub_cancel_left]
  · rw [Nat.min_eq_right (by omega), Nat.add_sub_cancel_left, List.take_length,
      List.take_of_length_le (by omega)]

omit [DecidableEq α] in
theorem slice_natCast_add {l pat : List α} (k : Nat) :
    slice l k (k + pat.length) = pat ↔ pat <+: l.drop k := by
  rw [List.prefix_iff_eq_take, eq_comm, slice, ← Int.natCast_add, bound_natCast, bound_natCast]
  by_cases hk : k ≤ l.length
  · rw [Nat.min_eq_left hk, List.drop_take]
    by_cases hlen : k + pat.length ≤ l.length
    · rw [Nat.min_eq_left hlen, Nat.add_sub_cancel_left]
    · rw [Nat.min_eq_right (by omega), List.take_of_length_le (l := l.drop k) (i := l.length - k) (by simp),
        List.take_of_length_le (l := l.drop k) (i := pat.length) (by rw [List.length_drop]; omega)]
  · rw [List.drop_eq_nil_of_le (by rw [List.length_take]; omega), List.drop_eq_nil_of_le (by omega),
      List.take_nil]

omit [DecidableEq α] in
/-- Where a slice as long as a pattern gives the pattern: the bounds are both counted from the start, or
both from the end. -/
theorem prefix_drop_of_slice {l pat : List α} {p : Int} (hpat : pat ≠ [])
    (h : slice l p (p + pat.length) = pat) :
    ∃ k : Nat, pat <+: l.drop k ∧ ((k : Int) = p ∨ (k : Int) = l.length + p ∧ p + pat.length < 0) := by
  rcases Int.lt_or_le p 0 with hneg | hpos
  · have hlen : (slice l p (p + pat.length)).length = pat.length := by rw [h]
    have hne := List.length_pos_of_ne_nil hpat
    have hstart : bound l.length p = (l.length + p).toNat := if_pos hneg
    rw [slice, List.length_drop, List.length_take, hstart, bound] at hlen
    split at hlen
    · next hend =>
      refine ⟨(l.length + p).toNat, ?_, .inr ⟨by omega, hend⟩⟩
      rw [slice, hstart, List.drop_take] at h
      rw [← h]
      exact List.take_prefix _ _
    · omega
  · obtain ⟨k, rfl⟩ := Int.eq_ofNat_of_zero_le hpos
    exact ⟨k, (slice_natCast_add k).mp h, .inl rfl⟩

/-! ### Splitting -/

def splitGo (sep : List α) : Nat → List α → List (List α)
  | _, [] => [[]]
  | skip + 1, _ :: rest => splitGo sep skip rest
  | 0, a :: rest =>
      if sep <+: a :: rest then [] :: splitGo sep (sep.length - 1) rest
      else
        match splitGo sep 0 rest with
        | [] => [[a]]
        | piece :: pieces => (a :: piece) :: pieces

/-- `l.split(sep)` for a non-empty separator. -/
def split (sep l : List α) : List (List α) := splitGo sep 0 l

/-- `l.split(sep, n)` for a separator of one element. -/
def splitMax (sep : α) : Nat → List α → List (List α)
  | 0, l => [l]
  | n + 1, l =>
      match l.dropWhile (· ≠ sep) with
      | [] => [l]
      | _ :: rest => l.takeWhile (· ≠ sep) :: splitMax sep n rest

theorem splitMax_succ_append {sep : α} (n : Nat) {front : List α} (rest : List α) (hfront : sep ∉ front) :
    splitMax sep (n + 1) (front ++ sep :: rest) = front :: splitMax sep n rest := by
  have hpos : ∀ a ∈ front, decide (a ≠ sep) = true :=
    fun a ha => decide_eq_true fun heq => hfront (heq ▸ ha)
  have hdrop : (front ++ sep :: rest).dropWhile (· ≠ sep) = sep :: rest := by
    rw [List.dropWhile_append_of_pos hpos, List.dropWhile_cons_of_neg (by simp)]
  have htake : (front ++ sep :: rest).takeWhile (· ≠ sep) = front := by
    rw [List.takeWhile_append_of_pos hpos, List.takeWhile_cons_of_neg (by simp), List.append_nil]
  rw [splitMax, hdrop, htake]

theorem splitMax_succ_cons {sep : α} {n : Nat} {l piece : List α} {pieces : List (List α)}
    (h : splitMax sep (n + 1) l = piece :: pieces) (hpieces : pieces ≠ []) :
    ∃ rest, l = piece ++ sep :: rest ∧ sep ∉ piece ∧ splitMax sep n rest = pieces := by
  rw [splitMax] at h
  split at h
  · exact absurd (List.cons.inj h).2.symm hpieces
  · next a rest hdrop =>
    obtain ⟨rfl, hrest⟩ := List.cons.inj h
    have ha : a = sep := by
      have hhead := List.head?_dropWhile_not (· ≠ sep) l
      rw [hdrop] at hhead
      simpa using hhead
    subst ha
    refine ⟨rest, ?_, fun hmem => ?_, hrest⟩
    · rw [← hdrop, List.takeWhile_append_dropWhile]
    · simpa using List.mem_takeWhile_imp hmem

/-- `l.split(sep, 2)` with three parts. -/
theorem splitMax_two_eq {sep : α} {l a b c : List α} :
    splitMax sep 2 l = [a, b, c] ↔ l = a ++ sep :: (b ++ sep :: c) ∧ sep ∉ a ∧ sep ∉ b := by
  constructor
  · intro h
    obtain ⟨rest, rfl, ha, hrest⟩ := splitMax_succ_cons h (List.cons_ne_nil _ _)
    obtain ⟨rest', rfl, hb, hrest'⟩ := splitMax_succ_cons hrest (List.cons_ne_nil _ _)
    obtain rfl : rest' = c := (List.cons.inj hrest').1
    exact ⟨rfl, ha, hb⟩
  · rintro ⟨rfl, ha, hb⟩
    rw [splitMax_succ_append 1 _ ha, splitMax_succ_append 0 _ hb, splitMax]

/-- `l.split(sep, 2)` has three parts when the separator occurs twice. -/
theorem exists_splitMax_two_iff {sep : α} {l : List α} :
    (∃ a b c, splitMax sep 2 l = [a, b, c]) ↔ 2 ≤ l.count sep := by
  simp only [splitMax_two_eq]
  constructor
  · rintro ⟨a, b, c, rfl, -, -⟩
    simp only [List.count_append, List.count_cons_self]
    omega
  · intro hcount
    obtain ⟨a, rest, rfl, ha⟩ := List.eq_append_cons_of_mem (List.count_pos_iff.mp (by omega : 0 < l.count sep))
    rw [List.count_append, List.count_cons_self, List.count_eq_zero_of_not_mem ha] at hcount
    obtain ⟨b, c, rfl, hb⟩ := List.eq_append_cons_of_mem (List.count_pos_iff.mp (by omega : 0 < rest.count sep))
    exact ⟨a, b, c, rfl, ha, hb⟩

/-- The first occurrence of an element. -/
theorem find_singleton_append {sep : α} {front : List α} (rest : List α) (hfront : sep ∉ front) :
    find [sep] (front ++ sep :: rest) = some front.length := by
  rw [find_append_left fun j hj hpre => ?_, find, if_pos (by simp)]
  · simp
  · rw [List.drop_append_of_le_length hj.le] at hpre
    obtain ⟨a, as, has⟩ : ∃ a as, front.drop j = a :: as :=
      List.exists_cons_of_ne_nil (by simpa using hj)
    rw [has, List.cons_append, List.cons_prefix_cons] at hpre
    exact hfront (hpre.1 ▸ List.mem_of_mem_drop (has ▸ List.mem_cons_self))

/-- What is in front of the first occurrence of an element does not have it. -/
theorem not_mem_take_of_find {sep : α} {l : List α} {k : Nat} (h : find [sep] l = some k) :
    sep ∉ l.take k := by
  obtain ⟨-, -, hfirst⟩ := find_eq_some_iff.mp h
  intro hmem
  obtain ⟨j, hj, hget⟩ := List.mem_iff_getElem.mp hmem
  rw [List.length_take] at hj
  refine hfirst j (by omega) ?_
  rw [List.getElem_take] at hget
  rw [List.drop_eq_getElem_cons (by omega), hget]
  exact List.cons_prefix_cons.mpr ⟨rfl, List.nil_prefix⟩

/-! ### Patterns of two distinct elements -/

section Pair

variable {x y : α}

omit [DecidableEq α] in
theorem infix_pair_of_not_mem {front rest : List α} (hx : x ∉ front) (h : [x, y] <:+: front ++ rest) :
    [x, y] <:+: rest := by
  induction front with
  | nil => exact h
  | cons a front ih =>
      rcases List.infix_cons_iff.mp h with hpre | hinf
      · exact absurd (List.cons_prefix_cons.mp hpre).1 fun ha => hx (ha ▸ List.mem_cons_self)
      · exact ih (fun hmem => hx (List.mem_cons_of_mem a hmem)) hinf

omit [DecidableEq α] in
/-- A part without the pair, followed by the pair, does not hold it earlier. -/
theorem not_prefix_pair (hxy : x ≠ y) {front rest : List α} (hfront : ¬ [x, y] <:+: front) {j : Nat}
    (hj : j < front.length) : ¬ [x, y] <+: (front ++ x :: rest).drop j := by
  intro hpre
  rw [List.drop_append_of_le_length hj.le] at hpre
  obtain ⟨a, as, has⟩ : ∃ a as, front.drop j = a :: as :=
    List.exists_cons_of_ne_nil (by simpa using hj)
  have hsuffix : a :: as <:+ front := has ▸ List.drop_suffix j front
  rw [has, List.cons_append, List.cons_prefix_cons] at hpre
  obtain ⟨rfl, hpre⟩ := hpre
  cases as with
  | nil =>
      rw [List.nil_append, List.cons_prefix_cons] at hpre
      exact hxy hpre.1.symm
  | cons b bs =>
      rw [List.cons_append, List.cons_prefix_cons] at hpre
      obtain ⟨rfl, -⟩ := hpre
      exact hfront (List.IsInfix.trans ⟨[], bs, rfl⟩ hsuffix.isInfix)

theorem find_pair (hxy : x ≠ y) {front : List α} (rest : List α) (hfront : ¬ [x, y] <:+: front) :
    find [x, y] (front ++ x :: y :: rest) = some front.length := by
  rw [find_append_left fun j hj => not_prefix_pair hxy hfront hj, find, if_pos (by simp)]
  simp

/-- The doubled pair does not start in a line ended by the pair unless the pair follows at once. -/
theorem find_double_pair (hxy : x ≠ y) {line rest : List α} (hline : ¬ [x, y] <:+: line)
    (hrest : ¬ [x, y] <+: rest) :
    find [x, y, x, y] (line ++ x :: y :: rest) =
      (find [x, y, x, y] rest).map (· + (line.length + 2)) := by
  have hlen : (line ++ [x, y]).length = line.length + 2 := by simp
  rw [show line ++ x :: y :: rest = (line ++ [x, y]) ++ rest by simp, ← hlen]
  refine find_append_left fun j hj hpre => ?_
  have hpair : [x, y] <+: (line ++ x :: y :: rest).drop j := by
    rw [show line ++ x :: y :: rest = (line ++ [x, y]) ++ rest by simp]
    exact List.IsPrefix.trans ⟨[x, y], rfl⟩ hpre
  by_cases hj' : j < line.length
  · exact not_prefix_pair hxy hline hj' hpair
  · obtain rfl | rfl : j = line.length ∨ j = line.length + 1 := by omega
    · rw [List.append_assoc, List.drop_left] at hpre
      simp only [List.cons_append, List.nil_append, List.cons_prefix_cons, true_and] at hpre
      exact hrest (by simpa using hpre)
    · rw [← List.drop_drop, List.drop_left] at hpair
      simp only [List.drop_succ_cons, List.drop_zero, List.cons_prefix_cons] at hpair
      exact hxy hpair.1

/-- The double pair that ends a line. -/
theorem find_double_pair_end (hxy : x ≠ y) {line : List α} (rest : List α) (hline : ¬ [x, y] <:+: line) :
    find [x, y, x, y] (line ++ x :: y :: x :: y :: rest) = some line.length := by
  rw [find_append_left fun j hj hpre => ?_, find, if_pos (by simp)]
  · simp
  · exact not_prefix_pair hxy hline hj (List.IsPrefix.trans ⟨[x, y], rfl⟩ hpre)

omit [DecidableEq α] in
/-- A pair in a sequence that has another element at some place is on one side of it. -/
theorem infix_pair_append_cons {front rest : List α} {c : α} (hx : c ≠ x) (hy : c ≠ y)
    (h : [x, y] <:+: front ++ c :: rest) : [x, y] <:+: front ∨ [x, y] <:+: rest := by
  induction front with
  | nil =>
      rcases List.infix_cons_iff.mp h with hpre | hinf
      · exact absurd (List.cons_prefix_cons.mp hpre).1.symm hx
      · exact Or.inr hinf
  | cons a front ih =>
      rcases List.infix_cons_iff.mp h with hpre | hinf
      · refine Or.inl ?_
        obtain ⟨hxa, hrest⟩ := List.cons_prefix_cons.mp hpre
        cases front with
        | nil => exact absurd (List.cons_prefix_cons.mp hrest).1.symm hy
        | cons b front =>
            obtain ⟨hyb, -⟩ := List.cons_prefix_cons.mp hrest
            exact ⟨[], front, by rw [hxa, hyb]; rfl⟩
      · exact (ih hinf).imp_left fun hfront => hfront.trans (List.suffix_cons a front).isInfix

omit [DecidableEq α] in
theorem not_infix_pair_append_cons {front rest : List α} {c : α} (hx : c ≠ x) (hy : c ≠ y)
    (hfront : ¬ [x, y] <:+: front) (hrest : ¬ [x, y] <:+: rest) : ¬ [x, y] <:+: front ++ c :: rest :=
  fun h => (infix_pair_append_cons hx hy h).elim hfront hrest

/-- The first pair of a sequence. -/
theorem exists_first_pair {l : List α} (h : [x, y] <:+: l) :
    ∃ front rest, l = front ++ x :: y :: rest ∧ ¬ [x, y] <:+: front := by
  induction l with
  | nil => simp at h
  | cons a l ih =>
      by_cases hpre : [x, y] <+: a :: l
      · obtain ⟨rest, hrest⟩ := hpre
        exact ⟨[], rest, hrest.symm, by simp⟩
      · obtain ⟨front, rest, rfl, hfront⟩ := ih ((List.infix_cons_iff.mp h).resolve_left hpre)
        refine ⟨a :: front, rest, rfl, fun hinf => ?_⟩
        rcases List.infix_cons_iff.mp hinf with hpre' | hinf'
        · exact hpre (hpre'.trans (List.prefix_append _ _))
        · exact hfront hinf'

theorem split_pair_append (hxy : x ≠ y) {front : List α} (rest : List α) (hfront : ¬ [x, y] <:+: front) :
    split [x, y] (front ++ x :: y :: rest) = front :: split [x, y] rest := by
  induction front with
  | nil =>
      rw [List.nil_append, split, splitGo, if_pos (by simp)]
      rfl
  | cons a front ih =>
      have hpre : ¬ [x, y] <+: a :: (front ++ x :: y :: rest) := fun hpre =>
        not_prefix_pair hxy hfront (Nat.succ_pos front.length) hpre
      have htail := ih fun hinf => hfront (hinf.trans (List.suffix_cons a front).isInfix)
      rw [split] at htail ⊢
      rw [List.cons_append, splitGo, if_neg hpre, htail]

theorem split_pair_eq_singleton {l : List α} (h : ¬ [x, y] <:+: l) : split [x, y] l = [l] := by
  induction l with
  | nil => rfl
  | cons a l ih =>
      have hpre : ¬ [x, y] <+: a :: l := fun hpre => h hpre.isInfix
      have htail := ih fun hinf => h (hinf.trans (List.suffix_cons a l).isInfix)
      rw [split] at htail ⊢
      rw [splitGo, if_neg hpre, htail]

/-- The first piece of a split ends where the separator is found. -/
theorem headD_split_pair (hxy : x ≠ y) (l : List α) :
    (split [x, y] l).headD [] = l.take ((find [x, y] l).getD l.length) := by
  by_cases hinf : [x, y] <:+: l
  · obtain ⟨front, rest, rfl, hfront⟩ := exists_first_pair hinf
    rw [split_pair_append hxy rest hfront, find_pair hxy rest hfront]
    simp
  · rw [split_pair_eq_singleton hinf, find_eq_none_iff_absent.mpr hinf]
    simp

/-- No piece of a split holds the separator. -/
theorem not_infix_of_mem_split (hxy : x ≠ y) {l piece : List α} (h : piece ∈ split [x, y] l) :
    ¬ [x, y] <:+: piece := by
  induction hn : l.length using Nat.strong_induction_on generalizing l with
  | _ n ih =>
      subst hn
      by_cases hinf : [x, y] <:+: l
      · obtain ⟨front, rest, rfl, hfront⟩ := exists_first_pair hinf
        rw [split_pair_append hxy rest hfront] at h
        rcases List.mem_cons.mp h with rfl | h
        · exact hfront
        · refine ih rest.length ?_ h rfl
          simp only [List.length_append, List.length_cons]
          omega
      · rw [split_pair_eq_singleton hinf] at h
        exact List.mem_singleton.mp h ▸ hinf

theorem split_pair_intercalate (hxy : x ≠ y) {line : List α} {lines : List (List α)}
    (hlines : ∀ l ∈ line :: lines, ¬ [x, y] <:+: l) :
    split [x, y] ([x, y].intercalate (line :: lines)) = line :: lines := by
  induction lines generalizing line with
  | nil =>
      rw [List.intercalate_singleton]
      exact split_pair_eq_singleton (hlines line List.mem_cons_self)
  | cons next lines ih =>
      rw [List.intercalate_cons_cons, List.append_assoc]
      refine (split_pair_append hxy _ (hlines line List.mem_cons_self)).trans ?_
      exact congrArg (line :: ·) (ih fun l hl => hlines l (List.mem_cons_of_mem line hl))

/-- The first double pair behind lines that are not empty is the one that ends the last of them. -/
theorem find_double_pair_intercalate (hxy : x ≠ y) {line : List α} {lines : List (List α)} (rest : List α)
    (hlines : ∀ l ∈ line :: lines, l ≠ [] ∧ ¬ [x, y] <:+: l) :
    find [x, y, x, y] ([x, y].intercalate (line :: lines) ++ x :: y :: x :: y :: rest) =
      some ([x, y].intercalate (line :: lines)).length := by
  induction lines generalizing line with
  | nil =>
      rw [List.intercalate_singleton]
      exact find_double_pair_end hxy rest (hlines line List.mem_cons_self).2
  | cons next lines ih =>
      have htail := ih fun l hl => hlines l (List.mem_cons_of_mem line hl)
      obtain ⟨hne, hnext⟩ := hlines next (List.mem_cons_of_mem line List.mem_cons_self)
      have hstart : ∃ more, [x, y].intercalate (next :: lines) ++ x :: y :: x :: y :: rest =
          next ++ x :: more := by
        cases lines with
        | nil => exact ⟨_, by rw [List.intercalate_singleton]⟩
        | cons l lines =>
            exact ⟨y :: ([x, y].intercalate (l :: lines) ++ x :: y :: x :: y :: rest), by
              rw [List.intercalate_cons_cons]; simp⟩
      have hnot : ¬ [x, y] <+: [x, y].intercalate (next :: lines) ++ x :: y :: x :: y :: rest := by
        obtain ⟨more, hmore⟩ := hstart
        rw [hmore]
        exact not_prefix_pair hxy hnext (List.length_pos_of_ne_nil hne)
      have hsplit : [x, y].intercalate (line :: next :: lines) ++ x :: y :: x :: y :: rest =
          line ++ x :: y :: ([x, y].intercalate (next :: lines) ++ x :: y :: x :: y :: rest) := by
        rw [List.intercalate_cons_cons]
        simp
      rw [hsplit, find_double_pair hxy (hlines line List.mem_cons_self).2 hnot, htail,
        List.intercalate_cons_cons]
      simp only [Option.map_some, List.length_append, List.length_cons, List.length_nil]
      congr 1
      omega

end Pair

end ListSearch
