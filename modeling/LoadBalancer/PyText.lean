import Mathlib.Data.List.DropRight
import LoadBalancer.ListSearch

/-! The parts of Python's text handling that a byte parser uses. Text decoded with `latin-1` has one
character per byte, so it is kept as the list of its bytes and `decode` and `encode` are the identity. -/

/-- A `bytes` object, or text decoded from it with `latin-1`. -/
abbrev Bytes := List UInt8

namespace PyText

/-- The bytes of an ASCII literal. -/
def ascii (s : String) : Bytes := s.toList.map fun c => UInt8.ofNat c.toNat

/-- `str(n)` -/
def decimal (n : Nat) : Bytes := (Nat.toDigits 10 n).map fun c => UInt8.ofNat c.toNat

/-- `c.isspace()` on the characters below 256. -/
def isSpace (c : UInt8) : Bool :=
  (9 ≤ c && c ≤ 13) || (28 ≤ c && c ≤ 32) || c == 0x85 || c == 0xA0

/-- `s.strip()` -/
def strip (s : Bytes) : Bytes := (s.dropWhile isSpace).rdropWhile isSpace

theorem infix_strip (s : Bytes) : strip s <:+: s :=
  (List.rdropWhile_prefix _ _).isInfix.trans (List.dropWhile_suffix _).isInfix

/-- Taking characters of a kind off both ends leaves exactly the texts that start and end with no such. -/
theorem trim_eq_self_iff {p : UInt8 → Bool} {s : Bytes} :
    (s.dropWhile p).rdropWhile p = s ↔ (∀ c ∈ s.head?, p c = false) ∧ ∀ c ∈ s.getLast?, p c = false := by
  constructor
  · intro h
    have hdrop : s.dropWhile p = s := by
      refine (List.dropWhile_suffix p).eq_of_length (le_antisymm ?_ ?_)
      · exact (List.dropWhile_suffix p).length_le
      · calc s.length = ((s.dropWhile p).rdropWhile p).length := by rw [h]
          _ ≤ (s.dropWhile p).length := (List.rdropWhile_prefix _ _).length_le
    have hback : s.rdropWhile p = s := by
      rw [hdrop] at h
      exact h
    refine ⟨fun c hc => ?_, fun c hc => ?_⟩
    · have hhead := List.head?_dropWhile_not p s
      rw [hdrop, Option.mem_def.mp hc] at hhead
      exact hhead
    · have hne : s ≠ [] := by
        rintro rfl
        cases hc
      rw [Option.mem_def, List.getLast?_eq_some_getLast hne] at hc
      rw [← Option.some.inj hc]
      exact Bool.eq_false_iff.mpr (List.rdropWhile_eq_self_iff.mp hback hne)
  · rintro ⟨hfirst, hlast⟩
    have hdrop : s.dropWhile p = s := by
      cases s with
      | nil => rfl
      | cons c s => exact List.dropWhile_cons_of_neg (by simp [hfirst c rfl])
    rw [hdrop, List.rdropWhile_eq_self_iff]
    intro hne
    simp [hlast _ (List.getLast?_eq_some_getLast hne)]

/-- Stripping leaves exactly the texts that start and end with no white space. -/
theorem strip_eq_self_iff {s : Bytes} :
    strip s = s ↔ (∀ c ∈ s.head?, isSpace c = false) ∧ ∀ c ∈ s.getLast?, isSpace c = false := trim_eq_self_iff

theorem strip_strip (s : Bytes) : strip (strip s) = strip s := by
  have hlast : ((s.dropWhile isSpace).rdropWhile isSpace).rdropWhile isSpace =
      (s.dropWhile isSpace).rdropWhile isSpace := List.rdropWhile_idempotent isSpace _
  have hfirst : ((s.dropWhile isSpace).rdropWhile isSpace).dropWhile isSpace =
      (s.dropWhile isSpace).rdropWhile isSpace := by
    obtain ⟨back, hback⟩ := List.rdropWhile_prefix isSpace (s.dropWhile isSpace)
    cases hstrip : (s.dropWhile isSpace).rdropWhile isSpace with
    | nil => rfl
    | cons c rest =>
        have hhead := List.head?_dropWhile_not isSpace s
        rw [← hback, hstrip] at hhead
        exact List.dropWhile_cons_of_neg (by simpa using hhead)
  rw [strip, strip, hfirst, hlast]

theorem strip_cons_of_isSpace {c : UInt8} (h : isSpace c = true) (s : Bytes) :
    strip (c :: s) = strip s := by
  rw [strip, List.dropWhile_cons_of_pos h, strip]

/-- `c.lower()`; the lower case of a character below 256 is below 256. -/
def lowerChar (c : UInt8) : UInt8 :=
  if (65 ≤ c && c ≤ 90) || (0xC0 ≤ c && c ≤ 0xDE && c != 0xD7) then c + 32 else c

/-- `s.lower()` -/
def lower (s : Bytes) : Bytes := s.map lowerChar

/-- `c.upper()`, as code points: three characters leave the range, and `ß` becomes two letters. -/
def upperChar (c : UInt8) : List Nat :=
  if (97 ≤ c && c ≤ 122) || (0xE0 ≤ c && c ≤ 0xFE && c != 0xF7) then [c.toNat - 32]
  else if c = 0xB5 then [0x39C]
  else if c = 0xDF then [0x53, 0x53]
  else if c = 0xFF then [0x178]
  else [c.toNat]

/-- `s.upper()`, as code points. -/
def upper (s : Bytes) : List Nat := s.flatMap upperChar

/-! ### `int(s)` and `int(s, 16)`

Surrounding white space, an optional sign, for base 16 an optional `0x` that one underscore may
follow, then digits with single underscores between them. Anything else is a `ValueError`. -/

/-- The white space that `int` skips, which is less than what `str.strip` takes off. -/
def isIntSpace (c : UInt8) : Bool := (9 ≤ c && c ≤ 13) || c == 32 || c == 0x85 || c == 0xA0

def skipIntSpace (s : Bytes) : Bytes := (s.dropWhile isIntSpace).rdropWhile isIntSpace

theorem isIntSpace_of_not_isSpace {c : UInt8} (h : isSpace c = false) : isIntSpace c = false := by
  simp only [isSpace, isIntSpace, Bool.or_eq_false_iff, Bool.and_eq_false_iff, decide_eq_false_iff_not,
    UInt8.le_iff_toNat_le, UInt8.reduceToNat, beq_eq_false_iff_ne, ne_eq, ← UInt8.toNat_inj] at h ⊢
  omega

/-- In a text that has been stripped there is nothing to skip. -/
theorem skipIntSpace_eq_self {s : Bytes} (h : strip s = s) : skipIntSpace s = s := by
  obtain ⟨hfirst, hlast⟩ := strip_eq_self_iff.mp h
  exact trim_eq_self_iff.mpr
    ⟨fun c hc => isIntSpace_of_not_isSpace (hfirst c hc), fun c hc => isIntSpace_of_not_isSpace (hlast c hc)⟩

/-- The value of a digit of the base. -/
def digit (base : Nat) (c : UInt8) : Option Nat :=
  let value :=
    if 48 ≤ c ∧ c ≤ 57 then c.toNat - 48
    else if 97 ≤ c ∧ c ≤ 122 then c.toNat - 87
    else if 65 ≤ c ∧ c ≤ 90 then c.toNat - 55
    else base
  if value < base then some value else none

/-- The digits after a first one, an underscore being allowed before each. -/
def digitsFrom (base : Nat) : Nat → Bytes → Option Nat
  | value, [] => some value
  | value, c :: rest =>
      match digit base c with
      | some d => digitsFrom base (value * base + d) rest
      | none =>
          if c = 95 then
            match rest with
            | [] => none
            | c' :: rest' =>
                match digit base c' with
                | some d => digitsFrom base (value * base + d) rest'
                | none => none
          else none

def digits (base : Nat) : Bytes → Option Nat
  | [] => none
  | c :: rest => (digit base c).bind fun d => digitsFrom base d rest

def sign : Bytes → Int × Bytes
  | 43 :: rest => (1, rest)
  | 45 :: rest => (-1, rest)
  | s => (1, s)

def hexPrefix : Bytes → Bytes
  | 48 :: x :: rest =>
      if x = 120 ∨ x = 88 then
        match rest with
        | 95 :: rest' => rest'
        | _ => rest
      else 48 :: x :: rest
  | s => s

/-- The default of `sys.set_int_max_str_digits`: more decimal digits are a `ValueError`. Bases that
are powers of two have no limit. -/
def maxStrDigits : Nat := 4300

/-- `int(s, base)` for base 10 or 16, `none` where Python raises `ValueError`. -/
def int (base : Nat) (s : Bytes) : Option Int :=
  let (sgn, rest) := sign (skipIntSpace s)
  let body := if base = 16 then hexPrefix rest else rest
  if base = 10 ∧ maxStrDigits < body.countP (· ≠ 95) then none
  else (digits base body).map fun n => sgn * (n : Int)

/-! Plain digits, without sign, underscore or prefix. -/

section Plain

variable {base value n : Nat} {s : Bytes}

theorem digit_bounds {c : UInt8} (h : (digit base c).isSome) :
    (48 ≤ c.toNat ∧ c.toNat ≤ 57) ∨ (97 ≤ c.toNat ∧ c.toNat ≤ 122) ∨ (65 ≤ c.toNat ∧ c.toNat ≤ 90) := by
  simp only [digit, UInt8.le_iff_toNat_le, UInt8.reduceToNat] at h
  split_ifs at h <;> first | omega | cases h

theorem ne_of_digit {c d : UInt8} (h : (digit base c).isSome) (hd : digit base d = none) : c ≠ d := by
  rintro rfl
  rw [hd] at h
  cases h

theorem isSpace_of_digit {c : UInt8} (h : (digit base c).isSome) : isSpace c = false := by
  have := digit_bounds h
  simp only [isSpace, Bool.or_eq_false_iff, Bool.and_eq_false_iff, decide_eq_false_iff_not,
    UInt8.le_iff_toNat_le, UInt8.reduceToNat, beq_eq_false_iff_ne, ne_eq, ← UInt8.toNat_inj]
  omega

theorem exists_digit_of_foldlM {c : UInt8}
    (h : (c :: s).foldlM (fun n c => (digit base c).map fun d => n * base + d) value = some n) :
    ∃ d, digit base c = some d ∧
      s.foldlM (fun n c => (digit base c).map fun d => n * base + d) (value * base + d) = some n := by
  rw [List.foldlM_cons] at h
  obtain ⟨_, hfirst, hrest⟩ := Option.bind_eq_some_iff.mp h
  obtain ⟨d, hd, rfl⟩ := Option.map_eq_some_iff.mp hfirst
  exact ⟨d, hd, hrest⟩

theorem digitsFrom_of_foldlM
    (h : s.foldlM (fun n c => (digit base c).map fun d => n * base + d) value = some n) :
    digitsFrom base value s = some n := by
  induction s generalizing value with
  | nil => exact h
  | cons c s ih =>
      obtain ⟨d, hd, hrest⟩ := exists_digit_of_foldlM h
      unfold digitsFrom
      rw [hd]
      exact ih hrest

theorem isSome_of_foldlM
    (h : s.foldlM (fun n c => (digit base c).map fun d => n * base + d) value = some n) :
    ∀ c ∈ s, (digit base c).isSome := by
  induction s generalizing value with
  | nil => simp
  | cons c s ih =>
      obtain ⟨d, hd, hrest⟩ := exists_digit_of_foldlM h
      intro c' hc'
      rcases List.mem_cons.mp hc' with rfl | hc'
      · rw [hd]
        rfl
      · exact ih hrest c' hc'

theorem digits_of_foldlM (hne : s ≠ [])
    (h : s.foldlM (fun n c => (digit base c).map fun d => n * base + d) 0 = some n) :
    digits base s = some n := by
  obtain ⟨c, s, rfl⟩ := List.exists_cons_of_ne_nil hne
  obtain ⟨d, hd, hrest⟩ := exists_digit_of_foldlM h
  rw [Nat.zero_mul, Nat.zero_add] at hrest
  rw [digits, hd]
  exact digitsFrom_of_foldlM hrest

end Plain

example : int 10 (ascii " +1_0\t") = some 10 := by decide

example : int 16 (ascii "-0x_1f") = some (-31) := by decide

example : int 10 (28 :: ascii "204") = none ∧ strip (28 :: ascii "204") = ascii "204" := by decide

end PyText
