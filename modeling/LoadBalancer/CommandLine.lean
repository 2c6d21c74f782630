import Mathlib.Algebra.Order.Ring.Nat
import LoadBalancer.TransferCodings

/-! The list of backends on the command line, as text of characters below 256. What `parse_backends` can
return is told by `Expressible`, a property of each backend on its own, and all of it is read back from
the text `host:port,host:port,...`. -/

namespace LoadBalancer

open PyText

/-- `s.rpartition(sep)` without the separator itself. -/
def rpartition (sep : UInt8) (s : Bytes) : Bytes × Bytes :=
  (((s.reverse.dropWhile (· ≠ sep)).drop 1).reverse, (s.reverse.takeWhile (· ≠ sep)).reverse)

/-- `host, _, port_s = entry.rpartition(":")` and `int(port_s)`. -/
def parseBackend (entry : Bytes) : Option (Bytes × Int) :=
  let (host, port_s) := rpartition 58 entry
  (int 10 port_s).map fun port => (host, port)

/-- `parse_backends(raw)`, `none` where `int` raises `ValueError`. -/
def parseBackends (raw : Bytes) : Option (List (Bytes × Int)) :=
  (((raw.splitOn 44).map strip).filter (· ≠ [])).mapM parseBackend

/-- `str(port)` -/
def decimalInt (port : Int) : Bytes :=
  if port < 0 then 45 :: decimal port.natAbs else decimal port.natAbs

def writeBackend (backend : Bytes × Int) : Bytes := backend.1 ++ 58 :: decimalInt backend.2

def writeBackends (backends : List (Bytes × Int)) : Bytes := [44].intercalate (backends.map writeBackend)

/-- A backend that the command line can name. The host may hold colons, and may be empty. -/
structure Expressible (backend : Bytes × Int) : Prop where
  no_comma : 44 ∉ backend.1
  no_blank : ∀ c ∈ backend.1.head?, isSpace c = false
  digits : backend.2.natAbs < 10 ^ maxStrDigits

example : parseBackends (ascii " 127.0.0.1:8001,, ::1 : 8_002,:-3") =
    some [(ascii "127.0.0.1", 8001), (ascii "::1 ", 8002), ([], -3)] := by decide +kernel

/-! ### The last colon -/

section Rpartition

variable {sep : UInt8}

theorem rpartition_append_cons {front back : Bytes} (h : sep ∉ back) :
    rpartition sep (front ++ sep :: back) = (front, back) := by
  have hback : ∀ c ∈ back.reverse, decide (c ≠ sep) = true := fun c hc =>
    decide_eq_true fun heq => h (heq ▸ List.mem_reverse.mp hc)
  have hsep : ¬ decide (sep ≠ sep) = true := by simp
  rw [rpartition, List.reverse_append, List.reverse_cons, List.append_assoc, List.singleton_append,
    List.dropWhile_append_of_pos hback, List.takeWhile_append_of_pos hback,
    List.dropWhile_cons_of_neg (p := fun c => decide (c ≠ sep)) hsep,
    List.takeWhile_cons_of_neg (p := fun c => decide (c ≠ sep)) hsep]
  simp

theorem rpartition_of_not_mem {s : Bytes} (h : sep ∉ s) : rpartition sep s = ([], s) := by
  have hs : ∀ c ∈ s.reverse, decide (c ≠ sep) = true := fun c hc =>
    decide_eq_true fun heq => h (heq ▸ List.mem_reverse.mp hc)
  rw [rpartition, List.dropWhile_eq_nil_iff.mpr hs, List.takeWhile_eq_self_iff.mpr hs]
  simp

/-- What stands before the separator found is the start of the text. -/
theorem rpartition_isPrefix (s : Bytes) : (rpartition sep s).1 <+: s := by
  by_cases h : sep ∈ s
  · obtain ⟨back, front, hsplit, hback⟩ := List.eq_append_cons_of_mem (List.mem_reverse.mpr h)
    have hs : s = front.reverse ++ sep :: back.reverse := by
      rw [← List.reverse_reverse s, hsplit]
      simp
    rw [hs, rpartition_append_cons (by simpa using hback)]
    exact List.prefix_append _ _
  · rw [rpartition_of_not_mem h]
    exact List.nil_prefix

end Rpartition

/-! ### Numbers -/

theorem digit_ofNat_toNat {c : Char} (h : c.isDigit = true) :
    digit 10 (UInt8.ofNat c.toNat) = some (c.toNat - 48) := by
  obtain ⟨hlow, hhigh⟩ := Char.isDigit_iff_toNat.mp h
  have hlow : 48 ≤ c.toNat := hlow
  have hhigh : c.toNat ≤ 57 := hhigh
  have hcode : (UInt8.ofNat c.toNat).toNat = c.toNat := by
    rw [UInt8.toNat_ofNat']
    omega
  have hvalue : 48 ≤ (UInt8.ofNat c.toNat).toNat ∧ (UInt8.ofNat c.toNat).toNat ≤ 57 := by
    rw [hcode]
    exact ⟨hlow, hhigh⟩
  simp only [digit, UInt8.le_iff_toNat_le, UInt8.reduceToNat]
  rw [if_pos hvalue, if_pos (by omega), hcode]

theorem foldlM_digits {cs : List Char} (h : ∀ c ∈ cs, c.isDigit = true) (n : Nat) :
    (cs.map fun c => UInt8.ofNat c.toNat).foldlM
      (fun n c => (digit 10 c).map fun d => n * 10 + d) n = some (Nat.ofDigitChars 10 cs n) := by
  induction cs generalizing n with
  | nil => simp
  | cons c cs ih =>
      obtain ⟨hc, hcs⟩ := List.forall_mem_cons.mp h
      rw [List.map_cons, List.foldlM_cons, digit_ofNat_toNat hc, Nat.ofDigitChars_cons, Nat.mul_comm 10 n]
      exact ih hcs _

theorem decimal_ne_nil (n : Nat) : decimal n ≠ [] := by
  simp [decimal, Nat.toDigits_ne_nil]

theorem foldlM_decimal (n : Nat) :
    (decimal n).foldlM (fun n c => (digit 10 c).map fun d => n * 10 + d) 0 = some n := by
  have hdigits : ∀ c ∈ Nat.toDigits 10 n, c.isDigit = true := fun c hc =>
    Nat.isDigit_of_mem_toDigits (by decide) (by decide) hc
  rw [decimal, foldlM_digits hdigits, Nat.ofDigitChars_toDigits (by decide) (by decide)]

theorem decimalValue_decimal (n : Nat) : decimalValue (decimal n) = some n := by
  rw [decimalValue, if_neg (decimal_ne_nil n), foldlM_decimal]

theorem isSome_digit_decimal {n : Nat} : ∀ c ∈ decimal n, (digit 10 c).isSome :=
  isSome_of_foldlM (foldlM_decimal n)

theorem length_decimal_le {n : Nat} (h : n < 10 ^ maxStrDigits) : (decimal n).length ≤ maxStrDigits := by
  rw [decimal, List.length_map]
  exact (Nat.length_toDigits_le_iff (by decide) (by decide)).mpr h

section Length

variable {base value n d : Nat} {c : UInt8} {s : Bytes}

theorem digit_lt (h : digit base c = some d) : d < base := by
  obtain ⟨hlt, hd⟩ := Option.ite_none_right_eq_some.mp h
  rw [← Option.some.inj hd]
  exact hlt

theorem countP_cons_of_digit (h : digit base c = some d) :
    (c :: s).countP (· ≠ 95) = s.countP (· ≠ 95) + 1 :=
  List.countP_cons_of_pos (decide_eq_true (ne_of_digit (by rw [h]; rfl) (by simp [digit])))

/-- One more digit is one more power of the base. -/
theorem shift_digit_lt {k : Nat} (hd : digit base c = some d) (h : n < (value * base + d + 1) * base ^ k) :
    n < (value + 1) * base ^ (k + 1) := by
  have hshift : value * base + d + 1 ≤ (value + 1) * base := by
    rw [Nat.succ_mul]
    have := digit_lt hd
    omega
  calc n < (value * base + d + 1) * base ^ k := h
    _ ≤ (value + 1) * base * base ^ k := Nat.mul_le_mul_right _ hshift
    _ = (value + 1) * base ^ (k + 1) := by rw [Nat.pow_succ', Nat.mul_assoc]

/-- Underscores are not counted. -/
theorem digitsFrom_lt (h : digitsFrom base value s = some n) :
    n < (value + 1) * base ^ s.countP (· ≠ 95) := by
  fun_induction digitsFrom base value s with
  | case1 value =>
      rw [← Option.some.inj h]
      simp
  | case2 value c rest d hd ih =>
      rw [countP_cons_of_digit hd]
      exact shift_digit_lt hd (ih h)
  | case3 => cases h
  | case4 value c' rest d hd hnone ih =>
      rw [List.countP_cons_of_neg (by simp), countP_cons_of_digit hd]
      exact shift_digit_lt hd (ih h)
  | case5 => cases h
  | case6 => cases h

theorem digits_lt (h : PyText.digits base s = some n) : n < base ^ s.countP (· ≠ 95) := by
  cases s with
  | nil => cases h
  | cons c s =>
      obtain ⟨d, hd, hrest⟩ := Option.bind_eq_some_iff.mp h
      have hlt : n < (0 * base + d + 1) * base ^ s.countP (· ≠ 95) := by
        simpa using digitsFrom_lt hrest
      rw [countP_cons_of_digit hd]
      simpa using shift_digit_lt hd hlt

end Length

theorem natAbs_sign (s : Bytes) : (sign s).1.natAbs = 1 := by
  unfold sign
  split <;> rfl

/-- `int(s)` has no more digits than the text may have. -/
theorem natAbs_int_lt {s : Bytes} {port : Int} (h : int 10 s = some port) :
    port.natAbs < 10 ^ maxStrDigits := by
  rw [int] at h
  dsimp only at h
  rw [if_neg (by decide : ¬ (10 = 16))] at h
  obtain ⟨hshort, hread⟩ := Option.ite_none_left_eq_some.mp h
  obtain ⟨value, hvalue, rfl⟩ := Option.map_eq_some_iff.mp hread
  obtain ⟨n, hn, hcast⟩ := Option.bind_eq_some_iff.mp hvalue
  cases hcast
  rw [Int.natAbs_mul, natAbs_sign, Nat.one_mul, Int.natAbs_natCast]
  exact (digits_lt hn).trans_le (Nat.pow_le_pow_right (by decide) (by omega))

theorem isSpace_of_mem_decimalInt {port : Int} {c : UInt8} (h : c ∈ decimalInt port) : isSpace c = false := by
  have hdecimal : ∀ c ∈ decimal port.natAbs, isSpace c = false := fun c hc =>
    isSpace_of_digit (isSome_digit_decimal c hc)
  unfold decimalInt at h
  split at h
  · rcases List.mem_cons.mp h with rfl | h
    · decide
    · exact hdecimal c h
  · exact hdecimal c h

/-- A number that is not too long is read back. -/
theorem int_decimalInt {port : Int} (h : port.natAbs < 10 ^ maxStrDigits) :
    int 10 (decimalInt port) = some port := by
  have hshort := length_decimal_le h
  by_cases hneg : port < 0
  · have hdigits : PyText.digits 10 (decimal port.natAbs) = some port.natAbs :=
      digits_of_foldlM (decimal_ne_nil _) (foldlM_decimal _)
    have hstrip : strip (decimalInt port) = decimalInt port := strip_eq_self_iff.mpr
      ⟨fun c hc => isSpace_of_mem_decimalInt (List.mem_of_mem_head? hc),
        fun c hc => isSpace_of_mem_decimalInt (List.mem_of_mem_getLast? hc)⟩
    have hcount : (decimal port.natAbs).countP (· ≠ 95) ≤ maxStrDigits := List.countP_le_length.trans hshort
    rw [int, skipIntSpace_eq_self hstrip, decimalInt, if_pos hneg, sign]
    dsimp only
    rw [if_neg (by decide : ¬ (10 = 16)), if_neg (by omega), hdigits]
    simp only [Option.pure_def, Option.bind_eq_bind, Option.bind_some, Option.map_some]
    exact congrArg some (by omega)
  · rw [decimalInt, if_neg hneg, int_decimalValue (decimalValue_decimal _), if_neg (by omega)]
    exact congrArg some (by omega)

/-- A number has no character that is neither a digit nor the sign. -/
theorem not_mem_decimalInt {c : UInt8} (hdigit : digit 10 c = none) (hsign : c ≠ 45) (port : Int) :
    c ∉ decimalInt port := by
  have hdecimal : c ∉ decimal port.natAbs := fun hc => by
    have := isSome_digit_decimal c hc
    rw [hdigit] at this
    cases this
  unfold decimalInt
  split <;> simp [hdecimal, hsign]

/-! ### One backend -/

theorem parseBackend_writeBackend {backend : Bytes × Int} (h : Expressible backend) :
    parseBackend (writeBackend backend) = some backend := by
  obtain ⟨host, port⟩ := backend
  rw [writeBackend, parseBackend, rpartition_append_cons (not_mem_decimalInt (by decide) (by decide) port)]
  dsimp only
  rw [int_decimalInt h.digits, Option.map_some]

theorem strip_writeBackend {backend : Bytes × Int} (h : Expressible backend) :
    strip (writeBackend backend) = writeBackend backend := by
  refine strip_eq_self_iff.mpr ⟨fun c hc => ?_, fun c hc => ?_⟩
  · rw [writeBackend, List.head?_append] at hc
    cases hhead : backend.1.head? with
    | none =>
        rw [hhead] at hc
        cases hc
        decide
    | some c' =>
        rw [hhead] at hc
        cases hc
        exact h.no_blank c hhead
  · have hne : decimalInt backend.2 ≠ [] := by
      unfold decimalInt
      split
      · simp
      · exact decimal_ne_nil _
    rw [writeBackend, List.append_cons, List.getLast?_append_of_ne_nil _ hne] at hc
    exact isSpace_of_mem_decimalInt (List.mem_of_mem_getLast? hc)

theorem expressible_of_parseBackend {entry : Bytes} {backend : Bytes × Int} (hcomma : 44 ∉ entry)
    (hstrip : strip entry = entry) (h : parseBackend entry = some backend) : Expressible backend := by
  obtain ⟨port, hport, rfl⟩ := Option.map_eq_some_iff.mp h
  have hhost : (rpartition 58 entry).1 <+: entry := rpartition_isPrefix entry
  obtain ⟨hfirst, -⟩ := strip_eq_self_iff.mp hstrip
  refine ⟨fun hc => hcomma (hhost.subset hc), fun c hc => hfirst c ?_, natAbs_int_lt hport⟩
  obtain ⟨back, hback⟩ := hhost
  have hhead : (rpartition 58 entry).1.head? = some c := hc
  rw [← hback, List.head?_append, hhead]
  rfl

/-! ### The list -/

theorem parseBackends_append (raw more : Bytes) :
    parseBackends (raw ++ 44 :: more) =
      (parseBackends raw).bind fun first => (parseBackends more).map fun rest => first ++ rest := by
  rw [parseBackends, List.splitOn_append_cons_self, List.map_append, List.filter_append, List.mapM_append,
    ← parseBackends, ← parseBackends]
  cases parseBackends raw with
  | none => rfl
  | some first => cases parseBackends more <;> rfl

theorem parseBackends_of_no_comma {entry : Bytes} (h : 44 ∉ entry) :
    parseBackends entry =
      if strip entry = [] then some [] else (parseBackend (strip entry)).map fun backend => [backend] := by
  rw [parseBackends, List.splitOn_eq_singleton h, List.map_singleton]
  split
  case isTrue hblank => simp [hblank]
  case isFalse hentry =>
      have hkept : [strip entry].filter (· ≠ []) = [strip entry] := by simp [hentry]
      rw [hkept]
      cases hparse : parseBackend (strip entry) <;> simp [hparse]

theorem parseBackends_writeBackend {backend : Bytes × Int} (h : Expressible backend) :
    parseBackends (writeBackend backend) = some [backend] := by
  have hcomma : 44 ∉ writeBackend backend := by
    have hport := not_mem_decimalInt (c := 44) (by decide) (by decide) backend.2
    simp [writeBackend, h.no_comma, hport]
  have hne : writeBackend backend ≠ [] := by
    simp [writeBackend]
  rw [parseBackends_of_no_comma hcomma, strip_writeBackend h, if_neg hne, parseBackend_writeBackend h,
    Option.map_some]

theorem parseBackends_writeBackends {backends : List (Bytes × Int)}
    (h : ∀ backend ∈ backends, Expressible backend) :
    parseBackends (writeBackends backends) = some backends := by
  induction backends with
  | nil => rfl
  | cons backend backends ih =>
      obtain ⟨hfirst, hrest⟩ := List.forall_mem_cons.mp h
      cases backends with
      | nil =>
          rw [writeBackends, List.map_singleton, List.intercalate_singleton,
            parseBackends_writeBackend hfirst]
      | cons backend' backends =>
          have hwrite : writeBackends (backend :: backend' :: backends) =
              writeBackend backend ++ 44 :: writeBackends (backend' :: backends) := by
            simp [writeBackends, List.intercalate_cons_cons]
          rw [hwrite, parseBackends_append, parseBackends_writeBackend hfirst, ih hrest]
          rfl

theorem expressible_of_parseBackends {raw : Bytes} {backends : List (Bytes × Int)}
    (h : parseBackends raw = some backends) : ∀ backend ∈ backends, Expressible backend := by
  induction hlength : raw.length using Nat.strong_induction_on generalizing raw backends with
  | _ length ih =>
      by_cases hcomma : 44 ∈ raw
      · -- The parts on both sides of a comma are read on their own.
        obtain ⟨entry, more, rfl, -⟩ := List.eq_append_cons_of_mem hcomma
        rw [parseBackends_append] at h
        obtain ⟨first, hfirst, hjoin⟩ := Option.bind_eq_some_iff.mp h
        obtain ⟨rest, hrest, rfl⟩ := Option.map_eq_some_iff.mp hjoin
        rw [List.length_append, List.length_cons] at hlength
        intro backend hbackend
        rcases List.mem_append.mp hbackend with hbackend | hbackend
        · exact ih entry.length (by omega) hfirst rfl backend hbackend
        · exact ih more.length (by omega) hrest rfl backend hbackend
      · rw [parseBackends_of_no_comma hcomma] at h
        split at h
        · cases h
          simp
        · obtain ⟨backend, hparse, rfl⟩ := Option.map_eq_some_iff.mp h
          have hstripped : 44 ∉ strip raw := fun hc => hcomma ((infix_strip raw).subset hc)
          simpa using expressible_of_parseBackend hstripped (strip_strip raw) hparse

/-- **The round trip.** The lists that `parse_backends` returns are those of backends that are each
`Expressible`, and it reads every one of them back from the text `host:port,host:port,...`. -/
theorem parseBackends_round_trip (backends : List (Bytes × Int)) :
    ((∃ raw, parseBackends raw = some backends) ↔ ∀ backend ∈ backends, Expressible backend) ∧
      (parseBackends (writeBackends backends) = some backends ↔ ∀ backend ∈ backends, Expressible backend) :=
  ⟨⟨fun ⟨_, h⟩ => expressible_of_parseBackends h, fun h => ⟨_, parseBackends_writeBackends h⟩⟩,
    expressible_of_parseBackends, parseBackends_writeBackends⟩

end LoadBalancer
