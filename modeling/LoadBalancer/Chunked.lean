import Mathlib.Data.List.Infix
import Mathlib.Data.Int.ConditionallyCompleteOrder
import Mathlib.Data.Int.Interval
import Mathlib.Tactic.IntervalCases
import LoadBalancer.HttpParser

/-! Chunked bodies: the grammar of a well-formed one, and the scanner on it. On every part of a
well-formed chunked body that ends before its last byte the scanner asks for more, and on the whole of
it the scanner returns its length. -/

namespace LoadBalancer

open PyText ListSearch WhileLoop

/-! ### One turn -/

theorem slice_lineDelim_iff {body : Bytes} {k : Nat} :
    slice body k (k + 2 : Nat) = lineDelim ↔ lineDelim <+: body.drop k := by
  rw [← slice_natCast_add k]
  rfl

/-- Where a slice of two bytes is a line end, which may be counted from the end of the body. -/
theorem lineDelim_of_slice {body : Bytes} {p : Int} (h : slice body p (p + 2) = lineDelim) :
    ∃ k : Nat, lineDelim <+: body.drop k ∧ k + 2 ≤ body.length ∧
      ((k : Int) = p ∨ (k : Int) = body.length + p ∧ p + 2 < 0) := by
  obtain ⟨k, hpre, hk⟩ := prefix_drop_of_slice (show lineDelim ≠ [] by decide) h
  rw [length_lineDelim, Nat.cast_ofNat] at hk
  have hle := hpre.length_le
  rw [List.length_drop, length_lineDelim] at hle
  exact ⟨k, hpre, by omega, hk⟩

/-- What the scanner reads off a size line. -/
def lineSize (line : Bytes) : Option Int := int 16 (strip (line.takeWhile (· ≠ 59)))

/-- The size line at `pos`: the position behind it, and its size. -/
def sizeAt (body : Bytes) (pos : Int) : Option (Nat × Int) :=
  (findFrom lineDelim body pos).bind fun lineEnd =>
    (lineSize (slice body pos lineEnd)).map fun size => (lineEnd + 2, size)

theorem sizeAt_line (front rest : Bytes) {line : Bytes} (hline : ¬ lineDelim <:+: line) :
    sizeAt (front ++ (line ++ (lineDelim ++ rest))) front.length =
      (lineSize line).map fun size => (front.length + line.length + 2, size) := by
  have hfind : find lineDelim (line ++ (lineDelim ++ rest)) = some line.length :=
    find_pair (by decide) rest hline
  have hslice : slice (front ++ (line ++ (lineDelim ++ rest))) front.length
      ((line.length + front.length : Nat) : Int) = line :=
    slice_length_add _ _ _ _ (Nat.add_comm _ _)
  rw [sizeAt, findFrom_length, hfind, Option.map_some, Option.bind_some, hslice, Nat.add_comm line.length]

theorem consumeChunk_of_sizeAt_none {body : Bytes} {pos : Int} (h : sizeAt body pos = none) :
    consumeChunk body pos = .inr none := by
  unfold consumeChunk
  cases hline : findFrom lineDelim body pos with
  | none => rfl
  | some lineEnd =>
      rw [sizeAt, hline, Option.bind_some] at h
      have hsize : lineSize (slice body pos lineEnd) = none := Option.map_eq_none_iff.mp h
      rw [lineSize] at hsize
      dsimp only
      rw [hsize]

theorem consumeChunk_of_sizeAt {body : Bytes} {pos : Int} {start : Nat} {size : Int}
    (h : sizeAt body pos = some (start, size)) :
    consumeChunk body pos =
      if size = 0 then
        match findFrom headerDelim body start with
        | none => if slice body start (start + 2 : Nat) = lineDelim then .inr (some (start + 2)) else .inr none
        | some trailerEnd => .inr (some (trailerEnd + 4))
      else if (body.length : Int) < start + (size + 2) then .inr none
      else if slice body (start + size) (start + size + 2) ≠ lineDelim then .inr none
      else .inl (start + size + 2) := by
  obtain ⟨lineEnd, hline, hread⟩ := Option.bind_eq_some_iff.mp h
  obtain ⟨size', hsize, heq⟩ := Option.map_eq_some_iff.mp hread
  obtain ⟨rfl, rfl⟩ := Prod.mk.inj heq
  rw [lineSize] at hsize
  unfold consumeChunk
  rw [hline]
  dsimp only
  rw [hsize]
  rfl

/-- A turn that goes on has passed a size line, and data that a line end follows. -/
theorem consumeChunk_eq_inl_iff {body : Bytes} {pos next : Int} :
    consumeChunk body pos = .inl next ↔ ∃ start size, sizeAt body pos = some (start, size) ∧ size ≠ 0 ∧
      start + (size + 2) ≤ body.length ∧ slice body (start + size) (start + size + 2) = lineDelim ∧
      next = start + size + 2 := by
  cases h : sizeAt body pos with
  | none => simp [consumeChunk_of_sizeAt_none h]
  | some line =>
      obtain ⟨start, size⟩ := line
      rw [consumeChunk_of_sizeAt h]
      constructor
      · intro hnext
        by_cases hzero : size = 0
        · rw [if_pos hzero] at hnext
          split at hnext
          · split at hnext <;> cases hnext
          · cases hnext
        · rw [if_neg hzero] at hnext
          split_ifs at hnext with hshort hcrlf
          exact ⟨start, size, rfl, hzero, by omega, not_not.mp hcrlf, (Sum.inl.inj hnext).symm⟩
      · rintro ⟨start', size', heq, hzero, hfits, hcrlf, rfl⟩
        obtain ⟨rfl, rfl⟩ := Prod.mk.inj (Option.some.inj heq)
        rw [if_neg hzero, if_neg (by omega), if_neg (not_not_intro hcrlf)]

/-- A turn that frames the body is at the last chunk. -/
theorem consumeChunk_eq_some_iff {body : Bytes} {pos : Int} {n : Nat} :
    consumeChunk body pos = .inr (some n) ↔ ∃ start, sizeAt body pos = some (start, 0) ∧
      ((∃ k, findFrom headerDelim body start = some k ∧ n = k + 4) ∨
        (findFrom headerDelim body start = none ∧ slice body start (start + 2 : Nat) = lineDelim ∧
          n = start + 2)) := by
  cases h : sizeAt body pos with
  | none => simp [consumeChunk_of_sizeAt_none h]
  | some line =>
      obtain ⟨start, size⟩ := line
      rw [consumeChunk_of_sizeAt h]
      constructor
      · intro hret
        by_cases hzero : size = 0
        · subst hzero
          rw [if_pos rfl] at hret
          refine ⟨start, rfl, ?_⟩
          split at hret
          · next hnone =>
            split at hret
            · next hcrlf => exact .inr ⟨hnone, hcrlf, (Option.some.inj (Sum.inr.inj hret)).symm⟩
            · cases hret
          · next k hk => exact .inl ⟨k, hk, (Option.some.inj (Sum.inr.inj hret)).symm⟩
        · rw [if_neg hzero] at hret
          split_ifs at hret <;> cases hret
      · rintro ⟨start', heq, hend⟩
        obtain ⟨rfl, rfl⟩ := Prod.mk.inj (Option.some.inj heq)
        rw [if_pos rfl]
        rcases hend with ⟨k, hk, rfl⟩ | ⟨hnone, hcrlf, rfl⟩
        · rw [hk]
        · rw [hnone]
          exact if_pos hcrlf

/-! ### The bound on the turns -/

/-- The line end that a turn goes on behind. -/
theorem lineDelim_of_consumeChunk {body : Bytes} {pos next : Int} (h : consumeChunk body pos = .inl next) :
    ∃ k : Nat, lineDelim <+: body.drop k ∧ k + 2 ≤ body.length ∧
      ((k : Int) + 2 = next ∨ (k : Int) + 2 = body.length + next ∧ next < 0) := by
  obtain ⟨start, size, -, -, -, hcrlf, rfl⟩ := consumeChunk_eq_inl_iff.mp h
  obtain ⟨k, hpre, hle, hk⟩ := lineDelim_of_slice hcrlf
  exact ⟨k, hpre, hle, by omega⟩

/-- A turn that goes on ends inside the body, possibly at a position counted from the end. -/
theorem consumeChunk_mem_Icc {body : Bytes} {pos next : Int} (h : consumeChunk body pos = .inl next) :
    next ∈ Finset.Icc (-(body.length : Int)) body.length := by
  obtain ⟨k, -, hle, hk⟩ := lineDelim_of_consumeChunk h
  rw [Finset.mem_Icc]
  omega

/-- A scan that has not returned within the bound never does. -/
theorem tryConsumeChunkedBody_hangs {body : Bytes} (h : tryConsumeChunkedBody body = none) (fuel : Nat) :
    iterate (consumeChunk body) fuel 0 = none := by
  have hclosed : ∀ pos ∈ Finset.Icc (-(body.length : Int)) body.length, ∀ next,
      consumeChunk body pos = .inl next → next ∈ Finset.Icc (-(body.length : Int)) body.length :=
    fun _ _ _ hnext => consumeChunk_mem_Icc hnext
  refine iterate_eq_none_of_card hclosed (Finset.mem_Icc.mpr ⟨by omega, by omega⟩) ?_ h fuel
  rw [Int.card_Icc]
  omega

/-- A result of the scanner is what it returns at a position that it comes to. -/
theorem tryConsumeChunkedBody_eq_some_iff {body : Bytes} {r : Option Nat} :
    tryConsumeChunkedBody body = some r ↔
      ∃ pos, Visits (consumeChunk body) 0 pos ∧ consumeChunk body pos = .inr r := by
  rw [← exists_iterate_iff]
  constructor
  · exact fun h => ⟨_, h⟩
  · rintro ⟨fuel, hfuel⟩
    cases hbound : tryConsumeChunkedBody body with
    | none =>
        rw [tryConsumeChunkedBody_hangs hbound] at hfuel
        cases hfuel
    | some r' =>
        obtain ⟨n, hn, hret⟩ := iterate_eq_some_iff.mp hfuel
        obtain ⟨n', hn', hret'⟩ := iterate_eq_some_iff.mp hbound
        obtain ⟨pos, hpos, hr⟩ := exists_returnsAfter_iff.mp ⟨n, hret⟩
        obtain ⟨pos', hpos', hr'⟩ := exists_returnsAfter_iff.mp ⟨n', hret'⟩
        obtain rfl := hpos.eq_of_returns hpos' hr hr'
        rw [hr] at hr'
        rw [Sum.inr.inj hr']

/-- The scanner frames no more than there is. -/
theorem le_length_of_tryConsumeChunkedBody {body : Bytes} {n : Nat}
    (h : tryConsumeChunkedBody body = some (some n)) : n ≤ body.length := by
  obtain ⟨pos, -, hret⟩ := tryConsumeChunkedBody_eq_some_iff.mp h
  obtain ⟨start, -, ⟨k, hk, rfl⟩ | ⟨-, hcrlf, rfl⟩⟩ := consumeChunk_eq_some_iff.mp hret
  · exact add_length_le_of_findFrom hk
  · have hle := (slice_lineDelim_iff.mp hcrlf).length_le
    rw [List.length_drop, length_lineDelim] at hle
    omega

/-! ### Size lines -/

/-- The value of hexadecimal digits. -/
def hexSize (digits : Bytes) : Option Nat :=
  digits.foldlM (fun n c => (digit 16 c).map fun d => n * 16 + d) 0

/-- A `chunk-size` with the value `n`, blanks, and a `chunk-ext`. -/
structure SizeLine (n : Nat) where
  digits : Bytes
  pad : Bytes
  ext : Bytes
  digits_ne : digits ≠ []
  value : hexSize digits = some n
  blank : ∀ c ∈ pad, c = 32 ∨ c = 9
  ext_start : ∀ c ∈ ext.head?, c = 59
  ext_line : ¬ lineDelim <:+: ext

def SizeLine.bytes {n : Nat} (l : SizeLine n) : Bytes := l.digits ++ (l.pad ++ l.ext)

theorem strip_append_blank {s pad : Bytes} (hs : s ≠ []) (hdigits : ∀ c ∈ s, isSpace c = false)
    (hpad : ∀ c ∈ pad, isSpace c = true) : strip (s ++ pad) = s := by
  obtain ⟨c, s', rfl⟩ := List.exists_cons_of_ne_nil hs
  have hfront : (c :: s' ++ pad).dropWhile isSpace = c :: s' ++ pad :=
    List.dropWhile_cons_of_neg (by simp [hdigits c List.mem_cons_self])
  rw [strip, hfront, List.rdropWhile, List.reverse_append, List.dropWhile_append_of_pos (by simpa using hpad)]
  have hback : (c :: s').reverse.dropWhile isSpace = (c :: s').reverse := by
    rw [List.dropWhile_eq_self_iff]
    intro hlen
    rw [hdigits _ (List.mem_reverse.mp (List.getElem_mem hlen))]
    exact Bool.false_ne_true
  rw [hback, List.reverse_reverse]

/-- `int(token, 16)` of plain hexadecimal digits is their value. -/
theorem int_hexSize {s : Bytes} {n : Nat} (hne : s ≠ []) (h : hexSize s = some n) :
    int 16 s = some (n : Int) := by
  have hdigits := isSome_of_foldlM h
  have hstrip : strip s = s := by
    have : strip (s ++ []) = s :=
      strip_append_blank hne (fun c hc => isSpace_of_digit (hdigits c hc)) (by simp)
    rwa [List.append_nil] at this
  obtain ⟨c, s', rfl⟩ := List.exists_cons_of_ne_nil hne
  have hc := hdigits c List.mem_cons_self
  have hsign : sign (c :: s') = (1, c :: s') := by
    unfold sign
    split
    · next heq => exact absurd (List.cons.inj heq).1 (ne_of_digit hc (by decide))
    · next heq => exact absurd (List.cons.inj heq).1 (ne_of_digit hc (by decide))
    · rfl
  have hprefix : hexPrefix (c :: s') = c :: s' := by
    unfold hexPrefix
    split
    · next x rest heq =>
      obtain ⟨rfl, rfl⟩ := List.cons.inj heq
      have hx := hdigits x (by simp)
      rw [if_neg]
      rintro (hx' | hx')
      · exact ne_of_digit hx (by decide) hx'
      · exact ne_of_digit hx (by decide) hx'
    · rfl
  have hvalue : PyText.digits 16 (c :: s') = some n := digits_of_foldlM hne h
  simp [int, skipIntSpace_eq_self hstrip, hsign, hprefix, hvalue]

/-- What the scanner reads off a size line. -/
theorem SizeLine.lineSize_bytes {n : Nat} (l : SizeLine n) : lineSize l.bytes = some (n : Int) := by
  have hdigits := isSome_of_foldlM l.value
  have hnot : ∀ c ∈ l.digits ++ l.pad, decide (c ≠ 59) = true := by
    intro c hc
    rcases List.mem_append.mp hc with hc | hc
    · exact decide_eq_true (ne_of_digit (hdigits c hc) (by decide))
    · rcases l.blank c hc with rfl | rfl <;> decide
  have hext : l.ext.takeWhile (· ≠ 59) = [] := by
    cases hl : l.ext with
    | nil => rfl
    | cons c rest =>
        have := l.ext_start c (by rw [hl]; rfl)
        rw [List.takeWhile_cons_of_neg (by simp [this])]
  have htoken : l.bytes.takeWhile (· ≠ 59) = l.digits ++ l.pad := by
    rw [SizeLine.bytes, ← List.append_assoc, List.takeWhile_append_of_pos hnot, hext, List.append_nil]
  have hstrip : strip (l.digits ++ l.pad) = l.digits :=
    strip_append_blank l.digits_ne (fun c hc => isSpace_of_digit (hdigits c hc)) fun c hc => by
      rcases l.blank c hc with rfl | rfl <;> decide
  rw [lineSize, htoken, hstrip]
  exact int_hexSize l.digits_ne l.value

theorem SizeLine.not_infix {n : Nat} (l : SizeLine n) : ¬ lineDelim <:+: l.bytes := by
  intro h
  rw [SizeLine.bytes, ← List.append_assoc] at h
  refine l.ext_line (infix_pair_of_not_mem (fun hmem => ?_) h)
  rcases List.mem_append.mp hmem with hmem | hmem
  · exact ne_of_digit (isSome_of_foldlM l.value _ hmem) (by decide) rfl
  · rcases l.blank _ hmem with h | h <;> cases h

/-! ### One turn of the scanner -/

section Turn

variable {n : Nat} (l : SizeLine n) (front rest : Bytes)

theorem SizeLine.sizeAt : LoadBalancer.sizeAt (front ++ (l.bytes ++ (lineDelim ++ rest))) front.length =
    some (front.length + l.bytes.length + 2, (n : Int)) := by
  rw [sizeAt_line front rest l.not_infix, l.lineSize_bytes]
  rfl

/-- The turn up to the chunk size, with the position behind the size line. -/
theorem consumeChunk_sizeLine (start : Nat) (hstart : start = front.length + (l.bytes.length + 2)) :
    let body := front ++ (l.bytes ++ (lineDelim ++ rest))
    consumeChunk body front.length =
      if (n : Int) = 0 then
        match find headerDelim rest with
        | none => if lineDelim <+: rest then .inr (some (start + 2)) else .inr none
        | some k => .inr (some (k + start + 4))
      else if rest.length < n + 2 then .inr none
      else if lineDelim <+: rest.drop n then .inl ((start + n + 2 : Nat) : Int)
      else .inr none := by
  intro body
  have hbody : body = (front ++ (l.bytes ++ lineDelim)) ++ rest := by simp [body]
  have hlen : start = (front ++ (l.bytes ++ lineDelim)).length := by simp [hstart, lineDelim]
  have hread : LoadBalancer.sizeAt body front.length = some (start, (n : Int)) := by
    rw [hstart, ← Nat.add_assoc]
    exact l.sizeAt front rest
  have hfind : findFrom headerDelim body (start : Int) = (find headerDelim rest).map (· + start) := by
    rw [hbody, hlen, findFrom_length]
  have hcrlf : ∀ k : Nat, slice body ((start + k : Nat) : Int) ((start + k + 2 : Nat) : Int) = lineDelim ↔
      lineDelim <+: rest.drop k := fun k => by
    rw [slice_lineDelim_iff, ← List.drop_drop, hbody, hlen, List.drop_left]
  rw [consumeChunk_of_sizeAt hread, hfind]
  split
  · cases find headerDelim rest with
    | none => exact if_congr (hcrlf 0) rfl rfl
    | some k => rfl
  · have hshort : ((body.length : Int) < start + ((n : Int) + 2)) ↔ rest.length < n + 2 := by
      rw [hbody, List.length_append, ← hlen]
      omega
    refine if_congr hshort rfl ?_
    rw [ite_not]
    exact if_congr (hcrlf n) rfl rfl

/-- Before the end of a size line the scanner asks for more. -/
theorem consumeChunk_short {k : Nat} (hk : k < l.bytes.length + 2) :
    consumeChunk (front ++ (l.bytes ++ (lineDelim ++ rest)).take k) front.length = .inr none := by
  have hwhole : find lineDelim (l.bytes ++ (lineDelim ++ rest)) = some l.bytes.length :=
    find_pair (by decide) rest l.not_infix
  refine consumeChunk_of_sizeAt_none ?_
  rw [LoadBalancer.sizeAt, findFrom_length, find_take_eq_none hwhole hk]
  rfl

/-- A part that reaches over the size line has the size line and a part of the rest. -/
theorem take_sizeLine {k : Nat} (hk : l.bytes.length + 2 ≤ k) :
    (l.bytes ++ (lineDelim ++ rest)).take k =
      l.bytes ++ (lineDelim ++ rest.take (k - (l.bytes.length + 2))) := by
  obtain ⟨j, rfl⟩ := Nat.exists_eq_add_of_le hk
  rw [← List.append_assoc, show l.bytes.length + 2 = (l.bytes ++ lineDelim).length by simp [lineDelim],
    List.take_length_add_append, Nat.add_sub_cancel_left, List.append_assoc]

end Turn

/-! ### The grammar -/

structure Chunk where
  data : Bytes
  nonempty : data ≠ []
  line : SizeLine data.length

def Chunk.bytes (c : Chunk) : Bytes := c.line.bytes ++ (lineDelim ++ (c.data ++ lineDelim))

/-- A trailer field; what it consists of does not matter. -/
structure TrailerLine where
  bytes : Bytes
  nonempty : bytes ≠ []
  line : ¬ lineDelim <:+: bytes

/-- `*chunk last-chunk trailer-part CRLF` -/
structure ChunkedBody where
  chunks : List Chunk
  last : SizeLine 0
  trailers : List TrailerLine

def trailerBytes : List TrailerLine → Bytes
  | [] => lineDelim
  | t :: ts => t.bytes ++ (lineDelim ++ trailerBytes ts)

def endBytes (last : SizeLine 0) (trailers : List TrailerLine) : Bytes :=
  last.bytes ++ (lineDelim ++ trailerBytes trailers)

def chunkedBytes (last : SizeLine 0) (trailers : List TrailerLine) : List Chunk → Bytes
  | [] => endBytes last trailers
  | c :: cs => c.bytes ++ chunkedBytes last trailers cs

def ChunkedBody.bytes (m : ChunkedBody) : Bytes := chunkedBytes m.last m.trailers m.chunks

def zeroLine : SizeLine 0 where
  digits := ascii "0"
  pad := []
  ext := []
  digits_ne := by decide
  value := by decide
  blank := by simp
  ext_start := by simp
  ext_line := by decide

/-- `2 CRLF hi CRLF 0 CRLF CRLF` -/
def hiChunked : ChunkedBody where
  chunks := [{
    data := ascii "hi"
    nonempty := by decide
    line := {
      digits := ascii "2", pad := [], ext := [], digits_ne := by decide, value := by decide
      blank := by simp, ext_start := by simp, ext_line := by decide } }]
  last := zeroLine
  trailers := []

/-- A body with a chunk, an extension and these trailers. -/
def oneChunk (trailers : List TrailerLine) : ChunkedBody where
  chunks := [{
    data := ascii "A"
    nonempty := by decide
    line := {
      digits := ascii "1", pad := [], ext := ascii ";x=y", digits_ne := by decide, value := by decide
      blank := by simp, ext_start := by rintro c ⟨⟩; rfl, ext_line := by decide } }]
  last := zeroLine
  trailers := trailers

def aTrailer : TrailerLine := ⟨ascii "T: v", by decide, by decide⟩

/-! ### Trailers -/

theorem TrailerLine.not_prefix (t : TrailerLine) (rest : Bytes) :
    ¬ lineDelim <+: t.bytes ++ (lineDelim ++ rest) := by
  have hpos : 0 < t.bytes.length := List.length_pos_of_ne_nil t.nonempty
  exact not_prefix_pair (by decide) t.line hpos

/-- The blank line that ends the trailer part is the first one in it. -/
theorem find_trailerBytes (t : TrailerLine) (ts : List TrailerLine) :
    ∃ k, find headerDelim (trailerBytes (t :: ts)) = some k ∧
      k + 4 = (trailerBytes (t :: ts)).length := by
  induction ts generalizing t with
  | nil =>
      refine ⟨t.bytes.length, ?_, by simp [trailerBytes, lineDelim]⟩
      have hfront : ∀ j < t.bytes.length, ¬ headerDelim <+: (t.bytes ++ headerDelim).drop j :=
        fun j hj hpre => not_prefix_pair (by decide) t.line hj
          (List.IsPrefix.trans ⟨[13, 10], rfl⟩ hpre)
      have := find_append_left hfront
      rw [show find headerDelim headerDelim = some 0 by decide, Option.map_some, Nat.zero_add] at this
      exact this
  | cons t' ts ih =>
      obtain ⟨k, hfind, hk⟩ := ih t'
      refine ⟨k + (t.bytes.length + 2), ?_, ?_⟩
      · have := find_double_pair (by decide) t.line (t'.not_prefix (trailerBytes ts))
        exact this.trans (by rw [show find [13, 10, 13, 10] (t'.bytes ++ (lineDelim ++ trailerBytes ts)) =
          some k from hfind]; rfl)
      · rw [trailerBytes, List.length_append, List.length_append, ← hk, length_lineDelim]
        omega

/-! ### The scanner on a well-formed body -/

/-- The length of a body, if it ends with its part of `n` bytes. -/
def framed (body : Bytes) (n : Nat) : Option Nat := if n = body.length then some n else none

/-- The end of a trailer part, in any part of it. -/
theorem scan_trailerBytes (trailers : List TrailerLine) {n : Nat}
    (hn : n ≤ (trailerBytes trailers).length) (start : Nat) :
    (match find headerDelim ((trailerBytes trailers).take n) with
      | none => if lineDelim <+: (trailerBytes trailers).take n then some (start + 2) else none
      | some k => some (k + start + 4)) =
      (framed (trailerBytes trailers) n).map (start + ·) := by
  cases trailers with
  | nil =>
      have hlen : n ≤ 2 := hn
      interval_cases n <;> rfl
  | cons t ts =>
      obtain ⟨k, hfind, hk⟩ := find_trailerBytes t ts
      cases hpart : find headerDelim ((trailerBytes (t :: ts)).take n) with
      | none =>
          have hshort : n ≠ (trailerBytes (t :: ts)).length := by
            rintro rfl
            rw [List.take_length, hfind] at hpart
            cases hpart
          have hcrlf : ¬ lineDelim <+: (trailerBytes (t :: ts)).take n := fun hpre =>
            t.not_prefix _ (hpre.trans (List.take_prefix _ _))
          simp only [framed, if_neg hshort, if_neg hcrlf, Option.map_none]
      | some j =>
          obtain ⟨hj, hle⟩ := (find_take_eq_some_iff hn).mp hpart
          rw [hfind] at hj
          obtain rfl := Option.some.inj hj
          have hwhole : n = (trailerBytes (t :: ts)).length := by
            rw [length_headerDelim] at hle
            omega
          simp only [framed, if_pos hwhole, Option.map_some]
          congr 1
          omega

/-- The scanner at the last chunk. -/
theorem consumeChunk_end (last : SizeLine 0) (trailers : List TrailerLine) (front : Bytes) {n : Nat}
    (hn : n ≤ (endBytes last trailers).length) :
    consumeChunk (front ++ (endBytes last trailers).take n) front.length =
      .inr ((framed (endBytes last trailers) n).map (front.length + ·)) := by
  have hlen : (endBytes last trailers).length = last.bytes.length + 2 + (trailerBytes trailers).length := by
    rw [endBytes, List.length_append, List.length_append, length_lineDelim]
    omega
  by_cases hshort : n < last.bytes.length + 2
  · have hpart : framed (endBytes last trailers) n = none := if_neg (by omega)
    rw [hpart]
    exact consumeChunk_short last front _ hshort
  · have hrest := scan_trailerBytes trailers (n := n - (last.bytes.length + 2)) (by omega)
      (front.length + (last.bytes.length + 2))
    have hpart : (framed (endBytes last trailers) n).map (front.length + ·) =
        (framed (trailerBytes trailers) (n - (last.bytes.length + 2))).map
          (front.length + (last.bytes.length + 2) + ·) := by
      unfold framed
      by_cases hwhole : n = (endBytes last trailers).length
      · rw [if_pos hwhole, if_pos (by omega), Option.map_some, Option.map_some]
        congr 1
        omega
      · rw [if_neg hwhole, if_neg (by omega)]
        rfl
    rw [hpart, ← hrest, endBytes, take_sizeLine last _ (by omega),
      consumeChunk_sizeLine last front _ _ rfl, if_pos Int.natCast_zero]
    split
    · split <;> rfl
    · rfl

/-- The scanner at a chunk of which a part is there. -/
theorem consumeChunk_chunk_short (c : Chunk) (front : Bytes) {n : Nat} (hn : n < c.bytes.length) :
    consumeChunk (front ++ c.bytes.take n) front.length = .inr none := by
  by_cases hshort : n < c.line.bytes.length + 2
  · exact consumeChunk_short c.line front _ hshort
  · have hlen : c.bytes.length = c.line.bytes.length + 2 + (c.data.length + 2) := by
      rw [Chunk.bytes, List.length_append, List.length_append, List.length_append,
        length_lineDelim]
      omega
    have hpos : (c.data.length : Int) ≠ 0 := by
      have := List.length_pos_of_ne_nil c.nonempty
      omega
    rw [Chunk.bytes, take_sizeLine c.line _ (by omega), consumeChunk_sizeLine c.line front _ _ rfl,
      if_neg hpos, if_pos]
    rw [List.length_take]
    omega

/-- The scanner at a chunk that is there. -/
theorem consumeChunk_chunk (c : Chunk) (front rest : Bytes) :
    consumeChunk (front ++ (c.bytes ++ rest)) front.length =
      .inl ((front ++ c.bytes).length : Nat) := by
  have hpos : (c.data.length : Int) ≠ 0 := by
    have := List.length_pos_of_ne_nil c.nonempty
    omega
  have hbytes : c.bytes ++ rest = c.line.bytes ++ (lineDelim ++ (c.data ++ (lineDelim ++ rest))) := by
    simp [Chunk.bytes]
  rw [hbytes, consumeChunk_sizeLine c.line front _ _ rfl, if_neg hpos, if_neg, List.drop_left,
    if_pos (List.prefix_append _ _)]
  · congr 2
    simp [Chunk.bytes, lineDelim]
    omega
  · simp [lineDelim]

/-- The scanner from the start of a chunk, on any part of what follows. -/
theorem returnsAfter_chunkedBytes (last : SizeLine 0) (trailers : List TrailerLine)
    (chunks : List Chunk) (front : Bytes) {n : Nat}
    (hn : n ≤ (chunkedBytes last trailers chunks).length) :
    ∃ turns ≤ n, ReturnsAfter (consumeChunk (front ++ (chunkedBytes last trailers chunks).take n))
      ((framed (chunkedBytes last trailers chunks) n).map (front.length + ·)) turns front.length := by
  induction chunks generalizing front n with
  | nil => exact ⟨0, Nat.zero_le _, consumeChunk_end last trailers front hn⟩
  | cons c cs ih =>
      have hlen : (chunkedBytes last trailers (c :: cs)).length =
          c.bytes.length + (chunkedBytes last trailers cs).length := List.length_append
      by_cases hshort : n < c.bytes.length
      · refine ⟨0, Nat.zero_le _, ?_⟩
        have hpart : framed (chunkedBytes last trailers (c :: cs)) n = none := if_neg (by omega)
        rw [hpart, chunkedBytes, List.take_append_of_le_length hshort.le]
        exact consumeChunk_chunk_short c front hshort
      · obtain ⟨m, rfl⟩ := Nat.exists_eq_add_of_le (Nat.le_of_not_lt hshort)
        obtain ⟨turns, hturns, hret⟩ := ih (front ++ c.bytes) (n := m) (by omega)
        have hpos : 0 < c.bytes.length := by
          rw [Chunk.bytes, List.length_append, List.length_append, length_lineDelim]
          omega
        refine ⟨turns + 1, by omega, ((front ++ c.bytes).length : Nat), ?_, ?_⟩
        · rw [chunkedBytes, List.take_length_add_append]
          exact consumeChunk_chunk c front _
        · have hpart : (framed (chunkedBytes last trailers (c :: cs)) (c.bytes.length + m)).map
              (front.length + ·) =
              (framed (chunkedBytes last trailers cs) m).map ((front ++ c.bytes).length + ·) := by
            unfold framed
            by_cases hwhole : m = (chunkedBytes last trailers cs).length
            · rw [if_pos hwhole, if_pos (by omega), Option.map_some, Option.map_some,
                List.length_append, Nat.add_assoc]
            · rw [if_neg hwhole, if_neg (by omega)]
              rfl
          rw [hpart, chunkedBytes, List.take_length_add_append, ← List.append_assoc]
          exact hret

/-- **The scanner is exact.** On the first `n` bytes of a well-formed chunked body it returns the length
of the body when these are all of it, and asks for more when they are not. -/
theorem tryConsumeChunkedBody_take (m : ChunkedBody) {n : Nat} (hn : n ≤ m.bytes.length) :
    tryConsumeChunkedBody (m.bytes.take n) = some (framed m.bytes n) := by
  obtain ⟨turns, hturns, hret⟩ := returnsAfter_chunkedBytes m.last m.trailers m.chunks [] hn
  rw [tryConsumeChunkedBody, iterate_eq_some_iff]
  refine ⟨turns, ?_, ?_⟩
  · rw [List.length_take, Nat.min_eq_left hn]
    omega
  · have hmap : (framed m.bytes n).map (([] : Bytes).length + ·) = framed m.bytes n := by
      cases framed m.bytes n <;> simp
    rw [← hmap]
    exact hret

/-! ### The scanner on a well-formed body with more bytes behind it -/

/-- How many of the bytes behind a body the scanner takes for a part of it. Without trailers it looks for the
blank line that would end them, and goes on past the end of the body to find one. -/
def excessFramed (trailers : List TrailerLine) (rest : Bytes) : Nat :=
  match trailers with
  | [] =>
      match find headerDelim (lineDelim ++ rest) with
      | none => 0
      | some k => k + 2
  | _ :: _ => 0

theorem consumeChunk_end_append (last : SizeLine 0) (trailers : List TrailerLine) (front rest : Bytes) :
    consumeChunk (front ++ (endBytes last trailers ++ rest)) front.length =
      .inr (some (front.length + (endBytes last trailers).length + excessFramed trailers rest)) := by
  have hbytes : endBytes last trailers ++ rest =
      last.bytes ++ (lineDelim ++ (trailerBytes trailers ++ rest)) := by simp [endBytes]
  have hlen : (endBytes last trailers).length = last.bytes.length + 2 + (trailerBytes trailers).length := by
    rw [endBytes, List.length_append, List.length_append, length_lineDelim]
    omega
  rw [hbytes, consumeChunk_sizeLine last front _ _ rfl, if_pos Int.natCast_zero, hlen]
  cases trailers with
  | nil =>
      rw [trailerBytes, excessFramed, length_lineDelim]
      cases find headerDelim (lineDelim ++ rest) with
      | none =>
          dsimp only
          rw [if_pos (List.prefix_append _ _)]
          congr 2
      | some k =>
          dsimp only
          congr 2
          omega
  | cons t ts =>
      obtain ⟨k, hfind, hk⟩ := find_trailerBytes t ts
      rw [find_append_of_some rest hfind, excessFramed]
      dsimp only
      congr 2
      omega

theorem returnsAfter_append (last : SizeLine 0) (trailers : List TrailerLine) (chunks : List Chunk)
    (front rest : Bytes) :
    ∃ turns ≤ (chunkedBytes last trailers chunks).length,
      ReturnsAfter (consumeChunk (front ++ (chunkedBytes last trailers chunks ++ rest)))
        (some (front.length + (chunkedBytes last trailers chunks).length + excessFramed trailers rest))
        turns front.length := by
  induction chunks generalizing front with
  | nil => exact ⟨0, Nat.zero_le _, consumeChunk_end_append last trailers front rest⟩
  | cons c cs ih =>
      obtain ⟨turns, hturns, hret⟩ := ih (front ++ c.bytes)
      have hlen : (chunkedBytes last trailers (c :: cs)).length =
          c.bytes.length + (chunkedBytes last trailers cs).length := List.length_append
      have hpos : 0 < c.bytes.length := by
        rw [Chunk.bytes, List.length_append, List.length_append, length_lineDelim]
        omega
      have hbytes : chunkedBytes last trailers (c :: cs) ++ rest =
          c.bytes ++ (chunkedBytes last trailers cs ++ rest) := List.append_assoc _ _ _
      refine ⟨turns + 1, by omega, ((front ++ c.bytes).length : Nat), ?_, ?_⟩
      · rw [hbytes]
        exact consumeChunk_chunk c front _
      · have hsum : (front ++ c.bytes).length + (chunkedBytes last trailers cs).length =
            front.length + (c.bytes.length + (chunkedBytes last trailers cs).length) := by
          rw [List.length_append, Nat.add_assoc]
        rw [hbytes, hlen, ← List.append_assoc front, ← hsum]
        exact hret

/-- **The scanner on a stream that goes on.** It frames the body, and perhaps some of what follows. -/
theorem tryConsumeChunkedBody_append (m : ChunkedBody) (rest : Bytes) :
    tryConsumeChunkedBody (m.bytes ++ rest) =
      some (some (m.bytes.length + excessFramed m.trailers rest)) := by
  obtain ⟨turns, hturns, hret⟩ := returnsAfter_append m.last m.trailers m.chunks [] rest
  rw [tryConsumeChunkedBody, iterate_eq_some_iff]
  refine ⟨turns, ?_, ?_⟩
  · rw [List.length_append]
    exact Nat.lt_succ_of_le (by rw [ChunkedBody.bytes]; omega)
  · rw [List.length_nil, Nat.zero_add] at hret
    exact hret

end LoadBalancer
