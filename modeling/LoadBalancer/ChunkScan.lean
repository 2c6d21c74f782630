import LoadBalancer.Chunked

/-! The chunk scanner on arbitrary bytes. A size is any integer that `int(token, 16)` reads, so a turn may
go back, or to a position counted from the end of the body. It is said when the scan always advances, and
when the end that it finds does not depend on the bytes behind it. -/

namespace LoadBalancer

open PyText ListSearch WhileLoop

/-! ### Size lines in the bytes -/

/-- The bytes of a body around a position where a size line is read. -/
theorem exists_line_of_sizeAt {body : Bytes} {pos start : Nat} {size : Int} (hpos : pos ≤ body.length)
    (h : sizeAt body pos = some (start, size)) :
    ∃ front line rest, body = front ++ (line ++ (lineDelim ++ rest)) ∧ front.length = pos ∧
      ¬ lineDelim <:+: line ∧ lineSize line = some size ∧ start = pos + line.length + 2 := by
  obtain ⟨front, tail, rfl, rfl⟩ : ∃ front tail, body = front ++ tail ∧ front.length = pos :=
    ⟨body.take pos, body.drop pos, (List.take_append_drop _ _).symm, List.length_take_of_le hpos⟩
  have hfind : (find lineDelim tail).isSome := by
    obtain ⟨lineEnd, hline, -⟩ := Option.bind_eq_some_iff.mp h
    rw [findFrom_length] at hline
    obtain ⟨j, hj, -⟩ := Option.map_eq_some_iff.mp hline
    rw [hj]
    rfl
  obtain ⟨line, rest, rfl, hline⟩ := exists_first_pair (isSome_find_iff.mp hfind)
  have hread : sizeAt (front ++ (line ++ (lineDelim ++ rest))) front.length = _ := sizeAt_line front rest hline
  obtain ⟨size', hsize, heq⟩ := Option.map_eq_some_iff.mp (hread.symm.trans h)
  obtain ⟨rfl, rfl⟩ := Prod.mk.inj heq
  exact ⟨front, line, rest, rfl, rfl, hline, hsize, rfl⟩

theorem lt_of_sizeAt {body : Bytes} {pos start : Nat} {size : Int} (hpos : pos ≤ body.length)
    (h : sizeAt body pos = some (start, size)) : pos + 2 ≤ start ∧ start ≤ body.length := by
  obtain ⟨front, line, rest, rfl, rfl, -, -, rfl⟩ := exists_line_of_sizeAt hpos h
  simp only [List.length_append, length_lineDelim]
  omega

/-- Where a scan comes to, it is inside the body. -/
theorem mem_Icc_of_visits {body : Bytes} {pos : Int} (h : Visits (consumeChunk body) 0 pos) :
    pos ∈ Finset.Icc (-(body.length : Int)) body.length := by
  induction h with
  | refl => exact Finset.mem_Icc.mpr ⟨by omega, by omega⟩
  | tail _ hstep _ => exact consumeChunk_mem_Icc hstep

/-! ### Advance -/

/-- A position counted from the start of the body that is its start or follows a line end. -/
def AtLineStart (body : Bytes) (pos : Int) : Prop :=
  ∃ k : Nat, pos = k ∧ k ≤ body.length ∧ (k = 0 ∨ ∃ j, k = j + 2 ∧ lineDelim <+: body.drop j)

theorem atLineStart_zero (body : Bytes) : AtLineStart body 0 := ⟨0, rfl, Nat.zero_le _, .inl rfl⟩

theorem AtLineStart.next {body : Bytes} {pos next : Int} (h : consumeChunk body pos = .inl next)
    (hnext : 0 ≤ next) : AtLineStart body next := by
  obtain ⟨k, hpre, hle, hk⟩ := lineDelim_of_consumeChunk h
  exact ⟨k + 2, by omega, hle, .inr ⟨k, rfl, hpre⟩⟩

/-- A size that leads back to a line end leads to one in front of its own line. -/
theorem next_le_of_countsBack {body : Bytes} {pos : Int} {start : Nat} {size : Int}
    (hpos : AtLineStart body pos) (h : sizeAt body pos = some (start, size)) (hsize : size < -2)
    (hcrlf : slice body (start + size) (start + size + 2) = lineDelim) : start + size + 2 ≤ pos := by
  obtain ⟨i, rfl, hi, hprev⟩ := hpos
  obtain ⟨front, line, rest, rfl, rfl, hline, -, rfl⟩ := exists_line_of_sizeAt hi h
  obtain ⟨k, hpre, -, hk⟩ := lineDelim_of_slice hcrlf
  rcases hk with hk | ⟨-, hneg⟩
  · by_contra hlt
    rcases Nat.lt_or_ge k front.length with hfront | hinside
    · -- a line end stops right in front of the line, so none stops at its first byte
      obtain hzero | ⟨j, hj, hprev⟩ := hprev
      · omega
      · obtain rfl : k = j + 1 := by omega
        obtain ⟨tail, htail⟩ := hprev
        rw [← List.drop_drop, ← htail] at hpre
        exact absurd (List.cons_prefix_cons.mp hpre).1 (by decide)
    · obtain ⟨j, rfl⟩ := Nat.exists_eq_add_of_le hinside
      rw [List.drop_length_add_append] at hpre
      exact not_prefix_pair (by decide) hline (by omega) hpre
  · omega

/-- A turn that goes on advances unless its size leads back to a line end. -/
theorem lt_of_consumeChunk {body : Bytes} {pos next : Int} (hpos : AtLineStart body pos)
    (h : consumeChunk body pos = .inl next)
    (hback : ∀ start size, sizeAt body pos = some (start, size) → size < -2 →
      slice body (start + size) (start + size + 2) ≠ lineDelim) : pos < next ∧ next ≤ body.length := by
  obtain ⟨start, size, hsize, -, hfits, hcrlf, rfl⟩ := consumeChunk_eq_inl_iff.mp h
  have hforward : -2 ≤ size := not_lt.mp fun hlt => hback start size hsize hlt hcrlf
  obtain ⟨i, rfl, hi, -⟩ := hpos
  have hlt := lt_of_sizeAt hi hsize
  omega

/-- **The scan of a body always advances exactly when no size leads back to a line end.** Each turn that
does not return then raises the position, and the scan returns. -/
theorem scan_advances_iff (body : Bytes) :
    ((∃ fuel r, iterate (consumeChunk body) fuel 0 = some r) ∧
      ∀ pos next, Visits (consumeChunk body) 0 pos → consumeChunk body pos = .inl next →
        pos < next ∧ next ≤ body.length) ↔
    ∀ pos start size, Visits (consumeChunk body) 0 pos → sizeAt body pos = some (start, size) →
      size < -2 → slice body (start + size) (start + size + 2) ≠ lineDelim := by
  have hline : (∀ pos next, Visits (consumeChunk body) 0 pos → AtLineStart body pos →
      consumeChunk body pos = .inl next → pos < next) →
      ∀ pos, Visits (consumeChunk body) 0 pos → AtLineStart body pos := by
    intro hlt pos hvisit
    induction hvisit with
    | refl => exact atLineStart_zero body
    | tail hbefore hstep ih =>
        obtain ⟨k, hk, -⟩ := id ih
        have hnext := hlt _ _ hbefore ih hstep
        exact .next hstep (by omega)
  constructor
  · rintro ⟨-, hadvance⟩ pos start size hvisit hsize hback hcrlf
    have hpos := hline (fun pos next hv _ hstep => (hadvance pos next hv hstep).1) pos hvisit
    have hle := next_le_of_countsBack hpos hsize hback hcrlf
    obtain ⟨i, rfl, hi, -⟩ := hpos
    have hstep : consumeChunk body i = .inl (start + size + 2) :=
      consumeChunk_eq_inl_iff.mpr ⟨start, size, hsize, by omega, by omega, hcrlf, rfl⟩
    exact absurd (hadvance _ _ hvisit hstep).1 (by omega)
  · intro hback
    have hstep : ∀ pos next, Visits (consumeChunk body) 0 pos → AtLineStart body pos →
        consumeChunk body pos = .inl next → pos < next ∧ next ≤ body.length :=
      fun pos next hvisit hpos h => lt_of_consumeChunk hpos h fun start size => hback pos start size hvisit
    have hvisited := hline fun pos next hv hpos h => (hstep pos next hv hpos h).1
    have hadvance : ∀ pos next, Visits (consumeChunk body) 0 pos → consumeChunk body pos = .inl next →
        pos < next ∧ next ≤ body.length :=
      fun pos next hvisit h => hstep pos next hvisit (hvisited pos hvisit) h
    refine ⟨exists_iterate_of_measure Int.toNat body.length fun pos next hvisit h => ?_, hadvance⟩
    obtain ⟨k, hk, -⟩ := hvisited pos hvisit
    obtain ⟨hlt, hle⟩ := hadvance pos next hvisit h
    omega

/-- A size of `-6` behind a chunk of one byte leads back to the end of that chunk: the scan stays there. -/
theorem scan_hangs :
    ¬ ∃ fuel r, iterate (consumeChunk (ascii "1\r\nA\r\n-6\r\n")) fuel 0 = some r := by
  rintro ⟨fuel, r, hr⟩
  have hnone : tryConsumeChunkedBody (ascii "1\r\nA\r\n-6\r\n") = none := by decide
  rw [tryConsumeChunkedBody_hangs hnone fuel] at hr
  cases hr

/-! ### The frame end when more bytes follow -/

/-- No turn of the scan leads in front of the body, to a position counted from its end. -/
def StaysInside (body : Bytes) : Prop := ∀ pos, Visits (consumeChunk body) 0 pos → 0 ≤ pos

/-- The scan comes to a last-chunk line, which ends at `start`. -/
def LastLine (body : Bytes) (start : Nat) : Prop :=
  ∃ pos, Visits (consumeChunk body) 0 pos ∧ sizeAt body pos = some (start, 0)

theorem sizeAt_append {body : Bytes} {pos : Nat} (hpos : pos ≤ body.length) {line : Nat × Int}
    (h : sizeAt body pos = some line) (extra : Bytes) : sizeAt (body ++ extra) pos = some line := by
  obtain ⟨start, size⟩ := line
  obtain ⟨front, line, rest, rfl, rfl, hline, hsize, rfl⟩ := exists_line_of_sizeAt hpos h
  have hread := sizeAt_line front (rest ++ extra) hline
  rw [hsize] at hread
  simp only [List.append_assoc]
  exact hread

/-- A turn between positions counted from the start does not see the bytes behind the body. -/
theorem consumeChunk_append {body : Bytes} {pos next : Int} (hpos : 0 ≤ pos) (hle : pos ≤ body.length)
    (hnext : 0 ≤ next) (h : consumeChunk body pos = .inl next) (extra : Bytes) :
    consumeChunk (body ++ extra) pos = .inl next := by
  obtain ⟨k, rfl⟩ := Int.eq_ofNat_of_zero_le hpos
  obtain ⟨start, size, hsize, hzero, hfits, hcrlf, rfl⟩ := consumeChunk_eq_inl_iff.mp h
  obtain ⟨j, hpre, -, hj⟩ := lineDelim_of_slice hcrlf
  have hj : (j : Int) = start + size := by omega
  have hcrlf' : slice (body ++ extra) (start + size) (start + size + 2) = lineDelim := by
    rw [← hj]
    refine slice_lineDelim_iff.mpr ?_
    rw [List.drop_append_of_le_length (by omega)]
    exact hpre.trans (List.prefix_append _ _)
  rw [consumeChunk_eq_inl_iff]
  refine ⟨start, size, sizeAt_append (by omega) hsize extra, hzero, ?_, hcrlf', rfl⟩
  rw [List.length_append]
  omega

theorem visits_append {body : Bytes} (hinside : StaysInside body) {pos : Int}
    (h : Visits (consumeChunk body) 0 pos) (extra : Bytes) : Visits (consumeChunk (body ++ extra)) 0 pos :=
  h.carry fun u u' hu hstep hu' => consumeChunk_append (hinside u hu)
    (Finset.mem_Icc.mp (mem_Icc_of_visits hu)).2 (hinside u' hu') hstep extra

/-- The frame end that the scan of a body that goes on finds at the last-chunk line. -/
theorem framed_at_lastLine {body : Bytes} {start n : Nat} (h : LastLine body start) :
    tryConsumeChunkedBody body = some (some n) ↔
      (∃ k, findFrom headerDelim body start = some k ∧ n = k + 4) ∨
        (findFrom headerDelim body start = none ∧ slice body start (start + 2 : Nat) = lineDelim ∧
          n = start + 2) := by
  obtain ⟨pos, hvisit, hsize⟩ := h
  rw [tryConsumeChunkedBody_eq_some_iff]
  constructor
  · rintro ⟨pos', hvisit', hret'⟩
    have hret : ∃ r, consumeChunk body pos = .inr r := by
      cases hstep : consumeChunk body pos with
      | inr r => exact ⟨r, rfl⟩
      | inl next =>
          obtain ⟨start', size, hsize', hzero, -⟩ := consumeChunk_eq_inl_iff.mp hstep
          rw [hsize] at hsize'
          exact absurd (Prod.mk.inj (Option.some.inj hsize')).2.symm hzero
    obtain ⟨r, hret⟩ := hret
    obtain rfl := hvisit.eq_of_returns hvisit' hret hret'
    obtain ⟨start', hsize', hend⟩ := consumeChunk_eq_some_iff.mp hret'
    rw [hsize] at hsize'
    obtain rfl : start = start' := (Prod.mk.inj (Option.some.inj hsize')).1
    exact hend
  · exact fun hend => ⟨pos, hvisit, consumeChunk_eq_some_iff.mpr ⟨start, hsize, hend⟩⟩

theorem exists_lastLine {body : Bytes} {n : Nat} (h : tryConsumeChunkedBody body = some (some n)) :
    ∃ start, LastLine body start := by
  obtain ⟨pos, hvisit, hret⟩ := tryConsumeChunkedBody_eq_some_iff.mp h
  obtain ⟨start, hsize, -⟩ := consumeChunk_eq_some_iff.mp hret
  exact ⟨start, pos, hvisit, hsize⟩

theorem LastLine.le_length {body : Bytes} {start : Nat} (hinside : StaysInside body)
    (h : LastLine body start) : start ≤ body.length := by
  obtain ⟨pos, hvisit, hsize⟩ := h
  obtain ⟨k, rfl⟩ := Int.eq_ofNat_of_zero_le (hinside pos hvisit)
  have hle := (Finset.mem_Icc.mp (mem_Icc_of_visits hvisit)).2
  exact (lt_of_sizeAt (by omega) hsize).2

theorem LastLine.append {body : Bytes} {start : Nat} (hinside : StaysInside body) (h : LastLine body start)
    (extra : Bytes) : LastLine (body ++ extra) start := by
  obtain ⟨pos, hvisit, hsize⟩ := h
  refine ⟨pos, visits_append hinside hvisit extra, ?_⟩
  obtain ⟨k, rfl⟩ := Int.eq_ofNat_of_zero_le (hinside pos hvisit)
  have hle := (Finset.mem_Icc.mp (mem_Icc_of_visits hvisit)).2
  exact sizeAt_append (by omega) hsize extra

theorem LastLine.unique {body : Bytes} {start start' : Nat} (h : LastLine body start)
    (h' : LastLine body start') : start = start' := by
  have hreturns : ∀ pos s, sizeAt body pos = some (s, 0) → ∃ r, consumeChunk body pos = .inr r := by
    intro pos s hsize
    rw [consumeChunk_of_sizeAt hsize, if_pos rfl]
    split
    · split <;> exact ⟨_, rfl⟩
    · exact ⟨_, rfl⟩
  obtain ⟨pos, hvisit, hsize⟩ := h
  obtain ⟨pos', hvisit', hsize'⟩ := h'
  obtain ⟨r, hret⟩ := hreturns pos start hsize
  obtain ⟨r', hret'⟩ := hreturns pos' start' hsize'
  obtain rfl := hvisit.eq_of_returns hvisit' hret hret'
  rw [hsize] at hsize'
  exact (Prod.mk.inj (Option.some.inj hsize')).1

/-- The frame end moves exactly when a blank line behind the last chunk is only found in the bytes that
follow the body. -/
theorem framed_append_iff {body : Bytes} {n : Nat} (hinside : StaysInside body)
    (h : tryConsumeChunkedBody body = some (some n)) (extra : Bytes) :
    tryConsumeChunkedBody (body ++ extra) = some (some n) ↔
      ∀ start, LastLine body start → findFrom headerDelim body start = none →
        findFrom headerDelim (body ++ extra) start = none := by
  obtain ⟨start, hlast⟩ := exists_lastLine h
  have hle := hlast.le_length hinside
  rw [framed_at_lastLine (hlast.append hinside extra)]
  rcases (framed_at_lastLine hlast).mp h with ⟨k, hk, rfl⟩ | ⟨hnone, hcrlf, rfl⟩
  · refine iff_of_true (.inl ⟨k, findFrom_append_of_some hle extra hk, rfl⟩) fun start' hlast' hnone => ?_
    obtain rfl := hlast.unique hlast'
    rw [hk] at hnone
    cases hnone
  · constructor
    · rintro (⟨k, hk, heq⟩ | ⟨hnone', -⟩) start' hlast' -
      · have := le_of_findFrom (by rw [List.length_append]; omega) hk
        omega
      · exact hlast.unique hlast' ▸ hnone'
    · intro hall
      refine .inr ⟨hall start hlast hnone, ?_, rfl⟩
      have hpre := slice_lineDelim_iff.mp hcrlf
      refine slice_lineDelim_iff.mpr ?_
      rw [List.drop_append_of_le_length hle]
      exact hpre.trans (List.prefix_append _ _)

/-- A scan that leaves the body does so from a position that it comes to whatever follows. -/
theorem exists_leaving {body : Bytes} {pos : Int} (h : Visits (consumeChunk body) 0 pos) (hneg : pos < 0) :
    ∃ (k : Nat) (next : Int), k ≤ body.length ∧ next < 0 ∧ consumeChunk body k = .inl next ∧
      ∀ extra, Visits (consumeChunk (body ++ extra)) 0 k := by
  suffices hrun : (0 ≤ pos ∧ ∀ extra, Visits (consumeChunk (body ++ extra)) 0 pos) ∨
      ∃ (k : Nat) (next : Int), k ≤ body.length ∧ next < 0 ∧ consumeChunk body k = .inl next ∧
        ∀ extra, Visits (consumeChunk (body ++ extra)) 0 k from
    hrun.resolve_left fun hpos => absurd hpos.1 (by omega)
  clear hneg
  induction h with
  | refl => exact .inl ⟨le_rfl, fun extra => .refl⟩
  | @tail pos next hvisit hstep ih =>
      rcases ih with ⟨hpos, hsame⟩ | hleft
      · obtain ⟨k, rfl⟩ := Int.eq_ofNat_of_zero_le hpos
        have hle := (Finset.mem_Icc.mp (mem_Icc_of_visits hvisit)).2
        rcases Int.lt_or_le next 0 with hneg | hnext
        · exact .inr ⟨k, next, by omega, hneg, hstep, hsame⟩
        · exact .inl ⟨hnext, fun extra => (hsame extra).step (consumeChunk_append hpos hle hnext hstep extra)⟩
      · exact .inr hleft

/-- Some bytes behind the body stop a scan that leaves it. -/
theorem exists_append_unframed {body : Bytes} (h : ¬ StaysInside body) :
    ∃ extra, ∀ n, tryConsumeChunkedBody (body ++ extra) ≠ some (some n) := by
  obtain ⟨pos, hvisit, hneg⟩ : ∃ pos, Visits (consumeChunk body) 0 pos ∧ pos < 0 := by
    simp only [StaysInside, not_forall, not_le] at h
    obtain ⟨pos, hvisit, hneg⟩ := h
    exact ⟨pos, hvisit, hneg⟩
  obtain ⟨k, next, hk, hnext, hstep, hsame⟩ := exists_leaving hvisit hneg
  obtain ⟨start, size, hsize, hzero, hfits, hcrlf, rfl⟩ := consumeChunk_eq_inl_iff.mp hstep
  -- as many bytes as the turn counts back, so that it leads to the first of them
  obtain ⟨back, hback⟩ : ∃ back : Nat, (back : Int) = -(start + size) := ⟨(-(start + size)).toNat, by omega⟩
  refine ⟨List.replicate back 65, fun n hn => ?_⟩
  obtain ⟨pos', hvisit', hret⟩ := tryConsumeChunkedBody_eq_some_iff.mp hn
  have hsize' := sizeAt_append hk hsize (List.replicate back 65)
  cases hturn : consumeChunk (body ++ List.replicate back 65) k with
  | inl next' =>
      obtain ⟨start', size', heq, -, -, hcrlf', -⟩ := consumeChunk_eq_inl_iff.mp hturn
      rw [hsize'] at heq
      obtain ⟨rfl, rfl⟩ := Prod.mk.inj (Option.some.inj heq)
      obtain ⟨j, hpre, -, hj⟩ := lineDelim_of_slice hcrlf'
      rw [List.length_append, List.length_replicate] at hj
      obtain rfl : j = body.length := by omega
      rw [List.drop_left] at hpre
      cases back with
      | zero => omega
      | succ back => exact absurd (List.cons_prefix_cons.mp hpre).1 (by decide)
  | inr r =>
      obtain rfl := (hsame _).eq_of_returns hvisit' hturn hret
      obtain ⟨start', heq, -⟩ := consumeChunk_eq_some_iff.mp hret
      rw [hsize'] at heq
      exact hzero (Prod.mk.inj (Option.some.inj heq)).2

/-- **When the frame end is stable.** It is the same whatever follows the body exactly when the scan stays
inside the body and a blank line stands behind the last chunk. For a scan that stays inside, given bytes
move it exactly when they bring that blank line. -/
theorem frameEnd_stable_iff (body : Bytes) (n : Nat) (h : tryConsumeChunkedBody body = some (some n)) :
    ((∀ extra, tryConsumeChunkedBody (body ++ extra) = some (some n)) ↔
      StaysInside body ∧ ∀ start, LastLine body start → findFrom headerDelim body start ≠ none) ∧
    (StaysInside body → ∀ extra, (tryConsumeChunkedBody (body ++ extra) = some (some n) ↔
      ∀ start, LastLine body start → findFrom headerDelim body start = none →
        findFrom headerDelim (body ++ extra) start = none)) := by
  refine ⟨⟨fun hstable => ?_, fun ⟨hinside, hblank⟩ extra => ?_⟩,
    fun hinside => framed_append_iff hinside h⟩
  · have hinside : StaysInside body := by
      by_contra hleaves
      obtain ⟨extra, hextra⟩ := exists_append_unframed hleaves
      exact hextra n (hstable extra)
    refine ⟨hinside, fun start hlast hnone => ?_⟩
    have hle := hlast.le_length hinside
    have hsame := (framed_append_iff hinside h headerDelim).mp (hstable headerDelim) start hlast hnone
    rw [findFrom, bound_natCast, List.length_append, Nat.min_eq_left (by omega), Option.map_eq_none_iff,
      find_eq_none_iff] at hsame
    refine hsame (body.length - start) (by simp; omega) ?_
    rw [List.drop_drop, Nat.add_sub_cancel' hle, List.drop_left]
  · exact (framed_append_iff hinside h extra).mpr fun start hlast hnone => absurd hnone (hblank start hlast)

/-- A trailer keeps the end where it is. -/
theorem frameEnd_stable_trailer :
    (∀ extra, tryConsumeChunkedBody (ascii "0\r\nA\r\n\r\n" ++ extra) = some (some 8)) ∧
      tryConsumeChunkedBody (ascii "0\r\nA\r\n\r\n" ++ ascii "X\r\n\r\n") = some (some 8) := by
  have hvisits : ∀ pos, Visits (consumeChunk (ascii "0\r\nA\r\n\r\n")) 0 pos → pos = 0 := by
    intro pos hvisit
    rcases hvisit.head_cases with rfl | ⟨next, hstep, -⟩
    · rfl
    · rw [show consumeChunk (ascii "0\r\nA\r\n\r\n") 0 = .inr (some 8) by decide] at hstep
      cases hstep
  have hinside : StaysInside (ascii "0\r\nA\r\n\r\n") := fun pos hvisit => (hvisits pos hvisit).ge
  have hblank : ∀ start, LastLine (ascii "0\r\nA\r\n\r\n") start →
      findFrom headerDelim (ascii "0\r\nA\r\n\r\n") start ≠ none := by
    rintro start ⟨pos, hvisit, hsize⟩
    obtain rfl := hvisits pos hvisit
    rw [show sizeAt (ascii "0\r\nA\r\n\r\n") 0 = some (3, 0) by decide] at hsize
    obtain rfl := (Prod.mk.inj (Option.some.inj hsize)).1
    decide
  obtain ⟨hall, hgiven⟩ := frameEnd_stable_iff (ascii "0\r\nA\r\n\r\n") 8 (by decide)
  exact ⟨hall.mpr ⟨hinside, hblank⟩, (hgiven hinside _).mpr fun start hlast hnone =>
    absurd hnone (hblank start hlast)⟩

/-- A response in two parts: the first is framed at its own end, both together at the end of the second. -/
theorem frameEnd_moves :
    tryConsumeChunkedBody (ascii "0\r\n\r\n") = some (some 5) ∧
      tryConsumeChunkedBody (ascii "0\r\n\r\n" ++ ascii "X\r\n\r\n") ≠ some (some 5) := by decide

end LoadBalancer
