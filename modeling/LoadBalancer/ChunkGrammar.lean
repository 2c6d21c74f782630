import LoadBalancer.ChunkScan

/-! The scanner and the grammar of chunked bodies: what it makes of a well-formed body and of its parts, and
which of the bodies that it frames are well formed, or at least start with a well-formed one. -/

namespace LoadBalancer

open PyText ListSearch WhileLoop

/-- **The scanner is exact on well-formed bodies**: it returns the length of the whole body, and asks for
more on every part of it that ends earlier. -/
theorem chunkedBody_framed_exactly (m : ChunkedBody) :
    tryConsumeChunkedBody m.bytes = some (some m.bytes.length) ∧
      ∀ part, part <+: m.bytes → part ≠ m.bytes → tryConsumeChunkedBody part = some none := by
  constructor
  · have hwhole := tryConsumeChunkedBody_take m le_rfl
    rw [List.take_length, framed, if_pos rfl] at hwhole
    exact hwhole
  · intro part hpart hne
    have hlen : part.length ≠ m.bytes.length := fun hlen => hne (hpart.eq_of_length hlen)
    have hcut := tryConsumeChunkedBody_take m hpart.length_le
    rw [← List.prefix_iff_eq_take.mp hpart, framed, if_neg hlen] at hcut
    exact hcut

/-! ### Plain size lines -/

/-- Hexadecimal digits and an optional `chunk-ext`: no sign, prefix, underscore or blank. -/
def PlainLine (line : Bytes) : Prop :=
  ∃ digits ext, line = digits ++ ext ∧ digits ≠ [] ∧ (∀ c ∈ digits, (digit 16 c).isSome) ∧
    ∀ c ∈ ext.head?, c = 59

/-- The sizes of the body are written with no blanks behind them. -/
def ChunkedBody.Plain (m : ChunkedBody) : Prop := (∀ c ∈ m.chunks, c.line.pad = []) ∧ m.last.pad = []

theorem SizeLine.plainLine {n : Nat} (l : SizeLine n) (hpad : l.pad = []) : PlainLine l.bytes := by
  refine ⟨l.digits, l.ext, ?_, l.digits_ne, isSome_of_foldlM l.value, l.ext_start⟩
  rw [SizeLine.bytes, hpad, List.nil_append]

theorem hexSize_isSome {s : Bytes} (h : ∀ c ∈ s, (digit 16 c).isSome) : ∃ n, hexSize s = some n := by
  suffices hall : ∀ value, ∃ n,
      s.foldlM (fun n c => (digit 16 c).map fun d => n * 16 + d) value = some n from hall 0
  induction s with
  | nil => exact fun value => ⟨value, rfl⟩
  | cons c s ih =>
      intro value
      obtain ⟨d, hd⟩ := Option.isSome_iff_exists.mp (h c List.mem_cons_self)
      rw [List.foldlM_cons, hd]
      exact ih (fun c' hc' => h c' (List.mem_cons_of_mem c hc')) (value * 16 + d)

/-- The line of a size of the grammar that has the property. -/
def IsSizeLine (Q : ∀ n, SizeLine n → Prop) (line : Bytes) : Prop :=
  ∃ n, ∃ l : SizeLine n, l.bytes = line ∧ Q n l

/-- A plain line is the line of a size. -/
theorem PlainLine.isSizeLine {line : Bytes} (h : PlainLine line) (hline : ¬ lineDelim <:+: line) :
    IsSizeLine (fun _ l => l.pad = []) line := by
  obtain ⟨digits, ext, rfl, hne, hdigits, hext⟩ := h
  obtain ⟨n, hn⟩ := hexSize_isSome hdigits
  exact ⟨n,
    { digits := digits
      pad := []
      ext := ext
      digits_ne := hne
      value := hn
      blank := by simp
      ext_start := hext
      ext_line := fun hinf => hline (hinf.trans (List.suffix_append digits ext).isInfix) }, rfl, rfl⟩

/-! ### From the accepted bytes to the grammar -/

/-- Bytes up to a first blank line that they do not start with are trailers. -/
theorem exists_trailerBytes {rest : Bytes} {k : Nat} (h : find headerDelim rest = some k)
    (hcrlf : ¬ lineDelim <+: rest) :
    ∃ trailers rest', rest = trailerBytes trailers ++ rest' ∧ (trailerBytes trailers).length = k + 4 := by
  induction hn : rest.length using Nat.strong_induction_on generalizing rest k with
  | _ n ih =>
      subst hn
      have hpair : lineDelim <:+: rest :=
        List.IsInfix.trans ⟨[], lineDelim, rfl⟩ (isSome_find_iff.mp (Option.isSome_of_eq_some h))
      obtain ⟨line, rest', rfl, hline⟩ := exists_first_pair hpair
      have hne : line ≠ [] := by
        rintro rfl
        exact hcrlf (List.prefix_append _ _)
      by_cases hend : lineDelim <+: rest'
      · obtain ⟨rest'', rfl⟩ := hend
        have hk : find headerDelim (line ++ 13 :: 10 :: 13 :: 10 :: rest'') = some line.length :=
          find_double_pair_end (by decide) rest'' hline
        obtain rfl : line.length = k := Option.some.inj (hk.symm.trans h)
        exact ⟨[⟨line, hne, hline⟩], rest'', by simp [trailerBytes, lineDelim], by
          simp [trailerBytes, lineDelim]⟩
      · have hk : find headerDelim (line ++ 13 :: 10 :: rest') =
            (find headerDelim rest').map (· + (line.length + 2)) :=
          find_double_pair (by decide) hline hend
        rw [h] at hk
        obtain ⟨j, hj, rfl⟩ := Option.map_eq_some_iff.mp hk.symm
        obtain ⟨trailers, rest'', rfl, hlen⟩ := ih rest'.length (by simp; omega) hj hend rfl
        refine ⟨⟨line, hne, hline⟩ :: trailers, rest'', by simp [trailerBytes, lineDelim], ?_⟩
        rw [trailerBytes, List.length_append, List.length_append, hlen, length_lineDelim]
        dsimp only
        omega

section SizeLines

variable {Q : ∀ n, SizeLine n → Prop} {body : Bytes}

/-- The lines that sizes are read from at a position have the property. -/
def ReadsSizeLine (Q : ∀ n, SizeLine n → Prop) (body : Bytes) (pos : Int) : Prop :=
  ∀ start size, sizeAt body pos = some (start, size) → IsSizeLine Q (slice body pos (start - 2 : Int))

/-- A line end that follows the last-chunk line at once is the end: no blank line stands behind it. -/
def EndsAtOnce (body : Bytes) (start : Nat) : Prop :=
  slice body start (start + 2 : Nat) = lineDelim → findFrom headerDelim body start = none

/-- The line of a size has no line end in it. -/
theorem not_infix_of_sizeAt {pos start : Nat} {size : Int} (hpos : pos ≤ body.length)
    (h : sizeAt body pos = some (start, size)) : ¬ lineDelim <:+: slice body pos (start - 2 : Int) := by
  obtain ⟨front, line, rest, rfl, rfl, hline, -, rfl⟩ := exists_line_of_sizeAt hpos h
  have hbounds : ((front.length + line.length + 2 : Nat) - 2 : Int) = (front.length + line.length : Nat) := by
    omega
  rw [hbounds, slice_length_add _ _ _ _ rfl]
  exact hline

/-- A size line at a position of the body, and the bytes from there. -/
theorem exists_sizeLine_of_sizeAt {pos start : Nat} {size : Int} (hpos : pos ≤ body.length)
    (h : sizeAt body pos = some (start, size)) (hline : IsSizeLine Q (slice body pos (start - 2 : Int))) :
    ∃ n rest, ∃ l : SizeLine n, Q n l ∧ size = n ∧ body.drop pos = l.bytes ++ (lineDelim ++ rest) ∧
      body.drop start = rest := by
  obtain ⟨front, line, rest, rfl, rfl, -, hsize, rfl⟩ := exists_line_of_sizeAt hpos h
  have hbounds : ((front.length + line.length + 2 : Nat) - 2 : Int) = (front.length + line.length : Nat) := by
    omega
  rw [hbounds, slice_length_add _ _ _ _ rfl] at hline
  obtain ⟨n, l, rfl, hQ⟩ := hline
  rw [l.lineSize_bytes] at hsize
  refine ⟨n, rest, l, hQ, (Option.some.inj hsize).symm, List.drop_left, ?_⟩
  rw [Nat.add_assoc, List.drop_length_add_append, ← List.append_assoc]
  exact List.drop_left' (by simp [lineDelim])

/-- What is framed from the last chunk on starts with an end of the grammar, and is that end unless a blank
line is found behind a line end that ends the body. -/
theorem exists_endBytes {pos n : Nat} (hpos : pos ≤ body.length)
    (hret : consumeChunk body pos = .inr (some n)) (hread : ReadsSizeLine Q body pos) :
    ∃ (last : SizeLine 0) (trailers : List TrailerLine) (rest : Bytes), Q 0 last ∧
      body.drop pos = endBytes last trailers ++ rest ∧ pos + (endBytes last trailers).length ≤ n ∧
      ((∀ start, sizeAt body pos = some (start, 0) → EndsAtOnce body start) →
        n = pos + (endBytes last trailers).length) := by
  obtain ⟨start, hsize, hend⟩ := consumeChunk_eq_some_iff.mp hret
  obtain ⟨m, rest, last, hQ, hm, hdrop, hrest⟩ := exists_sizeLine_of_sizeAt hpos hsize (hread start 0 hsize)
  obtain rfl : m = 0 := by omega
  have hstart : start = pos + (last.bytes.length + 2) := by
    have hlen := congrArg List.length hdrop
    have hlen' := congrArg List.length hrest
    rw [List.length_drop] at hlen hlen'
    rw [List.length_append, List.length_append, length_lineDelim] at hlen
    have := lt_of_sizeAt hpos hsize
    omega
  have hle := (lt_of_sizeAt hpos hsize).2
  have hcrlf : slice body start (start + 2 : Nat) = lineDelim ↔ lineDelim <+: rest := by
    rw [← hrest]
    exact slice_lineDelim_iff
  have hsearch : findFrom headerDelim body start = (find headerDelim rest).map (· + start) := by
    rw [findFrom, bound_natCast, Nat.min_eq_left hle, hrest]
  rw [hcrlf, hsearch] at hend
  have hwhole : ∀ trailers rest', rest = trailerBytes trailers ++ rest' →
      body.drop pos = endBytes last trailers ++ rest' ∧
        pos + (endBytes last trailers).length = start + (trailerBytes trailers).length := by
    intro trailers rest' hrest'
    refine ⟨by rw [hdrop, hrest', endBytes]; simp, ?_⟩
    rw [endBytes, List.length_append, List.length_append, length_lineDelim, hstart]
    omega
  by_cases hpre : lineDelim <+: rest
  · -- the line end ends the body, wherever the search for trailers has led
    obtain ⟨rest', hrest'⟩ := hpre
    obtain ⟨hbytes, hsum⟩ := hwhole [] rest' hrest'.symm
    have hsum' : pos + (endBytes last []).length = start + 2 := hsum
    refine ⟨last, [], rest', hQ, hbytes, ?_, fun honce => ?_⟩
    · rcases hend with ⟨k, hk, rfl⟩ | ⟨-, -, rfl⟩
      · obtain ⟨j, -, rfl⟩ := Option.map_eq_some_iff.mp hk
        omega
      · exact hsum'.le
    · have hnone := honce start hsize (hcrlf.mpr ⟨rest', hrest'⟩)
      rw [hsearch] at hnone
      rcases hend with ⟨k, hk, rfl⟩ | ⟨-, -, rfl⟩
      · rw [hnone] at hk
        cases hk
      · exact hsum'.symm
  · rcases hend with ⟨k, hk, rfl⟩ | ⟨-, hcontra, -⟩
    · obtain ⟨j, hj, rfl⟩ := Option.map_eq_some_iff.mp hk
      obtain ⟨trailers, rest', hrest', hlen⟩ := exists_trailerBytes hj hpre
      obtain ⟨hbytes, hsum⟩ := hwhole trailers rest' hrest'
      exact ⟨last, trailers, rest', hQ, hbytes, by omega, fun _ => by omega⟩
    · exact absurd hcontra hpre

/-- What is framed from a position on starts with a list of chunks and an end. -/
theorem exists_chunkedBytes {pos : Nat} {stop : Int} {n : Nat} (hpos : pos ≤ body.length)
    (hvisit : Visits (consumeChunk body) pos stop) (hret : consumeChunk body stop = .inr (some n))
    (hread : ∀ p : Nat, p ≤ body.length → Visits (consumeChunk body) pos p → ReadsSizeLine Q body p) :
    ∃ (chunks : List Chunk) (last : SizeLine 0) (trailers : List TrailerLine) (rest : Bytes),
      (∀ c ∈ chunks, Q _ c.line) ∧ Q 0 last ∧
      body.drop pos = chunkedBytes last trailers chunks ++ rest ∧
      pos + (chunkedBytes last trailers chunks).length ≤ n ∧
      ((∀ start, sizeAt body stop = some (start, 0) → EndsAtOnce body start) →
        n = pos + (chunkedBytes last trailers chunks).length) := by
  induction hgap : body.length - pos using Nat.strong_induction_on generalizing pos with
  | _ gap ih =>
      subst hgap
      rcases hvisit.head_cases with rfl | ⟨next, hstep, hvisit'⟩
      · obtain ⟨last, trailers, rest, hQ, hdrop, hle, heq⟩ :=
          exists_endBytes hpos hret (hread _ hpos .refl)
        exact ⟨[], last, trailers, rest, by simp, hQ, hdrop, hle, heq⟩
      · obtain ⟨start, size, hsize, hzero, hfits, hcrlf, rfl⟩ := consumeChunk_eq_inl_iff.mp hstep
        obtain ⟨m, rest, l, hQ, rfl, hdrop, hrest⟩ :=
          exists_sizeLine_of_sizeAt hpos hsize (hread _ hpos .refl start size hsize)
        have hlt := lt_of_sizeAt hpos hsize
        have hnext : ((start : Int) + m + 2) = (start + m + 2 : Nat) := by omega
        rw [hnext] at hvisit'
        obtain ⟨chunks, last, trailers, rest', hQs, hlast, hdrop', hle, heq⟩ := ih
          (body.length - (start + m + 2)) (by omega) (by omega) hvisit'
          (fun p hle hp => hread p hle (.head hstep (hnext ▸ hp))) rfl
        have hafter : body.drop (start + m) = lineDelim ++ (chunkedBytes last trailers chunks ++ rest') := by
          obtain ⟨tail, htail⟩ := slice_lineDelim_iff.mp hcrlf
          have hskip : tail = body.drop (start + m + 2) := by
            rw [← List.drop_drop, ← htail]
            rfl
          rw [← htail, hskip, hdrop']
        obtain ⟨data, hdata⟩ : ∃ data, data = rest.take m := ⟨_, rfl⟩
        obtain rfl : m = data.length := by
          rw [hdata, ← hrest, List.length_take, List.length_drop]
          omega
        have hsplit : rest = data ++ (lineDelim ++ (chunkedBytes last trailers chunks ++ rest')) := by
          have htake := List.take_append_drop data.length rest
          rw [← hdata] at htake
          rw [← hafter, ← List.drop_drop, hrest, htake]
        have hne : data ≠ [] := fun hnil => hzero (by rw [hnil]; rfl)
        have hsum : pos + (chunkedBytes last trailers (⟨data, hne, l⟩ :: chunks)).length =
            start + data.length + 2 + (chunkedBytes last trailers chunks).length := by
          have hlen := congrArg List.length hdrop
          have hlen' := congrArg List.length hrest
          rw [List.length_drop] at hlen hlen'
          rw [List.length_append, List.length_append, length_lineDelim] at hlen
          rw [chunkedBytes, List.length_append, Chunk.bytes]
          simp only [List.length_append, length_lineDelim]
          omega
        refine ⟨⟨data, hne, l⟩ :: chunks, last, trailers, rest', ?_, hlast, ?_, hsum ▸ hle, fun honce => ?_⟩
        · intro c hc
          rcases List.mem_cons.mp hc with rfl | hc
          · exact hQ
          · exact hQs c hc
        · rw [hdrop, hsplit, chunkedBytes, Chunk.bytes]
          simp
        · rw [hsum]
          exact heq honce

end SizeLines

/-! ### From the grammar to the turns -/

/-- The positions that the scan of a well-formed body comes to are the starts of its chunks and of its end. -/
theorem visits_chunkedBytes {body : Bytes} (last : SizeLine 0) (trailers : List TrailerLine)
    (chunks : List Chunk) (front rest : Bytes)
    (hbody : body = front ++ (chunkedBytes last trailers chunks ++ rest)) {pos : Int}
    (h : Visits (consumeChunk body) front.length pos) :
    (∃ c ∈ chunks, ∃ front' rest', body = front' ++ (c.bytes ++ rest') ∧ pos = front'.length) ∨
      ∃ front', body = front' ++ (endBytes last trailers ++ rest) ∧ pos = front'.length := by
  induction chunks generalizing front with
  | nil =>
      refine .inr ⟨front, hbody, ?_⟩
      rcases h.head_cases with rfl | ⟨next, hstep, -⟩
      · rfl
      · rw [hbody, chunkedBytes, consumeChunk_end_append] at hstep
        cases hstep
  | cons c chunks ih =>
      rw [chunkedBytes, List.append_assoc] at hbody
      rcases h.head_cases with rfl | ⟨next, hstep, hvisit⟩
      · exact .inl ⟨c, List.mem_cons_self, front, _, hbody, rfl⟩
      · have hturn := consumeChunk_chunk c front (chunkedBytes last trailers chunks ++ rest)
        rw [← hbody, hstep] at hturn
        rw [Sum.inl.inj hturn] at hvisit
        refine (ih (front ++ c.bytes) (by rw [hbody, List.append_assoc]) hvisit).imp_left ?_
        rintro ⟨c', hc', hplace⟩
        exact ⟨c', List.mem_cons_of_mem c hc', hplace⟩

theorem SizeLine.slice_line {n : Nat} (l : SizeLine n) (front rest : Bytes) :
    slice (front ++ (l.bytes ++ (lineDelim ++ rest))) front.length
      ((front.length + l.bytes.length + 2 : Nat) - 2 : Int) = l.bytes := by
  have hbounds : ((front.length + l.bytes.length + 2 : Nat) - 2 : Int) =
      (front.length + l.bytes.length : Nat) := by omega
  rw [hbounds]
  exact slice_length_add _ _ _ _ rfl

/-- The lines that the scan of a well-formed body reads sizes from are those of its chunks and of its end. -/
theorem ChunkedBody.line_of_visits (m : ChunkedBody) {rest : Bytes} {pos : Int} {start : Nat} {size : Int}
    (hvisit : Visits (consumeChunk (m.bytes ++ rest)) 0 pos)
    (hsize : sizeAt (m.bytes ++ rest) pos = some (start, size)) :
    (∃ c ∈ m.chunks, slice (m.bytes ++ rest) pos (start - 2 : Int) = c.line.bytes ∧
      size = c.data.length) ∨
    (slice (m.bytes ++ rest) pos (start - 2 : Int) = m.last.bytes ∧
      ∃ front, m.bytes ++ rest = front ++ (trailerBytes m.trailers ++ rest) ∧ start = front.length) := by
  have hm : m.bytes ++ rest = [] ++ (chunkedBytes m.last m.trailers m.chunks ++ rest) := rfl
  rcases visits_chunkedBytes m.last m.trailers m.chunks [] rest hm hvisit with
    ⟨c, hc, front, rest', hbody, rfl⟩ | ⟨front, hbody, rfl⟩
  · have hbytes : m.bytes ++ rest = front ++ (c.line.bytes ++ (lineDelim ++ (c.data ++ (lineDelim ++ rest')))) := by
      rw [hbody, Chunk.bytes]
      simp
    rw [hbytes, c.line.sizeAt] at hsize
    obtain ⟨rfl, rfl⟩ := Prod.mk.inj (Option.some.inj hsize)
    exact .inl ⟨c, hc, by rw [hbytes, c.line.slice_line], rfl⟩
  · have hbytes : m.bytes ++ rest =
        front ++ (m.last.bytes ++ (lineDelim ++ (trailerBytes m.trailers ++ rest))) := by
      rw [hbody, endBytes]
      simp
    rw [hbytes, m.last.sizeAt] at hsize
    obtain ⟨rfl, rfl⟩ := Prod.mk.inj (Option.some.inj hsize)
    refine .inr ⟨by rw [hbytes, m.last.slice_line], front ++ (m.last.bytes ++ lineDelim), ?_, ?_⟩
    · rw [hbytes]
      simp
    · simp [lineDelim]
      omega

/-- The scan reads plain size lines only, and no blank line stands behind a last chunk that a line end
follows at once. -/
def ReadsPlainly (body : Bytes) : Prop :=
  ∀ pos start size, Visits (consumeChunk body) 0 pos → sizeAt body pos = some (start, size) →
    PlainLine (slice body pos (start - 2 : Int)) ∧
      (size = 0 → slice body start (start + 2 : Nat) = lineDelim → findFrom headerDelim body start = none)

/-- A well-formed body with plain sizes is read plainly, unless the scan takes more than the body. -/
theorem ChunkedBody.Plain.readsPlainly {m : ChunkedBody} (hplain : m.Plain) (rest : Bytes)
    (hexcess : excessFramed m.trailers rest = 0) : ReadsPlainly (m.bytes ++ rest) := by
  intro pos start size hvisit hsize
  rcases m.line_of_visits hvisit hsize with ⟨c, hc, hline, rfl⟩ | ⟨hline, front, hbytes, rfl⟩
  · rw [hline]
    refine ⟨c.line.plainLine (hplain.1 c hc), fun hzero => ?_⟩
    have := List.length_pos_of_ne_nil c.nonempty
    omega
  · rw [hline]
    refine ⟨m.last.plainLine hplain.2, fun _ hcrlf => ?_⟩
    rw [hbytes] at hcrlf ⊢
    have hpre := slice_lineDelim_iff.mp hcrlf
    rw [List.drop_left] at hpre
    cases htrailers : m.trailers with
    | cons t ts =>
        rw [htrailers, trailerBytes, List.append_assoc, List.append_assoc] at hpre
        exact absurd hpre (t.not_prefix _)
    | nil =>
        rw [findFrom_length, trailerBytes]
        rw [htrailers, excessFramed] at hexcess
        cases hfind : find headerDelim (lineDelim ++ rest) with
        | none => rfl
        | some k =>
            rw [hfind] at hexcess
            cases hexcess

/-- A body that starts with a well-formed one up to the end that the scanner finds is read plainly. -/
theorem readsPlainly_of_take {body : Bytes} {n : Nat} (h : tryConsumeChunkedBody body = some (some n))
    (hle : n ≤ body.length) {m : ChunkedBody} (hplain : m.Plain) (hm : body.take n = m.bytes) :
    ReadsPlainly body := by
  have hbody : body = m.bytes ++ body.drop n := by
    rw [← hm, List.take_append_drop]
  have hlen : n = m.bytes.length := by
    rw [← hm, List.length_take, Nat.min_eq_left hle]
  have hwhole := tryConsumeChunkedBody_append m (body.drop n)
  rw [← hbody, h] at hwhole
  have hexcess : excessFramed m.trailers (body.drop n) = 0 := by
    have hsum := Option.some.inj (Option.some.inj hwhole)
    omega
  rw [hbody]
  exact hplain.readsPlainly (body.drop n) hexcess

/-- **Which of the framed bodies are well formed.** What the scanner frames is a chunked body of the grammar
exactly when it reads plain size lines only and does not look for trailers behind a line end that ends the
body. -/
theorem framed_wellFormed_iff (body : Bytes) (n : Nat) (h : tryConsumeChunkedBody body = some (some n)) :
    (0 < n ∧ n ≤ body.length ∧ ∃ m : ChunkedBody, m.Plain ∧ body.take n = m.bytes) ↔ ReadsPlainly body := by
  constructor
  · rintro ⟨-, hle, m, hplain, hm⟩
    exact readsPlainly_of_take h hle hplain hm
  · intro hplain
    obtain ⟨stop, hvisit, hret⟩ := tryConsumeChunkedBody_eq_some_iff.mp h
    have hpos : 0 < n := by
      obtain ⟨start, -, ⟨k, -, rfl⟩ | ⟨-, -, rfl⟩⟩ := consumeChunk_eq_some_iff.mp hret
      all_goals omega
    obtain ⟨chunks, last, trailers, rest, hpads, hlast, hdrop, -, hn⟩ :=
      exists_chunkedBytes (Nat.zero_le _) hvisit hret fun p hp hvisit' start size hsize =>
        (hplain p start size hvisit' hsize).1.isSizeLine (not_infix_of_sizeAt hp hsize)
    have hn' := hn fun start hsize => (hplain stop start 0 hvisit hsize).2 rfl
    rw [List.drop_zero] at hdrop
    rw [Nat.zero_add] at hn'
    refine ⟨hpos, ?_, ⟨chunks, last, trailers⟩, ⟨hpads, hlast⟩, ?_⟩
    · rw [hdrop, List.length_append]
      omega
    · rw [hdrop, hn', List.take_left]
      rfl

theorem framed_wellFormed_trailer :
    ∃ m : ChunkedBody, m.Plain ∧ (ascii "1;x=y\r\nA\r\n0\r\nT: v\r\n\r\nB").take 21 = m.bytes := by
  have hplain : (oneChunk [aTrailer]).Plain := ⟨by simp [oneChunk], rfl⟩
  refine ((framed_wellFormed_iff (ascii "1;x=y\r\nA\r\n0\r\nT: v\r\n\r\nB") 21 (by decide)).mpr ?_).2.2
  exact hplain.readsPlainly (m := oneChunk [aTrailer]) (ascii "B") (by decide)

/-- A signed size is no size of the grammar, and the scanner frames the body that has it. -/
theorem framed_signed_size :
    tryConsumeChunkedBody (ascii "+1\r\nA\r\n0\r\n\r\n") = some (some 12) ∧
      ¬ ∃ m : ChunkedBody, m.Plain ∧ (ascii "+1\r\nA\r\n0\r\n\r\n").take 12 = m.bytes := by
  have hframed : tryConsumeChunkedBody (ascii "+1\r\nA\r\n0\r\n\r\n") = some (some 12) := by decide
  refine ⟨hframed, ?_⟩
  rintro ⟨m, hplain, hm⟩
  have hread := readsPlainly_of_take hframed (by decide) hplain hm
  obtain ⟨⟨digits, ext, hline, hne, hdigits, -⟩, -⟩ := hread 0 4 1 .refl (by decide)
  obtain ⟨c, digits, rfl⟩ := List.exists_cons_of_ne_nil hne
  have hc : c = 43 := (List.cons.inj hline).1.symm
  rw [hc] at hdigits
  exact absurd (hdigits 43 List.mem_cons_self) (by decide)

/-! ### Complete bodies -/

end LoadBalancer
