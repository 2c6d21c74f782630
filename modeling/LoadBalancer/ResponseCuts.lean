import LoadBalancer.EndOfStream
import LoadBalancer.WholeResponse

/-! Responses, however they are cut. Where the bytes that a backend sends end the response in one place
only, every way to cut them gives the same relayed response. They may end it in several: a body with a
`Content-Length` is relayed with all that arrived along with its last byte, and the search for the end of
the trailers of a chunked body goes on into what follows it. -/

namespace LoadBalancer

open PyText ListSearch Outcome

/-! ### The status line -/

/-- Two prefixes of a stream that complete a response show the same status. -/
theorem parseResponseStatus_eq {stream p p' : Bytes} {relay relay' : Bytes} (hp : p <+: stream)
    (hp' : p' <+: stream) (h : completion p = some (some relay)) (h' : completion p' = some (some relay')) :
    parseResponseStatus p = parseResponseStatus p' := by
  have hsame : ∀ {q q' r : Bytes}, completion q = some (some r) → q <+: q' →
      parseResponseStatus q' = parseResponseStatus q := by
    rintro q _ r hq ⟨more, rfl⟩
    obtain ⟨stop, hstop⟩ :=
      Option.isSome_iff_exists.mp (isSome_find_line_of_header (isSome_find_of_completion hq))
    exact parseResponseStatus_append hstop more
  rcases List.prefix_or_prefix_of_prefix hp hp' with hle | hle
  · exact (hsame h hle).symm
  · exact hsame h' hle

/-! ### Where a response can end -/

/-- From the buffer `old` on, the bytes of `buf` can end the response in one place only: nothing follows the
bytes that its `Content-Length` counts, or the chunk scanner finds one length in all longer parts in which
it finds any. -/
def OneEnd (old buf : Bytes) : Prop :=
  ∀ hdrEnd, find headerDelim buf = some hdrEnd →
    let start := hdrEnd + headerDelim.length
    if (isChunkedResponse buf).getD false then
      ∀ k k' n n', old.length < k → k ≤ buf.length → old.length < k' → k' ≤ buf.length →
        tryConsumeChunkedBody ((buf.take k).drop start) = some (some n) →
        tryConsumeChunkedBody ((buf.take k').drop start) = some (some n') → n = n'
    else
      0 ≤ getResponseContentLength buf → (buf.length : Int) ≤ start + getResponseContentLength buf

section Ends

variable {buf relay : Bytes} {hdrEnd k : Nat}

theorem completion_take_none (hnone : find headerDelim buf = none) (hk : k ≤ buf.length) :
    completion (buf.take k) = some none := by
  have hshort : find headerDelim (buf.take k) = none := by
    cases hfind : find headerDelim (buf.take k) with
    | none => rfl
    | some hdrEnd => cases hnone.symm.trans ((find_take_eq_some_iff hk).mp hfind).1
  rw [completion, hshort]

/-- A part without all of the header block. -/
theorem completion_take_short (hfind : find headerDelim buf = some hdrEnd)
    (hshort : k < hdrEnd + headerDelim.length) : completion (buf.take k) = some none := by
  have hnone := find_take_eq_none hfind hshort
  rw [completion, hnone]

theorem completion_take_chunked (hfind : find headerDelim buf = some hdrEnd)
    (hchunked : (isChunkedResponse buf).getD false = true) (hk : k ≤ buf.length) :
    completion (buf.take k) = some (some relay) ↔
      ∃ n, tryConsumeChunkedBody ((buf.take k).drop (hdrEnd + headerDelim.length)) = some (some n) ∧
        relay = buf.take (hdrEnd + headerDelim.length + n) := by
  by_cases hshort : k < hdrEnd + headerDelim.length
  · have hempty : (buf.take k).drop (hdrEnd + headerDelim.length) = [] := by
      refine List.drop_eq_nil_iff.mpr ?_
      rw [List.length_take]
      omega
    rw [completion_take_short hfind hshort, hempty]
    refine ⟨nofun, ?_⟩
    rintro ⟨n, hn, -⟩
    exact absurd hn (by simp [show tryConsumeChunkedBody [] = some none by decide])
  · have hpart : find headerDelim (buf.take k) = some hdrEnd :=
      (find_take_eq_some_iff hk).mpr ⟨hfind, Nat.le_of_not_lt hshort⟩
    have hsame : isChunkedResponse (buf.take k) = isChunkedResponse buf := by
      conv_rhs => rw [← List.take_append_drop k buf]
      exact (isChunkedResponse_append hpart _).symm
    rw [completion, hpart]
    dsimp only
    rw [hsame, if_pos hchunked, Option.map_eq_some_iff]
    have hcut : ∀ n, tryConsumeChunkedBody ((buf.take k).drop (hdrEnd + headerDelim.length)) = some (some n) →
        (buf.take k).take (hdrEnd + headerDelim.length + n) = buf.take (hdrEnd + headerDelim.length + n) := by
      intro n hn
      have hle := le_length_of_tryConsumeChunkedBody hn
      rw [List.length_drop, List.length_take, Nat.min_eq_left hk] at hle
      rw [List.take_take, Nat.min_eq_left (by omega)]
    constructor
    · rintro ⟨framed, hscan, hrelay⟩
      obtain ⟨n, rfl, rfl⟩ := Option.map_eq_some_iff.mp hrelay
      exact ⟨n, hscan, hcut n hscan⟩
    · rintro ⟨n, hscan, rfl⟩
      exact ⟨some n, hscan, congrArg some (hcut n hscan)⟩

theorem completion_take_plain (hfind : find headerDelim buf = some hdrEnd)
    (hchunked : ¬ (isChunkedResponse buf).getD false = true) (hk : k ≤ buf.length) :
    completion (buf.take k) = some (some relay) ↔ hdrEnd + headerDelim.length ≤ k ∧
      0 ≤ getResponseContentLength buf ∧
      (hdrEnd + headerDelim.length : Nat) + getResponseContentLength buf ≤ k ∧ relay = buf.take k := by
  by_cases hshort : k < hdrEnd + headerDelim.length
  · rw [completion_take_short hfind hshort]
    exact ⟨fun h => absurd h (by simp), fun h => absurd h.1 (by omega)⟩
  · have hpart : find headerDelim (buf.take k) = some hdrEnd :=
      (find_take_eq_some_iff hk).mpr ⟨hfind, Nat.le_of_not_lt hshort⟩
    have hsplit : buf.take k ++ buf.drop k = buf := List.take_append_drop k buf
    have hsame := isChunkedResponse_append hpart (buf.drop k)
    have hlength := getResponseContentLength_append hpart (buf.drop k)
    rw [hsplit] at hsame hlength
    have hbody : ((buf.take k).drop (hdrEnd + headerDelim.length)).length =
        k - (hdrEnd + headerDelim.length) := by
      rw [List.length_drop, List.length_take, Nat.min_eq_left hk]
    rw [completion, hpart]
    dsimp only
    rw [← hsame, if_neg hchunked, ← hlength, hbody]
    split
    · next hcomplete =>
      constructor
      · intro hrelay
        exact ⟨by omega, hcomplete.1, by omega, (Option.some.inj (Option.some.inj hrelay)).symm⟩
      · rintro ⟨-, -, -, rfl⟩
        rfl
    · next hpartial =>
      refine ⟨fun h => absurd h (by simp), ?_⟩
      rintro ⟨-, hnonneg, hle, -⟩
      exact absurd ⟨hnonneg, by omega⟩ hpartial

/-- Any two parts of `buf` longer than `old` that complete a response complete the same. -/
def OneRelay (old buf : Bytes) : Prop :=
  ∀ k k' relay relay', old.length < k → k ≤ buf.length → old.length < k' → k' ≤ buf.length →
    completion (buf.take k) = some (some relay) → completion (buf.take k') = some (some relay') →
    relay = relay'

theorem oneRelay_iff {old stream : Bytes} (hpending : completion old = some none) :
    OneRelay old (old ++ stream) ↔ OneEnd old (old ++ stream) := by
  have hold : (old ++ stream).take old.length = old := List.take_left
  have hle : old.length ≤ (old ++ stream).length := by rw [List.length_append]; omega
  constructor
  · intro hone hdrEnd hfind
    dsimp only
    split
    · next hchunked =>
      intro k k' n n' hk hkb hk' hkb' hscan hscan'
      have heq := hone k k' _ _ hk hkb hk' hkb' ((completion_take_chunked hfind hchunked hkb).mpr ⟨n, hscan, rfl⟩)
        ((completion_take_chunked hfind hchunked hkb').mpr ⟨n', hscan', rfl⟩)
      have hn := le_length_of_tryConsumeChunkedBody hscan
      have hn' := le_length_of_tryConsumeChunkedBody hscan'
      have hlen := congrArg List.length heq
      simp only [List.length_take, List.length_drop] at hn hn' hlen
      have hend := add_length_le_of_find hfind
      omega
    · next hplain =>
      intro hnonneg
      by_contra hmore
      obtain ⟨total, htotal⟩ : ∃ total : Nat,
          (hdrEnd + headerDelim.length : Nat) + getResponseContentLength (old ++ stream) = total :=
        Int.eq_ofNat_of_zero_le (by omega)
      have hshort : old.length < total := by
        by_contra hlong
        have hcomplete := (completion_take_plain (k := old.length) hfind hplain hle).mpr
          ⟨by omega, hnonneg, by omega, rfl⟩
        rw [hold, hpending] at hcomplete
        cases hcomplete
      have heq := hone total (old ++ stream).length _ _ hshort (by omega) (by omega) le_rfl
        ((completion_take_plain hfind hplain (by omega)).mpr ⟨by omega, hnonneg, by omega, rfl⟩)
        ((completion_take_plain hfind hplain le_rfl).mpr ⟨by omega, hnonneg, by omega, rfl⟩)
      have hlen := congrArg List.length heq
      simp only [List.length_take] at hlen
      omega
  · intro hone k k' relay relay' hk hkb hk' hkb' hcomplete hcomplete'
    cases hfind : find headerDelim (old ++ stream) with
    | none =>
        rw [completion_take_none hfind hkb] at hcomplete
        cases hcomplete
    | some hdrEnd =>
        have hends := hone hdrEnd hfind
        dsimp only at hends
        split at hends
        · next hchunked =>
          obtain ⟨n, hscan, rfl⟩ := (completion_take_chunked hfind hchunked hkb).mp hcomplete
          obtain ⟨n', hscan', rfl⟩ := (completion_take_chunked hfind hchunked hkb').mp hcomplete'
          rw [hends k k' n n' hk hkb hk' hkb' hscan hscan']
        · next hplain =>
          obtain ⟨-, hnonneg, htotal, rfl⟩ := (completion_take_plain hfind hplain hkb).mp hcomplete
          obtain ⟨-, -, htotal', rfl⟩ := (completion_take_plain hfind hplain hkb').mp hcomplete'
          have hall := hends hnonneg
          rw [show k = k' by omega]

/-- Once the scan has come to a last chunk that a line end follows, the blank line that would end its trailers
is there, or is not in the rest of the body either. -/
def EndSeen (body : Bytes) : Prop :=
  ∀ part start, part <+: body → LastLine part start → slice part start (start + 2 : Nat) = lineDelim →
    findFrom headerDelim part start = none → findFrom headerDelim body start = none

/-- The scan of a part that comes to a last chunk with a line end behind it frames the part. -/
theorem exists_framed_of_lastLine {part : Bytes} {start : Nat} (h : LastLine part start)
    (hcrlf : slice part start (start + 2 : Nat) = lineDelim) :
    ∃ n, tryConsumeChunkedBody part = some (some n) := by
  cases hfind : findFrom headerDelim part start with
  | none => exact ⟨_, (framed_at_lastLine h).mpr (.inr ⟨hfind, hcrlf, rfl⟩)⟩
  | some k => exact ⟨_, (framed_at_lastLine h).mpr (.inl ⟨k, hfind, rfl⟩)⟩

/-- Two parts that are framed are framed at one length, by the lines that the scan comes to. -/
theorem framed_eq_of_endSeen {body part part' : Bytes} {n n' : Nat} (hpart : part <+: body)
    (hpart' : part' <+: body) (hinside : ∀ part, part <+: body → StaysInside part) (hseen : EndSeen body)
    (hscan : tryConsumeChunkedBody part = some (some n))
    (hscan' : tryConsumeChunkedBody part' = some (some n')) : n = n' := by
  have hlines : ∀ {p m}, p <+: body → tryConsumeChunkedBody p = some (some m) →
      ∃ start, LastLine body start ∧ ((∃ k, findFrom headerDelim body start = some k ∧ m = k + 4) ∨
        (findFrom headerDelim body start = none ∧ m = start + 2)) := by
    intro p m hp hm
    obtain ⟨start, hlast⟩ := exists_lastLine hm
    obtain ⟨more, rfl⟩ := hp
    refine ⟨start, hlast.append (hinside p (List.prefix_append p more)) more, ?_⟩
    rcases (framed_at_lastLine hlast).mp hm with ⟨k, hk, rfl⟩ | ⟨hnone, hcrlf, rfl⟩
    · have hle := hlast.le_length (hinside p (List.prefix_append p more))
      exact .inl ⟨k, findFrom_append_of_some hle more hk, rfl⟩
    · exact .inr ⟨hseen p start (List.prefix_append p more) hlast hcrlf hnone, rfl⟩
  obtain ⟨start, hlast, hends⟩ := hlines hpart hscan
  obtain ⟨start', hlast', hends'⟩ := hlines hpart' hscan'
  obtain rfl := hlast.unique hlast'
  rcases hends with ⟨k, hk, rfl⟩ | ⟨hnone, rfl⟩ <;> rcases hends' with ⟨k', hk', rfl⟩ | ⟨hnone', rfl⟩
  · rw [Option.some.inj (hk.symm.trans hk')]
  · cases hk.symm.trans hnone'
  · cases hnone.symm.trans hk'
  · rfl

/-- The chunked part of `OneEnd` by the lines that the scan comes to, where it stays inside what has arrived. -/
theorem oneEnd_iff_endSeen {old stream : Bytes} (hpending : completion old = some none)
    (hchunked : isChunkedResponse (old ++ stream) = some true)
    (hinside : ∀ part, part <+: responseBody (old ++ stream) → StaysInside part) :
    OneEnd old (old ++ stream) ↔ EndSeen (responseBody (old ++ stream)) := by
  obtain ⟨hdrEnd, hfind⟩ := Option.isSome_iff_exists.mp (isSome_find_of_isChunked hchunked)
  have hbody := responseBody_of_find hfind
  have hparts : ∀ k, ((old ++ stream).take k).drop (hdrEnd + headerDelim.length) =
      (responseBody (old ++ stream)).take (k - (hdrEnd + headerDelim.length)) := fun k => by
    rw [hbody, List.drop_take]
  have hend := add_length_le_of_find hfind
  have hlen : (responseBody (old ++ stream)).length =
      (old ++ stream).length - (hdrEnd + headerDelim.length) := by rw [hbody, List.length_drop]
  constructor
  · intro hone part start hpart hlast hcrlf hnone
    have hle := hpart.length_le
    -- a part that has its last chunk is not in the buffer yet
    have hnew : old.length < hdrEnd + headerDelim.length + part.length := by
      by_contra hold
      obtain ⟨more, hmore⟩ : part <+: (responseBody (old ++ stream)).take
          (old.length - (hdrEnd + headerDelim.length)) :=
        List.prefix_take_iff.mpr ⟨hpart, by omega⟩
      have hlast' := hlast.append (hinside part hpart) more
      have hcrlf' : slice (part ++ more) start (start + 2 : Nat) = lineDelim := by
        have hstart := hlast.le_length (hinside part hpart)
        refine slice_lineDelim_iff.mpr ?_
        rw [List.drop_append_of_le_length hstart]
        exact (slice_lineDelim_iff.mp hcrlf).trans (List.prefix_append _ _)
      obtain ⟨n, hn⟩ := exists_framed_of_lastLine hlast' hcrlf'
      rw [hmore, ← hparts] at hn
      have hcomplete := (completion_take_chunked hfind (getD_isChunked_iff.mpr hchunked)
        (by rw [List.length_append]; omega)).mpr ⟨n, hn, rfl⟩
      rw [List.take_left, hpending] at hcomplete
      cases hcomplete
    by_contra hsome
    obtain ⟨k, hk⟩ := Option.ne_none_iff_exists'.mp hsome
    have hscan := (framed_at_lastLine hlast).mpr (.inr ⟨hnone, hcrlf, rfl⟩)
    obtain ⟨more, hmore⟩ := hpart
    have hwhole : LastLine (responseBody (old ++ stream)) start :=
      hmore ▸ hlast.append (hinside part ⟨more, hmore⟩) more
    have hscan' := (framed_at_lastLine hwhole).mpr (.inl ⟨k, hk, rfl⟩)
    have hends := hone hdrEnd hfind
    dsimp only at hends
    rw [if_pos (getD_isChunked_iff.mpr hchunked)] at hends
    have heq := hends (hdrEnd + headerDelim.length + part.length) (old ++ stream).length _ _ hnew (by omega)
      (by omega) le_rfl
      (by rw [hparts, Nat.add_sub_cancel_left, ← hmore, List.take_left]; exact hscan)
      (by rw [hparts, List.take_of_length_le hlen.le]; exact hscan')
    have hstart := le_of_findFrom (hwhole.le_length (hinside _ List.prefix_rfl)) hk
    omega
  · intro hseen hdrEnd' hfind'
    obtain rfl := Option.some.inj (hfind.symm.trans hfind')
    dsimp only
    rw [if_pos (getD_isChunked_iff.mpr hchunked)]
    intro k k' n n' _ _ _ _ hscan hscan'
    rw [hparts] at hscan hscan'
    exact framed_eq_of_endSeen (List.take_prefix _ _) (List.take_prefix _ _) hinside hseen hscan hscan'

end Ends

/-! ### Well-formed responses with more bytes behind them -/

section Excess

variable {head : Bytes}

theorem find_block (hblock : HeaderBlock head) (body : Bytes) :
    find headerDelim (head ++ headerDelim ++ body) = some head.length := find_append_of_some body hblock

theorem scan_take (m : ChunkedBody) (excess : Bytes) {j n : Nat} :
    tryConsumeChunkedBody ((m.bytes ++ excess).take j) = some (some n) ↔
      m.bytes.length ≤ j ∧ n = m.bytes.length + excessFramed m.trailers (excess.take (j - m.bytes.length)) := by
  by_cases hshort : j < m.bytes.length
  · rw [List.take_append_of_le_length hshort.le, tryConsumeChunkedBody_take m hshort.le, framed,
      if_neg (by omega)]
    exact ⟨fun h => absurd h (by simp), fun h => absurd h.1 (by omega)⟩
  · obtain ⟨i, rfl⟩ := Nat.exists_eq_add_of_le (Nat.le_of_not_lt hshort)
    rw [List.take_length_add_append, tryConsumeChunkedBody_append, Nat.add_sub_cancel_left, Option.some_inj,
      Option.some_inj]
    exact ⟨fun h => ⟨by omega, h.symm⟩, fun h => h.2.symm⟩

/-- Without a blank line in them, the bytes behind a body are not taken for a part of it. -/
theorem excessFramed_take {trailers : List TrailerLine} {excess : Bytes}
    (h : trailers ≠ [] ∨ find headerDelim (lineDelim ++ excess) = none) (j : Nat) :
    excessFramed trailers (excess.take j) = 0 := by
  cases trailers with
  | cons t ts => rfl
  | nil =>
      rcases h with hne | hnone
      · exact absurd rfl hne
      · have hpart : find headerDelim (lineDelim ++ excess.take j) = none := by
          cases hfind : find headerDelim (lineDelim ++ excess.take j) with
          | none => rfl
          | some k =>
              have hwhole := find_append_of_some (excess.drop j) hfind
              rw [List.append_assoc, List.take_append_drop, hnone] at hwhole
              cases hwhole
        rw [excessFramed, hpart]

/-- A chunked message ends in one place only if it has trailers or no blank line follows it. -/
theorem oneEnd_chunked (hblock : HeaderBlock head) {value : Bytes}
    (coding : fieldValues "transfer-encoding" head = [value]) (lists : listsChunked value = true)
    (m : ChunkedBody) (excess : Bytes) :
    OneEnd [] (head ++ headerDelim ++ (m.bytes ++ excess)) ↔
      m.trailers ≠ [] ∨ find headerDelim (lineDelim ++ excess) = none := by
  have hchunked : (isChunkedResponse (head ++ headerDelim ++ (m.bytes ++ excess))).getD false = true := by
    rw [isChunkedResponse_block hblock, coding]
    exact lists
  have hlen : (head ++ headerDelim).length = head.length + headerDelim.length := List.length_append
  have hbody : ∀ k, ((head ++ headerDelim ++ (m.bytes ++ excess)).take k).drop
      (head.length + headerDelim.length) =
        (m.bytes ++ excess).take (k - (head.length + headerDelim.length)) := by
    intro k
    rw [List.drop_take, ← hlen, List.drop_left]
  constructor
  · intro hone
    have hends := hone head.length (find_block hblock _)
    dsimp only at hends
    rw [if_pos hchunked] at hends
    by_contra hnot
    obtain ⟨hnil, hsome⟩ := not_or.mp hnot
    obtain ⟨k, hk⟩ := Option.ne_none_iff_exists'.mp hsome
    have hwhole : (head ++ headerDelim ++ (m.bytes ++ excess)).length =
        head.length + headerDelim.length + (m.bytes.length + excess.length) := by
      rw [List.length_append, hlen, List.length_append]
    have hpos : 0 < headerDelim.length := by decide
    have heq := hends (head.length + headerDelim.length + m.bytes.length)
      (head ++ headerDelim ++ (m.bytes ++ excess)).length _ _ (by rw [List.length_nil]; omega) (by omega)
      (by rw [List.length_nil]; omega) le_rfl
      (by rw [hbody]; exact (scan_take m excess).mpr ⟨by omega, rfl⟩)
      (by rw [hbody]; exact (scan_take m excess).mpr ⟨by omega, rfl⟩)
    rw [not_not.mp hnil] at heq
    have hnothing : excess.take (head.length + headerDelim.length + m.bytes.length -
        (head.length + headerDelim.length) - m.bytes.length) = [] := by
      rw [List.take_eq_nil_iff]
      exact Or.inl (by omega)
    have hall : excess.take ((head ++ headerDelim ++ (m.bytes ++ excess)).length -
        (head.length + headerDelim.length) - m.bytes.length) = excess :=
      List.take_of_length_le (by omega)
    rw [hnothing, hall, excessFramed, excessFramed, hk] at heq
    simp only [List.append_nil] at heq
    rw [show find headerDelim lineDelim = none by decide] at heq
    dsimp only at heq
    omega
  · intro hclean hdrEnd hfind
    obtain rfl := Option.some.inj ((find_block hblock _).symm.trans hfind)
    dsimp only
    rw [if_pos hchunked]
    intro k k' n n' _ _ _ _ hscan hscan'
    rw [hbody, scan_take] at hscan hscan'
    rw [hscan.2, hscan'.2, excessFramed_take hclean, excessFramed_take hclean]

/-- A message with a `Content-Length` ends in one place only if nothing follows it. -/
theorem oneEnd_length (hblock : HeaderBlock head) {value body : Bytes}
    (coding : fieldValues "transfer-encoding" head = [])
    (field : fieldValues "content-length" head = [value])
    (count : int 10 value = some (body.length : Int)) (excess : Bytes) :
    OneEnd [] (head ++ headerDelim ++ (body ++ excess)) ↔ excess = [] := by
  have hplain : ¬ (isChunkedResponse (head ++ headerDelim ++ (body ++ excess))).getD false = true := by
    rw [isChunkedResponse_block hblock, coding]
    exact Bool.false_ne_true
  have hlength : getResponseContentLength (head ++ headerDelim ++ (body ++ excess)) = (body.length : Int) := by
    rw [getResponseContentLength_block hblock, field, List.head?_cons, Option.elim_some, count]
    rfl
  have hwhole : (head ++ headerDelim ++ (body ++ excess)).length =
      head.length + headerDelim.length + (body.length + excess.length) := by
    simp only [List.length_append]
  constructor
  · intro hone
    have hends := hone head.length (find_block hblock _)
    dsimp only at hends
    rw [if_neg hplain, hlength] at hends
    have hle := hends (Int.natCast_nonneg _)
    refine List.length_eq_zero_iff.mp ?_
    omega
  · rintro rfl hdrEnd hfind
    obtain rfl := Option.some.inj ((find_block hblock _).symm.trans hfind)
    dsimp only
    rw [if_neg hplain, hlength]
    intro _
    rw [hwhole, List.length_nil]
    omega

end Excess

/-! ### Reading on -/

/-- The status of a connection that had `status` before it received anything, and has `buf` now. -/
def laterStatus (status : Option Int) (buf : Bytes) : Option Int :=
  status.or ((parseResponseStatus buf).map Prod.fst)

theorem laterStatus_append (status : Option Int) (buf bytes : Bytes) :
    (laterStatus status buf).or ((parseResponseStatus (buf ++ bytes)).map Prod.fst) =
      laterStatus status (buf ++ bytes) := by
  cases status with
  | some code => rfl
  | none =>
      cases hparse : parseResponseStatus buf with
      | none => rw [laterStatus, hparse]; rfl
      | some parsed =>
          rw [laterStatus, laterStatus, hparse, parseResponseStatus_append_of_some hparse bytes]
          rfl

/-- From a connection with `old` in its buffer and the status `status`, `r` has been received: it waits for
more, or it relays what some part of `r` completed. -/
def Grown (old : Bytes) (status : Option Int) (r : Bytes) (c : ProxyConnection) : Prop :=
  (c.state = .readingResponse ∧ c.responseBuf = old ++ r ∧
    Pending c.responseBuf c.responseHeadersDone c.responseIsChunked c.responseContentLength ∧
    (r = [] ∧ c.responseStatus = status ∨ c.responseStatus = laterStatus status (old ++ r))) ∨
  (c.state = .forwardingResponse ∧ ∃ p, p ≠ [] ∧ p <+: r ∧ completion (old ++ p) = some (some c.relayBuf) ∧
    c.responseStatus = laterStatus status (old ++ p))

namespace Fleet

variable {cfg : Config} {w w' : Fleet} {i : Nat} {old r : Bytes} {status : Option Int}

/-- One `recv` that gives data. -/
theorem grown_call {s : Session} (hgrown : Grown old status r s.conn) {io : Io} {bytes : Bytes}
    (hrecv : io.recv = .data bytes) (hne : bytes ≠ []) {f : Frame}
    (hends : Ends (handle cfg .backendReadable (w.frame s io)) f) :
    Grown old status (r ++ bytes) f.conn := by
  rcases hgrown with ⟨hstate, hbuf, hpending, hstatus⟩ | ⟨hstate, p, hp, hpre, hcompletion, hstatus⟩
  · have hbuf' : s.conn.responseBuf ++ bytes = old ++ (r ++ bytes) := by rw [hbuf, List.append_assoc]
    have hlater : s.conn.responseStatus.or
        ((parseResponseStatus (s.conn.responseBuf ++ bytes)).map Prod.fst) =
        laterStatus status (old ++ (r ++ bytes)) := by
      rw [hbuf']
      rcases hstatus with ⟨-, hstatus⟩ | hstatus
      · rw [hstatus, laterStatus]
      · rw [hstatus, ← List.append_assoc, laterStatus_append]
    cases hcompletion : completion (s.conn.responseBuf ++ bytes) with
    | none =>
        have hhung : handle cfg .backendReadable (w.frame s io) = .hung :=
          handleBackendReadable_hangs cfg (f := w.frame s io) hstate hpending hrecv hne hcompletion
        rw [hhung] at hends
        exact absurd hends (by simp [Ends])
    | some complete =>
        cases complete with
        | none =>
            obtain ⟨f', hf', hstate', hbuf₁, hpending', hstatus'⟩ :=
              handleBackendReadable_waits cfg (f := w.frame s io) hstate hpending hrecv hne hcompletion
            rw [show handle cfg .backendReadable (w.frame s io) = .returned f' from hf'] at hends
            refine hends.of_post (P := fun f => Grown old status (r ++ bytes) f.conn) ?_
            exact Or.inl ⟨hstate', hbuf₁.trans hbuf', hpending', Or.inr (hstatus'.trans hlater)⟩
        | some relay =>
            obtain ⟨f', hf', hstate', hrelay, hstatus'⟩ :=
              handleBackendReadable_relays cfg (f := w.frame s io) hstate hpending hrecv hne hcompletion
            rw [show handle cfg .backendReadable (w.frame s io) = .returned f' from hf'] at hends
            refine hends.of_post (P := fun f => Grown old status (r ++ bytes) f.conn) ?_
            refine Or.inr ⟨hstate', r ++ bytes, List.append_ne_nil_of_right_ne_nil r hne, List.prefix_rfl,
              ?_, hstatus'.trans hlater⟩
            rw [← hbuf', hrelay]
            exact hcompletion
  · have hidle : handle cfg .backendReadable (w.frame s io) = .returned (w.frame s io) := by
      rw [handle, handleBackendReadable]
      exact if_pos (by rw [show (w.frame s io).conn.state = .forwardingResponse from hstate]; decide)
    rw [hidle] at hends
    refine hends.of_post (P := fun f => Grown old status (r ++ bytes) f.conn) ?_
    exact Or.inr ⟨hstate, p, hp, hpre.trans (List.prefix_append r bytes), hcompletion, hstatus⟩

theorem grown_step {s : Session} (hs : w.sessions[i]? = some s) (hgrown : Grown old status r s.conn)
    {e : Event} (he : Undisturbed i e) (hstep : step cfg w e = some w') :
    ∃ s', w'.sessions[i]? = some s' ∧ Grown old status (r ++ receivedIn i e) s'.conn := by
  obtain ⟨s', hs', h⟩ := undisturbed_step hs (hgrown.imp And.left And.left) he hstep
  refine ⟨s', hs', ?_⟩
  rcases h with ⟨hnothing, rfl | rfl⟩ | ⟨io, bytes, f, hne, hrecv, hbytes, hends, rfl⟩
  · rw [hnothing, List.append_nil]
    exact hgrown
  · rw [hnothing, List.append_nil]
    exact hgrown
  · rw [hbytes]
    exact grown_call hgrown hrecv hne hends

theorem grown_run {later : List Event} {s : Session} (hs : w.sessions[i]? = some s)
    (hgrown : Grown old status r s.conn) (hlater : ∀ e ∈ later, Undisturbed i e)
    (hrun : Machine.run (step cfg) w later = some w') :
    ∃ s', w'.sessions[i]? = some s' ∧ Grown old status (r ++ later.flatMap (receivedIn i)) s'.conn := by
  refine Machine.run_gathers (receivedIn i)
    (fun r w => ∃ s, w.sessions[i]? = some s ∧ Grown old status r s.conn) ?_ ⟨s, hs, hgrown⟩ hlater hrun
  rintro r w e w' ⟨s, hs, hgrown⟩ he hstep
  exact grown_step hs hgrown he hstep

/-- A run from `w` brings the connection `i` the bytes of `stream`, in any pieces, and leaves it as `t`,
with a response to relay. -/
def RelaysAfter (cfg : Config) (w : Fleet) (i : Nat) (stream : Bytes) (t : Session) : Prop :=
  ∃ later u, (∀ e ∈ later, Undisturbed i e) ∧ later.flatMap (receivedIn i) = stream ∧
    Machine.run (step cfg) w later = some u ∧ u.sessions[i]? = some t ∧
    t.conn.state = .forwardingResponse

/-- Any two ways to cut the stream that lead to a response to relay lead to the same. -/
def CutsAgree (cfg : Config) (w : Fleet) (i : Nat) (stream : Bytes) : Prop :=
  ∀ t t', RelaysAfter cfg w i stream t → RelaysAfter cfg w i stream t' →
    t.conn.relayBuf = t'.conn.relayBuf ∧ t.conn.responseStatus = t'.conn.responseStatus

theorem completes_of_relaysAfter {stream : Bytes} {s t : Session} (hs : w.sessions[i]? = some s)
    (hstate : s.conn.state = .readingResponse)
    (hpending : Pending s.conn.responseBuf s.conn.responseHeadersDone s.conn.responseIsChunked
      s.conn.responseContentLength) (h : RelaysAfter cfg w i stream t) :
    ∃ p, p ≠ [] ∧ p <+: stream ∧ completion (s.conn.responseBuf ++ p) = some (some t.conn.relayBuf) ∧
      t.conn.responseStatus = laterStatus s.conn.responseStatus (s.conn.responseBuf ++ p) := by
  obtain ⟨later, u, hlater, hstream, hrun, ht, hrelaying⟩ := h
  have hgrown : Grown s.conn.responseBuf s.conn.responseStatus [] s.conn :=
    Or.inl ⟨hstate, (List.append_nil _).symm, hpending, Or.inl ⟨rfl, rfl⟩⟩
  obtain ⟨t', ht', hgrown'⟩ := grown_run hs hgrown hlater hrun
  obtain rfl := Option.some.inj (ht.symm.trans ht')
  rw [List.nil_append, hstream] at hgrown'
  rcases hgrown' with ⟨hreading, -⟩ | ⟨-, hcompletes⟩
  · cases hreading.symm.trans hrelaying
  · exact hcompletes

/-- What a part of the stream completes is relayed if it arrives at once. -/
theorem relaysAfter_of_completes (cfg : Config) {stream p relay : Bytes} {s : Session}
    (hs : w.sessions[i]? = some s)
    (hstate : s.conn.state = .readingResponse)
    (hpending : Pending s.conn.responseBuf s.conn.responseHeadersDone s.conn.responseIsChunked
      s.conn.responseContentLength) (hp : p ≠ []) (hpre : p <+: stream)
    (hcompletion : completion (s.conn.responseBuf ++ p) = some (some relay)) :
    ∃ t, RelaysAfter cfg w i stream t ∧ t.conn.relayBuf = relay := by
  obtain ⟨rest, rfl⟩ := hpre
  have hdata : ∀ bytes ≠ [], ∀ io, io.recv = .data bytes → Undisturbed i (.call i .backendReadable io) :=
    fun bytes hne io hrecv => Or.inr (Or.inr (Or.inr ⟨rfl, Or.inr ⟨bytes, hne, hrecv⟩⟩))
  obtain ⟨f, hf, hrelaying, hrelay, -⟩ := handleBackendReadable_relays cfg
    (f := w.frame s { quiet with recv := .data p }) hstate hpending rfl hp hcompletion
  have hfirst : step cfg w (.call i .backendReadable { quiet with recv := .data p }) = some (w.put i f) :=
    step_call_of_returned hs hf
  have ht : (w.put i f).sessions[i]? = some (sessionOf f) := getElem?_put_self hs f
  by_cases hrest : rest = []
  · subst hrest
    refine ⟨sessionOf f, ⟨[.call i .backendReadable { quiet with recv := .data p }], w.put i f, ?_, ?_,
      Machine.run_cons_eq_some.mpr ⟨_, hfirst, rfl⟩, ht, hrelaying⟩, hrelay⟩
    · intro e he
      rw [List.mem_singleton.mp he]
      exact hdata p hp _ rfl
    · simp [receivedIn]
  · have hidle : handle cfg .backendReadable ((w.put i f).frame (sessionOf f) { quiet with recv := .data rest }) =
        .returned ((w.put i f).frame (sessionOf f) { quiet with recv := .data rest }) := by
      rw [handle, handleBackendReadable]
      refine if_pos ?_
      change f.conn.state ≠ .readingResponse
      rw [hrelaying]
      decide
    have hsecond := step_call_of_returned ht hidle
    refine ⟨sessionOf f, ⟨[.call i .backendReadable { quiet with recv := .data p },
      .call i .backendReadable { quiet with recv := .data rest }], _, ?_, ?_,
      Machine.run_cons_eq_some.mpr ⟨_, hfirst, Machine.run_cons_eq_some.mpr ⟨_, hsecond, rfl⟩⟩,
      getElem?_put_self ht _, hrelaying⟩, hrelay⟩
    · simp only [List.mem_cons, List.not_mem_nil, or_false]
      rintro e (rfl | rfl)
      · exact hdata p hp _ rfl
      · exact hdata rest hrest _ rfl
    · simp [receivedIn]

theorem cutsAgree_iff (cfg : Config) (stream : Bytes) {s : Session} (hs : w.sessions[i]? = some s)
    (hstate : s.conn.state = .readingResponse)
    (hpending : Pending s.conn.responseBuf s.conn.responseHeadersDone s.conn.responseIsChunked
      s.conn.responseContentLength) :
    CutsAgree cfg w i stream ↔ OneEnd s.conn.responseBuf (s.conn.responseBuf ++ stream) := by
  rw [← oneRelay_iff hpending.incomplete]
  have hpart : ∀ {p : Bytes}, p <+: stream →
      (s.conn.responseBuf ++ stream).take (s.conn.responseBuf.length + p.length) = s.conn.responseBuf ++ p := by
    intro p hp
    rw [List.take_length_add_append, ← List.prefix_iff_eq_take.mp hp]
  constructor
  · intro hagree k k' relay relay' hk hkb hk' hkb' hcomplete hcomplete'
    have hlen : (s.conn.responseBuf ++ stream).length = s.conn.responseBuf.length + stream.length :=
      List.length_append
    have hrelays : ∀ k relay, s.conn.responseBuf.length < k → k ≤ (s.conn.responseBuf ++ stream).length →
        completion ((s.conn.responseBuf ++ stream).take k) = some (some relay) →
        ∃ t, RelaysAfter cfg w i stream t ∧ t.conn.relayBuf = relay := by
      intro k relay hk hkb hcomplete
      obtain ⟨j, rfl⟩ := Nat.exists_eq_add_of_le hk.le
      rw [List.take_length_add_append] at hcomplete
      refine relaysAfter_of_completes cfg hs hstate hpending ?_ (List.take_prefix j stream) hcomplete
      refine List.ne_nil_of_length_pos ?_
      rw [List.length_take]
      omega
    obtain ⟨t, ht, rfl⟩ := hrelays k relay hk hkb hcomplete
    obtain ⟨t', ht', rfl⟩ := hrelays k' relay' hk' hkb' hcomplete'
    exact (hagree t t' ht ht').1
  · intro hone t t' ht ht'
    obtain ⟨p, hp, hpre, hcomplete, hstatus⟩ := completes_of_relaysAfter hs hstate hpending ht
    obtain ⟨p', hp', hpre', hcomplete', hstatus'⟩ := completes_of_relaysAfter hs hstate hpending ht'
    refine ⟨?_, ?_⟩
    · have hlen := List.length_pos_of_ne_nil hp
      have hlen' := List.length_pos_of_ne_nil hp'
      have hle := hpre.length_le
      have hle' := hpre'.length_le
      rw [← hpart hpre] at hcomplete
      rw [← hpart hpre'] at hcomplete'
      exact hone _ _ _ _ (by omega) (by rw [List.length_append]; omega) (by omega)
        (by rw [List.length_append]; omega) hcomplete hcomplete'
    · have hsame := parseResponseStatus_eq ((List.prefix_append_right_inj _).mpr hpre)
        ((List.prefix_append_right_inj _).mpr hpre') hcomplete hcomplete'
      rw [hstatus, hstatus', laterStatus, laterStatus, hsame]

/-- A run up to the first `recv` of a response. -/
def untilResponse : List Event := (oneRequest .blocked).take 3

theorem untilResponse_reads : ∃ w s,
    Machine.run (step .default) (init (.leastConnections (.init [localBackend]))) untilResponse = some w ∧
    w.sessions[0]? = some s ∧ s.conn.state = .readingResponse ∧ s.conn.responseBuf = [] := by
  have hview : ((Machine.run (step .default) (init (.leastConnections (.init [localBackend])))
      untilResponse).bind fun w => w.sessions[0]?.map fun s =>
        (decide (s.conn.state = .readingResponse), s.conn.responseBuf)) = some (true, []) := by
    decide +kernel
  obtain ⟨w, hrun, hsession⟩ := Option.bind_eq_some_iff.mp hview
  obtain ⟨s, hs, heq⟩ := Option.map_eq_some_iff.mp hsession
  simp only [Prod.mk.injEq, decide_eq_true_eq] at heq
  exact ⟨w, s, hrun, hs, heq.1, heq.2⟩

/-- **When the relayed response does not depend on segmentation.** Let a connection of any run be in
`READING_RESPONSE`. All ways to cut what its backend sends lead to the same `relay_buf` and status exactly
if the bytes can end the response in one place only; for a chunked response in which no size leads out of
what has arrived, exactly if the lines of its body show the end as soon as there is one. For a message that
ends by its own framing, followed by further bytes, that is so exactly if there are none
(`Content-Length`), or if it has trailers or no blank line follows (chunked); and then none of the further
bytes are relayed. -/
theorem relay_independent_of_cuts_iff (cfg : Config) (router : Router) {events : List Event} {w : Fleet}
    {i : Nat} {s : Session} (hrun : Machine.run (step cfg) (init router) events = some w)
    (hs : w.sessions[i]? = some s) (hstate : s.conn.state = .readingResponse) :
    (∀ stream, CutsAgree cfg w i stream ↔
      OneEnd s.conn.responseBuf (s.conn.responseBuf ++ stream)) ∧
    (∀ stream, isChunkedResponse (s.conn.responseBuf ++ stream) = some true →
      (∀ part, part <+: responseBody (s.conn.responseBuf ++ stream) → StaysInside part) →
      (CutsAgree cfg w i stream ↔ EndSeen (responseBody (s.conn.responseBuf ++ stream)))) ∧
    (s.conn.responseBuf = [] →
      (∀ head value body excess, HeaderBlock head → fieldValues "transfer-encoding" head = [] →
        fieldValues "content-length" head = [value] → int 10 value = some (body.length : Int) →
        (CutsAgree cfg w i (head ++ headerDelim ++ (body ++ excess)) ↔ excess = [])) ∧
      (∀ head value (m : ChunkedBody) excess, HeaderBlock head →
        fieldValues "transfer-encoding" head = [value] → listsChunked value = true →
        (CutsAgree cfg w i (head ++ headerDelim ++ (m.bytes ++ excess)) ↔
          m.trailers ≠ [] ∨ find headerDelim (lineDelim ++ excess) = none)) ∧
      ∀ message excess t, Delimited message → CutsAgree cfg w i (message ++ excess) →
        RelaysAfter cfg w i (message ++ excess) t → t.conn.relayBuf = message) := by
  have hpending := pending_of_run hrun (List.mem_of_getElem? hs) (by rw [hstate]; exact nofun)
    (by rw [hstate]; exact nofun)
  refine ⟨fun stream => cutsAgree_iff cfg stream hs hstate hpending,
    fun stream hchunked hinside => (cutsAgree_iff cfg stream hs hstate hpending).trans
      (oneEnd_iff_endSeen hpending.incomplete hchunked hinside), fun hempty => ?_⟩
  have hiff : ∀ stream, CutsAgree cfg w i stream ↔ OneEnd [] stream := by
    intro stream
    have hagree := cutsAgree_iff cfg stream hs hstate hpending
    rwa [hempty, List.nil_append] at hagree
  refine ⟨fun head value body excess hblock hcoding hfield hcount => ?_,
    fun head value m excess hblock hcoding hlists => ?_, fun message excess t hmessage hagree ht => ?_⟩
  · exact (hiff _).trans (oneEnd_length hblock hcoding hfield hcount excess)
  · exact (hiff _).trans (oneEnd_chunked hblock hcoding hlists m excess)
  · have hne : message ≠ [] := by
      rintro rfl
      exact absurd (completion_of_delimited hmessage) (by decide)
    obtain ⟨t', ht', hrelay⟩ := relaysAfter_of_completes cfg hs hstate hpending hne
      (List.prefix_append message excess) (by rw [hempty]; exact completion_of_delimited hmessage)
    exact (hagree t t' ht ht').1.trans hrelay

/-- A message with a trailer is relayed alone whatever follows it; one without is not. -/
theorem relay_independent_of_cuts_iff_trailer : ∃ w s,
    Machine.run (step .default) (init (.leastConnections (.init [localBackend]))) untilResponse = some w ∧
    w.sessions[0]? = some s ∧
    CutsAgree .default w 0
      (ascii "HTTP/1.1 200 OK\r\nTransfer-Encoding: chunked\r\n\r\n1;x=y\r\nA\r\n0\r\nT: v\r\n\r\nX\r\n\r\n") ∧
    ¬ CutsAgree .default w 0
      (ascii "HTTP/1.1 200 OK\r\nTransfer-Encoding: chunked\r\n\r\n1;x=y\r\nA\r\n0\r\n\r\nX\r\n\r\n") := by
  obtain ⟨w, s, hrun, hs, hstate, hempty⟩ := untilResponse_reads
  obtain ⟨-, -, hmessages⟩ := relay_independent_of_cuts_iff .default _ hrun hs hstate
  have hchunked := fun m => (hmessages hempty).2.1 (ascii "HTTP/1.1 200 OK\r\nTransfer-Encoding: chunked")
    (ascii "chunked") m (ascii "X\r\n\r\n") (by unfold HeaderBlock; decide) (by decide +kernel) (by decide)
  refine ⟨w, s, hrun, hs, ?_, ?_⟩
  · exact (hchunked (oneChunk [aTrailer])).mpr (Or.inl (List.cons_ne_nil _ _))
  · refine (hchunked (oneChunk [])).not.mpr ?_
    decide

/-- Four bytes behind a body of two are relayed if they arrive with it, and not if they arrive later. -/
theorem cuts_disagree_excess : ∃ w s,
    Machine.run (step .default) (init (.leastConnections (.init [localBackend]))) untilResponse = some w ∧
    w.sessions[0]? = some s ∧ s.conn.state = .readingResponse ∧
    ¬ CutsAgree .default w 0 (ascii "HTTP/1.1 200 OK\r\nContent-Length: 2\r\n\r\nhiHTTP") := by
  obtain ⟨w, s, hrun, hs, hstate, hempty⟩ := untilResponse_reads
  refine ⟨w, s, hrun, hs, hstate, fun hagree => ?_⟩
  have hpending := pending_of_run hrun (List.mem_of_getElem? hs) (by rw [hstate]; exact nofun)
    (by rw [hstate]; exact nofun)
  let message := ascii "HTTP/1.1 200 OK\r\nContent-Length: 2\r\n\r\nhi"
  let stream := message ++ ascii "HTTP"
  have hmessage : completion (s.conn.responseBuf ++ message) = some (some message) := by
    rw [hempty]
    decide +kernel
  have hstream : completion (s.conn.responseBuf ++ stream) = some (some stream) := by
    rw [hempty]
    decide +kernel
  obtain ⟨t, ht, hrelay⟩ := relaysAfter_of_completes .default hs hstate hpending (by decide)
    (List.prefix_append message (ascii "HTTP")) hmessage
  obtain ⟨t', ht', hrelay'⟩ := relaysAfter_of_completes .default hs hstate hpending (by decide)
    (List.prefix_rfl (l := stream)) hstream
  have heq := (hagree t t' ht ht').1
  rw [hrelay, hrelay'] at heq
  exact absurd heq (by decide)

end Fleet

end LoadBalancer
