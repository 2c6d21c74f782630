import LoadBalancer.Lifecycle
import LoadBalancer.RequestCuts

/-! Where a request ends, and whether it will. The body of an accepted request is cut by a length that the
client wrote; a buffer that is refused can be completed unless its first line is already wrong. -/

namespace LoadBalancer

open PyText ListSearch

/-! ### The body -/

/-- **The body is cut exactly when the declared length is not negative.** -/
theorem body_exact_iff (buf : Bytes) (req : HttpRequest) (h : tryParseRequest buf = some req) :
    ((req.body.length : Int) = getContentLength req.headers ∧
      (∃ hdrEnd, find headerDelim buf = some hdrEnd ∧
        buf.take req.headerLength = buf.take hdrEnd ++ headerDelim) ∧
      buf.take req.headerLength = req.rawHeaderBytes ∧ req.rawHeaderBytes ++ req.body <+: buf) ↔
    0 ≤ getContentLength req.headers := by
  obtain ⟨hdrEnd, method, path, version, hhead, hneeded, rfl⟩ := tryParseRequest_eq_some_iff.mp h
  constructor
  · rintro ⟨hlen, -⟩
    omega
  · intro hlength
    obtain ⟨hlen, hprefix⟩ := requestOf_body hlength hneeded
    refine ⟨hlen, ⟨hdrEnd, hhead.block, ?_⟩, rfl, hprefix⟩
    obtain ⟨-, hpre, -⟩ := find_eq_some_iff.mp hhead.block
    change buf.take (hdrEnd + headerDelim.length) = _
    rw [List.take_add, ← List.prefix_iff_eq_take.mp hpre]

/-- A request with a body, and a byte of the next one. -/
theorem body_exact_post :
    ∃ req, tryParseRequest (ascii "POST / HTTP/1.1\r\nContent-Length: 2\r\n\r\nokP") = some req ∧
      (req.body.length : Int) = getContentLength req.headers ∧
      req.rawHeaderBytes ++ req.body <+: ascii "POST / HTTP/1.1\r\nContent-Length: 2\r\n\r\nokP" := by
  have hview : (tryParseRequest (ascii "POST / HTTP/1.1\r\nContent-Length: 2\r\n\r\nokP")).map
      (fun req => getContentLength req.headers) = some 2 := by decide +kernel
  obtain ⟨req, hparse, hlength⟩ := Option.map_eq_some_iff.mp hview
  obtain ⟨hlen, -, -, hprefix⟩ := (body_exact_iff _ req hparse).mpr (by omega)
  exact ⟨req, hparse, hlen, hprefix⟩

/-- A negative length is accepted, and no body has it. -/
theorem body_negative_length :
    ∃ req, tryParseRequest (ascii "POST / HTTP/1.1\r\nContent-Length: -1\r\n\r\n") = some req ∧
      req.body = [] ∧ getContentLength req.headers = -1 ∧
      ¬ (req.body.length : Int) = getContentLength req.headers := by
  have hview : (tryParseRequest (ascii "POST / HTTP/1.1\r\nContent-Length: -1\r\n\r\n")).map
      (fun req => (req.body, getContentLength req.headers)) = some ([], -1) := by decide +kernel
  obtain ⟨req, hparse, hview⟩ := Option.map_eq_some_iff.mp hview
  obtain ⟨hbody, hlength⟩ := Prod.mk.inj hview
  exact ⟨req, hparse, hbody, hlength, by rw [hbody, hlength]; decide⟩

/-! ### What can still be completed -/

/-- The first line of `buf`, once there, has the two spaces of a request line. -/
def RequestLineOk (buf : Bytes) : Prop := ∀ i, find lineDelim buf = some i → 2 ≤ (buf.take i).count 32

theorem headD_split_block {buf : Bytes} {hdrEnd i : Nat} (hblock : find headerDelim buf = some hdrEnd)
    (hline : find lineDelim buf = some i) : (split lineDelim (buf.take hdrEnd)).headD [] = buf.take i := by
  obtain ⟨hle, hpre, -⟩ := find_eq_some_iff.mp hblock
  obtain ⟨-, hpre', hfirst⟩ := find_eq_some_iff.mp hline
  have hcrlf : lineDelim <+: headerDelim := ⟨lineDelim, rfl⟩
  have hi : i ≤ hdrEnd := not_lt.mp fun hlt => hfirst hdrEnd hlt (hcrlf.trans hpre)
  rw [show lineDelim = [13, 10] from rfl, headD_split_pair (by decide), List.take_take]
  cases hcut : find [13, 10] (buf.take hdrEnd) with
  | some j =>
      obtain ⟨hj, hlen⟩ := (find_take_eq_some_iff hle).mp hcut
      obtain rfl : i = j := Option.some.inj (hline.symm.trans hj)
      rw [Option.getD_some, Nat.min_eq_left hi]
  | none =>
      rw [Option.getD_none, List.length_take]
      -- the line end that starts the blank line is the first one
      have hlast : i = hdrEnd := by
        by_contra hne
        rcases Nat.lt_or_ge (i + 1) hdrEnd with hlt | hge
        · have hfound := (find_take_eq_some_iff hle).mpr ⟨hline, show i + 2 ≤ hdrEnd by omega⟩
          rw [show lineDelim = [13, 10] from rfl, hcut] at hfound
          cases hfound
        · obtain rfl : hdrEnd = i + 1 := by omega
          obtain ⟨tail, htail⟩ := hpre'
          rw [← List.drop_drop, ← htail] at hpre
          exact absurd (List.cons_prefix_cons.mp hpre).1 (by decide)
      rw [hlast]
      congr 1
      omega

/-- A buffer with a header block has a request line of three parts or none. -/
theorem exists_hasHead_iff {buf : Bytes} {hdrEnd i : Nat} (hblock : find headerDelim buf = some hdrEnd)
    (hline : find lineDelim buf = some i) :
    (∃ method path version, HasHead buf hdrEnd method path version) ↔ 2 ≤ (buf.take i).count 32 := by
  rw [← exists_splitMax_two_iff, ← headD_split_block hblock hline]
  constructor
  · rintro ⟨method, path, version, -, hparts⟩
    exact ⟨method, path, version, hparts⟩
  · rintro ⟨method, path, version, hparts⟩
    exact ⟨method, path, version, hblock, hparts⟩

/-- A request whose first line is wrong stays refused. -/
theorem tryParseRequest_append_of_bad {buf : Bytes} {i : Nat} (hline : find lineDelim buf = some i)
    (hbad : (buf.take i).count 32 < 2) (ext : Bytes) : tryParseRequest (buf ++ ext) = none := by
  cases hparse : tryParseRequest (buf ++ ext) with
  | none => rfl
  | some req =>
      obtain ⟨hdrEnd, method, path, version, hhead⟩ := hasHead_of_tryParseRequest hparse
      have hcount := (exists_hasHead_iff hhead.block (find_append_of_some ext hline)).mp
        ⟨method, path, version, hhead⟩
      obtain ⟨hle, -, -⟩ := find_eq_some_iff.mp hline
      rw [List.take_append_of_le_length hle] at hcount
      omega

/-- A header block with a request line is completed by as many bytes as it asks for. -/
theorem exists_append_of_hasHead {buf : Bytes} {hdrEnd : Nat} {method path version : Bytes}
    (h : HasHead buf hdrEnd method path version) : ∃ ext, (tryParseRequest (buf ++ ext)).isSome := by
  have hle : hdrEnd + headerDelim.length ≤ buf.length := add_length_le_of_find h.block
  refine ⟨List.replicate (totalNeeded buf hdrEnd).toNat 0, ?_⟩
  have hbuf : (buf ++ List.replicate (totalNeeded buf hdrEnd).toNat 0).take buf.length = buf :=
    List.take_left
  have hhead : HasHead ((buf ++ List.replicate (totalNeeded buf hdrEnd).toNat 0).take buf.length)
      hdrEnd method path version := hbuf.symm ▸ h
  obtain ⟨hhead', -⟩ := hhead.of_take (by rw [List.length_append]; omega)
  have hneeded : totalNeeded ((buf ++ List.replicate (totalNeeded buf hdrEnd).toNat 0).take buf.length)
      hdrEnd = totalNeeded (buf ++ List.replicate (totalNeeded buf hdrEnd).toNat 0) hdrEnd :=
    totalNeeded_take hle
  rw [hbuf] at hneeded
  rw [hhead'.tryParseRequest, if_neg]
  · rfl
  · rw [← hneeded, List.length_append, List.length_replicate]
    omega

/-- A buffer whose first line is no wrong request line can be completed. -/
theorem RequestLineOk.exists_append {buf : Bytes} (h : RequestLineOk buf) :
    ∃ ext, (tryParseRequest (buf ++ ext)).isSome := by
  -- the rest of the request line, and the end of the header block
  suffices hblock : ∃ ext i, find lineDelim (buf ++ ext) = some i ∧
      2 ≤ ((buf ++ ext).take i).count 32 ∧ headerDelim <:+: buf ++ ext by
    obtain ⟨ext, i, hline, hcount, hinf⟩ := hblock
    obtain ⟨hdrEnd, hend⟩ := Option.isSome_iff_exists.mp (isSome_find_iff.mpr hinf)
    obtain ⟨method, path, version, hhead⟩ := (exists_hasHead_iff hend hline).mpr hcount
    obtain ⟨more, hmore⟩ := exists_append_of_hasHead hhead
    exact ⟨ext ++ more, by rw [← List.append_assoc]; exact hmore⟩
  cases hline : find lineDelim buf with
  | some i =>
      obtain ⟨hle, -, -⟩ := find_eq_some_iff.mp hline
      refine ⟨headerDelim, i, find_append_of_some _ hline, ?_, (List.suffix_append _ _).isInfix⟩
      rw [List.take_append_of_le_length hle]
      exact h i hline
  | none =>
      have hspaces : ¬ lineDelim <:+: buf ++ [32, 32] := by
        refine not_infix_pair_append_cons (by decide) (by decide) (find_eq_none_iff_absent.mp hline) ?_
        decide
      refine ⟨[32, 32] ++ headerDelim, (buf ++ [32, 32]).length, ?_, ?_, ?_⟩
      · rw [← List.append_assoc]
        exact find_pair (by decide) lineDelim hspaces
      · rw [← List.append_assoc, List.take_left, List.count_append]
        exact Nat.le_add_left 2 _
      · rw [← List.append_assoc]
        exact (List.suffix_append _ _).isInfix

theorem exists_append_iff (buf : Bytes) :
    (∃ ext, (tryParseRequest (buf ++ ext)).isSome) ↔ RequestLineOk buf := by
  refine ⟨?_, RequestLineOk.exists_append⟩
  rintro ⟨ext, hext⟩ i hline
  by_contra hbad
  rw [tryParseRequest_append_of_bad hline (Nat.lt_of_not_le hbad) ext] at hext
  cases hext

/-- **A refused buffer can be completed exactly when its first line, once there, has two spaces.** So a
connection that waits in `READING_REQUEST` with this buffer waits for what can still come exactly then. -/
theorem refused_completable_iff (buf : Bytes) :
    ((tryParseRequest buf = none → ∃ ext, (tryParseRequest (buf ++ ext)).isSome) ↔ RequestLineOk buf) ∧
    ∀ cfg router events w, Machine.run (Fleet.step cfg) (Fleet.init router) events = some w →
      ∀ s ∈ w.sessions, s.conn.state = .readingRequest → s.conn.requestBuf = buf →
        tryParseRequest buf = none ∧
          ((∃ ext, (tryParseRequest (buf ++ ext)).isSome) ↔ RequestLineOk buf) := by
  refine ⟨?_, ?_⟩
  · rw [← exists_append_iff]
    refine ⟨fun h => ?_, fun h _ => h⟩
    cases hparse : tryParseRequest buf with
    | none => exact h hparse
    | some req => exact ⟨[], by rw [List.append_nil, hparse]; rfl⟩
  · rintro cfg router events w hrun s hs hreading rfl
    exact ⟨(Fleet.waits_of_run hrun s hs hreading).2, exists_append_iff s.conn.requestBuf⟩

/-- A request line with one space is refused, whatever comes after it. -/
theorem refused_for_good : tryParseRequest (ascii "GET /\r\n\r\n") = none ∧
    ¬ ∃ ext, (tryParseRequest (ascii "GET /\r\n\r\n" ++ ext)).isSome := by
  have hline : find lineDelim (ascii "GET /\r\n\r\n") = some 5 := by decide
  refine ⟨by decide, ?_⟩
  rintro ⟨ext, hext⟩
  rw [tryParseRequest_append_of_bad hline (by decide) ext] at hext
  cases hext

end LoadBalancer
