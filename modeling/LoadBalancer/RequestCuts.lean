import LoadBalancer.Attempts
import LoadBalancer.Requests

/-! Requests, however they are cut. The parser runs again on every prefix of what a client sends; it
refuses each until the whole request is there, and what it returns then does not depend on later bytes. -/

namespace LoadBalancer

open PyText ListSearch Outcome

/-! ### The parser on a prefix -/

section Prefix

variable {stream : Bytes} {n hdrEnd : Nat} {method path version : Bytes}

/-- The header block of a stream, once complete, gives no negative length. -/
def LengthNonneg (stream : Bytes) : Prop :=
  ∀ hdrEnd, find headerDelim stream = some hdrEnd →
    0 ≤ getContentLength (Dict.ofPairs (headerFields (stream.take hdrEnd)))

theorem take_take_header (hle : hdrEnd + headerDelim.length ≤ n) :
    (stream.take n).take hdrEnd = stream.take hdrEnd := by
  rw [List.take_take, Nat.min_eq_left (by omega)]

theorem HasHead.take (h : HasHead stream hdrEnd method path version) (hn : n ≤ stream.length)
    (hle : hdrEnd + headerDelim.length ≤ n) : HasHead (stream.take n) hdrEnd method path version where
  block := (find_take_eq_some_iff hn).mpr ⟨h.block, hle⟩
  parts := by
    rw [take_take_header hle]
    exact h.parts

theorem HasHead.of_take (h : HasHead (stream.take n) hdrEnd method path version) (hn : n ≤ stream.length) :
    HasHead stream hdrEnd method path version ∧ hdrEnd + headerDelim.length ≤ n := by
  obtain ⟨hblock, hle⟩ := (find_take_eq_some_iff hn).mp h.block
  refine ⟨⟨hblock, ?_⟩, hle⟩
  rw [← take_take_header (n := n) hle]
  exact h.parts

theorem totalNeeded_take (hle : hdrEnd + headerDelim.length ≤ n) :
    totalNeeded (stream.take n) hdrEnd = totalNeeded stream hdrEnd := by
  rw [totalNeeded, totalNeeded, take_take_header hle]

theorem headerLength_le_totalNeeded (hnonneg : LengthNonneg stream)
    (h : HasHead stream hdrEnd method path version) :
    ((hdrEnd + headerDelim.length : Nat) : Int) ≤ totalNeeded stream hdrEnd := by
  have hlength := hnonneg hdrEnd h.block
  rw [totalNeeded]
  omega

/-- The request is made of the bytes that it needs. -/
theorem requestOf_take (hnonneg : LengthNonneg stream) (h : HasHead stream hdrEnd method path version)
    (hneeded : totalNeeded stream hdrEnd ≤ n) (hn : n ≤ stream.length) :
    requestOf (stream.take n) hdrEnd method path version = requestOf stream hdrEnd method path version := by
  have hheader := headerLength_le_totalNeeded hnonneg h
  have hle : hdrEnd + headerDelim.length ≤ n := by omega
  obtain ⟨total, htotal⟩ : ∃ total : Nat, totalNeeded stream hdrEnd = total :=
    Int.eq_ofNat_of_zero_le (le_trans (Int.natCast_nonneg _) hheader)
  have hbody : slice (stream.take n) ((hdrEnd + headerDelim.length : Nat) : Int) (total : Int) =
      slice stream ((hdrEnd + headerDelim.length : Nat) : Int) (total : Int) := by
    rw [htotal] at hneeded
    simp only [slice, bound_natCast, List.length_take, List.take_take]
    rw [show min (min total (min n stream.length)) n = min total stream.length by omega,
      show min (hdrEnd + headerDelim.length) (min n stream.length) =
        min (hdrEnd + headerDelim.length) stream.length by omega]
  have htotal' : ((hdrEnd + headerDelim.length : Nat) : Int) +
      getContentLength (Dict.ofPairs (headerFields (stream.take hdrEnd))) = total := htotal
  simp only [requestOf, take_take_header hle, htotal', hbody, List.take_take, Nat.min_eq_left hle]

/-- The parser on a part of a stream. -/
theorem tryParseRequest_take (hnonneg : LengthNonneg stream) (hn : n ≤ stream.length) {req : HttpRequest} :
    tryParseRequest (stream.take n) = some req ↔ ∃ hdrEnd method path version,
      HasHead stream hdrEnd method path version ∧ totalNeeded stream hdrEnd ≤ n ∧
        req = requestOf stream hdrEnd method path version := by
  rw [tryParseRequest_eq_some_iff, List.length_take, Nat.min_eq_left hn]
  constructor
  · rintro ⟨hdrEnd, method, path, version, hhead, hneeded, rfl⟩
    obtain ⟨hhead', hle⟩ := hhead.of_take hn
    rw [totalNeeded_take hle] at hneeded
    exact ⟨hdrEnd, method, path, version, hhead', hneeded, requestOf_take hnonneg hhead' hneeded hn⟩
  · rintro ⟨hdrEnd, method, path, version, hhead, hneeded, rfl⟩
    have hle : hdrEnd + headerDelim.length ≤ n := by
      have := headerLength_le_totalNeeded hnonneg hhead
      omega
    refine ⟨hdrEnd, method, path, version, hhead.take hn hle, ?_,
      (requestOf_take hnonneg hhead hneeded hn).symm⟩
    rw [totalNeeded_take hle]
    exact hneeded

end Prefix

/-! ### One call -/

section Calls

variable {cfg : Config} {f : Frame}

/-- A `recv` of `handle_client_readable` that gives data, not too much of it. -/
theorem handleClientReadable_data (hstate : f.conn.state = .readingRequest) {bytes : Bytes}
    (hrecv : f.io.recv = .data bytes) (hne : bytes ≠ [])
    (hsize : (f.conn.requestBuf ++ bytes).length ≤ cfg.maxRequestSize) :
    handleClientReadable cfg f =
      match tryParseRequest (f.conn.requestBuf ++ bytes) with
      | none => .returned (receiveRequest cfg bytes f)
      | some req => routeRequest cfg req (receiveRequest cfg bytes f) := by
  have hbuf : (receiveRequest cfg bytes f).conn.requestBuf = f.conn.requestBuf ++ bytes := by
    rw [receiveRequest_conn]
  rw [handleClientReadable, if_neg (not_not.mpr hstate), hrecv]
  refine (if_neg hne).trans ?_
  rw [← hbuf] at hsize ⊢
  exact if_neg (Nat.not_lt.mpr hsize)

/-- The end of a connection leaves its request as it is. -/
theorem sendError_keeps_request (code : Nat) (reason : String) (f : Frame) :
    (sendError code reason f).Post (Parsed f.conn.parsedRequest f.conn.forwardBuf)
      fun f' => Parsed f.conn.parsedRequest f.conn.forwardBuf (f'.setState .done) := by
  unfold sendError
  split
  · rw [post_returned, Parsed, finish_conn]
    exact ⟨rfl, rfl, State.noConfusion⟩
  · rw [post_returned, Parsed, finish_conn]
    exact ⟨rfl, rfl, State.noConfusion⟩
  · exact ⟨rfl, rfl, State.noConfusion⟩

/-- A connect leaves the request as it is, and `READING_REQUEST` behind. -/
theorem initiateBackendConnect_parsed (backend : Backend) (f : Frame) :
    (initiateBackendConnect cfg backend f).Post (Parsed f.conn.parsedRequest f.conn.forwardBuf)
      (Parsed f.conn.parsedRequest f.conn.forwardBuf) := by
  have hbegin : Parsed f.conn.parsedRequest f.conn.forwardBuf (beginConnect cfg f) := by
    rw [Parsed, beginConnect_conn]
    exact ⟨rfl, rfl, State.noConfusion⟩
  have hopen : ∀ fd, Parsed f.conn.parsedRequest f.conn.forwardBuf
      (openBackendSock backend fd (beginConnect cfg f)) := fun _ => hbegin
  rw [initiateBackendConnect_eq]
  split
  · exact hbegin
  · exact hopen _
  · dsimp only
    split_ifs
    · exact ((hopen _).enter State.noConfusion).refreshDeadline cfg
    · exact hopen _
    · exact failover_parsed.2 _ (hopen _)

theorem routeRequest_parsed (cfg : Config) (req : HttpRequest) (f : Frame) :
    let injected := injectForwardedFor req f.conn.clientAddr.1
    (routeRequest cfg req f).Post (Parsed (some injected) (serialiseRequest injected))
      fun f' => Parsed (some injected) (serialiseRequest injected) (f'.setState .done) := by
  intro injected
  unfold routeRequest
  dsimp only
  split
  · exact sendError_keeps_request 503 _ _
  · refine (initiateBackendConnect_parsed _ _).mono (fun _ h => h) fun _ h => ?_
    exact h.enter State.noConfusion

end Calls

/-! ### Runs -/

/-- The connection has received `r` from the client with the address `ip`. -/
def Fed (ip r : Bytes) (c : ProxyConnection) : Prop :=
  (c.state = .readingRequest ∧ c.requestBuf = r ∧ c.clientAddr.1 = ip ∧ tryParseRequest r = none) ∨
  ∃ req, tryParseRequest r = some req ∧ c.state ≠ .readingRequest ∧
    c.parsedRequest = some (injectForwardedFor req ip) ∧
    c.forwardBuf = serialiseRequest (injectForwardedFor req ip)

namespace Fleet

/-- The events that a client sending a request leaves to the connection `i`: data, and no data yet; and
any events on other connections. -/
def Sends (i : Nat) : Event → Prop
  | .call j c io =>
      j ≠ i ∨ (c = .clientReadable ∧ (io.recv = .blocked ∨ ∃ bytes ≠ [], io.recv = .data bytes))
  | .abort j => j ≠ i
  | _ => True

/-- The bytes that an event brings from the client of the connection `i`. -/
def sentIn (i : Nat) : Event → Bytes
  | .call j .clientReadable io =>
      if j = i then
        match io.recv with
        | .data bytes => bytes
        | _ => []
      else []
  | _ => []

variable {cfg : Config} {w w' : Fleet} {i : Nat} {stream ip r : Bytes}

theorem sentIn_of_kept {e : Event} (hcall : ∀ c io, e ≠ .call i c io) : sentIn i e = [] := by
  unfold sentIn
  split
  · next j io => exact if_neg fun hij => hcall .clientReadable io (by rw [hij])
  · rfl

/-- More bytes change nothing for a connection that has its request. -/
theorem tryParseRequest_append {bytes : Bytes} (hnonneg : LengthNonneg stream)
    (hpart : r ++ bytes <+: stream) {req : HttpRequest} (hparsed : tryParseRequest r = some req) :
    tryParseRequest (r ++ bytes) = some req := by
  have hr : r <+: stream := (List.prefix_append r bytes).trans hpart
  rw [List.prefix_iff_eq_take.mp hr, tryParseRequest_take hnonneg hr.length_le] at hparsed
  rw [List.prefix_iff_eq_take.mp hpart, tryParseRequest_take hnonneg hpart.length_le]
  obtain ⟨hdrEnd, method, path, version, hhead, hneeded, rfl⟩ := hparsed
  refine ⟨hdrEnd, method, path, version, hhead, le_trans hneeded ?_, rfl⟩
  rw [List.length_append]
  omega

/-- One `recv` that gives data. -/
theorem fed_call (hnonneg : LengthNonneg stream) (hsize : stream.length ≤ cfg.maxRequestSize)
    {s : Session} (hfed : Fed ip r s.conn) {io : Io} {bytes : Bytes} (hrecv : io.recv = .data bytes)
    (hne : bytes ≠ []) (hpart : r ++ bytes <+: stream) {f : Frame}
    (hends : Ends (handle cfg .clientReadable (w.frame s io)) f) : Fed ip (r ++ bytes) f.conn := by
  rcases hfed with ⟨hstate, hbuf, haddr, -⟩ | ⟨req, hparsed, hstate, hreq, hforward⟩
  · have hfits : ((w.frame s io).conn.requestBuf ++ bytes).length ≤ cfg.maxRequestSize := by
      rw [show (w.frame s io).conn.requestBuf = r from hbuf]
      exact hpart.length_le.trans hsize
    have hcall : handle cfg .clientReadable (w.frame s io) = _ :=
      handleClientReadable_data (f := w.frame s io) hstate hrecv hne hfits
    rw [show (w.frame s io).conn.requestBuf = r from hbuf] at hcall
    cases hparse : tryParseRequest (r ++ bytes) with
    | none =>
        rw [hcall, hparse] at hends
        refine hends.of_post (P := fun f => Fed ip (r ++ bytes) f.conn) ?_
        rw [post_returned, receiveRequest_conn]
        exact Or.inl ⟨hstate, congrArg (· ++ bytes) hbuf, haddr, hparse⟩
    | some req =>
        rw [hcall, hparse] at hends
        have hrouted := routeRequest_parsed cfg req (receiveRequest cfg bytes (w.frame s io))
        have hip : (receiveRequest cfg bytes (w.frame s io)).conn.clientAddr.1 = ip := by
          rw [receiveRequest_conn]
          exact haddr
        rw [hip] at hrouted
        obtain ⟨hreq, hforward, hleft⟩ := hends.of_post hrouted
        exact Or.inr ⟨req, hparse, hleft, hreq, hforward⟩
  · have hidle : handle cfg .clientReadable (w.frame s io) = .returned (w.frame s io) := if_pos hstate
    rw [hidle] at hends
    refine hends.of_post (P := fun f => Fed ip (r ++ bytes) f.conn) ?_
    exact Or.inr ⟨req, tryParseRequest_append hnonneg hpart hparsed, hstate, hreq, hforward⟩

theorem handle_blocked {s : Session} {io : Io} (hblocked : io.recv = .blocked) :
    handle cfg .clientReadable (w.frame s io) = .returned (w.frame s io) := by
  rw [handle, handleClientReadable, show (w.frame s io).io.recv = .blocked from hblocked]
  exact ite_self _

theorem fed_step (hnonneg : LengthNonneg stream) (hsize : stream.length ≤ cfg.maxRequestSize)
    {s : Session} (hs : w.sessions[i]? = some s) (hfed : Fed ip r s.conn) {e : Event} (he : Sends i e)
    (hpart : r ++ sentIn i e <+: stream) (hstep : step cfg w e = some w') :
    ∃ s', w'.sessions[i]? = some s' ∧ Fed ip (r ++ sentIn i e) s'.conn := by
  obtain ⟨s', hs', hbecomes⟩ := becomes_of_step hs hstep
  refine ⟨s', hs', ?_⟩
  cases hbecomes with
  | kept hcall habort =>
      rw [sentIn_of_kept hcall, List.append_nil]
      exact hfed
  | aborted => exact absurd rfl he
  | unregistered =>
      rw [show sentIn i (.unregistered i) = [] from rfl, List.append_nil]
      exact hfed
  | @called c io f hends =>
      rcases he with hne | ⟨rfl, hblocked | ⟨bytes, hne, hrecv⟩⟩
      · exact absurd rfl hne
      · have hnothing : sentIn i (.call i .clientReadable io) = [] := by simp [sentIn, hblocked]
        rw [handle_blocked hblocked] at hends
        rw [hnothing, List.append_nil]
        exact hends.of_post (P := fun f => Fed ip r f.conn) hfed
      · have hbytes : sentIn i (.call i .clientReadable io) = bytes := by simp [sentIn, hrecv]
        rw [hbytes] at hpart ⊢
        exact fed_call hnonneg hsize hfed hrecv hne hpart hends

theorem fed_run (hnonneg : LengthNonneg stream) (hsize : stream.length ≤ cfg.maxRequestSize)
    {later : List Event} {s : Session} (hs : w.sessions[i]? = some s) (hfed : Fed ip r s.conn)
    (hlater : ∀ e ∈ later, Sends i e) (hpart : r ++ later.flatMap (sentIn i) <+: stream)
    (hrun : Machine.run (step cfg) w later = some w') :
    ∃ s', w'.sessions[i]? = some s' ∧ Fed ip (r ++ later.flatMap (sentIn i)) s'.conn := by
  refine Machine.run_gathers (sentIn i)
    (fun r w => r <+: stream → ∃ s, w.sessions[i]? = some s ∧ Fed ip r s.conn) ?_ (fun _ => ⟨s, hs, hfed⟩)
    hlater hrun hpart
  intro r w e w' hsofar he hstep hpart
  obtain ⟨s, hs, hfed⟩ := hsofar ((List.prefix_append _ _).trans hpart)
  exact fed_step hnonneg hsize hs hfed he hpart hstep

/-- **Parsing does not depend on segmentation.** A connection that has read nothing receives the stream
of a client in any pieces. It stays in `READING_REQUEST` as long as what it received is not a complete
request of the stream, and has left it from then on; the request and what is forwarded of it are made of
the bytes of that request alone. -/
theorem request_parsed_once (cfg : Config) {w w' : Fleet} {i : Nat} {s : Session} {later : List Event}
    (stream : Bytes) (hs : w.sessions[i]? = some s) (hstate : s.conn.state = .readingRequest)
    (hempty : s.conn.requestBuf = []) (hsize : stream.length ≤ cfg.maxRequestSize)
    (hnonneg : LengthNonneg stream) (hlater : ∀ e ∈ later, Sends i e)
    (hpart : later.flatMap (sentIn i) <+: stream)
    (hrun : Machine.run (step cfg) w later = some w') :
    let received := (later.flatMap (sentIn i)).length
    ∃ s', w'.sessions[i]? = some s' ∧
      ((∀ hdrEnd method path version, HasHead stream hdrEnd method path version →
          (received : Int) < totalNeeded stream hdrEnd) → s'.conn.state = .readingRequest) ∧
      ∀ hdrEnd method path version, HasHead stream hdrEnd method path version →
        totalNeeded stream hdrEnd ≤ received →
        let complete := stream.take (totalNeeded stream hdrEnd).toNat
        let request := injectForwardedFor (requestOf complete hdrEnd method path version) s.conn.clientAddr.1
        s'.conn.state ≠ .readingRequest ∧ s'.conn.parsedRequest = some request ∧
          s'.conn.forwardBuf = serialiseRequest request := by
  intro received
  have hfed : Fed s.conn.clientAddr.1 [] s.conn := Or.inl ⟨hstate, hempty, rfl, rfl⟩
  obtain ⟨s', hs', hfed'⟩ := fed_run (r := []) hnonneg hsize hs hfed hlater hpart hrun
  rw [List.nil_append] at hfed'
  have hreceived : later.flatMap (sentIn i) = stream.take received := List.prefix_iff_eq_take.mp hpart
  have hparse : ∀ req, tryParseRequest (later.flatMap (sentIn i)) = some req ↔
      ∃ hdrEnd method path version, HasHead stream hdrEnd method path version ∧
        totalNeeded stream hdrEnd ≤ received ∧ req = requestOf stream hdrEnd method path version := by
    intro req
    rw [hreceived]
    exact tryParseRequest_take hnonneg hpart.length_le
  refine ⟨s', hs', fun hshort => ?_, fun hdrEnd method path version hhead hneeded => ?_⟩
  · rcases hfed' with h | ⟨req, hreq, -⟩
    · exact h.1
    · obtain ⟨hdrEnd, method, path, version, hhead, hneeded, -⟩ := (hparse req).mp hreq
      have := hshort hdrEnd method path version hhead
      omega
  · have hreq := (hparse _).mpr ⟨hdrEnd, method, path, version, hhead, hneeded, rfl⟩
    have hlen : received ≤ stream.length := hpart.length_le
    have hcomplete := requestOf_take hnonneg hhead (Int.self_le_toNat _) (by omega)
    dsimp only
    rw [hcomplete]
    rcases hfed' with ⟨-, -, -, hnone⟩ | ⟨req, hreq', hleft, hparsed, hforward⟩
    · cases hnone.symm.trans hreq
    · obtain rfl := Option.some.inj (hreq'.symm.trans hreq)
      exact ⟨hleft, hparsed, hforward⟩

/-- A request in two pieces. -/
def getPieces : List Event :=
  [.call 0 .clientReadable { quiet with recv := .data (ascii "GET / HT") },
    .call 0 .clientReadable quiet,
    .call 0 .clientReadable { quiet with recv := .data (ascii "TP/1.1\r\n\r\n") }]

theorem request_parsed_once_get : ∃ w w' s',
    Machine.run (step .default) (init twoBackends) [.accept 7 (ascii "10.0.0.1", 50000) []] = some w ∧
    Machine.run (step .default) w getPieces = some w' ∧ w'.sessions[0]? = some s' ∧
    s'.conn.state ≠ .readingRequest ∧
    s'.conn.parsedRequest = some (injectForwardedFor
      (requestOf (ascii "GET / HTTP/1.1\r\n\r\n") 14 (ascii "GET") (ascii "/") (ascii "HTTP/1.1"))
      (ascii "10.0.0.1")) := by
  let stream := ascii "GET / HTTP/1.1\r\n\r\n"
  let w : Fleet := (init twoBackends).accept .default 7 (ascii "10.0.0.1", 50000) []
  obtain ⟨w', hrun⟩ : ∃ w', Machine.run (step .default) w getPieces = some w' :=
    Option.isSome_iff_exists.mp (by decide +kernel)
  have hblock : find headerDelim stream = some 14 := by decide +kernel
  have hnonneg : LengthNonneg stream := by
    intro hdrEnd hfind
    obtain rfl := Option.some.inj (hblock.symm.trans hfind)
    decide +kernel
  have hlater : ∀ e ∈ getPieces, Sends 0 e := by
    simp [getPieces, Sends, quiet, ascii]
  obtain ⟨s', hs', -, hdone⟩ := request_parsed_once .default (w := w) (i := 0) stream rfl rfl rfl
    (by decide +kernel) hnonneg hlater (by decide +kernel) hrun
  obtain ⟨hleft, hparsed, -⟩ := hdone 14 (ascii "GET") (ascii "/") (ascii "HTTP/1.1")
    ⟨hblock, by decide +kernel⟩ (by decide +kernel)
  exact ⟨w, w', s', rfl, hrun, hs', hleft, hparsed⟩

end Fleet

end LoadBalancer
