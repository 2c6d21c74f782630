import LoadBalancer.Fleet
import LoadBalancer.HandlerRules

/-! When a response is complete. The framing fields that a connection caches are functions of its
response buffer, and `handle_backend_readable` decides on the buffer alone: `completion` is that
decision. A connection that waits for its backend has a buffer that is not complete. -/

namespace LoadBalancer

open PyText ListSearch Outcome

/-! ### The header block -/

section Header

variable {buf : Bytes} {hdrEnd : Nat}

theorem take_append_of_find (h : find headerDelim buf = some hdrEnd) (more : Bytes) :
    (buf ++ more).take hdrEnd = buf.take hdrEnd := by
  have := add_length_le_of_find h
  exact List.take_append_of_le_length (by omega)

/-- More bytes do not change how a complete header block is read. -/
theorem isChunkedResponse_append (h : find headerDelim buf = some hdrEnd) (more : Bytes) :
    isChunkedResponse (buf ++ more) = isChunkedResponse buf := by
  simp only [isChunkedResponse, find_append_of_some more h, h, take_append_of_find h]

theorem getResponseContentLength_append (h : find headerDelim buf = some hdrEnd) (more : Bytes) :
    getResponseContentLength (buf ++ more) = getResponseContentLength buf := by
  simp only [getResponseContentLength, find_append_of_some more h, h, take_append_of_find h]

theorem responseBody_of_find (h : find headerDelim buf = some hdrEnd) :
    responseBody buf = buf.drop (hdrEnd + headerDelim.length) := by
  rw [responseBody, h]

theorem parseResponseStatus_append {stop : Nat} (h : find lineDelim buf = some stop) (more : Bytes) :
    parseResponseStatus (buf ++ more) = parseResponseStatus buf := by
  have hle := add_length_le_of_find h
  rw [parseResponseStatus, parseResponseStatus, find_append_of_some more h, h]
  dsimp only
  rw [List.take_append_of_le_length (by omega)]

theorem isSome_find_line_of_header (h : (find headerDelim buf).isSome) : (find lineDelim buf).isSome :=
  isSome_find_iff.mpr (List.IsInfix.trans ⟨[], lineDelim, rfl⟩ (isSome_find_iff.mp h))

/-- A status once parsed stays as it is. -/
theorem parseResponseStatus_append_of_some {status : Int × Bytes} (h : parseResponseStatus buf = some status)
    (more : Bytes) : parseResponseStatus (buf ++ more) = some status := by
  cases hfind : find lineDelim buf with
  | none =>
      rw [parseResponseStatus, hfind] at h
      cases h
  | some stop => rw [parseResponseStatus_append hfind, h]

end Header

/-! ### Completion -/

/-- What `handle_backend_readable` makes of a response buffer: `none` if the chunk scanner never ends on
it, `some none` if it waits for more, and the bytes that it relays. -/
def completion (buf : Bytes) : Option (Option Bytes) :=
  match find headerDelim buf with
  | none => some none
  | some hdrEnd =>
      let start := hdrEnd + headerDelim.length
      if (isChunkedResponse buf).getD false then
        (tryConsumeChunkedBody (buf.drop start)).map fun framed =>
          framed.map fun n => buf.take (start + n)
      else if 0 ≤ getResponseContentLength buf ∧
          getResponseContentLength buf ≤ (buf.drop start).length then
        some (some buf)
      else some none

theorem isSome_find_of_isChunked {buf : Bytes} (h : isChunkedResponse buf = some true) :
    (find headerDelim buf).isSome := by
  cases hfind : find headerDelim buf with
  | none =>
      rw [isChunkedResponse, hfind] at h
      cases h
  | some hdrEnd => rfl

theorem getD_isChunked_iff {buf : Bytes} :
    (isChunkedResponse buf).getD false = true ↔ isChunkedResponse buf = some true := by
  cases isChunkedResponse buf with
  | none => simp
  | some b => cases b <;> simp

/-- Only the scan of a chunked body does not end. -/
theorem completion_eq_none_iff {buf : Bytes} : completion buf = none ↔
    isChunkedResponse buf = some true ∧ tryConsumeChunkedBody (responseBody buf) = none := by
  unfold completion
  split
  · next hfind =>
    refine iff_of_false nofun fun h => ?_
    have hfound := isSome_find_of_isChunked h.1
    rw [hfind] at hfound
    cases hfound
  · next hdrEnd hfind =>
    dsimp only
    rw [← responseBody_of_find hfind]
    split
    · next hchunked =>
      rw [Option.map_eq_none_iff]
      exact (and_iff_right (getD_isChunked_iff.mp hchunked)).symm
    · next hchunked =>
      refine iff_of_false ?_ fun h => hchunked (getD_isChunked_iff.mpr h.1)
      split <;> exact nofun

theorem isSome_find_of_completion {buf relay : Bytes} (h : completion buf = some (some relay)) :
    (find headerDelim buf).isSome := by
  cases hfind : find headerDelim buf with
  | none =>
      rw [completion, hfind] at h
      cases h
  | some hdrEnd => rfl

/-- The cached framing fields are those of the response buffer. -/
structure Framed (buf : Bytes) (headersDone isChunked : Bool) (contentLength : Int) : Prop where
  headers : headersDone = (find headerDelim buf).isSome
  chunked : headersDone = true → isChunked = (isChunkedResponse buf).getD false
  length : headersDone = true → isChunked = false → contentLength = getResponseContentLength buf

/-- The connection waits for more of the response. -/
structure Pending (buf : Bytes) (headersDone isChunked : Bool) (contentLength : Int) : Prop
    extends Framed buf headersDone isChunked contentLength where
  incomplete : completion buf = some none

def IsFramed (f : Frame) : Prop :=
  Framed f.conn.responseBuf f.conn.responseHeadersDone f.conn.responseIsChunked
    f.conn.responseContentLength

def IsPending (f : Frame) : Prop :=
  Pending f.conn.responseBuf f.conn.responseHeadersDone f.conn.responseIsChunked
    f.conn.responseContentLength

theorem pending_nil (isChunked : Bool) (contentLength : Int) :
    Pending [] false isChunked contentLength :=
  ⟨⟨rfl, by rintro ⟨⟩, by rintro ⟨⟩⟩, rfl⟩

/-- The bookkeeping on a grown buffer brings the cached fields up to date. -/
theorem framed_recordFraming {c : ProxyConnection} (old bytes : Bytes)
    (h : Framed old c.responseHeadersDone c.responseIsChunked c.responseContentLength)
    (hbuf : c.responseBuf = old ++ bytes) :
    Framed (recordFraming c).responseBuf (recordFraming c).responseHeadersDone
      (recordFraming c).responseIsChunked (recordFraming c).responseContentLength := by
  unfold recordFraming
  split
  · next hdone =>
    have hfound := h.headers
    rw [hdone] at hfound
    obtain ⟨hdrEnd, hfind⟩ := Option.isSome_iff_exists.mp hfound.symm
    refine ⟨?_, fun _ => ?_, fun _ hchunked => ?_⟩
    · rw [hdone, hbuf, find_append_of_some bytes hfind]
      rfl
    · rw [hbuf, isChunkedResponse_append hfind]
      exact h.chunked hdone
    · rw [hbuf, getResponseContentLength_append hfind]
      exact h.length hdone hchunked
  · next hdone =>
    split
    · next hfind =>
      refine ⟨?_, fun htrue => absurd htrue hdone, fun htrue => absurd htrue hdone⟩
      rw [Bool.eq_false_iff.mpr hdone, hfind]
      rfl
    · next hdrEnd hfind =>
      refine ⟨by rw [hfind]; rfl, fun _ => rfl, fun _ hchunked => ?_⟩
      dsimp only at hchunked ⊢
      rw [hchunked]
      rfl

section Frames

variable {cfg : Config} {f : Frame}

theorem framed_receiveResponse (h : IsFramed f) (bytes : Bytes) :
    IsFramed (receiveResponse cfg bytes f) := by
  refine framed_recordFraming f.conn.responseBuf bytes ?_ ?_
  · rw [recordStatus_eq, refreshDeadline_conn]
    exact h
  · rw [recordStatus_eq, refreshDeadline_conn]
    rfl

/-- `handle_backend_readable` on a grown buffer does what `completion` says. -/
theorem checkComplete_eq (cfg : Config) (h : IsFramed f) :
    ∃ received, checkComplete cfg f =
      match completion f.conn.responseBuf with
      | none => .hung
      | some none => .returned (f.update fun c => { c with responseBodyReceived := received })
      | some (some relay) => .returned (prepareRelay cfg (f.update fun c =>
          { c with responseBodyReceived := received, responseBuf := relay })) := by
  cases hfind : find headerDelim f.conn.responseBuf with
  | none =>
      have hdone : f.conn.responseHeadersDone = false := by rw [h.headers, hfind]; rfl
      refine ⟨f.conn.responseBodyReceived, ?_⟩
      rw [checkComplete, if_pos (by simp [hdone]), completion, hfind]
      rfl
  | some hdrEnd =>
      have hdone : f.conn.responseHeadersDone = true := by rw [h.headers, hfind]; rfl
      have hbody := responseBody_of_find hfind
      rw [checkComplete, if_neg (by simp [hdone]), completion, hfind]
      dsimp only
      rw [← hbody]
      cases hchunked : f.conn.responseIsChunked with
      | true =>
          have hheader : f.conn.responseBuf.length - (responseBody f.conn.responseBuf).length =
              hdrEnd + headerDelim.length := by
            have := add_length_le_of_find hfind
            rw [hbody, List.length_drop]
            omega
          refine ⟨f.conn.responseBodyReceived, ?_⟩
          rw [if_pos rfl, if_pos ((h.chunked hdone).symm.trans hchunked), hheader]
          cases tryConsumeChunkedBody (responseBody f.conn.responseBuf) with
          | none => rfl
          | some scanned => cases scanned <;> rfl
      | false =>
          have hnot : ¬ (isChunkedResponse f.conn.responseBuf).getD false = true := by
            rw [← h.chunked hdone, hchunked]
            exact Bool.false_ne_true
          have hlength := h.length hdone hchunked
          refine ⟨(responseBody f.conn.responseBuf).length, ?_⟩
          rw [if_neg Bool.false_ne_true, if_neg hnot]
          by_cases hcomplete : 0 ≤ getResponseContentLength f.conn.responseBuf ∧
              getResponseContentLength f.conn.responseBuf ≤ (responseBody f.conn.responseBuf).length
          · have hcached := hcomplete
            rw [← hlength] at hcached
            rw [if_pos hcomplete]
            exact if_pos hcached
          · have hcached := hcomplete
            rw [← hlength] at hcached
            rw [if_neg hcomplete]
            exact if_neg hcached

/-! ### Handlers -/

/-- A connection that has no response to relay yet waits for one. -/
def Waiting (f : Frame) : Prop :=
  f.conn.state ≠ .forwardingResponse → f.conn.state ≠ .done → IsPending f

theorem waiting_of_done (h : f.conn.state = .done) : Waiting f := fun _ hdone => absurd h hdone

theorem waiting_of_relaying (h : f.conn.state = .forwardingResponse) : Waiting f :=
  fun hrelay => absurd h hrelay

theorem sendError_waiting (code : Nat) (reason : String) :
    (sendError code reason f).Post Waiting fun _ => True :=
  (sendError_done f code reason).mono (fun _ => waiting_of_done) fun _ h => h

theorem waiting_prepareRelay : Waiting (prepareRelay cfg f) :=
  waiting_of_relaying (by rw [prepareRelay_conn])

theorem IsPending.refreshDeadline (h : IsPending f) : IsPending (refreshDeadline cfg f) := by
  rw [IsPending, refreshDeadline_conn]
  exact h

theorem failover_waiting :
    (∀ b f, IsPending f → (initiateBackendConnect cfg b f).Post Waiting fun _ => True) ∧
    ∀ f, True → (failBackend cfg f).Post Waiting fun _ => True := by
  have hbegin : ∀ {f : Frame}, IsPending f → IsPending (beginConnect cfg f) := by
    intro f h
    rw [IsPending, beginConnect_conn]
    exact h
  apply failover_post
  case noSocket => exact fun _ _ _ _ => trivial
  case raises => exact fun _ _ _ _ _ => trivial
  case connected =>
    intro b f fd h _ _ _
    exact IsPending.refreshDeadline
      (f := (openBackendSock b fd (beginConnect cfg f)).setState .forwardingRequest) (hbegin h)
  case inProgress => exact fun b f fd err h _ _ _ _ => hbegin h
  case refused => exact fun _ _ _ _ _ _ _ _ => trivial
  case retry => exact fun b f _ _ _ => pending_nil _ _
  case giveUp => exact fun _ _ _ _ => sendError_waiting 502 _

theorem handleTimeout_waiting (h : Waiting f) : (handleTimeout f).Post Waiting fun _ => True := by
  apply handleTimeout_post
  case ended => exact fun _ => h
  case idle => exact fun _ => sendError_waiting 408 _
  case relaying => exact fun _ _ => waiting_of_done rfl
  case unanswered => exact fun _ _ => sendError_waiting 504 _

theorem handleClientReadable_waiting (h : Waiting f) :
    (handleClientReadable cfg f).Post Waiting fun _ => True := by
  have hgrown : f.conn.state = .readingRequest → ∀ bytes, IsPending (receiveRequest cfg bytes f) := by
    intro hstate bytes
    have hpending : IsPending f := h (by rw [hstate]; rintro ⟨⟩) (by rw [hstate]; rintro ⟨⟩)
    exact IsPending.refreshDeadline hpending
  apply handleClientReadable_post
  case ignored => exact fun _ => h
  case blocked => exact fun _ _ => h
  case gone => exact fun _ _ => waiting_of_done rfl
  case raises => exact fun _ _ => trivial
  case tooLarge => exact fun _ _ _ _ _ => sendError_waiting 413 _
  case incomplete => exact fun bytes hstate _ _ _ _ _ => hgrown hstate bytes
  case complete =>
    intro bytes req hstate _ _ _
    apply routeRequest_post
    case unavailable => exact fun _ => sendError_waiting 503 _
    case routed => exact fun _ _ => failover_waiting.1 _ _ (hgrown hstate bytes)

theorem forwardRequest_waiting (h : IsPending f) :
    (forwardRequest cfg f).Post Waiting fun _ => True := by
  have hsent : ∀ accepted, IsPending (recordForwarded cfg accepted f) := by
    intro accepted
    rw [IsPending, recordForwarded_conn]
    exact h
  apply forwardRequest_post
  case blocked => exact fun _ _ _ => h
  case broken => exact fun _ => failover_waiting.2 f trivial
  case raises => exact fun _ => trivial
  case sentAll => exact fun _ accepted _ _ _ _ _ => IsPending.refreshDeadline (hsent accepted)
  case sentSome => exact fun _ accepted _ _ _ _ _ => hsent accepted

theorem handleBackendWritable_waiting (h : Waiting f) :
    (handleBackendWritable cfg f).Post Waiting fun _ => True := by
  apply handleBackendWritable_post
  case ignored => exact fun _ _ => h
  case raises => exact fun _ _ => trivial
  case refused => exact fun _ _ _ _ => failover_waiting.2 f trivial
  case connected =>
    intro hstate _
    have hpending : IsPending f := h (by rw [hstate]; rintro ⟨⟩) (by rw [hstate]; rintro ⟨⟩)
    exact forwardRequest_waiting (IsPending.refreshDeadline hpending)
  case forwarding =>
    intro hstate
    exact forwardRequest_waiting (h (by rw [hstate]; rintro ⟨⟩) (by rw [hstate]; rintro ⟨⟩))

theorem handleBackendReadable_waiting (h : Waiting f) :
    (handleBackendReadable cfg f).Post Waiting fun _ => True := by
  apply handleBackendReadable_post
  case ignored => exact fun _ => h
  case blocked => exact fun _ _ => h
  case broken => exact fun _ _ => failover_waiting.2 f trivial
  case raises => exact fun _ _ => trivial
  case closed =>
    exact fun _ _ => backendClosed_post (fun _ _ => failover_waiting.2 _ trivial) waiting_prepareRelay
  case received =>
    intro bytes hstate _ _
    have hpending : IsPending f := h (by rw [hstate]; rintro ⟨⟩) (by rw [hstate]; rintro ⟨⟩)
    have hframed : IsFramed (receiveResponse cfg bytes (f.log (.backendReceived bytes))) :=
      framed_receiveResponse (f := f.log (.backendReceived bytes)) hpending.toFramed bytes
    obtain ⟨received, heq⟩ := checkComplete_eq cfg hframed
    rw [heq]
    split
    · trivial
    · next hwaits => exact fun _ _ => ⟨hframed, hwaits⟩
    · exact waiting_prepareRelay

theorem handleClientWritable_waiting (h : Waiting f) :
    (handleClientWritable cfg f).Post Waiting fun _ => True := by
  apply handleClientWritable_post
  case ignored => exact fun _ => h
  case blocked => exact fun _ _ => h
  case gone => exact fun _ _ => waiting_of_done rfl
  case raises => exact fun _ _ => trivial
  case sentAll => exact fun _ _ _ _ _ _ => waiting_of_done rfl
  case sentSome =>
    intro _ accepted hstate _ _ _
    refine waiting_of_relaying ?_
    rw [recordRelayed_conn]
    exact hstate

theorem handle_waiting (c : Call) (h : Waiting f) : (handle cfg c f).Post Waiting fun _ => True := by
  cases c with
  | timeout => exact handleTimeout_waiting h
  | clientReadable => exact handleClientReadable_waiting h
  | clientWritable => exact handleClientWritable_waiting h
  | backendReadable => exact handleBackendReadable_waiting h
  | backendWritable => exact handleBackendWritable_waiting h

end Frames

/-- In every run, a connection that has no response to relay yet waits for one: its cached framing fields
are those of its response buffer, and the buffer is not complete. -/
theorem Fleet.pending_of_run {cfg : Config} {router : Router} {events : List Fleet.Event} {w : Fleet}
    (hrun : Machine.run (Fleet.step cfg) (Fleet.init router) events = some w) {s : Session}
    (hs : s ∈ w.sessions) (hrelay : s.conn.state ≠ .forwardingResponse) (hdone : s.conn.state ≠ .done) :
    Pending s.conn.responseBuf s.conn.responseHeadersDone s.conn.responseIsChunked
      s.conn.responseContentLength := by
  refine Fleet.session_invariant (fun s => s.conn.state ≠ .forwardingResponse → s.conn.state ≠ .done →
    Pending s.conn.responseBuf s.conn.responseHeadersDone s.conn.responseIsChunked
      s.conn.responseContentLength) ?_ ?_ ?_ (fun _ h => h) (by rintro s ⟨⟩) hrun s hs hrelay hdone
  · exact fun _ _ _ _ _ _ => pending_nil _ _
  · exact fun c f h => (handle_waiting c (f := f) h).mono (fun _ hret => hret)
      fun _ _ _ hdone => absurd rfl hdone
  · exact fun s _ _ hdone => absurd rfl hdone

end LoadBalancer
