import LoadBalancer.Chunked
import LoadBalancer.Framing

/-! Well-formed responses, however they are cut. Three kinds of framing make a byte string one complete
response; on every part of it `completion` waits, and it relays the whole. -/

namespace LoadBalancer

open PyText ListSearch Outcome

/-! ### Responses -/

/-- The values of the header fields with a given (lower-case) name. -/
def fieldValues (name : String) (head : Bytes) : List Bytes :=
  ((headerFields head).filter fun field => lower field.1 = ascii name).map Prod.snd

/-- A header block without its end, which is the first blank line. -/
def HeaderBlock (head : Bytes) : Prop := find headerDelim (head ++ headerDelim) = some head.length

/-- A response that ends by its own framing: chunked, or of a given length. -/
inductive Delimited : Bytes → Prop
  | chunked {head value : Bytes} (m : ChunkedBody) (block : HeaderBlock head)
      (coding : fieldValues "transfer-encoding" head = [value]) (lists : listsChunked value = true) :
      Delimited (head ++ headerDelim ++ m.bytes)
  | length {head value body : Bytes} (block : HeaderBlock head)
      (coding : fieldValues "transfer-encoding" head = [])
      (field : fieldValues "content-length" head = [value])
      (count : int 10 value = some (body.length : Int)) : Delimited (head ++ headerDelim ++ body)

/-- A response that ends with the stream. -/
inductive CloseDelimited : Bytes → Prop
  | mk {head body : Bytes} (block : HeaderBlock head)
      (coding : fieldValues "transfer-encoding" head = [])
      (field : fieldValues "content-length" head = []) : CloseDelimited (head ++ headerDelim ++ body)

/-! ### Completion of a response -/

section Block

variable {head : Bytes}

theorem map_find?_fields (name : String) (head : Bytes) :
    ((headerFields head).find? fun field => lower field.1 = ascii name).map Prod.snd =
      (fieldValues name head).head? := by
  rw [fieldValues, List.head?_map, List.head?_filter]

theorem isChunkedResponse_block (hblock : HeaderBlock head) (body : Bytes) :
    isChunkedResponse (head ++ headerDelim ++ body) =
      some ((fieldValues "transfer-encoding" head).head?.elim false listsChunked) := by
  rw [isChunkedResponse_append hblock, isChunkedResponse, hblock, ← map_find?_fields]
  dsimp only
  rw [List.take_left]
  cases (headerFields head).find? fun field => lower field.1 = ascii "transfer-encoding" <;> rfl

theorem getResponseContentLength_block (hblock : HeaderBlock head) (body : Bytes) :
    getResponseContentLength (head ++ headerDelim ++ body) =
      (fieldValues "content-length" head).head?.elim contentLengthAbsent
        fun value => (int 10 value).getD 0 := by
  rw [getResponseContentLength_append hblock, getResponseContentLength, hblock, ← map_find?_fields]
  dsimp only
  rw [List.take_left]
  cases (headerFields head).find? fun field => lower field.1 = ascii "content-length" <;> rfl

theorem completion_block (hblock : HeaderBlock head) (body : Bytes) :
    completion (head ++ headerDelim ++ body) =
      if (isChunkedResponse (head ++ headerDelim ++ body)).getD false then
        (tryConsumeChunkedBody body).map fun framed =>
          framed.map fun n => head ++ headerDelim ++ body.take n
      else if 0 ≤ getResponseContentLength (head ++ headerDelim ++ body) ∧
          getResponseContentLength (head ++ headerDelim ++ body) ≤ body.length then
        some (some (head ++ headerDelim ++ body))
      else some none := by
  have hlen : head.length + headerDelim.length = (head ++ headerDelim).length := List.length_append.symm
  rw [completion, find_append_of_some body hblock]
  dsimp only
  rw [hlen, List.drop_left]
  simp only [List.take_length_add_append]

/-- Before the end of the header block nothing is known. -/
theorem completion_short (hblock : HeaderBlock head) {n : Nat} (hn : n < (head ++ headerDelim).length)
    (body : Bytes) : completion ((head ++ headerDelim ++ body).take n) = some none := by
  have hnone : find headerDelim ((head ++ headerDelim ++ body).take n) = none :=
    find_take_eq_none (find_append_of_some body hblock) (by rwa [List.length_append] at hn)
  rw [completion, hnone]

end Block

/-- **Completion of a delimited response.** A part of it is not complete, and all of it is. -/
theorem completion_take_of_delimited {stream : Bytes} (h : Delimited stream) {n : Nat}
    (hn : n ≤ stream.length) :
    completion (stream.take n) = some (if n = stream.length then some stream else none) := by
  cases h with
  | chunked m hblock hcoding hlists =>
      rename_i head value
      have hlen : (head ++ headerDelim ++ m.bytes).length =
          (head ++ headerDelim).length + m.bytes.length := List.length_append
      by_cases hshort : n < (head ++ headerDelim).length
      · rw [completion_short hblock hshort, if_neg (by omega)]
      · obtain ⟨k, rfl⟩ := Nat.exists_eq_add_of_le (Nat.le_of_not_lt hshort)
        have hchunked : (isChunkedResponse (head ++ headerDelim ++ m.bytes.take k)).getD false = true := by
          rw [isChunkedResponse_block hblock, hcoding]
          exact hlists
        rw [List.take_length_add_append, completion_block hblock, if_pos hchunked,
          tryConsumeChunkedBody_take m (by omega), hlen, Option.map_some]
        congr 1
        unfold framed
        by_cases hwhole : k = m.bytes.length
        · rw [if_pos hwhole, if_pos (by omega), Option.map_some, List.take_take, Nat.min_self, hwhole,
            List.take_length]
        · rw [if_neg hwhole, if_neg (by omega)]
          rfl
  | length hblock hcoding hfield hcount =>
      rename_i head value body
      have hlen : (head ++ headerDelim ++ body).length =
          (head ++ headerDelim).length + body.length := List.length_append
      by_cases hshort : n < (head ++ headerDelim).length
      · rw [completion_short hblock hshort, if_neg (by omega)]
      · obtain ⟨k, rfl⟩ := Nat.exists_eq_add_of_le (Nat.le_of_not_lt hshort)
        have hchunked : ¬ (isChunkedResponse (head ++ headerDelim ++ body.take k)).getD false = true := by
          rw [isChunkedResponse_block hblock, hcoding]
          exact Bool.false_ne_true
        have hlength : getResponseContentLength (head ++ headerDelim ++ body.take k) =
            (body.length : Int) := by
          rw [getResponseContentLength_block hblock, hfield, List.head?_cons, Option.elim_some, hcount]
          rfl
        rw [List.take_length_add_append, completion_block hblock, if_neg hchunked, hlength, hlen,
          List.length_take]
        by_cases hwhole : k = body.length
        · rw [if_pos (by omega), if_pos (by omega), hwhole, List.take_length]
        · rw [if_neg (by omega), if_neg (by omega)]

/-- No part of a response that ends with the stream is complete before that end. -/
theorem completion_take_of_closeDelimited {stream : Bytes} (h : CloseDelimited stream) (n : Nat) :
    completion (stream.take n) = some none := by
  cases h with
  | mk hblock hcoding hfield =>
      rename_i head body
      by_cases hshort : n < (head ++ headerDelim).length
      · exact completion_short hblock hshort body
      · obtain ⟨k, rfl⟩ := Nat.exists_eq_add_of_le (Nat.le_of_not_lt hshort)
        rw [List.take_length_add_append, completion_block hblock, isChunkedResponse_block hblock, hcoding,
          getResponseContentLength_block hblock, hfield]
        rfl

theorem isChunkedResponse_of_closeDelimited {stream : Bytes} (h : CloseDelimited stream) :
    (find headerDelim stream).isSome ∧ isChunkedResponse stream = some false := by
  cases h with
  | mk hblock hcoding hfield =>
      refine ⟨?_, ?_⟩
      · rw [find_append_of_some _ hblock]
        rfl
      · rw [isChunkedResponse_block hblock, hcoding]
        rfl

theorem completion_of_delimited {stream : Bytes} (h : Delimited stream) :
    completion stream = some (some stream) := by
  have := completion_take_of_delimited h le_rfl
  rwa [List.take_length, if_pos rfl] at this

theorem completion_of_closeDelimited {stream : Bytes} (h : CloseDelimited stream) :
    completion stream = some none := by
  have := completion_take_of_closeDelimited h stream.length
  rwa [List.take_length] at this

/-! ### One call -/

section Receive

variable {cfg : Config} {f : Frame}

theorem receiveResponse_log (cfg : Config) (f : Frame) (bytes : Bytes) :
    (receiveResponse cfg bytes (f.log (.backendReceived bytes))).conn.state = f.conn.state ∧
    (receiveResponse cfg bytes (f.log (.backendReceived bytes))).conn.responseBuf =
      f.conn.responseBuf ++ bytes := by
  rw [receiveResponse_conn]
  exact ⟨rfl, rfl⟩

/-- The status is the first that a grown buffer shows. -/
theorem responseStatus_receiveResponse (cfg : Config) (f : Frame) (bytes : Bytes) :
    (receiveResponse cfg bytes f).conn.responseStatus = f.conn.responseStatus.or
      ((parseResponseStatus (f.conn.responseBuf ++ bytes)).map Prod.fst) := by
  have hgrown := refreshDeadline_conn cfg
    (f.update fun c => { c with responseBuf := c.responseBuf ++ bytes })
  rw [receiveResponse, update_conn, recordFraming_eq, recordStatus, hgrown, update_conn]
  dsimp only
  split
  · next status hstatus => rw [hstatus, Option.some_or]
  · next hstatus => rw [hstatus, Option.none_or]

theorem handleBackendReadable_waits (cfg : Config) (hstate : f.conn.state = .readingResponse)
    (hpending : IsPending f) {bytes : Bytes} (hrecv : f.io.recv = .data bytes) (hne : bytes ≠ [])
    (hwaits : completion (f.conn.responseBuf ++ bytes) = some none) :
    ∃ f', handleBackendReadable cfg f = .returned f' ∧ f'.conn.state = .readingResponse ∧
      f'.conn.responseBuf = f.conn.responseBuf ++ bytes ∧ IsPending f' ∧
      f'.conn.responseStatus = f.conn.responseStatus.or
        ((parseResponseStatus (f.conn.responseBuf ++ bytes)).map Prod.fst) := by
  obtain ⟨hstate', hbuf⟩ := receiveResponse_log cfg f bytes
  have hframed : IsFramed (receiveResponse cfg bytes (f.log (.backendReceived bytes))) :=
    framed_receiveResponse (f := f.log (.backendReceived bytes)) hpending.toFramed bytes
  obtain ⟨received, heq⟩ := checkComplete_eq cfg hframed
  rw [hbuf, hwaits] at heq
  refine ⟨_, (handleBackendReadable_data hstate hrecv hne).trans heq, hstate'.trans hstate, hbuf,
    ⟨hframed, ?_⟩, responseStatus_receiveResponse cfg (f.log (.backendReceived bytes)) bytes⟩
  rw [update_conn]
  exact (congrArg completion hbuf).trans hwaits

theorem handleBackendReadable_relays (cfg : Config) (hstate : f.conn.state = .readingResponse)
    (hpending : IsPending f) {bytes relay : Bytes} (hrecv : f.io.recv = .data bytes) (hne : bytes ≠ [])
    (hrelays : completion (f.conn.responseBuf ++ bytes) = some (some relay)) :
    ∃ f', handleBackendReadable cfg f = .returned f' ∧ f'.conn.state = .forwardingResponse ∧
      f'.conn.relayBuf = relay ∧ f'.conn.responseStatus = f.conn.responseStatus.or
        ((parseResponseStatus (f.conn.responseBuf ++ bytes)).map Prod.fst) := by
  obtain ⟨-, hbuf⟩ := receiveResponse_log cfg f bytes
  have hframed : IsFramed (receiveResponse cfg bytes (f.log (.backendReceived bytes))) :=
    framed_receiveResponse (f := f.log (.backendReceived bytes)) hpending.toFramed bytes
  obtain ⟨received, heq⟩ := checkComplete_eq cfg hframed
  rw [hbuf, hrelays] at heq
  refine ⟨_, (handleBackendReadable_data hstate hrecv hne).trans heq, ?_, ?_, ?_⟩
  · rw [prepareRelay_conn]
  · rw [prepareRelay_conn]
    rfl
  · rw [prepareRelay_conn]
    exact responseStatus_receiveResponse cfg (f.log (.backendReceived bytes)) bytes

/-- Bytes on which the chunk scanner never ends. -/
theorem handleBackendReadable_hangs (cfg : Config) (hstate : f.conn.state = .readingResponse)
    (hpending : IsPending f) {bytes : Bytes} (hrecv : f.io.recv = .data bytes) (hne : bytes ≠ [])
    (hhangs : completion (f.conn.responseBuf ++ bytes) = none) : handleBackendReadable cfg f = .hung := by
  have hframed : IsFramed (receiveResponse cfg bytes (f.log (.backendReceived bytes))) :=
    framed_receiveResponse (f := f.log (.backendReceived bytes)) hpending.toFramed bytes
  obtain ⟨received, heq⟩ := checkComplete_eq cfg hframed
  rw [(receiveResponse_log cfg f bytes).2, hhangs] at heq
  exact (handleBackendReadable_data hstate hrecv hne).trans heq

/-- The end of the stream of a response that is not chunked. -/
theorem handleBackendReadable_eof (cfg : Config) (hstate : f.conn.state = .readingResponse)
    (hrecv : f.io.recv = .data []) (hchunked : f.conn.responseIsChunked = false) :
    ∃ f', handleBackendReadable cfg f = .returned f' ∧ f'.conn.state = .forwardingResponse ∧
      f'.conn.relayBuf = f.conn.responseBuf := by
  refine ⟨prepareRelay cfg (f.log (.backendReceived [])), ?_, ?_, ?_⟩
  · rw [handleBackendReadable_closed hstate hrecv, backendClosed, log_conn, hchunked]
    rfl
  · rw [prepareRelay_conn]
  · rw [prepareRelay_conn]
    rfl

end Receive

/-! ### Runs -/

/-- The first part `r` of `stream` has been received. -/
def Progress (stream r : Bytes) (c : ProxyConnection) : Prop :=
  (c.state = .readingResponse ∧ c.responseBuf = r ∧
    Pending c.responseBuf c.responseHeadersDone c.responseIsChunked c.responseContentLength) ∨
  (c.state = .forwardingResponse ∧ c.relayBuf = stream ∧ Delimited stream ∧ r = stream)

namespace Fleet

/-- The events that a backend answering in full leaves to the connection `i`: data, no data yet, and
calls that its handlers ignore; and any events on other connections. -/
def Undisturbed (i : Nat) : Event → Prop
  | .call j c io =>
      j ≠ i ∨ c = .clientReadable ∨ c = .backendWritable ∨
        (c = .backendReadable ∧ (io.recv = .blocked ∨ ∃ bytes ≠ [], io.recv = .data bytes))
  | .abort j => j ≠ i
  | _ => True

/-- The bytes that an event brings for the connection `i`. -/
def receivedIn (i : Nat) : Event → Bytes
  | .call j .backendReadable io =>
      if j = i then
        match io.recv with
        | .data bytes => bytes
        | _ => []
      else []
  | _ => []

variable {cfg : Config} {w w' : Fleet} {i : Nat}

/-- One call on a connection that receives a well-formed response. -/
theorem progress_call (cfg : Config) {stream r : Bytes} (hstream : Delimited stream ∨ CloseDelimited stream)
    {s : Session} (hprogress : Progress stream r s.conn) {io : Io}
    {bytes : Bytes} (hrecv : io.recv = .data bytes) (hne : bytes ≠ []) (hpart : r ++ bytes <+: stream) :
    ∃ f, handle cfg .backendReadable (w.frame s io) = .returned f ∧ Progress stream (r ++ bytes) f.conn := by
  have hlen := hpart.length_le
  have htake : stream.take (r ++ bytes).length = r ++ bytes := (List.prefix_iff_eq_take.mp hpart).symm
  rcases hprogress with ⟨hstate, rfl, hpending⟩ | ⟨-, -, -, rfl⟩
  · have hcompletion : completion (s.conn.responseBuf ++ bytes) = some none ∨
        (Delimited stream ∧ s.conn.responseBuf ++ bytes = stream ∧
          completion (s.conn.responseBuf ++ bytes) = some (some stream)) := by
      rcases hstream with hdelimited | hclose
      · have := completion_take_of_delimited hdelimited hlen
        rw [htake] at this
        by_cases hwhole : (s.conn.responseBuf ++ bytes).length = stream.length
        · rw [if_pos hwhole] at this
          exact Or.inr ⟨hdelimited, hpart.eq_of_length hwhole, this⟩
        · rw [if_neg hwhole] at this
          exact Or.inl this
      · have := completion_take_of_closeDelimited hclose (s.conn.responseBuf ++ bytes).length
        rw [htake] at this
        exact Or.inl this
    rcases hcompletion with hwaits | ⟨hdelimited, hwhole, hrelays⟩
    · obtain ⟨f, hf, hstate', hbuf, hpending', -⟩ :=
        handleBackendReadable_waits cfg (f := w.frame s io) hstate hpending hrecv hne hwaits
      exact ⟨f, hf, Or.inl ⟨hstate', hbuf, hpending'⟩⟩
    · obtain ⟨f, hf, hstate', hrelay, -⟩ :=
        handleBackendReadable_relays cfg (f := w.frame s io) hstate hpending hrecv hne hrelays
      exact ⟨f, hf, Or.inr ⟨hstate', hrelay, hdelimited, hwhole⟩⟩
  · have := List.length_pos_of_ne_nil hne
    rw [List.length_append] at hlen
    omega

/-- Calls that find nothing to do leave the connection as it is. -/
theorem handle_idle {s : Session}
    (hstate : s.conn.state = .readingResponse ∨ s.conn.state = .forwardingResponse)
    {c : Call} {io : Io} (hcall : c = .clientReadable ∨ c = .backendWritable ∨
      (c = .backendReadable ∧ io.recv = .blocked)) :
    handle cfg c (w.frame s io) = .returned (w.frame s io) := by
  rcases hcall with rfl | rfl | ⟨rfl, hrecv⟩
  · rw [handle, handleClientReadable, if_pos]
    rcases hstate with h | h <;> simp [frame, h]
  · rw [handle, handleBackendWritable]
    rcases hstate with h | h <;> simp [frame, h]
  · rw [handle, handleBackendReadable]
    rcases hstate with h | h <;> simp [frame, h, hrecv]

theorem receivedIn_of_kept {e : Event} (hcall : ∀ c io, e ≠ .call i c io) : receivedIn i e = [] := by
  unfold receivedIn
  split
  · next j io => exact if_neg fun hij => hcall .backendReadable io (by rw [hij])
  · rfl

/-- What an undisturbed event is for the connection: data, or nothing. -/
theorem undisturbed_step {s : Session} (hs : w.sessions[i]? = some s)
    (hstate : s.conn.state = .readingResponse ∨ s.conn.state = .forwardingResponse) {e : Event}
    (he : Undisturbed i e) (hstep : step cfg w e = some w') :
    ∃ s', w'.sessions[i]? = some s' ∧
      ((receivedIn i e = [] ∧ (s' = s ∨ s' = s.clearPending)) ∨
        ∃ io bytes f, bytes ≠ [] ∧ io.recv = .data bytes ∧ receivedIn i e = bytes ∧
          Ends (handle cfg .backendReadable (w.frame s io)) f ∧ s' = sessionOf f) := by
  obtain ⟨s', hs', hbecomes⟩ := becomes_of_step hs hstep
  refine ⟨s', hs', ?_⟩
  cases hbecomes with
  | kept hcall habort => exact Or.inl ⟨receivedIn_of_kept hcall, Or.inl rfl⟩
  | aborted => exact absurd rfl he
  | unregistered => exact Or.inl ⟨rfl, Or.inr rfl⟩
  | @called c io f hends =>
      have hidle : ∀ hcall : c = .clientReadable ∨ c = .backendWritable ∨
          (c = .backendReadable ∧ io.recv = .blocked), sessionOf f = s := by
        intro hcall
        rw [handle_idle hstate hcall] at hends
        exact hends.of_post (P := fun f => sessionOf f = s) rfl
      rcases he with hne | rfl | rfl | ⟨rfl, hblocked | ⟨bytes, hne, hrecv⟩⟩
      · exact absurd rfl hne
      · exact Or.inl ⟨rfl, Or.inl (hidle (Or.inl rfl))⟩
      · exact Or.inl ⟨rfl, Or.inl (hidle (Or.inr (Or.inl rfl)))⟩
      · exact Or.inl ⟨by simp [receivedIn, hblocked], Or.inl (hidle (Or.inr (Or.inr ⟨rfl, hblocked⟩)))⟩
      · exact Or.inr ⟨io, bytes, f, hne, hrecv, by simp [receivedIn, hrecv], hends, rfl⟩

theorem progress_step {stream r : Bytes} (hstream : Delimited stream ∨ CloseDelimited stream)
    {s : Session} (hs : w.sessions[i]? = some s) (hprogress : Progress stream r s.conn) {e : Event}
    (he : Undisturbed i e) (hpart : r ++ receivedIn i e <+: stream) (hstep : step cfg w e = some w') :
    ∃ s', w'.sessions[i]? = some s' ∧ Progress stream (r ++ receivedIn i e) s'.conn := by
  obtain ⟨s', hs', h⟩ := undisturbed_step hs (hprogress.imp And.left And.left) he hstep
  refine ⟨s', hs', ?_⟩
  rcases h with ⟨hnothing, rfl | rfl⟩ | ⟨io, bytes, f, hne, hrecv, hbytes, hends, rfl⟩
  · rw [hnothing, List.append_nil]
    exact hprogress
  · rw [hnothing, List.append_nil]
    exact hprogress
  · rw [hbytes] at hpart ⊢
    obtain ⟨f', hf', hprogress'⟩ := progress_call (w := w) cfg hstream hprogress hrecv hne hpart
    rw [hf'] at hends
    exact hends.of_post (P := fun f => Progress stream (r ++ bytes) f.conn) hprogress'

theorem progress_run {stream : Bytes} (hstream : Delimited stream ∨ CloseDelimited stream)
    {later : List Event} {r : Bytes} {s : Session} (hs : w.sessions[i]? = some s)
    (hprogress : Progress stream r s.conn) (hlater : ∀ e ∈ later, Undisturbed i e)
    (hpart : r ++ later.flatMap (receivedIn i) <+: stream)
    (hrun : Machine.run (step cfg) w later = some w') :
    ∃ s', w'.sessions[i]? = some s' ∧ Progress stream (r ++ later.flatMap (receivedIn i)) s'.conn := by
  refine Machine.run_gathers (receivedIn i)
    (fun r w => r <+: stream → ∃ s, w.sessions[i]? = some s ∧ Progress stream r s.conn) ?_
    (fun _ => ⟨s, hs, hprogress⟩) hlater hrun hpart
  intro r w e w' hsofar he hstep hpart
  obtain ⟨s, hs, hprogress⟩ := hsofar ((List.prefix_append _ _).trans hpart)
  exact progress_step hstream hs hprogress he hpart hstep

/-- **A response is relayed exactly.** Let a connection of any run be in `READING_RESPONSE` with nothing
received, and let its backend send a complete response in any pieces. While a part is missing, the
connection reads on, and each further call returns; with its last byte (or, if it ends with the stream,
with the end of the stream) the connection turns to `FORWARDING_RESPONSE` with exactly that response. -/
theorem response_relayed_exactly (cfg : Config) (router : Router) {events later : List Event}
    {w w' : Fleet} {i : Nat} {s : Session} {stream : Bytes}
    (hrun : Machine.run (step cfg) (init router) events = some w) (hs : w.sessions[i]? = some s)
    (hstate : s.conn.state = .readingResponse) (hfresh : s.conn.responseBuf = [])
    (hstream : Delimited stream ∨ CloseDelimited stream) (hlater : ∀ e ∈ later, Undisturbed i e)
    (hpart : later.flatMap (receivedIn i) <+: stream)
    (hrun' : Machine.run (step cfg) w later = some w') :
    ∃ s', w'.sessions[i]? = some s' ∧
      (Delimited stream ∧ later.flatMap (receivedIn i) = stream →
        s'.conn.state = .forwardingResponse ∧ s'.conn.relayBuf = stream) ∧
      (¬ (Delimited stream ∧ later.flatMap (receivedIn i) = stream) →
        s'.conn.state = .readingResponse) ∧
      (∀ io bytes, io.recv = .data bytes → bytes ≠ [] →
        later.flatMap (receivedIn i) ++ bytes <+: stream →
        ∃ w'', step cfg w' (.call i .backendReadable io) = some w'') ∧
      ∀ io, CloseDelimited stream → later.flatMap (receivedIn i) = stream → io.recv = .data [] →
        ∃ w'' s'', step cfg w' (.call i .backendReadable io) = some w'' ∧
          w''.sessions[i]? = some s'' ∧ s''.conn.state = .forwardingResponse ∧
          s''.conn.relayBuf = stream := by
  have hmem : s ∈ w.sessions := List.mem_of_getElem? hs
  have hpending := pending_of_run hrun hmem (by rw [hstate]; rintro ⟨⟩) (by rw [hstate]; rintro ⟨⟩)
  obtain ⟨s', hs', hprogress⟩ := progress_run (r := []) hstream hs (Or.inl ⟨hstate, hfresh, hpending⟩)
    hlater hpart hrun'
  rw [List.nil_append] at hprogress
  refine ⟨s', hs', fun hwhole => ?_, fun hnot => ?_, fun io bytes hrecv hne hmore => ?_,
    fun io hclose hwhole hrecv => ?_⟩
  · rcases hprogress with ⟨-, hbuf, hwaits⟩ | ⟨hstate', hrelay, -, -⟩
    · have hincomplete := hwaits.incomplete
      rw [hbuf, hwhole.2, completion_of_delimited hwhole.1] at hincomplete
      cases hincomplete
    · exact ⟨hstate', hrelay⟩
  · rcases hprogress with ⟨hstate', -, -⟩ | ⟨-, -, hdelimited, hwhole⟩
    · exact hstate'
    · exact absurd ⟨hdelimited, hwhole⟩ hnot
  · obtain ⟨f, hf, -⟩ := progress_call cfg hstream hprogress hrecv hne hmore
    exact ⟨_, step_call_of_returned hs' hf⟩
  · rcases hprogress with ⟨hstate', hbuf, hwaits⟩ | ⟨-, -, hdelimited, -⟩
    · rw [hwhole] at hbuf
      obtain ⟨hfound, hplain⟩ := isChunkedResponse_of_closeDelimited hclose
      have hdone : s'.conn.responseHeadersDone = true := by rw [hwaits.headers, hbuf, hfound]
      have hchunked : s'.conn.responseIsChunked = false := by rw [hwaits.chunked hdone, hbuf, hplain]; rfl
      obtain ⟨f, hf, hrelaying, hrelay⟩ :=
        handleBackendReadable_eof cfg (f := w'.frame s' io) hstate' hrecv hchunked
      exact ⟨_, _, step_call_of_returned hs' hf, getElem?_put_self hs' f, hrelaying, hrelay.trans hbuf⟩
    · have := completion_of_delimited hdelimited
      rw [completion_of_closeDelimited hclose] at this
      cases this

def hiHead : Bytes := ascii "HTTP/1.1 200 OK\r\nTransfer-Encoding: chunked"

/-- The response in three pieces, cut inside the blank line and inside the chunk. -/
def hiPieces : List Event :=
  [ascii "HTTP/1.1 200 OK\r\nTransfer-Encoding: chunked\r\n\r", ascii "\n2\r\nh", ascii "i\r\n0\r\n\r\n"].map
    fun bytes => .call 0 .backendReadable { quiet with recv := .data bytes }

theorem response_relayed_exactly_hi : ∃ w' s',
    Machine.run (step .default) (init (.leastConnections (.init [localBackend])))
      ((oneRequest .blocked).take 3 ++ hiPieces) = some w' ∧
    w'.sessions[0]? = some s' ∧ s'.conn.state = .forwardingResponse ∧
    s'.conn.relayBuf = hiHead ++ headerDelim ++ hiChunked.bytes := by
  have hview : ((Machine.run (step .default) (init (.leastConnections (.init [localBackend])))
      ((oneRequest .blocked).take 3)).bind fun w =>
        (Machine.run (step .default) w hiPieces).bind fun _ =>
          w.sessions[0]?.map fun s => (s.conn.state, s.conn.responseBuf)) =
      some (.readingResponse, []) := by decide +kernel
  obtain ⟨w, hrun, hview⟩ := Option.bind_eq_some_iff.mp hview
  obtain ⟨w', hrun', hview⟩ := Option.bind_eq_some_iff.mp hview
  obtain ⟨s, hs, hsview⟩ := Option.map_eq_some_iff.mp hview
  obtain ⟨hstate, hfresh⟩ := Prod.mk.inj hsview
  have hblock : find headerDelim (hiHead ++ headerDelim) = some hiHead.length := by decide
  have hcoding : fieldValues "transfer-encoding" hiHead = [ascii "chunked"] := by decide +kernel
  have hdelimited : Delimited (hiHead ++ headerDelim ++ hiChunked.bytes) :=
    .chunked hiChunked hblock hcoding (by decide)
  have hlater : ∀ e ∈ hiPieces, Undisturbed 0 e := by
    intro e he
    obtain ⟨bytes, hbytes, rfl⟩ := List.mem_map.mp he
    have hne : ∀ piece ∈ [ascii "HTTP/1.1 200 OK\r\nTransfer-Encoding: chunked\r\n\r", ascii "\n2\r\nh",
        ascii "i\r\n0\r\n\r\n"], piece ≠ [] := by decide
    exact Or.inr (Or.inr (Or.inr ⟨rfl, Or.inr ⟨bytes, hne bytes hbytes, rfl⟩⟩))
  have hreceived : hiPieces.flatMap (receivedIn 0) = hiHead ++ headerDelim ++ hiChunked.bytes := by decide
  obtain ⟨s', hs', hdone, -⟩ := response_relayed_exactly .default _ hrun hs hstate hfresh
    (Or.inl hdelimited) hlater (hreceived ▸ List.prefix_rfl) hrun'
  refine ⟨w', s', ?_, hs', hdone ⟨hdelimited, hreceived⟩⟩
  rw [Machine.run_append, hrun]
  exact hrun'

end Fleet

end LoadBalancer
