import LoadBalancer.ResponseCuts

/-! What ends a response at its header. The proxy looks at the framing fields only: neither the method of
the request nor the status of the response says that there is no body, so a response to `HEAD`, or one
with the status 204 or 304, ends at its header only if its fields announce nothing more. -/

namespace LoadBalancer

open PyText ListSearch Outcome

/-- The body that the framing fields of a header block announce is there. -/
def BodyArrived (buf : Bytes) : Prop :=
  if isChunkedResponse buf = some true then ∃ n, tryConsumeChunkedBody (responseBody buf) = some (some n)
  else 0 ≤ getResponseContentLength buf ∧ getResponseContentLength buf ≤ (responseBody buf).length

/-- The chunk scanner never ends on the body. -/
def ScanHangs (buf : Bytes) : Prop :=
  isChunkedResponse buf = some true ∧ tryConsumeChunkedBody (responseBody buf) = none

section Block

variable {head : Bytes}

theorem responseBody_block (hblock : HeaderBlock head) (more : Bytes) :
    responseBody (head ++ headerDelim ++ more) = more := by
  have hlen : head.length + headerDelim.length = (head ++ headerDelim).length := List.length_append.symm
  rw [responseBody_of_find (find_block hblock more), hlen, List.drop_left]

/-- A body that has arrived is what completes a response with a complete header block. -/
theorem bodyArrived_iff_completion (hblock : HeaderBlock head) (more : Bytes) :
    BodyArrived (head ++ headerDelim ++ more) ↔
      ∃ relay, completion (head ++ headerDelim ++ more) = some (some relay) := by
  rw [BodyArrived, completion_block hblock, responseBody_block hblock, isChunkedResponse_block hblock,
    Option.getD_some]
  by_cases hchunked : (fieldValues "transfer-encoding" head).head?.elim false listsChunked = true
  · rw [if_pos hchunked, if_pos (congrArg some hchunked)]
    cases tryConsumeChunkedBody more with
    | none => simp
    | some framed => cases framed <;> simp
  · rw [if_neg hchunked, if_neg fun heq => hchunked (Option.some.inj heq)]
    split
    · next hlength => exact iff_of_true hlength ⟨_, rfl⟩
    · next hlength => exact iff_of_false hlength (by rintro ⟨relay, ⟨⟩⟩)

theorem scanHangs_iff_completion (hblock : HeaderBlock head) (more : Bytes) :
    ScanHangs (head ++ headerDelim ++ more) ↔ completion (head ++ headerDelim ++ more) = none := by
  rw [ScanHangs, completion_block hblock, responseBody_block hblock, isChunkedResponse_block hblock,
    Option.getD_some, Option.some_inj]
  by_cases hchunked : (fieldValues "transfer-encoding" head).head?.elim false listsChunked = true
  · rw [if_pos hchunked, Option.map_eq_none_iff]
    exact and_iff_right hchunked
  · rw [if_neg hchunked]
    refine iff_of_false (fun h => hchunked h.1) ?_
    split <;> rintro ⟨⟩

end Block

namespace Fleet

variable {cfg : Config} {w u : Fleet} {i : Nat} {head more : Bytes} {io : Io}

/-- A run from `w` to `u` brings the connection `i` a part of a header block in any pieces; the rest of it,
and `more` behind it, is what the next `recv` gives. -/
def HeaderArrives (cfg : Config) (w : Fleet) (i : Nat) (head more : Bytes) (u : Fleet) (io : Io) : Prop :=
  ∃ later bytes, (∀ e ∈ later, Undisturbed i e) ∧ Machine.run (step cfg) w later = some u ∧
    io.recv = .data bytes ∧ later.flatMap (receivedIn i) ++ bytes = head ++ headerDelim ++ more ∧
    (later.flatMap (receivedIn i)).length < (head ++ headerDelim).length

/-- The call for that `recv` returns with the connection in the given state. -/
def Turns (cfg : Config) (u : Fleet) (i : Nat) (io : Io) (state : State) : Prop :=
  ∃ u' t, step cfg u (.call i .backendReadable io) = some u' ∧ u'.sessions[i]? = some t ∧
    t.conn.state = state

theorem turns_iff_of_returned {s : Session} (hs : u.sessions[i]? = some s) {f : Frame}
    (h : handle cfg .backendReadable (u.frame s io) = .returned f) (state : State) :
    Turns cfg u i io state ↔ f.conn.state = state := by
  have hstep := step_call_of_returned hs h
  have ht : (u.put i f).sessions[i]? = some (sessionOf f) := getElem?_put_self hs f
  constructor
  · rintro ⟨u', t, hstep', ht', rfl⟩
    obtain rfl := Option.some.inj (hstep.symm.trans hstep')
    obtain rfl := Option.some.inj (ht.symm.trans ht')
    rfl
  · exact fun hstate => ⟨_, _, hstep, ht, hstate⟩

theorem not_turns_of_hung {s : Session} (hs : u.sessions[i]? = some s)
    (h : handle cfg .backendReadable (u.frame s io) = .hung) (state : State) :
    ¬ Turns cfg u i io state := by
  rintro ⟨u', t, hstep, -, -⟩
  obtain ⟨s', f, hs', hends, -⟩ := step_call_cases hstep
  obtain rfl := Option.some.inj (hs.symm.trans hs')
  rw [h] at hends
  exact absurd hends (by simp [Ends])

section Arrival

variable {s : Session} (hs : w.sessions[i]? = some s) (hstate : s.conn.state = .readingResponse)
  (hfresh : s.conn.responseBuf = [])
  (hpending : Pending s.conn.responseBuf s.conn.responseHeadersDone s.conn.responseIsChunked
    s.conn.responseContentLength)

include hs hstate hfresh hpending

/-- While the header block is not complete, the connection reads on, and keeps what it has received. -/
theorem HeaderArrives.reads (hblock : HeaderBlock head) (h : HeaderArrives cfg w i head more u io) :
    ∃ t bytes, u.sessions[i]? = some t ∧ t.conn.state = .readingResponse ∧ io.recv = .data bytes ∧
      bytes ≠ [] ∧ t.conn.responseBuf ++ bytes = head ++ headerDelim ++ more ∧
      Pending t.conn.responseBuf t.conn.responseHeadersDone t.conn.responseIsChunked
        t.conn.responseContentLength := by
  obtain ⟨later, bytes, hlater, hrun, hrecv, hwhole, hshort⟩ := h
  have hgrown : Grown [] s.conn.responseStatus [] s.conn :=
    Or.inl ⟨hstate, hfresh, hpending, Or.inl ⟨rfl, rfl⟩⟩
  obtain ⟨t, ht, hgrown'⟩ := grown_run hs hgrown hlater hrun
  rw [List.nil_append] at hgrown'
  have hnone : find headerDelim (later.flatMap (receivedIn i)) = none := by
    have hpart : (head ++ headerDelim ++ more).take (later.flatMap (receivedIn i)).length =
        later.flatMap (receivedIn i) := by rw [← hwhole, List.take_left]
    rw [List.length_append] at hshort
    exact hpart ▸ find_take_eq_none (find_block hblock more) hshort
  rcases hgrown' with ⟨hreading, hbuf, hpending', -⟩ | ⟨-, p, -, ⟨rest, hrest⟩, hcompletion, -⟩
  · rw [List.nil_append] at hbuf
    refine ⟨t, bytes, ht, hreading, hrecv, ?_, hbuf ▸ hwhole, hpending'⟩
    rintro rfl
    have hlen : (head ++ headerDelim ++ more).length = (head ++ headerDelim).length + more.length :=
      List.length_append
    rw [List.append_nil] at hwhole
    rw [hwhole] at hshort
    omega
  · obtain ⟨k, hk⟩ := Option.isSome_iff_exists.mp (isSome_find_of_completion hcompletion)
    rw [List.nil_append] at hk
    rw [← hrest, find_append_of_some rest hk] at hnone
    cases hnone

/-- What the `recv` that completes the header block does. -/
theorem HeaderArrives.turns (hblock : HeaderBlock head) (h : HeaderArrives cfg w i head more u io) :
    (Turns cfg u i io .forwardingResponse ↔ BodyArrived (head ++ headerDelim ++ more)) ∧
    (Turns cfg u i io .readingResponse ↔ ¬ BodyArrived (head ++ headerDelim ++ more) ∧
      ¬ ScanHangs (head ++ headerDelim ++ more)) := by
  obtain ⟨t, bytes, ht, hreading, hrecv, hne, hwhole, hpending'⟩ := h.reads hs hstate hfresh hpending hblock
  rw [bodyArrived_iff_completion hblock, scanHangs_iff_completion hblock]
  cases hcompletion : completion (head ++ headerDelim ++ more) with
  | none =>
      rw [← hwhole] at hcompletion
      have hhung : handle cfg .backendReadable (u.frame t io) = .hung :=
        handleBackendReadable_hangs cfg (f := u.frame t io) hreading hpending' hrecv hne hcompletion
      exact ⟨iff_of_false (not_turns_of_hung ht hhung _) (by rintro ⟨relay, ⟨⟩⟩),
        iff_of_false (not_turns_of_hung ht hhung _) fun hreads => hreads.2 rfl⟩
  | some complete =>
      rw [← hwhole] at hcompletion
      cases complete with
      | none =>
          obtain ⟨f, hf, hstate', -⟩ :=
            handleBackendReadable_waits cfg (f := u.frame t io) hreading hpending' hrecv hne hcompletion
          rw [turns_iff_of_returned ht hf, turns_iff_of_returned ht hf, hstate']
          exact ⟨iff_of_false nofun (by rintro ⟨relay, ⟨⟩⟩),
            iff_of_true rfl ⟨by rintro ⟨relay, ⟨⟩⟩, nofun⟩⟩
      | some relay =>
          obtain ⟨f, hf, hstate', -⟩ :=
            handleBackendReadable_relays cfg (f := u.frame t io) hreading hpending' hrecv hne hcompletion
          rw [turns_iff_of_returned ht hf, turns_iff_of_returned ht hf, hstate']
          exact ⟨iff_of_true rfl ⟨relay, rfl⟩, iff_of_false nofun fun hreads => hreads.1 ⟨relay, rfl⟩⟩

end Arrival

/-- **What ends a response at its header.** Let a connection of any run be in `READING_RESPONSE` with nothing
received, and let its backend send a header block in any pieces. Whatever the method and the status, the
`recv` that completes the block turns the connection to `FORWARDING_RESPONSE` exactly if the body that the
framing fields announce has come along with it. So it does, however the block is cut, exactly if the block
is not chunked and its `Content-Length` is zero. -/
theorem header_only_iff (cfg : Config) (router : Router) {events : List Event} {w : Fleet} {i : Nat}
    {s : Session} (hrun : Machine.run (step cfg) (init router) events = some w)
    (hs : w.sessions[i]? = some s) (hstate : s.conn.state = .readingResponse)
    (hfresh : s.conn.responseBuf = []) :
    (∀ head more u io, HeaderBlock head → HeaderArrives cfg w i head more u io →
      (Turns cfg u i io .forwardingResponse ↔ BodyArrived (head ++ headerDelim ++ more)) ∧
      (Turns cfg u i io .readingResponse ↔ ¬ BodyArrived (head ++ headerDelim ++ more) ∧
        ¬ ScanHangs (head ++ headerDelim ++ more))) ∧
    ∀ head, HeaderBlock head →
      ((∀ more u io, HeaderArrives cfg w i head more u io → Turns cfg u i io .forwardingResponse) ↔
        isChunkedResponse (head ++ headerDelim) = some false ∧
          getResponseContentLength (head ++ headerDelim) = 0) := by
  have hpending := pending_of_run hrun (List.mem_of_getElem? hs) (by rw [hstate]; exact nofun)
    (by rw [hstate]; exact nofun)
  have hturns : ∀ head more u io, HeaderBlock head → HeaderArrives cfg w i head more u io → _ :=
    fun _ _ _ _ hblock h => h.turns hs hstate hfresh hpending hblock
  refine ⟨hturns, fun head hblock => ⟨fun hall => ?_, fun ⟨hplain, hzero⟩ more u io h => ?_⟩⟩
  · -- the block alone, in one piece
    have harrives : HeaderArrives cfg w i head [] w { quiet with recv := .data (head ++ headerDelim) } := by
      refine ⟨[], head ++ headerDelim, nofun, rfl, rfl, (List.append_nil _).symm, ?_⟩
      rw [List.length_append, length_headerDelim]
      exact Nat.succ_pos _
    have harrived := (hturns head [] w _ hblock harrives).1.mp (hall [] w _ harrives)
    rw [BodyArrived, responseBody_block hblock, List.append_nil] at harrived
    split at harrived
    · obtain ⟨n, hn⟩ := harrived
      rw [show tryConsumeChunkedBody [] = some none by decide] at hn
      cases hn
    · next hplain =>
      obtain ⟨hnonneg, hle⟩ := harrived
      rw [List.length_nil] at hle
      refine ⟨?_, by omega⟩
      have hblock' := isChunkedResponse_block hblock []
      rw [List.append_nil] at hblock'
      rw [hblock'] at hplain ⊢
      exact congrArg some (Bool.eq_false_iff.mpr fun heq => hplain (congrArg some heq))
  · refine (hturns head more u io hblock h).1.mpr ?_
    rw [BodyArrived, isChunkedResponse_append hblock, getResponseContentLength_append hblock, hplain, hzero,
      if_neg (by decide)]
    exact ⟨le_rfl, Int.natCast_nonneg _⟩

/-- A response that says that its body is empty, cut inside the blank line. -/
theorem header_only_no_content : ∃ w s,
    Machine.run (step .default) (init (.leastConnections (.init [localBackend]))) untilResponse = some w ∧
    w.sessions[0]? = some s ∧ ∃ u, HeaderArrives .default w 0
      (ascii "HTTP/1.1 204 No Content\r\nContent-Length: 0") [] u { quiet with recv := .data [10] } ∧
      Turns .default u 0 { quiet with recv := .data [10] } .forwardingResponse := by
  obtain ⟨w, s, hrun, hs, hstate, hfresh⟩ := untilResponse_reads
  have hfirst : (Machine.run (step .default) (init (.leastConnections (.init [localBackend])))
      (untilResponse ++ [.call 0 .backendReadable { quiet with
        recv := .data (ascii "HTTP/1.1 204 No Content\r\nContent-Length: 0\r\n\r") }])).isSome := by
    decide +kernel
  rw [Machine.run_append, hrun, Option.bind_some] at hfirst
  obtain ⟨u, hu⟩ := Option.isSome_iff_exists.mp hfirst
  have harrives : HeaderArrives .default w 0 (ascii "HTTP/1.1 204 No Content\r\nContent-Length: 0") [] u
      { quiet with recv := .data [10] } := by
    refine ⟨_, [10], fun e he => ?_, hu, rfl, by decide, by decide⟩
    obtain rfl := List.mem_singleton.mp he
    exact Or.inr (Or.inr (Or.inr ⟨rfl, Or.inr ⟨_, by decide, rfl⟩⟩))
  have hblock : find headerDelim (ascii "HTTP/1.1 204 No Content\r\nContent-Length: 0" ++ headerDelim) =
      some (ascii "HTTP/1.1 204 No Content\r\nContent-Length: 0").length := by decide
  exact ⟨w, s, hrun, hs, u, harrives,
    ((header_only_iff .default _ hrun hs hstate hfresh).2 _ hblock).mpr
      ⟨by decide +kernel, by decide +kernel⟩ [] u _ harrives⟩

/-- A client sends a request, the backend accepts the connection at once, and one `recv` gives what it
answers. -/
def exchange (request response : Bytes) : List Event :=
  [.accept 7 (ascii "10.0.0.1", 50000) [],
    .call 0 .clientReadable { quiet with recv := .data request },
    .call 0 .backendWritable { quiet with send := .sent 4096 },
    .call 0 .backendReadable { quiet with recv := .data response }]

/-- After that the connection reads on, behind the whole header block. -/
def ReadsOn (method : Bytes) (status : Int) (response : Bytes) : Prop :=
  ∃ w s req, Machine.run (step .default) (init (.leastConnections (.init [localBackend])))
      (exchange (method ++ ascii " / HTTP/1.1\r\n\r\n") response) = some w ∧
    w.sessions[0]? = some s ∧ s.conn.parsedRequest = some req ∧ req.method = method ∧
    s.conn.responseStatus = some status ∧ (find headerDelim s.conn.responseBuf).isSome ∧
    s.conn.state = .readingResponse

theorem readsOn_of_view {method response : Bytes} {status : Int}
    (h : ((Machine.run (step .default) (init (.leastConnections (.init [localBackend])))
      (exchange (method ++ ascii " / HTTP/1.1\r\n\r\n") response)).bind fun w =>
        w.sessions[0]?.bind fun s => s.conn.parsedRequest.map fun req =>
          (req.method, s.conn.responseStatus, (find headerDelim s.conn.responseBuf).isSome,
            decide (s.conn.state = .readingResponse))) = some (method, some status, true, true)) :
    ReadsOn method status response := by
  obtain ⟨w, hrun, hview⟩ := Option.bind_eq_some_iff.mp h
  obtain ⟨s, hs, hview⟩ := Option.bind_eq_some_iff.mp hview
  obtain ⟨req, hreq, heq⟩ := Option.map_eq_some_iff.mp hview
  simp only [Prod.mk.injEq, decide_eq_true_eq] at heq
  exact ⟨w, s, req, hrun, hs, hreq, heq⟩

/-- The answer to a `HEAD` request with the length that the body would have, a `204` without a length, and a
`304` with one: the proxy waits for a body. -/
theorem header_only_waits :
    ReadsOn (ascii "HEAD") 200 (ascii "HTTP/1.1 200 OK\r\nContent-Length: 5\r\n\r\n") ∧
    ReadsOn (ascii "GET") 204 (ascii "HTTP/1.1 204 No Content\r\n\r\n") ∧
    ReadsOn (ascii "GET") 304 (ascii "HTTP/1.1 304 Not Modified\r\nContent-Length: 5\r\n\r\n") :=
  ⟨readsOn_of_view (by decide +kernel), readsOn_of_view (by decide +kernel),
    readsOn_of_view (by decide +kernel)⟩

end Fleet

end LoadBalancer
