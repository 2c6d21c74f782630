import LoadBalancer.ChunkGrammar
import LoadBalancer.Framing

/-! The end of a backend's stream. A response that is relayed is complete, except where the stream ended
before its header block did, or before the body that its `Content-Length` announces: there the response
is relayed as it is, while a chunked body that ends early is a failure of the backend. A chunked body is
complete by its grammar; the scanner also ends bodies with sizes that the grammar does not have. -/

namespace LoadBalancer

open PyText ListSearch Outcome

/-! ### Complete responses -/

/-- The status of a response that has no body. -/
def bodiless (status : Option Int) : Bool :=
  status.any fun code => (100 ≤ code && code < 200) || code == 204 || code == 304

/-- `buf` has a complete header block and, unless its status has no body, a complete body under the
block's framing: a chunked body of the grammar, at least as many bytes as `Content-Length` says, or all
bytes of a stream that has ended. -/
def CompleteResponse (buf : Bytes) (ended : Prop) : Prop :=
  (find headerDelim buf).isSome ∧
    (bodiless ((parseResponseStatus buf).map Prod.fst) ∨
      if isChunkedResponse buf = some true then
        ∃ m : ChunkedBody, m.bytes <+: responseBody buf
      else if 0 ≤ getResponseContentLength buf then
        getResponseContentLength buf ≤ (responseBody buf).length
      else ended)

/-- The last thing that was received from a backend. -/
def lastReceived (trace : List Action) : Option Bytes :=
  trace.foldl (fun last action => match action with
    | .backendReceived bytes => some bytes
    | _ => last) none

/-- The stream of the backend has ended. -/
def StreamEnded (trace : List Action) : Prop := lastReceived trace = some []

/-- The request is not a `HEAD` request. -/
def NotHead (c : ProxyConnection) : Prop :=
  ∀ req, c.parsedRequest = some req → req.method ≠ ascii "HEAD"

/-- What is relayed to a client is complete. -/
def Sound (f : Frame) : Prop :=
  f.conn.state = .forwardingResponse → NotHead f.conn →
    CompleteResponse f.conn.responseBuf (StreamEnded f.trace)

section Handlers

variable {cfg : Config} {f : Frame}

/-- At the end of a stream, the scanner has not found the end of a chunked body. -/
theorem backendClosed_chunked (hpending : IsPending f)
    (hchunked : isChunkedResponse f.conn.responseBuf = some true) :
    backendClosed cfg f = failBackend cfg f := by
  obtain ⟨hdrEnd, hfind⟩ := Option.isSome_iff_exists.mp (isSome_find_of_isChunked hchunked)
  have hdone : f.conn.responseHeadersDone = true := by rw [hpending.headers, hfind]; rfl
  have hflag : f.conn.responseIsChunked = true := by rw [hpending.chunked hdone, hchunked]; rfl
  have hincomplete := hpending.incomplete
  rw [completion, hfind] at hincomplete
  dsimp only at hincomplete
  rw [hchunked, if_pos Option.getD_some] at hincomplete
  obtain ⟨scanned, hscan, hnone⟩ := Option.map_eq_some_iff.mp hincomplete
  rw [Option.map_eq_none_iff.mp hnone] at hscan
  rw [backendClosed, hflag, hdone, responseBody_of_find hfind, hscan]
  rfl

/-- At the end of the stream of a response that is not chunked, all of it is relayed. -/
theorem backendClosed_plain (hpending : IsPending f)
    (hchunked : isChunkedResponse f.conn.responseBuf ≠ some true) :
    backendClosed cfg f = .returned (prepareRelay cfg f) := by
  rw [backendClosed, if_neg]
  intro hboth
  obtain ⟨hflag, hdone⟩ := Bool.and_eq_true_iff.mp hboth
  rw [hpending.chunked hdone] at hflag
  cases hc : isChunkedResponse f.conn.responseBuf with
  | none => rw [hc] at hflag; cases hflag
  | some b => rw [hc] at hflag hchunked; exact hchunked (congrArg some hflag)

end Handlers

namespace Fleet

end Fleet

end LoadBalancer
