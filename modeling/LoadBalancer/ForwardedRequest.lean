import LoadBalancer.Requests

/-! What a backend is sent: the request with the client's address added to `X-Forwarded-For`, written
again from its parsed form. It reads back as what was parsed; but fields whose names repeat have already
been merged, and the body is delimited by one reading of one `Content-Length` field while all of them
are forwarded as they came. -/

namespace LoadBalancer

open PyText ListSearch

/-- An address as `accept` reports it. -/
structure PeerAddress (ip : Bytes) : Prop where
  nonempty : ip ≠ []
  stripped : strip ip = ip
  no_cr : 13 ∉ ip
  no_lf : 10 ∉ ip

/-! ### The injected field -/

def isForwardedFor (field : Bytes × Bytes) : Bool := lower field.1 = ascii "x-forwarded-for"

/-- Either the first `X-Forwarded-For` field gets the address appended, or a new last field has it. -/
theorem injectForwardedFor_first (req : HttpRequest) (ip : Bytes) :
    (∃ before name value after, req.headers.items = before ++ (name, value) :: after ∧
      (∀ field ∈ before, isForwardedFor field = false) ∧ lower name = ascii "x-forwarded-for" ∧
      (injectForwardedFor req ip).headers.items =
        before ++ (name, value ++ ascii ", " ++ ip) :: after) ∨
    ((∀ field ∈ req.headers.items, isForwardedFor field = false) ∧
      (injectForwardedFor req ip).headers.items =
        req.headers.items ++ [(ascii "X-Forwarded-For", ip)]) := by
  unfold injectForwardedFor
  split
  · next name value hfind =>
    obtain ⟨hname, before, after, hitems, hbefore⟩ := List.find?_eq_some_iff_append.mp hfind
    have hfirst : ∀ field ∈ before, isForwardedFor field = false := fun field hfield =>
      Bool.eq_false_of_not_eq_true' (hbefore field hfield)
    have hother : ∀ field ∈ before, field.1 ≠ name := fun field hfield heq => by
      have hthis : isForwardedFor field = true := by rw [isForwardedFor, heq]; exact hname
      rw [hfirst field hfield] at hthis
      cases hthis
    refine Or.inl ⟨before, name, value, after, hitems, hfirst, of_decide_eq_true hname, ?_⟩
    show Dict.write name (value ++ ascii ", " ++ ip) req.headers.items = _
    rw [hitems, Dict.write_append_cons hother]
  · next hnone =>
    have hall : ∀ field ∈ req.headers.items, isForwardedFor field = false := fun field hfield =>
      Bool.eq_false_iff.mpr (List.find?_eq_none.mp hnone field hfield)
    refine Or.inr ⟨hall, Dict.write_of_not_mem (fun hmem => ?_) ip⟩
    obtain ⟨field, hfield, hname⟩ := List.mem_map.mp hmem
    have hthis : isForwardedFor field = true := by
      rw [isForwardedFor, hname]
      decide
    rw [hall field hfield] at hthis
    cases hthis

theorem injectForwardedFor_cases (req : HttpRequest) (ip : Bytes) :
    (∃ before name value after, req.headers.items = before ++ (name, value) :: after ∧
      lower name = ascii "x-forwarded-for" ∧
      (injectForwardedFor req ip).headers.items =
        before ++ (name, value ++ ascii ", " ++ ip) :: after) ∨
    ((∀ field ∈ req.headers.items, isForwardedFor field = false) ∧
      (injectForwardedFor req ip).headers.items =
        req.headers.items ++ [(ascii "X-Forwarded-For", ip)]) :=
  (injectForwardedFor_first req ip).imp_left
    fun ⟨before, name, value, after, hitems, _, hname, hset⟩ =>
      ⟨before, name, value, after, hitems, hname, hset⟩

@[simp] theorem method_inject (req : HttpRequest) (ip : Bytes) :
    (injectForwardedFor req ip).method = req.method := by
  unfold injectForwardedFor
  split <;> rfl

@[simp] theorem path_inject (req : HttpRequest) (ip : Bytes) :
    (injectForwardedFor req ip).path = req.path := by
  unfold injectForwardedFor
  split <;> rfl

@[simp] theorem version_inject (req : HttpRequest) (ip : Bytes) :
    (injectForwardedFor req ip).version = req.version := by
  unfold injectForwardedFor
  split <;> rfl

@[simp] theorem body_inject (req : HttpRequest) (ip : Bytes) :
    (injectForwardedFor req ip).body = req.body := by
  unfold injectForwardedFor
  split <;> rfl

/-- The fields with other names stay as they are. -/
theorem filter_inject (req : HttpRequest) (ip : Bytes) {p : Bytes × Bytes → Bool}
    (hp : ∀ name value, lower name = ascii "x-forwarded-for" → p (name, value) = false) :
    (injectForwardedFor req ip).headers.items.filter p = req.headers.items.filter p := by
  rcases injectForwardedFor_cases req ip with ⟨before, name, value, after, hitems, hname, hset⟩ | ⟨-, hset⟩
  · rw [hset, hitems]
    simp only [List.filter_append, List.filter_cons, hp _ _ hname, Bool.false_eq_true, if_false]
  · rw [hset, List.filter_append, List.filter_cons, hp _ _ (by decide), List.filter_nil]
    simp

def isContentLength (field : Bytes × Bytes) : Bool := lower field.1 = ascii "content-length"

theorem filter_contentLength_inject (req : HttpRequest) (ip : Bytes) :
    (injectForwardedFor req ip).headers.items.filter isContentLength =
      req.headers.items.filter isContentLength :=
  filter_inject req ip fun name value hname => by
    rw [isContentLength, hname]
    decide

theorem getContentLength_eq (headers : Dict Bytes Bytes) :
    getContentLength headers =
      ((headers.items.filter isContentLength).head?.map fun field => (int 10 field.2).getD 0).getD 0 := by
  have hfind : (headers.items.find? fun item => lower item.1 = ascii "content-length") =
      (headers.items.filter isContentLength).head? := List.head?_filter.symm
  rw [getContentLength, hfind]
  cases (headers.items.filter isContentLength).head? <;> rfl

@[simp] theorem getContentLength_inject (req : HttpRequest) (ip : Bytes) :
    getContentLength (injectForwardedFor req ip).headers = getContentLength req.headers := by
  rw [getContentLength_eq, getContentLength_eq, filter_contentLength_inject]

/-! ### Writing the injected request -/

theorem not_infix_of_no_cr {s : Bytes} (h : 13 ∉ s) : ¬ lineDelim <:+: s :=
  fun hinf => h (hinf.subset List.mem_cons_self)

/-- The address appended to a value. -/
theorem strip_append_address {value ip : Bytes} (hvalue : strip value = value) (hip : PeerAddress ip) :
    strip (value ++ ascii ", " ++ ip) = value ++ ascii ", " ++ ip := by
  obtain ⟨hfirst, -⟩ := strip_eq_self_iff.mp hvalue
  obtain ⟨-, hlast⟩ := strip_eq_self_iff.mp hip.stripped
  refine strip_eq_self_iff.mpr ⟨fun c hc => ?_, fun c hc => hlast c ?_⟩
  · cases value with
    | nil =>
        obtain rfl : 44 = c := Option.some.inj hc
        decide
    | cons d value => exact hfirst c hc
  · rw [List.getLast?_append_of_ne_nil _ hip.nonempty] at hc
    exact hc

theorem Writable.inject {req : HttpRequest} (h : Writable req) {ip : Bytes} (hip : PeerAddress ip) :
    Writable (injectForwardedFor req ip) := by
  have hline := not_infix_of_no_cr hip.no_cr
  refine ⟨by rw [method_inject]; exact h.method, by rw [path_inject]; exact h.path, ?_, ?_⟩
  · rw [method_inject, path_inject, version_inject]
    exact h.line
  · intro field hfield
    rcases injectForwardedFor_cases req ip with
      ⟨before, name, value, after, hitems, hname, hset⟩ | ⟨-, hset⟩
    · have hold : ∀ f ∈ before ++ (name, value) :: after, FieldText f :=
        fun f hf => h.fields f (hitems ▸ hf)
      rw [hset] at hfield
      rcases List.mem_append.mp hfield with hmem | hmem
      · exact hold field (List.mem_append_left _ hmem)
      · rcases List.mem_cons.mp hmem with rfl | hmem
        · obtain ⟨hcolon, hstrip, hvalue, hname_line, hvalue_line⟩ := hold (name, value) (by simp)
          refine ⟨hcolon, hstrip, strip_append_address hvalue hip, hname_line, ?_⟩
          rw [show value ++ ascii ", " ++ ip = value ++ 44 :: ([] ++ 32 :: ip) by
            rw [List.append_assoc]; rfl]
          refine not_infix_pair_append_cons (by decide) (by decide) hvalue_line ?_
          exact not_infix_pair_append_cons (by decide) (by decide) (by simp) hline
        · exact hold field (List.mem_append_right _ (List.mem_cons_of_mem _ hmem))
    · rw [hset] at hfield
      rcases List.mem_append.mp hfield with hmem | hmem
      · exact h.fields field hmem
      · rw [List.mem_singleton.mp hmem]
        have hname : 58 ∉ ascii "X-Forwarded-For" ∧
            strip (ascii "X-Forwarded-For") = ascii "X-Forwarded-For" ∧
            ¬ lineDelim <:+: ascii "X-Forwarded-For" := by decide
        exact ⟨hname.1, hname.2.1, hip.stripped, hname.2.2, hline⟩

/-- The body that the parser returns has the announced length. -/
theorem length_body_of_tryParseRequest {buf : Bytes} {req : HttpRequest}
    (h : tryParseRequest buf = some req) (hlength : 0 ≤ getContentLength req.headers) :
    (req.body.length : Int) = getContentLength req.headers := by
  obtain ⟨hdrEnd, method, path, version, -, hle, rfl⟩ := tryParseRequest_eq_some_iff.mp h
  exact (requestOf_body hlength hle).1

/-- **What is forwarded is what was parsed.** The text that is sent to a backend is parsed to the same
method, path and version and to the fields of the injected request in their order, and to the same
body unless the announced length is negative; and injection changes one field that is named
`X-Forwarded-For` or adds one, and changes nothing else. -/
theorem forwarded_request_reads_back {buf ip : Bytes} {req : HttpRequest}
    (hparse : tryParseRequest buf = some req) (hip : PeerAddress ip) :
    (∃ req', tryParseRequest (serialiseRequest (injectForwardedFor req ip)) = some req' ∧
      req'.method = req.method ∧ req'.path = req.path ∧ req'.version = req.version ∧
      req'.headers.items = (injectForwardedFor req ip).headers.items ∧
      (0 ≤ getContentLength req.headers → req'.body = req.body)) ∧
    ∃ before after : List (Bytes × Bytes), ∃ name : Bytes, ∃ old : List Bytes, ∃ new : Bytes,
      old.length ≤ 1 ∧ lower name = ascii "x-forwarded-for" ∧
      req.headers.items = before ++ old.map (fun value => (name, value)) ++ after ∧
      (injectForwardedFor req ip).headers.items = before ++ (name, new) :: after := by
  have hwritable := (writable_of_tryParseRequest hparse).inject hip
  have hbody : getContentLength req.headers ≤ req.body.length := by
    by_cases hlength : 0 ≤ getContentLength req.headers
    · exact (length_body_of_tryParseRequest hparse hlength).ge
    · omega
  constructor
  · obtain ⟨req', hread, hmethod, hpath, hversion, hheaders, hbody'⟩ :=
      hwritable.tryParseRequest_serialise (by rw [getContentLength_inject, body_inject]; exact hbody)
    rw [method_inject] at hmethod
    rw [path_inject] at hpath
    rw [version_inject] at hversion
    rw [getContentLength_inject, body_inject] at hbody'
    exact ⟨req', hread, hmethod, hpath, hversion, hheaders,
      fun hlength => hbody' (length_body_of_tryParseRequest hparse hlength)⟩
  · rcases injectForwardedFor_cases req ip with
      ⟨before, name, value, after, hitems, hname, hset⟩ | ⟨-, hset⟩
    · exact ⟨before, after, name, [value], _, le_rfl, hname, by simp [hitems], hset⟩
    · exact ⟨req.headers.items, [], ascii "X-Forwarded-For", [], ip, Nat.zero_le _, by decide,
        by simp, hset⟩

theorem forwarded_request_reads_back_get : ∃ req,
    tryParseRequest (ascii "GET / HTTP/1.1\r\nHost: a\r\nX-Forwarded-For: 10.0.0.1\r\n\r\n") = some req ∧
    (∃ req', tryParseRequest (serialiseRequest (injectForwardedFor req (ascii "10.0.0.2"))) = some req' ∧
      req'.method = req.method ∧ req'.path = req.path ∧ req'.version = req.version ∧
      req'.headers.items = (injectForwardedFor req (ascii "10.0.0.2")).headers.items ∧
      (0 ≤ getContentLength req.headers → req'.body = req.body)) ∧
    ∃ before after : List (Bytes × Bytes), ∃ name : Bytes, ∃ old : List Bytes, ∃ new : Bytes,
      old.length ≤ 1 ∧ lower name = ascii "x-forwarded-for" ∧
      req.headers.items = before ++ old.map (fun value => (name, value)) ++ after ∧
      (injectForwardedFor req (ascii "10.0.0.2")).headers.items = before ++ (name, new) :: after := by
  obtain ⟨req, hparse⟩ : ∃ req, tryParseRequest
      (ascii "GET / HTTP/1.1\r\nHost: a\r\nX-Forwarded-For: 10.0.0.1\r\n\r\n") = some req :=
    Option.isSome_iff_exists.mp (by decide +kernel)
  exact ⟨req, hparse, forwarded_request_reads_back hparse ⟨by decide, by decide, by decide, by decide⟩⟩

end LoadBalancer
