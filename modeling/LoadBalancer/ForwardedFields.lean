import LoadBalancer.ForwardedRequest

/-! The header fields of a forwarded request against those that the client sent. The parser keeps fields
in a dictionary, so of fields with one name only the last value is left; and the `Content-Length` fields
are forwarded as text, while the proxy has delimited the body by one number it read. -/

namespace LoadBalancer

open PyText ListSearch

/-- The fields of the header block of a message. -/
def blockFields (buf : Bytes) : List (Bytes × Bytes) :=
  match find headerDelim buf with
  | none => []
  | some hdrEnd => headerFields (buf.take hdrEnd)

/-- What follows the header block of a message. -/
def blockBody (buf : Bytes) : Bytes :=
  match find headerDelim buf with
  | none => []
  | some hdrEnd => buf.drop (hdrEnd + headerDelim.length)

theorem headers_of_tryParseRequest {buf : Bytes} {req : HttpRequest} (h : tryParseRequest buf = some req) :
    req.headers = Dict.ofPairs (blockFields buf) := by
  obtain ⟨hdrEnd, method, path, version, hhead, -, rfl⟩ := tryParseRequest_eq_some_iff.mp h
  rw [blockFields, hhead.block]
  rfl

theorem Writable.blockFields_serialise {req : HttpRequest} (h : Writable req) :
    blockFields (serialiseRequest req) = req.headers.items := by
  rw [blockFields, h.find_serialise]
  dsimp only
  rw [take_serialise, h.headerFields_writtenBlock]

theorem Writable.blockBody_serialise {req : HttpRequest} (h : Writable req) :
    blockBody (serialiseRequest req) = req.body := by
  rw [blockBody, h.find_serialise]
  exact drop_serialise req

section Forwarded

variable {buf ip : Bytes} {req : HttpRequest}

theorem blockFields_forwarded (hparse : tryParseRequest buf = some req) (hip : PeerAddress ip) :
    blockFields (serialiseRequest (injectForwardedFor req ip)) = (injectForwardedFor req ip).headers.items :=
  ((writable_of_tryParseRequest hparse).inject hip).blockFields_serialise

theorem blockBody_forwarded (hparse : tryParseRequest buf = some req) (hip : PeerAddress ip) :
    blockBody (serialiseRequest (injectForwardedFor req ip)) = req.body := by
  rw [((writable_of_tryParseRequest hparse).inject hip).blockBody_serialise, body_inject]

/-! ### Fields with one name -/

/-- **Which fields are lost.** The fields of the forwarded request are the fields that the client sent,
in their order and with their values, `X-Forwarded-For` aside, exactly when no two of these have the
same name. -/
theorem fields_kept_iff_distinct (hparse : tryParseRequest buf = some req) (hip : PeerAddress ip) :
    (blockFields (serialiseRequest (injectForwardedFor req ip))).filter (fun f => !isForwardedFor f) =
        (blockFields buf).filter (fun f => !isForwardedFor f) ↔
      (((blockFields buf).filter fun f => !isForwardedFor f).map Prod.fst).Nodup := by
  have hinject : (injectForwardedFor req ip).headers.items.filter (fun f => !isForwardedFor f) =
      req.headers.items.filter fun f => !isForwardedFor f :=
    filter_inject req ip fun name value hname => by simp [isForwardedFor, hname]
  have hmerged : (Dict.ofPairs (blockFields buf)).items.filter (fun f => !isForwardedFor f) =
      (Dict.ofPairs ((blockFields buf).filter fun f => !isForwardedFor f)).items :=
    Dict.filter_ofPairs (fun name => !decide (lower name = ascii "x-forwarded-for")) (blockFields buf)
  rw [blockFields_forwarded hparse hip, hinject, headers_of_tryParseRequest hparse, hmerged]
  exact Dict.items_ofPairs_eq_iff

theorem fields_kept_get : ∃ req,
    tryParseRequest (ascii "GET / HTTP/1.1\r\nHost: a\r\nAccept: b\r\n\r\n") = some req ∧
    ((blockFields (serialiseRequest (injectForwardedFor req (ascii "10.0.0.2")))).filter
          (fun f => !isForwardedFor f) =
        (blockFields (ascii "GET / HTTP/1.1\r\nHost: a\r\nAccept: b\r\n\r\n")).filter
          (fun f => !isForwardedFor f) ↔
      (((blockFields (ascii "GET / HTTP/1.1\r\nHost: a\r\nAccept: b\r\n\r\n")).filter
        fun f => !isForwardedFor f).map Prod.fst).Nodup) := by
  obtain ⟨req, hparse⟩ : ∃ req, tryParseRequest
      (ascii "GET / HTTP/1.1\r\nHost: a\r\nAccept: b\r\n\r\n") = some req :=
    Option.isSome_iff_exists.mp (by decide +kernel)
  exact ⟨req, hparse, fields_kept_iff_distinct hparse ⟨by decide, by decide, by decide, by decide⟩⟩

def twoCookies : Bytes := ascii "GET / HTTP/1.1\r\nCookie: a=1\r\nCookie: b=2\r\n\r\n"

/-- Of two cookies only the second is forwarded. -/
theorem cookie_lost : ∃ req, tryParseRequest twoCookies = some req ∧
    (∀ line ∈ (split lineDelim (twoCookies.take 40)).tail, (find [58] line).isSome) ∧
    find headerDelim twoCookies = some 40 ∧
    (blockFields twoCookies).filter (fun f => !isForwardedFor f) =
      [(ascii "Cookie", ascii "a=1"), (ascii "Cookie", ascii "b=2")] ∧
    (blockFields (serialiseRequest (injectForwardedFor req (ascii "10.0.0.2")))).filter
        (fun f => !isForwardedFor f) =
      [(ascii "Cookie", ascii "b=2")] := by
  have hview : (tryParseRequest twoCookies).map (fun req =>
      (blockFields (serialiseRequest (injectForwardedFor req (ascii "10.0.0.2")))).filter
        fun f => !isForwardedFor f) = some [(ascii "Cookie", ascii "b=2")] := by decide +kernel
  obtain ⟨req, hparse, hfields⟩ := Option.map_eq_some_iff.mp hview
  exact ⟨req, hparse, by decide +kernel, by decide +kernel, by decide +kernel, hfields⟩

/-! ### The announced length -/

/-- The value of a plain decimal number. -/
def decimalValue (s : Bytes) : Option Nat :=
  if s = [] then none else s.foldlM (fun n c => (digit 10 c).map fun d => n * 10 + d) 0

/-- `int(s)` of a plain decimal number is its value, unless the number has too many digits. -/
theorem int_decimalValue {s : Bytes} {n : Nat} (h : decimalValue s = some n) :
    int 10 s = if maxStrDigits < s.length then none else some (n : Int) := by
  obtain ⟨hne, hfold⟩ := Option.ite_none_left_eq_some.mp h
  have hdigits := isSome_of_foldlM hfold
  have hstrip : strip s = s := strip_eq_self_iff.mpr
    ⟨fun c hc => isSpace_of_digit (hdigits c (List.mem_of_mem_head? hc)),
      fun c hc => isSpace_of_digit (hdigits c (List.mem_of_mem_getLast? hc))⟩
  have hcount : s.countP (· ≠ 95) = s.length := List.countP_eq_length.mpr fun c hc =>
    decide_eq_true (ne_of_digit (hdigits c hc) (by decide))
  have hvalue : PyText.digits 10 s = some n := digits_of_foldlM hne hfold
  have hsign : sign s = (1, s) := by
    unfold sign
    split
    · exact absurd rfl (ne_of_digit (hdigits 43 List.mem_cons_self) (by decide))
    · exact absurd rfl (ne_of_digit (hdigits 45 List.mem_cons_self) (by decide))
    · rfl
  rw [int, skipIntSpace_eq_self hstrip, hsign]
  dsimp only
  rw [if_neg (by decide : ¬ (10 = 16)), hcount, hvalue]
  simp

/-- Every field announces the same number, and the proxy can read the first of them. -/
def OneLength (fields : List (Bytes × Bytes)) : Prop :=
  ∃ n, (∀ field ∈ fields, decimalValue field.2 = some n) ∧
    ∀ field ∈ fields.head?, field.2.length ≤ maxStrDigits ∨ n = 0

/-- **When the forwarded request is framed unambiguously.** Each `Content-Length` field of the forwarded
request, whatever the case of its name, is the plain decimal number of its body bytes, exactly when the
`Content-Length` fields that the parser kept are plain decimal numbers of one value, and the first of
them has no more digits than `int` takes or that value is zero. -/
theorem framed_unambiguously_iff (hparse : tryParseRequest buf = some req) (hip : PeerAddress ip) :
    (∀ field ∈ blockFields (serialiseRequest (injectForwardedFor req ip)), isContentLength field →
        decimalValue field.2 =
          some (blockBody (serialiseRequest (injectForwardedFor req ip))).length) ↔
      OneLength (req.headers.items.filter isContentLength) := by
  have hfields : (∀ field ∈ (injectForwardedFor req ip).headers.items, isContentLength field →
      decimalValue field.2 = some req.body.length) ↔
      ∀ field ∈ req.headers.items.filter isContentLength, decimalValue field.2 = some req.body.length := by
    rw [← filter_contentLength_inject req ip]
    simp only [List.mem_filter, and_imp]
  rw [blockFields_forwarded hparse hip, blockBody_forwarded hparse hip, hfields]
  have hread := getContentLength_eq req.headers
  constructor
  · intro hall
    refine ⟨_, hall, fun field hfield => ?_⟩
    by_cases hshort : field.2.length ≤ maxStrDigits
    · exact Or.inl hshort
    · refine Or.inr ?_
      rw [Option.mem_def.mp hfield, Option.map_some, Option.getD_some,
        int_decimalValue (hall field (List.mem_of_mem_head? hfield)), if_pos (by omega)] at hread
      have hnone : getContentLength req.headers = 0 := hread
      have hbody := length_body_of_tryParseRequest hparse hnone.ge
      omega
  · rintro ⟨n, hall, hfirst⟩ field hfield
    obtain ⟨first, hhead⟩ : ∃ first, (req.headers.items.filter isContentLength).head? = some first := by
      cases hlist : req.headers.items.filter isContentLength with
      | nil => rw [hlist] at hfield; cases hfield
      | cons first rest => exact ⟨first, rfl⟩
    have hnumber : getContentLength req.headers = (n : Int) := by
      rw [hread, hhead, Option.map_some, Option.getD_some,
        int_decimalValue (hall first (List.mem_of_mem_head? hhead))]
      split
      · next hlong =>
        rcases hfirst first hhead with hshort | rfl
        · omega
        · rfl
      · rfl
    have hbody := length_body_of_tryParseRequest hparse (by rw [hnumber]; exact Int.natCast_nonneg n)
    rw [hall field hfield]
    congr 1
    omega

theorem framed_unambiguously_post : ∃ req,
    tryParseRequest (ascii "POST / HTTP/1.1\r\nContent-Length: 2\r\n\r\nhi") = some req ∧
    ((∀ field ∈ blockFields (serialiseRequest (injectForwardedFor req (ascii "10.0.0.2"))),
        isContentLength field → decimalValue field.2 =
          some (blockBody (serialiseRequest (injectForwardedFor req (ascii "10.0.0.2")))).length) ↔
      OneLength (req.headers.items.filter isContentLength)) := by
  obtain ⟨req, hparse⟩ : ∃ req, tryParseRequest
      (ascii "POST / HTTP/1.1\r\nContent-Length: 2\r\n\r\nhi") = some req :=
    Option.isSome_iff_exists.mp (by decide +kernel)
  exact ⟨req, hparse, framed_unambiguously_iff hparse ⟨by decide, by decide, by decide, by decide⟩⟩

def twoLengths : Bytes :=
  ascii "POST / HTTP/1.1\r\nContent-Length: 5\r\ncontent-length: 0\r\n\r\nhello"

/-- A backend that honours the second length takes the body for the next request. -/
theorem framed_twice : ∃ req, tryParseRequest twoLengths = some req ∧
    (blockFields (serialiseRequest (injectForwardedFor req (ascii "10.0.0.2")))).filter isContentLength =
      [(ascii "Content-Length", ascii "5"), (ascii "content-length", ascii "0")] ∧
    blockBody (serialiseRequest (injectForwardedFor req (ascii "10.0.0.2"))) = ascii "hello" ∧
    ¬ ∀ field ∈ blockFields (serialiseRequest (injectForwardedFor req (ascii "10.0.0.2"))),
      isContentLength field → decimalValue field.2 =
        some (blockBody (serialiseRequest (injectForwardedFor req (ascii "10.0.0.2")))).length := by
  have hview : (tryParseRequest twoLengths).map (fun req =>
      ((blockFields (serialiseRequest (injectForwardedFor req (ascii "10.0.0.2")))).filter isContentLength,
        blockBody (serialiseRequest (injectForwardedFor req (ascii "10.0.0.2"))))) =
      some ([(ascii "Content-Length", ascii "5"), (ascii "content-length", ascii "0")],
        ascii "hello") := by decide +kernel
  obtain ⟨req, hparse, hview⟩ := Option.map_eq_some_iff.mp hview
  obtain ⟨hfields, hbody⟩ := Prod.mk.inj hview
  refine ⟨req, hparse, hfields, hbody, fun hall => ?_⟩
  have hsecond : (ascii "content-length", ascii "0") ∈
      (blockFields (serialiseRequest (injectForwardedFor req (ascii "10.0.0.2")))).filter
        isContentLength := by
    rw [hfields]
    decide
  obtain ⟨hmem, hname⟩ := List.mem_filter.mp hsecond
  have hvalue := hall _ hmem hname
  rw [hbody] at hvalue
  exact absurd hvalue (by decide)

end Forwarded

end LoadBalancer
