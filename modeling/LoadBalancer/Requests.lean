import LoadBalancer.HttpParser

/-! Requests as the parser reads them and as they are written again. What the parser accepts has no
line break inside a line and no white space around a name or a value, and that is enough for its text
to be read back: the writer makes no line end, no end of the header block and no colon that the reader
would find earlier. -/

namespace LoadBalancer

open PyText ListSearch

/-! ### Header lines -/

/-- A name and a value that `strip` and the search for a colon leave as they are. -/
structure FieldText (field : Bytes × Bytes) : Prop where
  colon : 58 ∉ field.1
  name : strip field.1 = field.1
  value : strip field.2 = field.2
  name_line : ¬ lineDelim <:+: field.1
  value_line : ¬ lineDelim <:+: field.2

def fieldLine (field : Bytes × Bytes) : Bytes := field.1 ++ ascii ": " ++ field.2

theorem fieldLine_eq (field : Bytes × Bytes) : fieldLine field = field.1 ++ 58 :: (32 :: field.2) := by
  rw [fieldLine, List.append_assoc]
  rfl

theorem fieldText_of_splitHeaderLine {line : Bytes} {field : Bytes × Bytes} (hline : ¬ lineDelim <:+: line)
    (h : splitHeaderLine line = some field) : FieldText field := by
  obtain ⟨colon, hfind, rfl⟩ := Option.map_eq_some_iff.mp h
  refine ⟨fun hmem => ?_, strip_strip _, strip_strip _, fun hinf => hline ?_, fun hinf => hline ?_⟩
  · exact not_mem_take_of_find hfind ((infix_strip _).subset hmem)
  · exact hinf.trans ((infix_strip _).trans (List.take_prefix _ _).isInfix)
  · exact hinf.trans ((infix_strip _).trans (List.drop_suffix _ _).isInfix)

theorem FieldText.splitHeaderLine_fieldLine {field : Bytes × Bytes} (h : FieldText field) :
    splitHeaderLine (fieldLine field) = some field := by
  rw [splitHeaderLine, fieldLine_eq, find_singleton_append _ h.colon, Option.map_some]
  have hvalue : (field.1 ++ 58 :: (32 :: field.2)).drop (field.1.length + 1) = 32 :: field.2 := by
    simp
  rw [List.take_left, hvalue, strip_cons_of_isSpace (by decide), h.name, h.value]

theorem FieldText.line {field : Bytes × Bytes} (h : FieldText field) :
    fieldLine field ≠ [] ∧ ¬ lineDelim <:+: fieldLine field := by
  rw [fieldLine_eq]
  refine ⟨by simp, ?_⟩
  refine not_infix_pair_append_cons (by decide) (by decide) h.name_line ?_
  have hempty : ¬ lineDelim <:+: ([] : Bytes) := by simp [lineDelim]
  exact not_infix_pair_append_cons (by decide) (by decide) hempty h.value_line

theorem foldl_addHeaderLine (lines : List Bytes) :
    lines.foldl addHeaderLine Dict.empty = Dict.ofPairs (lines.filterMap splitHeaderLine) := by
  suffices h : ∀ headers : Dict Bytes Bytes, lines.foldl addHeaderLine headers =
      (lines.filterMap splitHeaderLine).foldl (fun d pair => d.set pair.1 pair.2) headers from h _
  induction lines with
  | nil => exact fun _ => rfl
  | cons line lines ih =>
      intro headers
      rw [List.foldl_cons, ih, addHeaderLine, List.filterMap_cons]
      cases splitHeaderLine line <;> rfl

/-! ### What the parser returns -/

/-- The request that the parser makes of a header block that ends at `hdrEnd`. -/
def requestOf (buf : Bytes) (hdrEnd : Nat) (method path version : Bytes) : HttpRequest :=
  let headers := Dict.ofPairs (headerFields (buf.take hdrEnd))
  let headerLength := hdrEnd + headerDelim.length
  { method := method
    path := path
    version := version
    headers := headers
    body := slice buf headerLength (headerLength + getContentLength headers)
    rawHeaderBytes := buf.take headerLength
    headerLength := headerLength }

section Parser

variable {buf : Bytes} {hdrEnd : Nat} {method path version : Bytes} {req : HttpRequest}

/-- `buf` has a header block that ends at `hdrEnd`, and its first line has three parts. -/
structure HasHead (buf : Bytes) (hdrEnd : Nat) (method path version : Bytes) : Prop where
  block : find headerDelim buf = some hdrEnd
  parts : splitMax 32 2 ((split lineDelim (buf.take hdrEnd)).headD []) = [method, path, version]

/-- How many bytes the request of a header block has. -/
def totalNeeded (buf : Bytes) (hdrEnd : Nat) : Int :=
  (hdrEnd + headerDelim.length : Nat) + getContentLength (Dict.ofPairs (headerFields (buf.take hdrEnd)))

theorem HasHead.tryParseRequest (h : HasHead buf hdrEnd method path version) :
    tryParseRequest buf =
      if (buf.length : Int) < totalNeeded buf hdrEnd then none
      else some (requestOf buf hdrEnd method path version) := by
  obtain ⟨hblock, hparts⟩ := h
  cases hsplit : split lineDelim (buf.take hdrEnd) with
  | nil =>
      rw [hsplit] at hparts
      exact absurd hparts (by simp [splitMax])
  | cons requestLine lines =>
      rw [hsplit, List.headD_cons] at hparts
      have hfields : headerFields (buf.take hdrEnd) = lines.filterMap splitHeaderLine := by
        rw [headerFields, hsplit, List.tail_cons]
      rw [LoadBalancer.tryParseRequest, hblock]
      simp only [hsplit, hparts, foldl_addHeaderLine, ← hfields]
      rfl

theorem hasHead_of_tryParseRequest (h : tryParseRequest buf = some req) :
    ∃ hdrEnd method path version, HasHead buf hdrEnd method path version := by
  rw [LoadBalancer.tryParseRequest] at h
  split at h
  · cases h
  · next hdrEnd hblock =>
    dsimp only at h
    split at h
    · cases h
    · next requestLine lines hsplit =>
      split at h
      · next method path version hparts =>
        exact ⟨hdrEnd, method, path, version, hblock, by rw [hsplit]; exact hparts⟩
      · cases h

/-- The parser needs a header block, a request line of three parts, and as many bytes as the block says. -/
theorem tryParseRequest_eq_some_iff :
    tryParseRequest buf = some req ↔ ∃ hdrEnd method path version,
      HasHead buf hdrEnd method path version ∧ totalNeeded buf hdrEnd ≤ buf.length ∧
        req = requestOf buf hdrEnd method path version := by
  constructor
  · intro h
    obtain ⟨hdrEnd, method, path, version, hhead⟩ := hasHead_of_tryParseRequest h
    rw [hhead.tryParseRequest] at h
    split at h
    · cases h
    · next hge => exact ⟨_, _, _, _, hhead, not_lt.mp hge, (Option.some.inj h).symm⟩
  · rintro ⟨hdrEnd, method, path, version, hhead, hle, rfl⟩
    rw [hhead.tryParseRequest, if_neg (not_lt.mpr hle)]

/-- With a length that is not negative the body is that many bytes behind the header block. -/
theorem requestOf_body (hlength : 0 ≤ getContentLength (requestOf buf hdrEnd method path version).headers)
    (hneeded : totalNeeded buf hdrEnd ≤ buf.length) :
    ((requestOf buf hdrEnd method path version).body.length : Int) =
        getContentLength (requestOf buf hdrEnd method path version).headers ∧
      (requestOf buf hdrEnd method path version).rawHeaderBytes ++
        (requestOf buf hdrEnd method path version).body <+: buf := by
  obtain ⟨n, hn⟩ := Int.eq_ofNat_of_zero_le hlength
  have hn' : getContentLength (Dict.ofPairs (headerFields (buf.take hdrEnd))) = n := hn
  rw [totalNeeded, hn'] at hneeded
  have hlen : (buf.take (hdrEnd + headerDelim.length)).length = hdrEnd + headerDelim.length := by
    rw [List.length_take]
    omega
  have hbody : (requestOf buf hdrEnd method path version).body =
      (buf.drop (hdrEnd + headerDelim.length)).take n := by
    have hcut := slice_length_take (buf.take (hdrEnd + headerDelim.length))
      (buf.drop (hdrEnd + headerDelim.length)) n (hdrEnd + headerDelim.length + n) (by rw [hlen])
    rw [List.take_append_drop, hlen] at hcut
    rw [requestOf]
    dsimp only
    rw [hn']
    exact hcut
  rw [hn, hbody]
  constructor
  · rw [List.length_take, List.length_drop]
    omega
  · change buf.take (hdrEnd + headerDelim.length) ++ _ <+: buf
    rw [← List.take_add]
    exact List.take_prefix _ _

end Parser

/-! ### Requests that can be written -/

/-- A request whose text reads back: the request line can be cut into the same parts and is one line,
and so is each field. -/
structure Writable (req : HttpRequest) : Prop where
  method : 32 ∉ req.method
  path : 32 ∉ req.path
  line : ¬ lineDelim <:+: req.method ++ 32 :: (req.path ++ 32 :: req.version)
  fields : ∀ field ∈ req.headers.items, FieldText field

theorem writable_of_tryParseRequest {buf : Bytes} {req : HttpRequest} (h : tryParseRequest buf = some req) :
    Writable req := by
  obtain ⟨hdrEnd, method, path, version, hhead, -, rfl⟩ := tryParseRequest_eq_some_iff.mp h
  obtain ⟨hline, hmethod, hpath⟩ := splitMax_two_eq.mp hhead.parts
  have hpieces : ∀ piece ∈ split lineDelim (buf.take hdrEnd), ¬ lineDelim <:+: piece :=
    fun piece hpiece => not_infix_of_mem_split (by decide) hpiece
  refine ⟨hmethod, hpath, ?_, fun field hfield => ?_⟩
  · cases hsplit : split lineDelim (buf.take hdrEnd) with
    | nil => rw [hsplit] at hline; simp at hline
    | cons requestLine lines =>
        rw [hsplit, List.headD_cons] at hline
        exact hline ▸ hpieces requestLine (hsplit ▸ List.mem_cons_self)
  · obtain ⟨line, hline, hsplit⟩ := List.mem_filterMap.mp (Dict.mem_ofPairs hfield)
    exact fieldText_of_splitHeaderLine (hpieces line (List.mem_of_mem_tail hline)) hsplit

/-- The lines of a request as it is written. -/
def requestLines (req : HttpRequest) : List Bytes :=
  (req.method ++ 32 :: (req.path ++ 32 :: req.version)) :: req.headers.items.map fieldLine

theorem serialiseRequest_eq (req : HttpRequest) :
    serialiseRequest req = lineDelim.intercalate (requestLines req) ++ headerDelim ++ req.body := by
  have hline : req.method ++ ascii " " ++ req.path ++ ascii " " ++ req.version =
      req.method ++ 32 :: (req.path ++ 32 :: req.version) := by
    rw [show ascii " " = [32] by decide]
    simp
  rw [serialiseRequest, hline]
  rfl

section Writing

variable {req : HttpRequest}

/-- The header block of a request as it is written. -/
def writtenBlock (req : HttpRequest) : Bytes := lineDelim.intercalate (requestLines req)

theorem Writable.lines (h : Writable req) :
    ∀ line ∈ requestLines req, line ≠ [] ∧ ¬ lineDelim <:+: line := by
  intro line hmem
  rcases List.mem_cons.mp hmem with rfl | hmem
  · exact ⟨by simp, h.line⟩
  · obtain ⟨field, hfield, rfl⟩ := List.mem_map.mp hmem
    exact (h.fields field hfield).line

theorem Writable.find_serialise (h : Writable req) :
    find headerDelim (serialiseRequest req) = some (writtenBlock req).length := by
  have hfind := find_double_pair_intercalate (by decide : (13 : UInt8) ≠ 10) req.body h.lines
  rw [serialiseRequest_eq, List.append_assoc]
  exact hfind

theorem take_serialise (req : HttpRequest) :
    (serialiseRequest req).take (writtenBlock req).length = writtenBlock req := by
  rw [serialiseRequest_eq, List.append_assoc]
  exact List.take_left

theorem drop_serialise (req : HttpRequest) :
    (serialiseRequest req).drop ((writtenBlock req).length + headerDelim.length) = req.body := by
  rw [serialiseRequest_eq, ← List.length_append]
  exact List.drop_left

theorem Writable.split_writtenBlock (h : Writable req) :
    split lineDelim (writtenBlock req) = requestLines req :=
  split_pair_intercalate (by decide) fun line hmem => (h.lines line hmem).2

/-- The fields that a reader finds are the fields that were written. -/
theorem Writable.headerFields_writtenBlock (h : Writable req) :
    headerFields (writtenBlock req) = req.headers.items := by
  rw [headerFields, h.split_writtenBlock, requestLines, List.tail_cons, List.filterMap_map]
  have hread : ∀ field ∈ req.headers.items, (splitHeaderLine ∘ fieldLine) field = some field :=
    fun field hfield => (h.fields field hfield).splitHeaderLine_fieldLine
  rw [List.filterMap_congr hread, List.filterMap_some]

theorem Writable.hasHead (h : Writable req) :
    HasHead (serialiseRequest req) (writtenBlock req).length req.method req.path req.version where
  block := h.find_serialise
  parts := by
    rw [take_serialise, h.split_writtenBlock, requestLines, List.headD_cons]
    exact splitMax_two_eq.mpr ⟨rfl, h.method, h.path⟩

theorem Writable.ofPairs_headerFields (h : Writable req) :
    (Dict.ofPairs (headerFields (writtenBlock req))).items = req.headers.items := by
  rw [h.headerFields_writtenBlock]
  exact Dict.items_ofPairs_eq_iff.mpr req.headers.nodup_keys

/-- A request that can be written and that has the body its header block announces, or announces a
negative length, is read back with the same parts. -/
theorem Writable.tryParseRequest_serialise (h : Writable req)
    (hbody : getContentLength req.headers ≤ req.body.length) :
    ∃ req', tryParseRequest (serialiseRequest req) = some req' ∧ req'.method = req.method ∧
      req'.path = req.path ∧ req'.version = req.version ∧ req'.headers.items = req.headers.items ∧
      ((req.body.length : Int) = getContentLength req.headers → req'.body = req.body) := by
  have hitems := h.ofPairs_headerFields
  have hlength : getContentLength (Dict.ofPairs (headerFields (writtenBlock req))) =
      getContentLength req.headers := by
    simp only [getContentLength, hitems]
  have hlen : (serialiseRequest req).length =
      (writtenBlock req).length + headerDelim.length + req.body.length := by
    rw [serialiseRequest_eq]
    simp only [List.length_append, writtenBlock]
  have hneeded : totalNeeded (serialiseRequest req) (writtenBlock req).length =
      ((writtenBlock req).length + headerDelim.length : Nat) + getContentLength req.headers := by
    rw [totalNeeded, take_serialise, hlength]
  refine ⟨_, tryParseRequest_eq_some_iff.mpr ⟨_, _, _, _, h.hasHead, ?_, rfl⟩, rfl, rfl, rfl, ?_,
    fun hwhole => ?_⟩
  · rw [hneeded, hlen]
    omega
  · rw [requestOf, take_serialise]
    exact hitems
  · have hslice : slice (serialiseRequest req) ((writtenBlock req).length + headerDelim.length : Nat)
        ((writtenBlock req).length + headerDelim.length + req.body.length : Nat) = req.body := by
      rw [serialiseRequest_eq, ← List.length_append]
      exact (slice_length_take _ _ _ _ rfl).trans List.take_length
    rw [requestOf, take_serialise, hlength, ← hwhole]
    exact hslice

end Writing

end LoadBalancer
