import LoadBalancer.ForwardedFields

/-! The transfer codings of a response. All the `Transfer-Encoding` fields of a message make one list,
however it is spread over them. The proxy reads the first of these fields only, so that its answer is the
right one as long as no later field is the first to say `chunked`. -/

namespace LoadBalancer

open PyText ListSearch

def isTransferEncoding (field : Bytes × Bytes) : Bool := lower field.1 = ascii "transfer-encoding"

/-- The elements of a comma separated list, trimmed. -/
def elements (list : Bytes) : List Bytes := (list.splitOn 44).map strip

/-- The one list that all the `Transfer-Encoding` fields make. -/
def transferCodings (fields : List (Bytes × Bytes)) : List Bytes :=
  (fields.filter isTransferEncoding).flatMap fun field => elements (lower field.2)

/-- A later `Transfer-Encoding` field says `chunked` only if the first one does. -/
def FirstTells (fields : List (Bytes × Bytes)) : Prop :=
  match fields.filter isTransferEncoding with
  | [] => True
  | first :: later => (∃ field ∈ later, ascii "chunked" ∈ elements (lower field.2)) →
      ascii "chunked" ∈ elements (lower first.2)

/-- One `Transfer-Encoding` field becomes several, which are its parts between some of its commas. -/
inductive SplitField : List (Bytes × Bytes) → List (Bytes × Bytes) → Prop
  | mk {name : Bytes} {parts : List (Bytes × Bytes)} (before after : List (Bytes × Bytes))
      (named : lower name = ascii "transfer-encoding") (nonempty : parts ≠ [])
      (codings : ∀ part ∈ parts, isTransferEncoding part = true) :
      SplitField (before ++ (name, strip ([44].intercalate (parts.map Prod.snd))) :: after)
        (before ++ (parts.map fun part => (part.1, strip part.2)) ++ after)

/-! ### Comma separated lists -/

theorem elements_append (list list' : Bytes) : elements (list ++ 44 :: list') = elements list ++ elements list' := by
  rw [elements, List.splitOn_append_cons_self, List.map_append]
  rfl

theorem elements_intercalate {lists : List Bytes} (h : lists ≠ []) :
    elements ([44].intercalate lists) = lists.flatMap elements := by
  induction lists with
  | nil => exact absurd rfl h
  | cons list lists ih =>
      cases lists with
      | nil => rw [List.intercalate_singleton, List.flatMap_singleton]
      | cons list' lists =>
          rw [List.intercalate_cons_cons, List.append_assoc, List.singleton_append, elements_append,
            ih (List.cons_ne_nil _ _)]
          rfl

/-- More text without a comma goes to the last element. -/
theorem splitOn_append_of_no_comma {list more : Bytes} (h : 44 ∉ more) :
    ∃ front last, list.splitOn 44 = front ++ [last] ∧ (list ++ more).splitOn 44 = front ++ [last ++ more] := by
  induction list with
  | nil => exact ⟨[], [], rfl, List.splitOn_eq_singleton h⟩
  | cons c list ih =>
      obtain ⟨front, last, hlist, happend⟩ := ih
      rw [List.cons_append, List.splitOn_cons_eq_if_modifyHead, List.splitOn_cons_eq_if_modifyHead, hlist,
        happend]
      by_cases hc : (c == 44) = true
      · exact ⟨[] :: front, last, by rw [if_pos hc]; rfl, by rw [if_pos hc]; rfl⟩
      · rw [if_neg hc, if_neg hc]
        cases front with
        | nil => exact ⟨[], c :: last, rfl, rfl⟩
        | cons first front => exact ⟨(c :: first) :: front, last, rfl, rfl⟩

theorem strip_concat_of_isSpace {c : UInt8} (h : isSpace c = true) (s : Bytes) :
    strip (s ++ [c]) = strip s := by
  rw [strip, strip, List.dropWhile_append]
  split
  · rename_i hempty
    rw [List.isEmpty_iff.mp hempty, List.dropWhile_cons_of_pos h, List.dropWhile_nil]
  · exact List.rdropWhile_concat_pos isSpace _ c h

theorem elements_dropWhile (list : Bytes) : elements (list.dropWhile isSpace) = elements list := by
  induction list with
  | nil => rfl
  | cons c list ih =>
      by_cases hc : isSpace c = true
      · have hcomma : ¬(c == 44) = true := by
          rintro heq
          rw [beq_iff_eq.mp heq] at hc
          exact absurd hc (by decide)
        obtain ⟨first, rest, hsplit⟩ := List.exists_cons_of_ne_nil (List.splitOn_ne_nil 44 list)
        rw [List.dropWhile_cons_of_pos hc, ih, elements, elements, List.splitOn_cons_eq_if_modifyHead,
          if_neg hcomma, hsplit, List.modifyHead_cons, List.map_cons, List.map_cons, strip_cons_of_isSpace hc]
      · rw [List.dropWhile_cons_of_neg hc]

theorem elements_rdropWhile (list : Bytes) : elements (list.rdropWhile isSpace) = elements list := by
  induction list using List.reverseRecOn with
  | nil => rw [List.rdropWhile_nil]
  | append_singleton list c ih =>
      by_cases hc : isSpace c = true
      · have hcomma : (44 : UInt8) ∉ [c] := by
          rintro hmem
          rw [← List.mem_singleton.mp hmem] at hc
          exact absurd hc (by decide)
        obtain ⟨front, last, hlist, happend⟩ := splitOn_append_of_no_comma hcomma
        rw [List.rdropWhile_concat_pos _ _ _ hc, ih, elements, elements, hlist, happend, List.map_append,
          List.map_append, List.map_singleton, List.map_singleton, strip_concat_of_isSpace hc]
      · rw [List.rdropWhile_concat_neg _ _ _ hc]

@[simp] theorem elements_strip (list : Bytes) : elements (strip list) = elements list := by
  rw [strip, elements_rdropWhile, elements_dropWhile]

theorem isSpace_lowerChar (c : UInt8) : isSpace (lowerChar c) = isSpace c := by
  suffices h : ∀ n : Fin 256, isSpace (lowerChar (UInt8.ofNat n)) = isSpace (UInt8.ofNat n) by
    have hc := h ⟨c.toNat, c.toNat_lt⟩
    rwa [UInt8.ofNat_toNat] at hc
  decide +kernel

theorem lower_strip (s : Bytes) : lower (strip s) = strip (lower s) := by
  have hspace : isSpace ∘ lowerChar = isSpace := funext isSpace_lowerChar
  have hdrop : ∀ t : Bytes, (t.map lowerChar).dropWhile isSpace = (t.dropWhile isSpace).map lowerChar :=
    fun t => by rw [List.dropWhile_map, hspace]
  rw [strip, strip, lower, lower, hdrop, List.rdropWhile, List.rdropWhile, ← List.map_reverse, hdrop,
    List.map_reverse]

theorem lower_intercalate (lists : List Bytes) :
    lower ([44].intercalate lists) = [44].intercalate (lists.map lower) := by
  induction lists with
  | nil => rfl
  | cons list lists ih =>
      cases lists with
      | nil => rw [List.map_singleton, List.intercalate_singleton, List.intercalate_singleton]
      | cons list' lists =>
          rw [List.map_cons, List.map_cons, List.intercalate_cons_cons, List.intercalate_cons_cons,
            ← List.map_cons, ← ih, lower, List.map_append, List.map_append]
          rfl

/-! ### The answer -/

section Answer

variable {buf buf' : Bytes} {fields fields' : List (Bytes × Bytes)}

theorem listsChunked_iff {value : Bytes} :
    listsChunked value = true ↔ ascii "chunked" ∈ elements (lower value) := by
  simp [listsChunked, elements]

/-- The answer, from the first of the `Transfer-Encoding` fields. -/
theorem isChunkedResponse_eq (h : (find headerDelim buf).isSome) :
    isChunkedResponse buf =
      some (((blockFields buf).filter isTransferEncoding).head?.elim false fun field => listsChunked field.2) := by
  obtain ⟨hdrEnd, hfind⟩ := Option.isSome_iff_exists.mp h
  have hsame : (fun field : Bytes × Bytes => decide (lower field.1 = ascii "transfer-encoding")) =
      isTransferEncoding := rfl
  rw [isChunkedResponse, blockFields, hfind, List.head?_filter]
  dsimp only
  rw [hsame]
  cases (headerFields (buf.take hdrEnd)).find? isTransferEncoding with
  | none => rfl
  | some field => rfl

/-- The proxy says `chunked` exactly when the list has it and the first field tells. -/
theorem isChunkedResponse_eq_true_iff (h : (find headerDelim buf).isSome) :
    isChunkedResponse buf = some true ↔
      ascii "chunked" ∈ transferCodings (blockFields buf) ∧ FirstTells (blockFields buf) := by
  rw [isChunkedResponse_eq h, transferCodings, FirstTells]
  cases (blockFields buf).filter isTransferEncoding with
  | nil => simp
  | cons first later =>
      simp only [List.head?_cons, Option.elim_some, Option.some.injEq, listsChunked_iff, List.flatMap_cons,
        List.mem_append, List.mem_flatMap]
      exact ⟨fun hfirst => ⟨.inl hfirst, fun _ => hfirst⟩, fun ⟨hor, htells⟩ => hor.elim id htells⟩

theorem firstTells_of_not_mem (h : ascii "chunked" ∉ transferCodings fields) : FirstTells fields := by
  rw [transferCodings] at h
  rw [FirstTells]
  split
  · trivial
  · rename_i first later hfilter
    rintro ⟨field, hfield, hmem⟩
    rw [hfilter] at h
    exact absurd (List.mem_flatMap.mpr ⟨field, List.mem_cons_of_mem first hfield, hmem⟩) h

theorem SplitField.transferCodings_eq (h : SplitField fields fields') :
    transferCodings fields' = transferCodings fields := by
  obtain ⟨before, after, named, nonempty, codings⟩ := h
  rename_i name parts
  have hname : isTransferEncoding (name, strip ([44].intercalate (parts.map Prod.snd))) = true :=
    decide_eq_true named
  have hparts : (parts.map fun part => (part.1, strip part.2)).filter isTransferEncoding =
      parts.map fun part => (part.1, strip part.2) := by
    rw [List.filter_eq_self]
    intro field hfield
    obtain ⟨part, hpart, rfl⟩ := List.mem_map.mp hfield
    exact codings part hpart
  have hlist : elements (lower (strip ([44].intercalate (parts.map Prod.snd)))) =
      parts.flatMap fun part => elements (lower part.2) := by
    rw [lower_strip, elements_strip, lower_intercalate,
      elements_intercalate (by simpa using nonempty), List.flatMap_map, List.flatMap_map]
  rw [transferCodings, transferCodings, List.append_assoc, List.filter_append, List.filter_append, hparts,
    List.filter_append, List.filter_cons_of_pos hname, List.flatMap_append, List.flatMap_append,
    List.flatMap_append, List.flatMap_cons, hlist, List.flatMap_map]
  simp only [lower_strip, elements_strip]

/-- **Only the first field is read.** The answer is that of the one list exactly when the first field tells.
It is the same for two responses with the same `Transfer-Encoding` fields, whatever stands between these;
and when one of the fields is split, it stays the same exactly when the first field tells in both or in
neither. -/
theorem chunked_iff_first_tells (h : (find headerDelim buf).isSome) :
    ((isChunkedResponse buf = some true ↔ ascii "chunked" ∈ transferCodings (blockFields buf)) ↔
        FirstTells (blockFields buf)) ∧
      ∀ buf', (find headerDelim buf').isSome →
        ((blockFields buf').filter isTransferEncoding = (blockFields buf).filter isTransferEncoding →
          isChunkedResponse buf' = isChunkedResponse buf) ∧
        (SplitField (blockFields buf) (blockFields buf') →
          (isChunkedResponse buf' = isChunkedResponse buf ↔
            (FirstTells (blockFields buf') ↔ FirstTells (blockFields buf)))) := by
  have hanswer := isChunkedResponse_eq_true_iff h
  refine ⟨⟨fun hright => ?_, fun htells => ?_⟩, fun buf' h' => ⟨fun hsame => ?_, fun hsplit => ?_⟩⟩
  · by_cases hmem : ascii "chunked" ∈ transferCodings (blockFields buf)
    · exact (hanswer.mp (hright.mpr hmem)).2
    · exact firstTells_of_not_mem hmem
  · exact ⟨fun htrue => (hanswer.mp htrue).1, fun hmem => hanswer.mpr ⟨hmem, htells⟩⟩
  · rw [isChunkedResponse_eq h, isChunkedResponse_eq h', hsame]
  · have hanswer' := isChunkedResponse_eq_true_iff h'
    have hsame : isChunkedResponse buf' = isChunkedResponse buf ↔
        (isChunkedResponse buf' = some true ↔ isChunkedResponse buf = some true) := by
      rw [isChunkedResponse_eq h, isChunkedResponse_eq h', Option.some.injEq, Option.some.injEq,
        Option.some.injEq, Bool.eq_iff_iff]
    rw [hsplit.transferCodings_eq] at hanswer'
    rw [hsame, hanswer, hanswer']
    by_cases hmem : ascii "chunked" ∈ transferCodings (blockFields buf)
    · simp only [hmem, true_and]
    · have hmem' : ascii "chunked" ∉ transferCodings (blockFields buf') := hsplit.transferCodings_eq ▸ hmem
      simp only [hmem, false_and, firstTells_of_not_mem hmem, firstTells_of_not_mem hmem']

end Answer

/-- `gzip` and `chunked` in one field, and in two. -/
def gzipChunked : Bytes := ascii "HTTP/1.1 200 OK\r\nTransfer-Encoding: gzip, chunked\r\n\r\n"

def gzipThenChunked : Bytes :=
  ascii "HTTP/1.1 200 OK\r\nTransfer-Encoding: gzip\r\nTransfer-Encoding: chunked\r\n\r\n"

theorem find_gzipChunked : (find headerDelim gzipChunked).isSome := by decide +kernel

theorem find_gzipThenChunked : (find headerDelim gzipThenChunked).isSome := by decide +kernel

theorem blockFields_gzipChunked :
    blockFields gzipChunked = [(ascii "Transfer-Encoding", ascii "gzip, chunked")] := by
  decide +kernel

theorem blockFields_gzipThenChunked :
    blockFields gzipThenChunked =
      [(ascii "Transfer-Encoding", ascii "gzip"), (ascii "Transfer-Encoding", ascii "chunked")] := by
  decide +kernel

theorem mem_transferCodings_gzipChunked : ascii "chunked" ∈ transferCodings (blockFields gzipChunked) := by
  rw [blockFields_gzipChunked]
  decide +kernel

theorem split_gzipChunked : SplitField (blockFields gzipChunked) (blockFields gzipThenChunked) := by
  have hparts : ∀ part ∈ [(ascii "Transfer-Encoding", ascii "gzip"),
      (ascii "Transfer-Encoding", ascii " chunked")], isTransferEncoding part = true := by
    decide +kernel
  have hone : strip ([44].intercalate [ascii "gzip", ascii " chunked"]) = ascii "gzip, chunked" := by
    decide +kernel
  have hfirst : strip (ascii "gzip") = ascii "gzip" := by decide +kernel
  have hsecond : strip (ascii " chunked") = ascii "chunked" := by decide +kernel
  have hsplit := SplitField.mk [] [] (by decide +kernel : lower (ascii "Transfer-Encoding") = _)
    (List.cons_ne_nil _ _) hparts
  rw [blockFields_gzipChunked, blockFields_gzipThenChunked]
  simpa only [List.map_cons, List.map_nil, List.nil_append, List.append_nil, hone, hfirst, hsecond] using hsplit

/-- The second field is not read: the list has `chunked`, and the answer is no. -/
theorem later_field_unread :
    (find headerDelim gzipThenChunked).isSome ∧
      ascii "chunked" ∈ transferCodings (blockFields gzipThenChunked) ∧
      isChunkedResponse gzipThenChunked = some false ∧
      SplitField (blockFields gzipChunked) (blockFields gzipThenChunked) ∧
      isChunkedResponse gzipChunked = some true := by
  refine ⟨find_gzipThenChunked, ?_, ?_, split_gzipChunked, ?_⟩
  · rw [split_gzipChunked.transferCodings_eq]
    exact mem_transferCodings_gzipChunked
  · rw [isChunkedResponse_eq find_gzipThenChunked, blockFields_gzipThenChunked]
    decide +kernel
  · rw [isChunkedResponse_eq find_gzipChunked, blockFields_gzipChunked]
    decide +kernel

theorem chunked_iff_first_tells_gzip :
    FirstTells (blockFields gzipChunked) ∧ ¬ FirstTells (blockFields gzipThenChunked) := by
  have hyes : isChunkedResponse gzipChunked = some true := by
    rw [isChunkedResponse_eq find_gzipChunked, blockFields_gzipChunked]
    decide +kernel
  have hno : isChunkedResponse gzipThenChunked ≠ some true := by
    rw [isChunkedResponse_eq find_gzipThenChunked, blockFields_gzipThenChunked]
    decide +kernel
  have hright : isChunkedResponse gzipChunked = some true ↔
      ascii "chunked" ∈ transferCodings (blockFields gzipChunked) :=
    ⟨fun _ => mem_transferCodings_gzipChunked, fun _ => hyes⟩
  refine ⟨(chunked_iff_first_tells find_gzipChunked).1.mp hright, fun htells => hno ?_⟩
  rw [(chunked_iff_first_tells find_gzipThenChunked).1.mpr htells, split_gzipChunked.transferCodings_eq]
  exact mem_transferCodings_gzipChunked

end LoadBalancer
