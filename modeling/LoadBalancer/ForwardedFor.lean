import LoadBalancer.ForwardedFields

/-! The client's address in `X-Forwarded-For`. A backend reads the fields of that name, whatever their
case, as one comma separated list, and takes the last element for the peer of the proxy. The proxy
appends the address to the first of these fields only, so that a second spelling of the name keeps the
last word for the client. -/

namespace LoadBalancer

open PyText ListSearch

/-- The last element of a comma separated list, trimmed. -/
def lastHop (value : Bytes) : Bytes := strip ((value.splitOn 44).getLastD [])

/-- The values of the `X-Forwarded-For` fields of a message, joined with commas. -/
def forwardedForList (buf : Bytes) : Bytes :=
  [44].intercalate (((blockFields buf).filter isForwardedFor).map Prod.snd)

/-- An address as `accept` reports it, which has neither a comma nor white space. -/
structure BareAddress (ip : Bytes) : Prop where
  nonempty : ip ≠ []
  no_comma : 44 ∉ ip
  no_space : ∀ c ∈ ip, isSpace c = false

theorem BareAddress.peerAddress {ip : Bytes} (h : BareAddress ip) : PeerAddress ip where
  nonempty := h.nonempty
  stripped := strip_eq_self_iff.mpr ⟨fun c hc => h.no_space c (List.mem_of_mem_head? hc),
    fun c hc => h.no_space c (List.mem_of_mem_getLast? hc)⟩
  no_cr := fun hmem => absurd (h.no_space 13 hmem) (by decide)
  no_lf := fun hmem => absurd (h.no_space 10 hmem) (by decide)

/-! ### The last element of a list -/

theorem lastHop_append (front value : Bytes) : lastHop (front ++ 44 :: value) = lastHop value := by
  rw [lastHop, lastHop, List.splitOn_append_cons_self, List.getLastD_eq_getLast?,
    List.getLast?_append_of_ne_nil _ (List.splitOn_ne_nil 44 value), ← List.getLastD_eq_getLast?]

theorem lastHop_of_no_comma {value : Bytes} (h : 44 ∉ value) : lastHop value = strip value := by
  rw [lastHop, List.splitOn_eq_singleton h]
  rfl

/-- The last element of a joined list is that of the last value. -/
theorem lastHop_intercalate {values : List Bytes} {value : Bytes} (h : values.getLast? = some value) :
    lastHop ([44].intercalate values) = lastHop value := by
  induction values with
  | nil => cases h
  | cons first rest ih =>
      cases rest with
      | nil =>
          obtain rfl : first = value := Option.some.inj h
          rw [List.intercalate_singleton]
      | cons second rest =>
          rw [List.getLast?_cons_cons] at h
          rw [List.intercalate_cons_cons, List.append_assoc, List.singleton_append, lastHop_append, ih h]

theorem lastHop_forwardedForList {buf : Bytes} {field : Bytes × Bytes}
    (h : ((blockFields buf).filter isForwardedFor).getLast? = some field) :
    lastHop (forwardedForList buf) = lastHop field.2 :=
  lastHop_intercalate (by rw [List.getLast?_map, h]; rfl)

theorem BareAddress.lastHop_self {ip : Bytes} (h : BareAddress ip) : lastHop ip = ip := by
  rw [lastHop_of_no_comma h.no_comma, h.peerAddress.stripped]

theorem BareAddress.lastHop_appended {ip : Bytes} (h : BareAddress ip) (value : Bytes) :
    lastHop (value ++ ascii ", " ++ ip) = ip := by
  have hcut : value ++ ascii ", " ++ ip = value ++ 44 :: 32 :: ip := by
    rw [List.append_assoc]
    rfl
  rw [hcut, lastHop_append, lastHop_of_no_comma (by simpa using h.no_comma),
    strip_cons_of_isSpace (by decide), h.peerAddress.stripped]

/-! ### The injected request -/

/-- Of the `X-Forwarded-For` fields, the first gets the address appended; where there is none, there is
one with the address alone. -/
theorem filter_forwardedFor_inject (req : HttpRequest) (ip : Bytes) :
    (injectForwardedFor req ip).headers.items.filter isForwardedFor =
      match req.headers.items.filter isForwardedFor with
      | [] => [(ascii "X-Forwarded-For", ip)]
      | (name, value) :: rest => (name, value ++ ascii ", " ++ ip) :: rest := by
  have hadd : isForwardedFor (ascii "X-Forwarded-For", ip) = true :=
    decide_eq_true (by decide : lower (ascii "X-Forwarded-For") = ascii "x-forwarded-for")
  rcases injectForwardedFor_first req ip with
    ⟨before, name, value, after, hitems, hbefore, hname, hset⟩ | ⟨hnone, hset⟩
  · have hthis : ∀ v, isForwardedFor (name, v) = true := fun v => decide_eq_true hname
    have hskip : before.filter isForwardedFor = [] := List.filter_eq_nil_iff.mpr fun field hfield => by
      simp [hbefore field hfield]
    rw [hset, hitems, List.filter_append, List.filter_append, hskip, List.nil_append, List.nil_append,
      List.filter_cons_of_pos (hthis _), List.filter_cons_of_pos (hthis _)]
  · have hskip : req.headers.items.filter isForwardedFor = [] :=
      List.filter_eq_nil_iff.mpr fun field hfield => by simp [hnone field hfield]
    rw [hset, List.filter_append, hskip, List.nil_append, List.filter_cons_of_pos hadd, List.filter_nil]

section LastHop

variable {buf ip : Bytes} {req : HttpRequest}

/-- **Who has the last word.** The last element of the forwarded `X-Forwarded-For` list is the client's
address exactly when the parser kept at most one field of that name, whatever its case, or the last of
those that it kept already ends in the address. -/
theorem last_hop_iff (hparse : tryParseRequest buf = some req) (hip : BareAddress ip) :
    lastHop (forwardedForList (serialiseRequest (injectForwardedFor req ip))) = ip ↔
      (req.headers.items.filter isForwardedFor).length ≤ 1 ∨
      ∃ field ∈ (req.headers.items.filter isForwardedFor).getLast?, lastHop field.2 = ip := by
  have hfields : (blockFields (serialiseRequest (injectForwardedFor req ip))).filter isForwardedFor = _ :=
    (congrArg _ (blockFields_forwarded hparse hip.peerAddress)).trans (filter_forwardedFor_inject req ip)
  cases hkept : req.headers.items.filter isForwardedFor with
  | nil =>
      rw [hkept] at hfields
      rw [lastHop_forwardedForList (congrArg List.getLast? hfields)]
      exact iff_of_true hip.lastHop_self (.inl (Nat.zero_le 1))
  | cons first rest =>
      obtain ⟨name, value⟩ := first
      rw [hkept] at hfields
      cases rest with
      | nil =>
          rw [lastHop_forwardedForList (congrArg List.getLast? hfields)]
          exact iff_of_true (hip.lastHop_appended value) (.inl le_rfl)
      | cons second rest =>
          -- the address went to the first field, and the last one is as the client wrote it
          obtain ⟨last, hlast⟩ : ∃ last, (second :: rest).getLast? = some last :=
            ⟨_, List.getLast?_eq_some_getLast (List.cons_ne_nil second rest)⟩
          have hend := congrArg List.getLast? hfields
          rw [List.getLast?_cons_cons, hlast] at hend
          rw [lastHop_forwardedForList hend, List.getLast?_cons_cons, hlast]
          constructor
          · exact fun hip => .inr ⟨last, rfl, hip⟩
          · rintro (hlength | ⟨field, hfield, hhop⟩)
            · simp at hlength
            · obtain rfl := Option.some.inj hfield
              exact hhop

theorem last_hop_appended : ∃ req,
    tryParseRequest (ascii "GET / HTTP/1.1\r\nX-Forwarded-For: 6.6.6.6\r\n\r\n") = some req ∧
    lastHop (forwardedForList (serialiseRequest (injectForwardedFor req (ascii "10.0.0.2")))) =
      ascii "10.0.0.2" := by
  have hview : (tryParseRequest (ascii "GET / HTTP/1.1\r\nX-Forwarded-For: 6.6.6.6\r\n\r\n")).map
      (fun req => (req.headers.items.filter isForwardedFor).length) = some 1 := by decide +kernel
  obtain ⟨req, hparse, hlength⟩ := Option.map_eq_some_iff.mp hview
  exact ⟨req, hparse,
    (last_hop_iff hparse ⟨by decide, by decide, by decide +kernel⟩).mpr (.inl hlength.le)⟩

def twoForwardedFor : Bytes :=
  ascii "GET / HTTP/1.1\r\nX-Forwarded-For: a\r\nx-forwarded-for: 6.6.6.6\r\n\r\n"

/-- A client that spells the field in two ways is believed to be the address that it names. -/
theorem last_hop_displaced : BareAddress (ascii "10.0.0.2") ∧
    ∃ req, tryParseRequest twoForwardedFor = some req ∧
      (blockFields (serialiseRequest (injectForwardedFor req (ascii "10.0.0.2")))).filter isForwardedFor =
        [(ascii "X-Forwarded-For", ascii "a, 10.0.0.2"), (ascii "x-forwarded-for", ascii "6.6.6.6")] ∧
      lastHop (forwardedForList (serialiseRequest (injectForwardedFor req (ascii "10.0.0.2")))) =
        ascii "6.6.6.6" ∧
      lastHop (forwardedForList (serialiseRequest (injectForwardedFor req (ascii "10.0.0.2")))) ≠
        ascii "10.0.0.2" := by
  have hview : (tryParseRequest twoForwardedFor).map (fun req =>
      (blockFields (serialiseRequest (injectForwardedFor req (ascii "10.0.0.2")))).filter isForwardedFor) =
      some [(ascii "X-Forwarded-For", ascii "a, 10.0.0.2"),
        (ascii "x-forwarded-for", ascii "6.6.6.6")] := by decide +kernel
  obtain ⟨req, hparse, hfields⟩ := Option.map_eq_some_iff.mp hview
  have hhop : lastHop (forwardedForList (serialiseRequest
      (injectForwardedFor req (ascii "10.0.0.2")))) = ascii "6.6.6.6" := by
    rw [forwardedForList, hfields]
    decide +kernel
  exact ⟨⟨by decide, by decide, by decide +kernel⟩, req, hparse, hfields, hhop, by rw [hhop]; decide⟩

end LastHop

end LoadBalancer
