import LoadBalancer.Paths
import LoadBalancer.Relay

/-! What a proxy may do for one request, as its client, its backends, the router and the access log see it.
The phases and the steps say what the program is for, and nothing about its buffers and flags: a request is
given to a backend, which holds a slot until the slot is given back; it is written to that backend once and
in order; what is received is relayed in order, or one error is answered in its place; another backend is
tried only before anything has been answered. -/

namespace LoadBalancer

open PyText

namespace Protocol

/-- How the client was answered. -/
inductive Verdict where
  | response (bytes : Bytes)
  | error (code : Nat)

/-- The status on the status line of a response, 0 where it has none. -/
def statusOf (response : Bytes) : Int := ((parseResponseStatus response).map Prod.fst).getD 0

def Verdict.status : Verdict → Int
  | .response bytes => statusOf bytes
  | .error code => code

/-- `tried` has the backends that have failed; `slot` tells whether one is still held. -/
inductive Phase where
  | reading
  /-- There is no backend for the request. -/
  | refused
  | chosen (req : HttpRequest) (tried : Finset Backend) (backend : Backend)
  | sending (req : HttpRequest) (tried : Finset Backend) (backend : Backend) (sent : Bytes)
  | receiving (req : HttpRequest) (tried : Finset Backend) (backend : Backend) (received : Bytes)
  | abandoned (req : HttpRequest) (tried : Finset Backend) (backend : Backend)
  /-- The last backend has failed, and there is no other. -/
  | exhausted (req : HttpRequest) (backend : Backend)
  | relaying (req : HttpRequest) (backend : Backend) (response relayed : Bytes)
  /-- The client has been given up in the middle of the response. -/
  | dropped (req : HttpRequest) (backend : Backend) (response relayed : Bytes)
  /-- An error has been answered, for a request that has or has not got as far as a backend. -/
  | answered (entry : Option (HttpRequest × Backend)) (code : Nat) (slot : Bool)
  | logged (req : HttpRequest) (backend : Backend) (verdict : Verdict) (slot : Bool)

/-- The request may be tried on one more backend after `tried`. -/
structure MayRetry (cfg : Config) (req : HttpRequest) (tried : Finset Backend) : Prop where
  idempotent : upper req.method ∈ cfg.idempotentMethods
  allowed : tried.card ≤ cfg.maxBackendRetries

/-- The phases in which an error may be answered: which, for what request, and whether a slot is held. -/
inductive Fails (cfg : Config) : Phase → Nat → String → Option (HttpRequest × Backend) → Bool → Prop
  | idle : Fails cfg .reading 408 "Request Timeout" none false
  | tooLarge : Fails cfg .reading 413 "Request Entity Too Large" none false
  | unavailable : Fails cfg .refused 503 "Service Unavailable" none false
  | abandoned {req tried backend} (mayNot : ¬ MayRetry cfg req tried) :
      Fails cfg (.abandoned req tried backend) 502 "Bad Gateway" (some (req, backend)) false
  | exhausted {req backend} : Fails cfg (.exhausted req backend) 502 "Bad Gateway" (some (req, backend)) false
  | sending {req tried backend sent} :
      Fails cfg (.sending req tried backend sent) 504 "Gateway Timeout" (some (req, backend)) true
  | receiving {req tried backend received} :
      Fails cfg (.receiving req tried backend received) 504 "Gateway Timeout" (some (req, backend)) true
  | relaying {req backend response} :
      Fails cfg (.relaying req backend response []) 504 "Gateway Timeout" (some (req, backend)) true

/-- The phases in which the backend of an attempt may fail, and the attempt. -/
inductive Attempts : Phase → HttpRequest → Finset Backend → Backend → Prop
  | sending {req tried backend sent} : Attempts (.sending req tried backend sent) req tried backend
  | receiving {req tried backend received} : Attempts (.receiving req tried backend received) req tried backend

/-- The steps for a client at `addr`. -/
inductive Step (cfg : Config) (addr : Bytes × Nat) : Phase → Action → Phase → Prop
  | refuse : Step cfg addr .reading (.nextBackend none) .refused
  | choose {req backend} : Step cfg addr .reading (.nextBackend (some backend)) (.chosen req ∅ backend)
  | connect {req tried backend sock} :
      Step cfg addr (.chosen req tried backend) (.connect backend sock) (.sending req tried backend [])
  | send {req tried backend sent bytes} (next : sent ++ bytes <+: serialiseRequest req) :
      Step cfg addr (.sending req tried backend sent) (.backendSent bytes)
        (.sending req tried backend (sent ++ bytes))
  | receive {req tried backend bytes} :
      Step cfg addr (.sending req tried backend (serialiseRequest req)) (.backendReceived bytes)
        (.receiving req tried backend bytes)
  | receiveMore {req tried backend received bytes} :
      Step cfg addr (.receiving req tried backend received) (.backendReceived bytes)
        (.receiving req tried backend (received ++ bytes))
  | abandon {phase req tried backend count} (attempt : Attempts phase req tried backend) :
      Step cfg addr phase (.onDisconnect backend count) (.abandoned req (insert backend tried) backend)
  | retry {req tried backend next} (may : MayRetry cfg req tried) (fresh : next ∉ tried) :
      Step cfg addr (.abandoned req tried backend) (.nextBackend (some next)) (.chosen req tried next)
  | exhaust {req tried backend} (may : MayRetry cfg req tried) :
      Step cfg addr (.abandoned req tried backend) (.nextBackend none) (.exhausted req backend)
  | relay {req tried backend received response bytes} (cut : response <+: received)
      (next : bytes <+: response) :
      Step cfg addr (.receiving req tried backend received) (.clientSent bytes)
        (.relaying req backend response bytes)
  | relayMore {req backend response relayed bytes} (next : relayed ++ bytes <+: response) :
      Step cfg addr (.relaying req backend response relayed) (.clientSent bytes)
        (.relaying req backend response (relayed ++ bytes))
  | drop {req backend response relayed count} (begun : relayed ≠ []) (unfinished : relayed ≠ response) :
      Step cfg addr (.relaying req backend response relayed) (.onDisconnect backend count)
        (.dropped req backend response relayed)
  | fail {phase code reason entry slot bytes} (fails : Fails cfg phase code reason entry slot)
      (cut : bytes <+: errorResponse code reason) :
      Step cfg addr phase (.errorSent code reason bytes) (.answered entry code slot)
  | logResponse {req backend response latency} :
      Step cfg addr (.relaying req backend response response)
        (.accessLog addr backend req.method req.path req.version (statusOf response) latency)
        (.logged req backend (.response response) true)
  | logError {req backend code slot latency} :
      Step cfg addr (.answered (some (req, backend)) code slot)
        (.accessLog addr backend req.method req.path req.version code latency)
        (.logged req backend (.error code) slot)
  | release {req backend verdict count} :
      Step cfg addr (.logged req backend verdict true) (.onDisconnect backend count)
        (.logged req backend verdict false)

/-- What has been done so far leads to the phase. -/
def Leads (cfg : Config) (addr : Bytes × Nat) (trace : List Action) (phase : Phase) : Prop :=
  LabelledPath (Step cfg addr) .reading trace phase

/-! ### What the client gets, and what is logged -/

/-- What of the response the client has. -/
def Phase.relayed : Phase → Bytes
  | .relaying _ _ _ relayed | .dropped _ _ _ relayed => relayed
  | .logged _ _ (.response bytes) _ => bytes
  | _ => []

/-- The errors that the client has been answered. -/
def Phase.errors : Phase → List Nat
  | .answered _ code _ | .logged _ _ (.error code) _ => [code]
  | _ => []

/-- A line of the access log. -/
structure LogLine where
  clientAddr : Bytes × Nat
  backend : Backend
  method : Bytes
  path : Bytes
  version : Bytes
  status : Int
  latencyMs : Time

def logLine? : Action → Option LogLine
  | .accessLog clientAddr backend method path version status latencyMs =>
      some ⟨clientAddr, backend, method, path, version, status, latencyMs⟩
  | _ => none

/-- The lines that a connection has written. -/
def accessLog (trace : List Action) : List LogLine := trace.filterMap logLine?

theorem accessLog_concat (trace : List Action) (a : Action) :
    accessLog (trace ++ [a]) = accessLog trace ++ (logLine? a).toList := by
  rw [accessLog, List.filterMap_append]
  cases h : logLine? a <;> simp [accessLog, h]

section Leads

variable {cfg : Config} {addr : Bytes × Nat} {trace : List Action} {phase : Phase}

theorem Leads.snoc (h : Leads cfg addr trace phase) {a : Action} {phase' : Phase}
    (last : Step cfg addr phase a phase') : Leads cfg addr (trace ++ [a]) phase' := LabelledPath.snoc h last

theorem Fails.relayed_eq_nil {code : Nat} {reason : String} {entry : Option (HttpRequest × Backend)}
    {slot : Bool} (h : Fails cfg phase code reason entry slot) : phase.relayed = [] ∧ phase.errors = [] := by
  cases h <;> exact ⟨rfl, rfl⟩

theorem Attempts.relayed_eq_nil {req : HttpRequest} {tried : Finset Backend} {backend : Backend}
    (h : Attempts phase req tried backend) : phase.relayed = [] ∧ phase.errors = [] := by
  cases h <;> exact ⟨rfl, rfl⟩

/-- The client has what the phase says, one answer and no other. -/
theorem Leads.client (h : Leads cfg addr trace phase) :
    (exchange trace).relayed = phase.relayed ∧ (exchange trace).errors.map Prod.fst = phase.errors := by
  refine LabelledPath.history_invariant
    (fun trace phase => (exchange trace).relayed = phase.relayed ∧
      (exchange trace).errors.map Prod.fst = phase.errors) ⟨rfl, rfl⟩ ?_ h
  rintro trace phase a phase' ⟨hrelayed, herrors⟩ hstep
  rw [exchange_concat]
  cases hstep with
  | abandon attempt =>
      obtain ⟨hnone, hno⟩ := attempt.relayed_eq_nil
      exact ⟨hrelayed.trans hnone, herrors.trans hno⟩
  | fail fails _ =>
      obtain ⟨hnone, hno⟩ := fails.relayed_eq_nil
      refine ⟨hrelayed.trans hnone, ?_⟩
      rw [Exchange.record, List.map_append, herrors, hno]
      rfl
  | relay _ _ => exact ⟨by rw [Exchange.record, hrelayed]; rfl, herrors⟩
  | relayMore _ => exact ⟨by rw [Exchange.record, hrelayed]; rfl, herrors⟩
  | @release _ _ verdict _ => cases verdict <;> exact ⟨hrelayed, herrors⟩
  | _ => exact ⟨hrelayed, herrors⟩

/-- Nothing is logged before the answer is complete, and then one line that names it. -/
def Phase.Logs (addr : Bytes × Nat) (lines : List LogLine) : Phase → Prop
  | .logged req backend verdict _ => ∃ latency,
      lines = [⟨addr, backend, req.method, req.path, req.version, verdict.status, latency⟩]
  | _ => lines = []

theorem Leads.logs (h : Leads cfg addr trace phase) : phase.Logs addr (accessLog trace) := by
  refine LabelledPath.history_invariant (fun trace phase => phase.Logs addr (accessLog trace)) rfl ?_ h
  intro trace phase a phase' hlogs hstep
  rw [accessLog_concat]
  cases hstep with
  | logResponse | logError => exact ⟨_, by rw [show accessLog trace = [] from hlogs]; rfl⟩
  | abandon attempt =>
      cases attempt <;> exact (List.append_nil _).trans hlogs
  | fail fails _ =>
      cases fails <;> exact (List.append_nil _).trans hlogs
  | release =>
      obtain ⟨latency, hline⟩ := hlogs
      exact ⟨latency, (List.append_nil _).trans hline⟩
  | _ => exact (List.append_nil _).trans hlogs

end Leads

end Protocol

end LoadBalancer
