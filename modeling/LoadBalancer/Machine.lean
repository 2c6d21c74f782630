import Mathlib.Data.List.Basic

/-! Runs of a partial step function, and the induction rules every safety result rests on: a property
preserved by each step holds after each run, a property of the state and of what the events bring is
preserved as they bring it, and a property preserved by the steps that meet a guard holds after each run
all of whose steps meet it. A step that has no result (`none`) ends the run: no state follows it. -/

namespace Machine

variable {σ ε τ δ η ω : Type}

/-- The state after a list of events, if every step of it has a result. -/
def run (step : σ → ε → Option σ) : σ → List ε → Option σ
  | s, [] => some s
  | s, e :: events => (step s e).bind fun s' => run step s' events

@[simp] theorem run_nil (step : σ → ε → Option σ) (s : σ) : run step s [] = some s := rfl

theorem run_cons_eq_some {step : σ → ε → Option σ} {s t : σ} {e : ε} {events : List ε} :
    run step s (e :: events) = some t ↔ ∃ s', step s e = some s' ∧ run step s' events = some t :=
  Option.bind_eq_some_iff

theorem run_append (step : σ → ε → Option σ) (s : σ) (first second : List ε) :
    run step s (first ++ second) = (run step s first).bind fun s' => run step s' second := by
  induction first generalizing s with
  | nil => rfl
  | cons e first ih =>
      simp only [List.cons_append, run]
      cases step s e with
      | none => rfl
      | some s' => exact ih s'

/-- A step function that always has a result. -/
theorem run_total (f : σ → ε → σ) (s : σ) (events : List ε) :
    run (fun s e => some (f s e)) s events = some (events.foldl f s) := by
  induction events generalizing s with
  | nil => rfl
  | cons e events ih => exact ih (f s e)

/-- The invariant rule: what every step preserves, every run preserves. -/
theorem run_invariant {step : σ → ε → Option σ} (P : σ → Prop)
    (hstep : ∀ s e s', P s → step s e = some s' → P s') {s t : σ} {events : List ε}
    (hs : P s) (hrun : run step s events = some t) : P t := by
  induction events generalizing s with
  | nil =>
      obtain rfl := Option.some.inj hrun
      exact hs
  | cons e events ih =>
      obtain ⟨s', hfirst, hrest⟩ := run_cons_eq_some.mp hrun
      exact ih (hstep s e s' hs hfirst) hrest

/-- The invariant rule for a property of the state and of what the events have brought so far. -/
theorem run_gathers {step : σ → ε → Option σ} {β : Type} (gather : ε → List β) {G : ε → Prop}
    (P : List β → σ → Prop)
    (hstep : ∀ r s e s', P r s → G e → step s e = some s' → P (r ++ gather e) s') {r : List β} {s t : σ}
    {events : List ε} (hs : P r s) (hgood : ∀ e ∈ events, G e) (hrun : run step s events = some t) :
    P (r ++ events.flatMap gather) t := by
  induction events generalizing r s with
  | nil =>
      obtain rfl := Option.some.inj hrun
      rw [List.flatMap_nil, List.append_nil]
      exact hs
  | cons e events ih =>
      obtain ⟨s', hfirst, hrest⟩ := run_cons_eq_some.mp hrun
      rw [List.flatMap_cons, ← List.append_assoc]
      exact ih (hstep r s e s' hs (hgood e List.mem_cons_self) hfirst)
        (fun e' he' => hgood e' (List.mem_cons_of_mem e he')) hrest

/-- Every step of the run meets the guard in the state it is taken from. -/
def Guarded (step : σ → ε → Option σ) (G : σ → ε → Prop) : σ → List ε → Prop
  | _, [] => True
  | s, e :: events => G s e ∧ ∀ s', step s e = some s' → Guarded step G s' events

theorem Guarded.mono {step : σ → ε → Option σ} {G G' : σ → ε → Prop} (h : ∀ s e, G s e → G' s e)
    {s : σ} {events : List ε} (hguard : Guarded step G s events) : Guarded step G' s events := by
  induction events generalizing s with
  | nil => trivial
  | cons e events ih => exact ⟨h s e hguard.1, fun s' hs' => ih (hguard.2 s' hs')⟩

theorem guarded_of_mem {step : σ → ε → Option σ} {G : σ → ε → Prop} {events : List ε}
    (h : ∀ e ∈ events, ∀ s, G s e) (s : σ) : Guarded step G s events := by
  induction events generalizing s with
  | nil => trivial
  | cons e events ih =>
      exact ⟨h e List.mem_cons_self s, fun s' _ => ih (fun e' he' => h e' (List.mem_cons_of_mem e he')) s'⟩

theorem guarded_of_forall {step : σ → ε → Option σ} {G : σ → ε → Prop} (h : ∀ s e, G s e) (s : σ)
    (events : List ε) : Guarded step G s events := guarded_of_mem (fun e _ s => h s e) s

instance decidableGuarded {step : σ → ε → Option σ} {G : σ → ε → Prop} [∀ s e, Decidable (G s e)] :
    (s : σ) → (events : List ε) → Decidable (Guarded step G s events)
  | _, [] => .isTrue trivial
  | s, e :: events =>
      have : DecidablePred fun s' => Guarded step G s' events := fun s' => decidableGuarded s' events
      have : Decidable (∀ s' ∈ step s e, Guarded step G s' events) := Option.decidableForallMem (step s e)
      inferInstanceAs (Decidable (G s e ∧ ∀ s' ∈ step s e, Guarded step G s' events))

/-- The invariant rule for runs whose steps all meet a guard. -/
theorem run_invariant_of_guarded {step : σ → ε → Option σ} {G : σ → ε → Prop} (P : σ → Prop)
    (hstep : ∀ s e s', P s → G s e → step s e = some s' → P s') {s t : σ} {events : List ε}
    (hs : P s) (hguard : Guarded step G s events) (hrun : run step s events = some t) : P t := by
  induction events generalizing s with
  | nil =>
      obtain rfl := Option.some.inj hrun
      exact hs
  | cons e events ih =>
      obtain ⟨s', hfirst, hrest⟩ := run_cons_eq_some.mp hrun
      exact ih (hstep s e s' hs hguard.1 hfirst) (hguard.2 s' hfirst) hrest

/-- Forward simulation: if every step of one machine is a run of another on what `view` shows of the
state, then so is every run. -/
theorem run_simulates {step : σ → ε → Option σ} {step' : τ → δ → Option τ} (view : σ → τ)
    (hstep : ∀ s e s', step s e = some s' → ∃ events', run step' (view s) events' = some (view s'))
    {s t : σ} {events : List ε} (hrun : run step s events = some t) :
    ∃ events', run step' (view s) events' = some (view t) := by
  induction events generalizing s with
  | nil =>
      obtain rfl := Option.some.inj hrun
      exact ⟨[], rfl⟩
  | cons e events ih =>
      obtain ⟨s', hfirst, hrest⟩ := run_cons_eq_some.mp hrun
      obtain ⟨first, hfirst'⟩ := hstep s e s' hfirst
      obtain ⟨rest, hrest'⟩ := ih hrest
      exact ⟨first ++ rest, by rw [run_append, hfirst', Option.bind_some, hrest']⟩

/-! ### The steps of another machine -/

section Trail

variable {step : σ → ε → Option σ} {step' : τ → δ → Option τ} {leaves : σ → ε → σ → List δ}

/-- What the steps of a run leave behind, in order. -/
def trail (step : σ → ε → Option σ) (leaves : σ → ε → σ → List δ) : σ → List ε → List δ
  | _, [] => []
  | s, e :: events =>
      match step s e with
      | none => []
      | some s' => leaves s e s' ++ trail step leaves s' events

theorem trail_cons {s s' : σ} {e : ε} (hstep : step s e = some s') (events : List ε) :
    trail step leaves s (e :: events) = leaves s e s' ++ trail step leaves s' events := by
  rw [trail, hstep]

/-- If every step does what it leaves behind on another machine, on which `view` shows the state, then so does
every run. -/
theorem run_trail (view : σ → τ) (P : σ → Prop)
    (hkeeps : ∀ s e s', P s → step s e = some s' → P s')
    (hstep : ∀ s e s', P s → step s e = some s' → run step' (view s) (leaves s e s') = some (view s'))
    {s t : σ} {events : List ε} (hs : P s) (hrun : run step s events = some t) :
    run step' (view s) (trail step leaves s events) = some (view t) := by
  induction events generalizing s with
  | nil =>
      obtain rfl := Option.some.inj hrun
      rfl
  | cons e events ih =>
      obtain ⟨s', hfirst, hrest⟩ := run_cons_eq_some.mp hrun
      rw [trail_cons hfirst, run_append, hstep s e s' hs hfirst]
      exact ih (hkeeps s e s' hs hfirst) hrest

end Trail

/-! ### History variables -/

section History

variable {step : σ → ε → Option σ} {step' : τ → ε → Option τ} {view : τ → σ}

/-- A machine that takes the same steps, with more in its state, has the same runs. -/
theorem map_run (h : ∀ t e, (step' t e).map view = step (view t) e) (t : τ) (events : List ε) :
    (run step' t events).map view = run step (view t) events := by
  induction events generalizing t with
  | nil => rfl
  | cons e events ih =>
      rw [run, run, ← h t e]
      cases step' t e with
      | none => rfl
      | some t' => exact ih t'

theorem Guarded.of_view {G : σ → ε → Prop} (h : ∀ t e, (step' t e).map view = step (view t) e) {t : τ}
    {events : List ε} (hguard : Guarded step G (view t) events) :
    Guarded step' (fun t e => G (view t) e) t events := by
  induction events generalizing t with
  | nil => trivial
  | cons e events ih =>
      refine ⟨hguard.1, fun t' ht' => ih (hguard.2 (view t') ?_)⟩
      rw [← h t e, ht', Option.map_some]

end History

/-! ### Runs in step with each other -/

/-- What can be seen of a machine after each event of a run that it hears. -/
def observations (step : σ → ε → Option σ) (hear : ε → Option η) (see : σ → ω) : σ → List ε → List ω
  | _, [] => []
  | s, e :: events =>
      match step s e with
      | none => []
      | some s' =>
          if (hear e).isSome then see s' :: observations step hear see s' events
          else observations step hear see s' events

section Lockstep

variable {step : σ → ε → Option σ} {step' : τ → δ → Option τ} {hear : ε → Option η} {hear' : δ → Option η}

theorem observations_cons_of_none {see : σ → ω} {s s' : σ} {e : ε} (events : List ε)
    (hstep : step s e = some s') (he : hear e = none) :
    observations step hear see s (e :: events) = observations step hear see s' events := by
  rw [observations, hstep]
  simp [he]

theorem observations_cons_of_some {see : σ → ω} {s s' : σ} {e : ε} {x : η} (events : List ε)
    (hstep : step s e = some s') (he : hear e = some x) :
    observations step hear see s (e :: events) = see s' :: observations step hear see s' events := by
  rw [observations, hstep]
  simp [he]

/-- Events that are not heard show nothing, and keep what they keep one by one. -/
theorem observations_of_unheard (see : σ → ω) (P : σ → Prop)
    (hskip : ∀ s e s', P s → hear e = none → step s e = some s' → P s') {s t : σ} {events : List ε}
    (hs : P s) (hunheard : ∀ e ∈ events, hear e = none) (hrun : run step s events = some t)
    (later : List ε) :
    P t ∧ observations step hear see s (events ++ later) = observations step hear see t later := by
  induction events generalizing s with
  | nil =>
      obtain rfl := Option.some.inj hrun
      exact ⟨hs, rfl⟩
  | cons e events ih =>
      obtain ⟨s', hfirst, hrest⟩ := run_cons_eq_some.mp hrun
      have he : hear e = none := hunheard e List.mem_cons_self
      obtain ⟨ht, heq⟩ := ih (hskip s e s' hs he hfirst)
        (fun e' he' => hunheard e' (List.mem_cons_of_mem e he')) hrest
      exact ⟨ht, (observations_cons_of_none _ hfirst he).trans heq⟩

/-- The rule for two runs: if events that are not heard keep a relation, and an event heard by both keeps
it and shows the same of both, then runs that hear the same show the same. -/
theorem observations_eq (R : σ → τ → Prop) {G : σ → ε → Prop} {see : σ → ω} {see' : τ → ω}
    (hskip : ∀ s t e s', R s t → hear e = none → step s e = some s' → R s' t)
    (hskip' : ∀ s t e t', R s t → hear' e = none → step' t e = some t' → R s t')
    (hboth : ∀ s t e e' x s' t', R s t → G s e → hear e = some x → hear' e' = some x →
      step s e = some s' → step' t e' = some t' → R s' t' ∧ see s' = see' t')
    {s u : σ} {t v : τ} {events : List ε} {events' : List δ} (hR : R s t)
    (hguard : Guarded step G s events) (hrun : run step s events = some u)
    (hrun' : run step' t events' = some v)
    (hsame : events.filterMap hear = events'.filterMap hear') :
    observations step hear see s events = observations step' hear' see' t events' := by
  induction events generalizing s t events' with
  | nil =>
      have hunheard : ∀ e ∈ events', hear' e = none := List.filterMap_eq_nil_iff.mp hsame.symm
      have hsilent := (observations_of_unheard see' (R s) (hskip' s) hR hunheard hrun' []).2
      rw [List.append_nil] at hsilent
      exact hsilent.symm
  | cons e events ih =>
      obtain ⟨s', hfirst, hrest⟩ := run_cons_eq_some.mp hrun
      have hguard' : Guarded step G s' events := hguard.2 s' hfirst
      cases he : hear e with
      | none =>
          rw [List.filterMap_cons_none he] at hsame
          rw [observations_cons_of_none events hfirst he]
          exact ih (hskip s t e s' hR he hfirst) hguard' hrest hrun' hsame
      | some x =>
          rw [List.filterMap_cons_some he] at hsame
          obtain ⟨before, e', after, rfl, hunheard, he', hafter⟩ := List.filterMap_eq_cons_iff.mp hsame.symm
          rw [run_append] at hrun'
          obtain ⟨t₁, hbefore, hrun'⟩ := Option.bind_eq_some_iff.mp hrun'
          obtain ⟨t', hsecond, hrest'⟩ := run_cons_eq_some.mp hrun'
          obtain ⟨hR₁, hsilent⟩ :=
            observations_of_unheard see' (R s) (hskip' s) hR hunheard hbefore (e' :: after)
          obtain ⟨hR', hsee⟩ := hboth s t₁ e e' x s' t' hR₁ hguard.1 he he' hfirst hsecond
          rw [observations_cons_of_some events hfirst he, hsilent,
            observations_cons_of_some after hsecond he', hsee, ih hR' hguard' hrest hrest' hafter.symm]

end Lockstep

end Machine
