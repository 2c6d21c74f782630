import Mathlib.Data.Finset.Card
import Mathlib.Logic.Relation

/-! A `while True` loop: one iteration either gives the next state or returns a value. The loop is run
with a bound on its iterations. When the states stay in a finite set, its size is a sufficient bound:
a loop that has not returned by then never does. -/

namespace WhileLoop

variable {σ ρ : Type}

/-- The value returned within `fuel` iterations from `s`. -/
def iterate (body : σ → σ ⊕ ρ) : Nat → σ → Option ρ
  | 0, _ => none
  | fuel + 1, s =>
      match body s with
      | .inl s' => iterate body fuel s'
      | .inr r => some r

/-- The loop returns after exactly `n` iterations that do not. -/
def ReturnsAfter (body : σ → σ ⊕ ρ) (r : ρ) : Nat → σ → Prop
  | 0, s => body s = .inr r
  | n + 1, s => ∃ s', body s = .inl s' ∧ ReturnsAfter body r n s'

theorem iterate_eq_some_iff {body : σ → σ ⊕ ρ} {fuel : Nat} {s : σ} {r : ρ} :
    iterate body fuel s = some r ↔ ∃ n < fuel, ReturnsAfter body r n s := by
  induction fuel generalizing s with
  | zero => simp [iterate]
  | succ fuel ih =>
      rw [iterate]
      cases hbody : body s with
      | inl s' =>
          simp only [ih]
          constructor
          · rintro ⟨n, hn, hret⟩
            exact ⟨n + 1, by omega, s', hbody, hret⟩
          · rintro ⟨n, hn, hret⟩
            cases n with
            | zero => rw [ReturnsAfter, hbody] at hret; cases hret
            | succ n =>
                obtain ⟨s'', hs'', hret⟩ := hret
                rw [hbody] at hs''
                cases hs''
                exact ⟨n, by omega, hret⟩
      | inr r' =>
          simp only [Option.some.injEq]
          constructor
          · rintro rfl
            exact ⟨0, Nat.succ_pos _, hbody⟩
          · rintro ⟨n, -, hret⟩
            cases n with
            | zero => rw [ReturnsAfter, hbody] at hret; exact Sum.inr.inj hret
            | succ n =>
                obtain ⟨s', hs', -⟩ := hret
                rw [hbody] at hs'
                cases hs'

theorem ReturnsAfter.unique {body : σ → σ ⊕ ρ} {r : ρ} {n m : Nat} {s : σ}
    (hn : ReturnsAfter body r n s) (hm : ReturnsAfter body r m s) : n = m := by
  induction n generalizing m s with
  | zero =>
      cases m with
      | zero => rfl
      | succ m =>
          obtain ⟨s', hs', -⟩ := hm
          rw [ReturnsAfter, hs'] at hn
          cases hn
  | succ n ih =>
      obtain ⟨s', hs', hn⟩ := hn
      cases m with
      | zero => rw [ReturnsAfter, hs'] at hm; cases hm
      | succ m =>
          obtain ⟨s'', hs'', hm⟩ := hm
          rw [hs'] at hs''
          cases hs''
          exact congrArg (· + 1) (ih hn hm)

/-- The states that the loop runs through from `s`. -/
def Visits (body : σ → σ ⊕ ρ) : σ → σ → Prop := Relation.ReflTransGen fun t t' => body t = .inl t'

theorem Visits.head_cases {body : σ → σ ⊕ ρ} {s t : σ} (h : Visits body s t) :
    t = s ∨ ∃ s', body s = .inl s' ∧ Visits body s' t := by
  rcases Relation.ReflTransGen.cases_head h with rfl | hstep
  · exact .inl rfl
  · exact .inr hstep

theorem Visits.step {body : σ → σ ⊕ ρ} {s t t' : σ} (h : Visits body s t) (hstep : body t = .inl t') :
    Visits body s t' :=
  Relation.ReflTransGen.tail h hstep

/-- A loop returns what it returns in a state that it runs through. -/
theorem exists_returnsAfter_iff {body : σ → σ ⊕ ρ} {s : σ} {r : ρ} :
    (∃ n, ReturnsAfter body r n s) ↔ ∃ t, Visits body s t ∧ body t = .inr r := by
  constructor
  · rintro ⟨n, hn⟩
    induction n generalizing s with
    | zero => exact ⟨s, .refl, hn⟩
    | succ n ih =>
        obtain ⟨s', hs', hn⟩ := hn
        obtain ⟨t, ht, hret⟩ := ih hn
        exact ⟨t, .head hs' ht, hret⟩
  · rintro ⟨t, ht, hret⟩
    induction ht using Relation.ReflTransGen.head_induction_on with
    | refl => exact ⟨0, hret⟩
    | head hstep _ ih =>
        obtain ⟨n, hn⟩ := ih
        exact ⟨n + 1, _, hstep, hn⟩

theorem exists_iterate_iff {body : σ → σ ⊕ ρ} {s : σ} {r : ρ} :
    (∃ fuel, iterate body fuel s = some r) ↔ ∃ t, Visits body s t ∧ body t = .inr r := by
  rw [← exists_returnsAfter_iff]
  constructor
  · rintro ⟨fuel, hfuel⟩
    obtain ⟨n, -, hn⟩ := iterate_eq_some_iff.mp hfuel
    exact ⟨n, hn⟩
  · rintro ⟨n, hn⟩
    exact ⟨n + 1, iterate_eq_some_iff.mpr ⟨n, Nat.lt_succ_self n, hn⟩⟩

/-- The state in which a loop returns is the only one. -/
theorem Visits.eq_of_returns {body : σ → σ ⊕ ρ} {s t t' : σ} {r r' : ρ} (ht : Visits body s t)
    (ht' : Visits body s t') (hret : body t = .inr r) (hret' : body t' = .inr r') : t = t' := by
  have hlast : ∀ {u v : σ} {q : ρ}, Visits body u v → body u = .inr q → v = u := by
    intro u v q huv hu
    rcases huv.head_cases with rfl | ⟨u', hu', -⟩
    · rfl
    · rw [hu] at hu'
      cases hu'
  have hunique : Relator.RightUnique fun u u' => body u = (.inl u' : σ ⊕ ρ) :=
    fun u v w hv hw => Sum.inl.inj (hv.symm.trans hw)
  rcases Relation.ReflTransGen.total_of_right_unique hunique ht ht' with h | h
  · exact (hlast h hret).symm
  · exact hlast h hret'

/-- Another loop that does the same in the states of a run has the same run. -/
theorem Visits.carry {ρ' : Type} {body : σ → σ ⊕ ρ} {body' : σ → σ ⊕ ρ'} {s t : σ} (h : Visits body s t)
    (hsame : ∀ u u', Visits body s u → body u = .inl u' → Visits body s u' → body' u = .inl u') :
    Visits body' s t := by
  induction h with
  | refl => exact .refl
  | tail hu hstep ih => exact ih.step (hsame _ _ hu hstep (Visits.step hu hstep))

/-- A loop returns when every iteration raises a bounded measure. -/
theorem exists_iterate_of_measure {body : σ → σ ⊕ ρ} (measure : σ → Nat) (bound : Nat) {s : σ}
    (hraise : ∀ t t', Visits body s t → body t = .inl t' → measure t < measure t' ∧ measure t' ≤ bound) :
    ∃ fuel r, iterate body fuel s = some r := by
  induction hgap : bound - measure s using Nat.strong_induction_on generalizing s with
  | _ gap ih =>
      subst hgap
      cases hbody : body s with
      | inr r => exact ⟨1, r, by rw [iterate, hbody]⟩
      | inl s' =>
          obtain ⟨hlt, hle⟩ := hraise s s' .refl hbody
          obtain ⟨fuel, r, hr⟩ := ih (bound - measure s') (by omega)
            (fun t t' ht => hraise t t' (.head hbody ht)) rfl
          exact ⟨fuel + 1, r, by rw [iterate, hbody]; exact hr⟩

/-- A returning loop whose states stay in a finite set visits each of them at most once. -/
theorem ReturnsAfter.lt_card [DecidableEq σ] {body : σ → σ ⊕ ρ} {r : ρ} {states : Finset σ}
    (hclosed : ∀ s ∈ states, ∀ s', body s = .inl s' → s' ∈ states) {n : Nat} {s : σ}
    (hs : s ∈ states) (hn : ReturnsAfter body r n s) : n < states.card := by
  suffices h : ∃ visited : Finset σ, visited ⊆ states ∧ visited.card = n + 1 ∧
      ∀ v ∈ visited, ∃ m ≤ n, ReturnsAfter body r m v by
    obtain ⟨visited, hsub, hcard, -⟩ := h
    have := Finset.card_le_card hsub
    omega
  induction n generalizing s with
  | zero =>
      exact ⟨{s}, Finset.singleton_subset_iff.mpr hs, Finset.card_singleton s,
        fun v hv => ⟨0, le_rfl, Finset.mem_singleton.mp hv ▸ hn⟩⟩
  | succ n ih =>
      obtain ⟨s', hbody, hn'⟩ := id hn
      obtain ⟨visited, hsub, hcard, hvisited⟩ := ih (hclosed s hs s' hbody) hn'
      have hnew : s ∉ visited := by
        intro hmem
        obtain ⟨m, hm, hret⟩ := hvisited s hmem
        have := hret.unique hn
        omega
      refine ⟨insert s visited, Finset.insert_subset hs hsub, ?_, fun v hv => ?_⟩
      · rw [Finset.card_insert_of_notMem hnew, hcard]
      · rcases Finset.mem_insert.mp hv with rfl | hv
        · exact ⟨n + 1, le_rfl, hn⟩
        · obtain ⟨m, hm, hret⟩ := hvisited v hv
          exact ⟨m, by omega, hret⟩

/-- A loop that has not returned after as many iterations as there are states never returns. -/
theorem iterate_eq_none_of_card [DecidableEq σ] {body : σ → σ ⊕ ρ} {states : Finset σ}
    (hclosed : ∀ s ∈ states, ∀ s', body s = .inl s' → s' ∈ states) {s : σ} (hs : s ∈ states)
    {bound : Nat} (hbound : states.card ≤ bound) (hnone : iterate body bound s = none) (fuel : Nat) :
    iterate body fuel s = none := by
  cases hfuel : iterate body fuel s with
  | none => rfl
  | some r =>
      obtain ⟨n, -, hret⟩ := iterate_eq_some_iff.mp hfuel
      have hn := hret.lt_card hclosed hs
      rw [iterate_eq_some_iff.mpr ⟨n, by omega, hret⟩] at hnone
      cases hnone

end WhileLoop
