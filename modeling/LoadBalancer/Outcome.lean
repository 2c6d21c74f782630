/-! How a call of stateful code ends: it returns, it lets an exception escape, or it never ends. The
postcondition of a call speaks of the state in the first two cases; the rules below take the
postcondition of a composite call from those of its parts. -/

/-- The end of a call that works on a state. -/
inductive Outcome (σ : Type) where
  | returned (s : σ)
  | raised (s : σ)
  /-- The call never ends. -/
  | hung

namespace Outcome

variable {σ τ : Type}

/-- `ret` holds if the call returns and `exc` if it raises. -/
def Post (ret exc : σ → Prop) : Outcome σ → Prop
  | returned s => ret s
  | raised s => exc s
  | hung => True

@[simp] theorem post_returned {ret exc : σ → Prop} {s : σ} : (returned s).Post ret exc ↔ ret s := Iff.rfl

@[simp] theorem post_raised {ret exc : σ → Prop} {s : σ} : (raised s).Post ret exc ↔ exc s := Iff.rfl

@[simp] theorem post_hung {ret exc : σ → Prop} : (hung : Outcome σ).Post ret exc := trivial

theorem post_of_forall {ret exc : σ → Prop} (hret : ∀ s, ret s) (hexc : ∀ s, exc s) (o : Outcome σ) :
    o.Post ret exc := by
  cases o with
  | returned s => exact hret s
  | raised s => exact hexc s
  | hung => trivial

theorem Post.mono {ret exc ret' exc' : σ → Prop} {o : Outcome σ} (h : o.Post ret exc)
    (hret : ∀ s, ret s → ret' s) (hexc : ∀ s, exc s → exc' s) : o.Post ret' exc' := by
  cases o with
  | returned s => exact hret s h
  | raised s => exact hexc s h
  | hung => trivial

theorem Post.and {ret exc ret' exc' : σ → Prop} {o : Outcome σ} (h : o.Post ret exc)
    (h' : o.Post ret' exc') : o.Post (fun s => ret s ∧ ret' s) (fun s => exc s ∧ exc' s) := by
  cases o with
  | returned s => exact ⟨h, h'⟩
  | raised s => exact ⟨h, h'⟩
  | hung => trivial

/-- View the state of the end as part of another state. -/
def map (f : σ → τ) : Outcome σ → Outcome τ
  | returned s => returned (f s)
  | raised s => raised (f s)
  | hung => hung

theorem post_map {f : σ → τ} {ret exc : τ → Prop} {o : Outcome σ} :
    (o.map f).Post ret exc ↔ o.Post (fun s => ret (f s)) (fun s => exc (f s)) := by
  cases o <;> rfl

/-- Go on with `next` if the call returns. -/
def andThen (o : Outcome σ) (next : σ → Outcome σ) : Outcome σ :=
  match o with
  | returned s => next s
  | raised s => raised s
  | hung => hung

theorem Post.andThen {mid ret exc : σ → Prop} {o : Outcome σ} {next : σ → Outcome σ}
    (h : o.Post mid exc) (hnext : ∀ s, mid s → (next s).Post ret exc) :
    (o.andThen next).Post ret exc := by
  cases o with
  | returned s => exact hnext s h
  | raised s => exact h
  | hung => trivial

/-- The two calls end in the same way, in related states. -/
def Rel (R : σ → τ → Prop) : Outcome σ → Outcome τ → Prop
  | returned s, returned t => R s t
  | raised s, raised t => R s t
  | hung, hung => True
  | _, _ => False

@[simp] theorem rel_returned {R : σ → τ → Prop} {s : σ} {t : τ} :
    Rel R (returned s) (returned t) ↔ R s t := Iff.rfl

@[simp] theorem rel_raised {R : σ → τ → Prop} {s : σ} {t : τ} :
    Rel R (raised s) (raised t) ↔ R s t := Iff.rfl

@[simp] theorem rel_hung {R : σ → τ → Prop} : Rel R (hung : Outcome σ) (hung : Outcome τ) := trivial

end Outcome
