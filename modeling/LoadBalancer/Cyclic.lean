import Mathlib.Algebra.Order.Floor.Div
import Mathlib.Data.Int.CardIntervalMod

/-! A cursor that counts up and is read modulo a length: how far it is from a place, and how often it comes
to each place. The distance is taken modulo a multiple of the length, so that it can be kept while the
length changes. -/

namespace Cyclic

variable {m n p : Nat}

/-- The number of steps from `i` to the next number that is `p` modulo `m`. -/
def gap (m p i : Nat) : Nat := (p + (m - i % m)) % m

theorem gap_lt (hm : 0 < m) (p i : Nat) : gap m p i < m := Nat.mod_lt _ hm

theorem add_gap_mod (hp : p < m) (i : Nat) : (i + gap m p i) % m = p := by
  have hi : i % m < m := Nat.mod_lt _ (by omega)
  calc (i + (p + (m - i % m)) % m) % m
      = (i % m + (p + (m - i % m))) % m := by simp [Nat.add_mod]
    _ = (p + m) % m := by rw [show i % m + (p + (m - i % m)) = p + m by omega]
    _ = p := by rw [Nat.add_mod_right, Nat.mod_eq_of_lt hp]

/-- Each step that does not start at the place brings the cursor one nearer to it. -/
theorem gap_succ (hm : 0 < m) {i : Nat} (h : gap m p i ≠ 0) : gap m p (i + 1) + 1 = gap m p i := by
  have hi : i % m < m := Nat.mod_lt _ hm
  have hpred : ∀ x, x % m ≠ 0 → (x - 1) % m + 1 = x % m := by
    intro x hx
    have hsplit := Nat.div_add_mod x m
    have hlt := Nat.mod_lt x hm
    have hx' : x - 1 = m * (x / m) + (x % m - 1) := by omega
    rw [hx', Nat.mul_add_mod, Nat.mod_eq_of_lt (by omega)]
    omega
  have hnext : (p + (m - (i + 1) % m)) % m = (p + (m - i % m) - 1) % m := by
    rcases Nat.lt_or_ge (i % m + 1) m with hlt | hge
    · rw [Nat.add_mod i 1 m, Nat.mod_eq_of_lt (show 1 < m by omega), Nat.mod_eq_of_lt hlt]
      congr 1
      omega
    · have hlast : i % m + 1 = m := by omega
      rw [← Nat.mod_add_mod i, hlast, Nat.mod_self, Nat.sub_zero, Nat.add_mod_right]
      congr 1
      omega
  rw [gap, hnext]
  exact hpred _ h

/-- At distance zero the cursor is at the place for every length that divides `m`. -/
theorem mod_eq_of_gap (hn : n ∣ m) (hp : p < n) (hm : 0 < m) {i : Nat} (h : gap m p i = 0) : i % n = p := by
  have hpm : p < m := hp.trans_le (Nat.le_of_dvd hm hn)
  have hi := add_gap_mod hpm i
  rw [h, Nat.add_zero] at hi
  rw [← Nat.mod_mod_of_dvd i hn, hi, Nat.mod_eq_of_lt hp]

/-- In `k` steps the cursor comes to each of `n` places equally often, up to one. -/
theorem count_place (hp : p < n) (i k : Nat) :
    Nat.count (fun j => (i + j) % n = p) k = k / n ∨ Nat.count (fun j => (i + j) % n = p) k = k ⌈/⌉ n := by
  have hn : 0 < n := Nat.zero_lt_of_lt hp
  have hplace : ∀ j, (i + j) % n = p ↔ j ≡ gap n p i [MOD n] := by
    intro j
    have hi : i + gap n p i ≡ p [MOD n] := (add_gap_mod hp i).trans (Nat.mod_eq_of_lt hp).symm
    have hj : (i + j) % n = p ↔ i + j ≡ p [MOD n] := by rw [Nat.ModEq, Nat.mod_eq_of_lt hp]
    rw [hj]
    exact ⟨fun h => (h.trans hi.symm).add_left_cancel' i, fun h => (h.add_left i).trans hi⟩
  have hcount : Nat.count (fun j => (i + j) % n = p) k =
      k / n + if gap n p i % n < k % n then 1 else 0 := by
    rw [← Nat.count_modEq_card k hn]
    exact List.countP_congr fun j _ => by simp only [hplace j]
  rw [hcount]
  split
  · next hlt =>
    refine .inr ?_
    rw [Nat.ceilDiv_eq_add_pred_div]
    have hrest := Nat.mod_lt k hn
    have hk : k + n - 1 = n * (k / n + 1) + (k % n - 1) := by
      have hsplit := Nat.div_add_mod k n
      rw [Nat.mul_succ]
      omega
    rw [hk, Nat.mul_add_div hn, Nat.div_eq_of_lt (show k % n - 1 < n by omega), Nat.add_zero]
  · exact .inl (Nat.add_zero _)

end Cyclic
