/-
Rings addressed by sequence number.

A sliding window keeps the cell of sequence number `q` at index `q % n` of an
array of `n` cells. Everything such a window needs from the ring is collected
here once: numbers of one window of length `n` never share a cell, so a write
at one of them is invisible at every other.

An array is a function `ℕ → α`; only the indices below `n` are ever used.
-/
import Mathlib.Data.List.Range
import Mathlib.Data.Nat.ModEq

set_option autoImplicit false

namespace Spines.Lib

open Function List

variable {α : Type*}

/-! ## Slots of one window -/

theorem slot_inj {n lo p q : ℕ} (hp : lo ≤ p) (hp' : p < lo + n) (hq : lo ≤ q)
    (hq' : q < lo + n) (h : p % n = q % n) : p = q := by
  have key : ∀ a b : ℕ, a ≤ b → lo ≤ a → b < lo + n → a % n = b % n → a = b := by
    intro a b hab ha hb hmod
    have hdvd : n ∣ b - a := (Nat.modEq_iff_dvd' hab).mp hmod
    have hlt : b - a < n := by omega
    have hzero : b - a = 0 := Nat.eq_zero_of_dvd_of_lt hdvd hlt
    omega
  rcases Nat.le_total p q with hpq | hqp
  · exact key p q hpq hp hq' h
  · exact (key q p hqp hq hp' h.symm).symm

theorem slot_ne {n lo p q : ℕ} (hp : lo ≤ p) (hp' : p < lo + n) (hq : lo ≤ q)
    (hq' : q < lo + n) (hne : p ≠ q) : p % n ≠ q % n :=
  fun h => hne (slot_inj hp hp' hq hq' h)

variable (n : ℕ) (r : ℕ → α)

theorem update_slot_ne {n lo p q : ℕ} (x : α) (hp : lo ≤ p)
    (hp' : p < lo + n) (hq : lo ≤ q) (hq' : q < lo + n) (hne : p ≠ q) :
    update r (q % n) x (p % n) = r (p % n) :=
  update_of_ne (slot_ne hp hp' hq hq' hne) x r

theorem exists_slot {n : ℕ} (lo k : ℕ) (hk : k < n) : ∃ q, lo ≤ q ∧ q < lo + n ∧ q % n = k := by
  have hn : 0 < n := by omega
  have hdiv := Nat.div_add_mod lo n
  have hmod := Nat.mod_lt lo hn
  rcases Nat.lt_or_ge k (lo % n) with hlt | hge
  · refine ⟨n * (lo / n + 1) + k, ?_, ?_, ?_⟩
    · rw [Nat.mul_add, mul_one]; omega
    · rw [Nat.mul_add, mul_one]; omega
    · rw [Nat.mul_add_mod, Nat.mod_eq_of_lt hk]
  · refine ⟨n * (lo / n) + k, by omega, by omega, ?_⟩
    rw [Nat.mul_add_mod, Nat.mod_eq_of_lt hk]

/-! ## Clearing a range of cells -/

/-- Write `x` into the cells of `lo, lo + 1, …, lo + cnt - 1`, in that order:
the loop `for (i = lo; i < lo + cnt; i++) r[i % n] = x`. -/
def fillRange (n : ℕ) (x : α) : ℕ → ℕ → (ℕ → α) → ℕ → α
  | _, 0, r => r
  | lo, cnt + 1, r => fillRange n x (lo + 1) cnt (Function.update r (lo % n) x)

theorem fillRange_mem (x : α) (cnt : ℕ) :
    ∀ (lo : ℕ) (r : ℕ → α) (q : ℕ), lo ≤ q → q < lo + cnt → fillRange n x lo cnt r (q % n) = x := by
  induction cnt with
  | zero => intro lo r q h1 h2; omega
  | succ cnt ih =>
    intro lo r q h1 h2
    rw [fillRange]
    rcases Nat.eq_or_lt_of_le h1 with rfl | hlt
    · -- the later writes either miss the slot or write the same value
      have hkeep : ∀ (c m : ℕ) (s : ℕ → α), s (lo % n) = x →
          fillRange n x m c s (lo % n) = x := by
        intro c
        induction c with
        | zero => intro m s hs; exact hs
        | succ c ihc =>
          intro m s hs
          rw [fillRange]
          refine ihc (m + 1) _ ?_
          by_cases hm : lo % n = m % n
          · rw [hm, update_self]
          · rw [update_of_ne hm, hs]
      exact hkeep cnt (lo + 1) _ (update_self _ _ _)
    · exact ih (lo + 1) _ q (by omega) (by omega)

theorem fillRange_other (x : α) (cnt : ℕ) :
    ∀ (lo : ℕ) (r : ℕ → α) (k : ℕ), (∀ q, lo ≤ q → q < lo + cnt → q % n ≠ k) →
      fillRange n x lo cnt r k = r k := by
  induction cnt with
  | zero => intro lo r k _; rfl
  | succ cnt ih =>
    intro lo r k h
    rw [fillRange, ih (lo + 1) _ k (fun q h1 h2 => h q (by omega) (by omega))]
    exact update_of_ne (h lo (le_refl _) (by omega)).symm x r

/-! ## The contents of a window -/

/-- The cells of the numbers `lo, lo + 1, …, lo + cnt - 1`, oldest first. -/
def ringList (n : ℕ) (r : ℕ → α) (lo cnt : ℕ) : List α :=
  (range' lo cnt).map fun q => r (q % n)

@[simp] theorem ringList_length (lo cnt : ℕ) : (ringList n r lo cnt).length = cnt := by
  rw [ringList, length_map, length_range']

theorem ringList_succ (lo cnt : ℕ) :
    ringList n r lo (cnt + 1) = r (lo % n) :: ringList n r (lo + 1) cnt := rfl

theorem ringList_congr {n lo cnt : ℕ} {r r' : ℕ → α}
    (h : ∀ q, lo ≤ q → q < lo + cnt → r (q % n) = r' (q % n)) :
    ringList n r lo cnt = ringList n r' lo cnt := by
  apply map_congr_left
  intro q hq
  obtain ⟨h1, h2⟩ := mem_range'_1.mp hq
  exact h q h1 h2

theorem ringList_shift {n : ℕ} {r r' : ℕ → α} (cnt : ℕ) : ∀ {lo lo' : ℕ},
    (∀ i, i < cnt → r ((lo + i) % n) = r' ((lo' + i) % n)) →
    ringList n r lo cnt = ringList n r' lo' cnt := by
  induction cnt with
  | zero => exact fun _ => rfl
  | succ cnt ih =>
    intro lo lo' h
    have hfirst := h 0 (Nat.succ_pos cnt)
    rw [add_zero, add_zero] at hfirst
    rw [ringList_succ, ringList_succ, hfirst, ih]
    intro i hi
    have hnext := h (i + 1) (Nat.succ_lt_succ hi)
    rwa [add_comm i, ← add_assoc, ← add_assoc] at hnext

theorem ringList_getElem? (lo : ℕ) {cnt i : ℕ} (hi : i < cnt) :
    (ringList n r lo cnt)[i]? = some (r ((lo + i) % n)) := by
  rw [ringList, List.getElem?_map, List.getElem?_range' hi, Option.map_some, one_mul]

theorem ringList_concat {n cnt : ℕ} (lo : ℕ) (x : α) (h : cnt < n) :
    ringList n (update r ((lo + cnt) % n) x) lo (cnt + 1) = ringList n r lo cnt ++ [x] := by
  rw [ringList, range'_1_concat, map_append, map_singleton, update_self]
  congr 1
  apply ringList_congr
  intro q h1 h2
  exact update_slot_ne r x h1 (by omega) (by omega) (by omega) (by omega)

theorem ringList_drop (lo cnt k : ℕ) :
    (ringList n r lo cnt).drop k = ringList n r (lo + k) (cnt - k) := by
  rw [ringList, ← map_drop, drop_range', mul_one]
  rfl

end Spines.Lib
