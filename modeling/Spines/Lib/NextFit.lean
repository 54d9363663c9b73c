/-
Next-fit: sizes are put into bins in the order in which they come, and a new bin
is opened when the next size does not fit into the last one.

`next_fit` keeps the number of bins and the load of the last. The two facts that
a program needs which fills one bin after the other: a stretch that fills a bin
can be split off (`next_fit_append`), and the last size can grow by what its bin
has left and by no more (`next_fit_grow`).
-/
import Mathlib.Algebra.BigOperators.Group.List.Basic
import Mathlib.Data.List.Induction
import Mathlib.Algebra.GroupWithZero.Nat

set_option autoImplicit false

namespace Spines.Lib.NextFit

open List

variable {cap : ℕ}

def place (cap : ℕ) (b : ℕ × ℕ) (x : ℕ) : ℕ × ℕ :=
  if b.2 + x ≤ cap then (b.1, b.2 + x) else (b.1 + 1, x)

def next_fit (cap : ℕ) (l : List ℕ) : ℕ × ℕ := l.foldl (place cap) (1, 0)

theorem next_fit_concat (l : List ℕ) (x : ℕ) :
    next_fit cap (l ++ [x]) = place cap (next_fit cap l) x := by
  rw [next_fit, next_fit, foldl_append]
  rfl

theorem foldl_place_count (l : List ℕ) : ∀ (k b f : ℕ), l.foldl (place cap) (k + b, f)
      = (k + (l.foldl (place cap) (b, f)).1, (l.foldl (place cap) (b, f)).2) := by
  induction l with
  | nil => exact fun _ _ _ => rfl
  | cons x l ih =>
    intro k b f
    rw [foldl_cons, foldl_cons, place, place]
    by_cases hfit : f + x ≤ cap
    · rw [if_pos hfit, if_pos hfit]
      exact ih k b (f + x)
    · rw [if_neg hfit, if_neg hfit]
      exact ih k (b + 1) x

theorem foldl_place_fits (l : List ℕ) : ∀ (b f : ℕ), f + l.sum ≤ cap →
    l.foldl (place cap) (b, f) = (b, f + l.sum) := by
  induction l with
  | nil => exact fun _ _ _ => rfl
  | cons x l ih =>
    intro b f h
    rw [sum_cons] at h
    rw [foldl_cons, place, if_pos (by dsimp only; omega), ih b (f + x) (by omega),
      sum_cons, add_assoc]

theorem next_fit_of_sum_le {l : List ℕ} (h : l.sum ≤ cap) : next_fit cap l = (1, l.sum) := by
  have hall : l.foldl (place cap) (1, 0) = (1, 0 + l.sum) := foldl_place_fits l 1 0 (by omega)
  rw [zero_add] at hall
  exact hall

theorem next_fit_append {p r : List ℕ} {x : ℕ} (hp : p.sum ≤ cap) (hx : x ≤ cap)
    (hfull : cap < p.sum + x) : next_fit cap (p ++ x :: r)
      = (1 + (next_fit cap (x :: r)).1, (next_fit cap (x :: r)).2) := by
  have hfirst : p.foldl (place cap) (1, 0) = (1, p.sum) := next_fit_of_sum_le hp
  have hnew : place cap (1, p.sum) x = (1 + 1, x) := by
    rw [place, if_neg (by dsimp only; omega)]
  have hopen : place cap (1, 0) x = (1, x) := by
    rw [place, if_pos (by dsimp only; omega)]
    rw [zero_add]
  rw [next_fit, foldl_append, hfirst, foldl_cons, hnew, foldl_place_count r 1 1 x,
    next_fit, foldl_cons, hopen]

theorem next_fit_bounds (l : List ℕ) :
    1 ≤ (next_fit cap l).1 ∧ (next_fit cap l).1 ≤ l.length + 1 := by
  induction l using List.reverseRecOn with
  | nil => exact ⟨Nat.le_refl 1, Nat.le_refl 1⟩
  | append_singleton l x ih =>
    rw [next_fit_concat, place, length_append, length_singleton]
    split_ifs <;> dsimp only <;> omega

theorem next_fit_pos (l : List ℕ) : 1 ≤ (next_fit cap l).1 := (next_fit_bounds l).1

theorem next_fit_load {l : List ℕ} (h : ∀ x ∈ l, x ≤ cap) : (next_fit cap l).2 ≤ cap := by
  induction l using List.reverseRecOn with
  | nil => exact Nat.zero_le cap
  | append_singleton l x _ =>
    rw [next_fit_concat, place]
    split_ifs with hfit
    · exact hfit
    · exact h x (mem_append_right l (mem_singleton_self x))

theorem next_fit_last (l : List ℕ) (x : ℕ) : x ≤ (next_fit cap (l ++ [x])).2 := by
  rw [next_fit_concat, place]
  split_ifs <;> dsimp only <;> omega

theorem next_fit_grow {l : List ℕ} {x y : ℕ} (hxy : x ≤ y) (hy : y ≤ cap) :
    (next_fit cap (l ++ [y])).1 = (next_fit cap (l ++ [x])).1
      ↔ y - x ≤ cap - (next_fit cap (l ++ [x])).2 := by
  rw [next_fit_concat, next_fit_concat]
  generalize next_fit cap l = b
  by_cases hx : b.2 + x ≤ cap
  · rw [place, place, if_pos hx]
    by_cases hfit : b.2 + y ≤ cap
    · rw [if_pos hfit]
      exact iff_of_true rfl (by dsimp only; omega)
    · rw [if_neg hfit]
      exact iff_of_false (by dsimp only; omega) (by dsimp only; omega)
  · rw [place, place, if_neg hx, if_neg (by omega)]
    exact iff_of_true rfl (by dsimp only; omega)

end Spines.Lib.NextFit
