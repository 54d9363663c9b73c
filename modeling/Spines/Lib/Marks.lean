/-
A list with a flag beside it.

Schedulers keep what waits in a list and, so that nothing is put there twice,
a table of flags. `Marks flag l` says that the two agree: an element is in the
list once when its flag is set and not at all otherwise. The order of the list
does not matter, so an operation is described by its list up to permutation.
-/
import Mathlib.Data.List.Perm.Basic
import Mathlib.Data.List.Sort

set_option autoImplicit false

namespace Spines.Lib

open Function List

section Marks

variable {α : Type*} [DecidableEq α]

def Marks (flag : α → Bool) (l : List α) : Prop :=
  ∀ a, l.count a = if flag a = true then 1 else 0

theorem update_true_of_true {flag : α → Bool} {a : α} (b : α) (h : flag a = true) :
    update flag b true a = true := by
  by_cases hab : a = b
  · rw [hab, update_self]
  · rw [update_of_ne hab, h]

theorem Marks.nil : Marks (fun _ : α => false) [] := by
  intro a
  simp

section Operations

variable {flag : α → Bool} {l l' : List α} {a : α}

theorem Marks.perm (h : Marks flag l) (hp : l'.Perm l) : Marks flag l' := by
  intro b
  rw [hp.count_eq, h b]

theorem Marks.push (h : Marks flag l) (ha : flag a = false) (hp : l'.Perm (a :: l)) :
    Marks (update flag a true) l' := by
  intro b
  rw [hp.count_eq, count_cons, h b]
  by_cases hb : b = a
  · simp [hb, ha]
  · simp [update_of_ne hb, Ne.symm hb]

theorem Marks.pop (h : Marks flag l) (hp : l.Perm (a :: l')) : Marks (update flag a false) l' := by
  intro b
  have hcount := h b
  rw [hp.count_eq, count_cons] at hcount
  by_cases hb : b = a
  · -- it was there once, so it is gone
    rw [hb] at hcount ⊢
    simp only [beq_self_eq_true, if_true] at hcount
    simp only [update_self, Bool.false_eq_true, if_false]
    split at hcount <;> omega
  · simpa [update_of_ne hb, Ne.symm hb] using hcount

theorem Marks.mem_iff (h : Marks flag l) : flag a = true ↔ a ∈ l := by
  rw [← count_pos_iff, h a]
  split <;> simp_all

theorem Marks.countP_eq (h : Marks flag l) (a : α) :
    l.countP (fun b => b = a) = if flag a = true then 1 else 0 := by
  rw [← h a, count_eq_countP]
  apply countP_congr
  intro b _
  simp

theorem Marks.drop (h : Marks flag l) (n : ℕ) :
    Marks (fun a => if a ∈ l.take n then false else flag a) (l.drop n) := by
  intro b
  have hcount := h b
  rw [← take_append_drop n l, count_append] at hcount
  by_cases hb : b ∈ l.take n
  · -- it was there once, so it is not among the rest
    have hpos := count_pos_iff.mpr hb
    simp only [hb, if_true, Bool.false_eq_true, if_false]
    split at hcount <;> omega
  · rw [count_eq_zero_of_not_mem hb] at hcount
    simpa [hb] using hcount

theorem Marks.requeue (h : Marks flag l) (ha : a ∈ l) (hp : l'.Perm l) :
    Marks (update flag a true) l' := by
  have hflag : update flag a true = flag := by
    rw [← h.mem_iff.mpr ha, Function.update_eq_self]
  rw [hflag]
  exact h.perm hp

end Operations

end Marks

/-! ## Lists ordered by a time -/

theorem map_orderedInsert_perm {κ α : Type*} (r : κ × α → κ × α → Prop) [DecidableRel r]
    (t : κ) (a : α) (l : List (κ × α)) :
    ((l.orderedInsert r (t, a)).map Prod.snd).Perm (a :: l.map Prod.snd) := by
  have h := (perm_orderedInsert r (t, a) l).map Prod.snd
  simpa using h

end Spines.Lib
