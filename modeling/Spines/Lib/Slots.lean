/-
A table of objects that know their own place.

The table maps a place to the object that stands there, and every object has a
field that says where it stands. The two directions change at different points
of a program; `Inverse` says that they agree, and the lemmas are about the two
changes there are: an object takes a free place, and an object leaves its place.

The second half is about a table with finitely many places: the search for the
first free one, how many are free, and the upper end of the part in use.
-/
import Mathlib.Data.Finset.Card

set_option autoImplicit false

namespace Spines.Lib.Slots

open Function Option List

section Inverse

variable {κ α : Type*}

def Inverse (t : κ → Option α) (place : α → Option κ) : Prop :=
  ∀ k a, t k = some a ↔ place a = some k

theorem Inverse.same_place {t : κ → Option α} {place : α → Option κ} (h : Inverse t place)
    {k k' : κ} {a : α} (hk : t k = some a) (hk' : t k' = some a) : k = k' := by
  have hp : place a = some k := (h k a).mp hk
  have hp' : place a = some k' := (h k' a).mp hk'
  exact some.inj (hp.symm.trans hp')

variable [DecidableEq κ] [DecidableEq α] {t : κ → Option α} {place : α → Option κ}

theorem Inverse.take (h : Inverse t place) {k : κ} {a : α} (hk : t k = none) (ha : place a = none) :
    Inverse (update t k (some a)) (update place a (some k)) := by
  intro k' a'
  by_cases hkk : k' = k
  · subst hkk
    by_cases haa : a' = a
    · subst haa
      simp
    · have hne : place a' ≠ some k' := by
        intro hp
        have := (h k' a').mpr hp
        simp [hk] at this
      simp [update_of_ne haa, hne, Ne.symm haa]
  · by_cases haa : a' = a
    · subst haa
      have hne : t k' ≠ some a' := by
        intro hp
        have := (h k' a').mp hp
        simp [ha] at this
      simp [update_of_ne hkk, hne, Ne.symm hkk]
    · rw [update_of_ne hkk, update_of_ne haa]
      exact h k' a'

theorem Inverse.leave (h : Inverse t place) {k : κ} {a : α} (ha : place a = some k) :
    Inverse (update t k none) (update place a none) := by
  intro k' a'
  by_cases hkk : k' = k
  · subst hkk
    by_cases haa : a' = a
    · subst haa
      simp
    · have hne : place a' ≠ some k' := by
        intro hp
        have hk : t k' = some a := (h k' a).mpr ha
        have hk' : t k' = some a' := (h k' a').mpr hp
        exact haa (some.inj (hk'.symm.trans hk))
      simp [update_of_ne haa, hne]
  · by_cases haa : a' = a
    · subst haa
      have hne : t k' ≠ some a' := by
        intro hp
        have hp' := (h k' a').mp hp
        exact hkk (some.inj (hp'.symm.trans ha))
      simp [update_of_ne hkk, hne]
    · rw [update_of_ne hkk, update_of_ne haa]
      exact h k' a'

end Inverse

section Search

variable {α : Type*}

def first_free (t : ℕ → Option α) (n : ℕ) : Option ℕ :=
  (range n).find? (fun k => (t k).isNone)

variable {t : ℕ → Option α} {k n : ℕ}

theorem first_free_spec (h : first_free t n = some k) : k < n ∧ t k = none := by
  have hmem := mem_of_find?_eq_some h
  have hfree := find?_some h
  exact ⟨mem_range.mp hmem, isNone_iff_eq_none.mp hfree⟩

theorem first_free_exists (hk : k < n) (h : t k = none) : ∃ j, first_free t n = some j := by
  apply isSome_iff_exists.mp
  rw [first_free, find?_isSome]
  exact ⟨k, mem_range.mpr hk, by simp [h]⟩

def room (t : ℕ → Option α) (n : ℕ) : ℕ :=
  ((Finset.range n).filter (fun k => (t k).isNone = true)).card

theorem room_pos (hk : k < n) (h : t k = none) : 0 < room t n :=
  Finset.card_pos.mpr ⟨k, Finset.mem_filter.mpr ⟨Finset.mem_range.mpr hk, by simp [h]⟩⟩

theorem first_free_of_room (h : 0 < room t n) : ∃ k, first_free t n = some k := by
  obtain ⟨k, hk⟩ := Finset.card_pos.mp h
  obtain ⟨hlt, hfree⟩ := Finset.mem_filter.mp hk
  exact first_free_exists (Finset.mem_range.mp hlt) (isNone_iff_eq_none.mp hfree)

theorem room_take (hk : k < n) (h : t k = none) (a : α) :
    room (update t k (some a)) n + 1 = room t n := by
  have hmem : k ∈ (Finset.range n).filter (fun j => (t j).isNone = true) :=
    Finset.mem_filter.mpr ⟨Finset.mem_range.mpr hk, by simp [h]⟩
  have herase : (Finset.range n).filter
      (fun j => (update t k (some a) j).isNone = true)
      = ((Finset.range n).filter (fun j => (t j).isNone = true)).erase k := by
    ext j
    by_cases hj : j = k
    · subst hj
      simp
    · simp [hj]
  rw [room, herase]
  exact Finset.card_erase_add_one hmem

/-- The upper end of the part in use, searched downwards from `n`. -/
def used (t : ℕ → Option α) : ℕ → ℕ
  | 0 => 0
  | n + 1 => if (t n).isNone then used t n else n + 1

theorem used_spec (h : ∀ k a, t k = some a → k < n) : ∀ k a, t k = some a → k < used t n := by
  induction n with
  | zero =>
    intro k a hk
    exact absurd (h k a hk) (Nat.not_lt_zero k)
  | succ n ih =>
    intro k a hk
    rw [used]
    by_cases hfree : (t n).isNone = true
    · rw [if_pos hfree]
      refine ih (fun j b hj => ?_) k a hk
      have hlt := h j b hj
      have hne : j ≠ n := by
        rintro rfl
        simp [hj] at hfree
      omega
    · rw [if_neg hfree]
      exact h k a hk

end Search

end Spines.Lib.Slots
