/-
A hash table that may hold several values under one key, and what it means that a table
indexes a relation.

`find` yields one of the values of a key, `insert` adds one and `erase` takes away the
one that `find` yields. A table is an index of a relation when it holds its pairs and no
key has two values; then the order among values does not matter.
-/
import Mathlib.Data.List.Basic

set_option autoImplicit false

namespace Spines.Lib

open Function List

abbrev Hash (κ α : Type*) := κ → List α

namespace Hash

/-! ## 1. Lookup -/

section Lookup

variable {κ α : Type*}

def empty : Hash κ α := fun _ => []

def find (h : Hash κ α) (k : κ) : Option α := (h k).head?

/-- The table holds the pairs of `p`, one value under a key at most. -/
structure Indexes (h : Hash κ α) (p : κ → α → Prop) : Prop where
  mem : ∀ k a, a ∈ h k ↔ p k a
  one : ∀ k, (h k).length ≤ 1

variable {h : Hash κ α} {p q : κ → α → Prop} {k : κ} {a : α}

theorem mem_of_find (hfind : h.find k = some a) : a ∈ h k :=
  mem_of_mem_head? hfind

theorem Indexes.congr (hp : Indexes h p) (hpq : ∀ k a, p k a ↔ q k a) : Indexes h q :=
  ⟨fun k a => (hp.mem k a).trans (hpq k a), hp.one⟩

theorem Indexes.eq_singleton (hp : Indexes h p) (ha : p k a) : h k = [a] := by
  have hmem := (hp.mem k a).mpr ha
  have hone := hp.one k
  match hk : h k with
  | [] => rw [hk] at hmem; exact absurd hmem (not_mem_nil)
  | [b] =>
    rw [hk, mem_singleton] at hmem
    rw [hmem]
  | b :: c :: l => rw [hk] at hone; simp at hone

theorem Indexes.unique (hp : Indexes h p) {b : α} (ha : p k a) (hb : p k b) : a = b := by
  have h1 := hp.eq_singleton ha
  rw [hp.eq_singleton hb] at h1
  exact (singleton_inj.mp h1).symm

theorem Indexes.find_iff (hp : Indexes h p) : h.find k = some a ↔ p k a := by
  constructor
  · intro hfind
    exact (hp.mem k a).mp (mem_of_find hfind)
  · intro ha
    unfold find
    rw [hp.eq_singleton ha]
    rfl

theorem Indexes.find_none (hp : Indexes h p) : h.find k = none ↔ ∀ a, ¬p k a := by
  constructor
  · intro hfind a ha
    rw [hp.find_iff.mpr ha] at hfind
    cases hfind
  · intro hnone
    cases hfind : h.find k with
    | none => rfl
    | some a => exact absurd (hp.find_iff.mp hfind) (hnone a)

theorem indexes_empty : Indexes (empty : Hash κ α) fun _ _ => False :=
  ⟨fun _ _ => by simp [empty], fun _ => by simp [empty]⟩

end Lookup

/-! ## 2. Changes -/

section Change

variable {κ α : Type*} [DecidableEq κ]

def insert (h : Hash κ α) (k : κ) (a : α) : Hash κ α := Function.update h k (h k ++ [a])

def erase (h : Hash κ α) (k : κ) : Hash κ α := Function.update h k (h k).tail

variable {h : Hash κ α} {p : κ → α → Prop} {k : κ} {a : α}

theorem Indexes.insert (hp : Indexes h p) (hnew : ∀ b, ¬p k b) :
    Indexes (h.insert k a) fun k' b => p k' b ∨ k' = k ∧ b = a := by
  have hnil : h k = [] := by
    rw [eq_nil_iff_forall_not_mem]
    intro b hb
    exact hnew b ((hp.mem k b).mp hb)
  constructor
  · intro k' b
    unfold Hash.insert
    by_cases hk : k' = k
    · subst hk
      rw [update_self, hnil]
      simp [hnew b]
    · rw [update_of_ne hk, hp.mem]
      simp [hk]
  · intro k'
    unfold Hash.insert
    by_cases hk : k' = k
    · subst hk
      rw [update_self, hnil]
      simp
    · rw [update_of_ne hk]
      exact hp.one k'

theorem Indexes.erase (hp : Indexes h p) (k : κ) :
    Indexes (h.erase k) fun k' b => p k' b ∧ k' ≠ k := by
  have hone := hp.one
  constructor
  · intro k' b
    unfold Hash.erase
    by_cases hk : k' = k
    · subst hk
      have htail : (h k').tail = [] := by
        rw [← length_eq_zero_iff, length_tail]
        have := hone k'
        omega
      rw [update_self, htail]
      simp
    · rw [update_of_ne hk, hp.mem]
      simp [hk]
  · intro k'
    unfold Hash.erase
    by_cases hk : k' = k
    · subst hk
      rw [update_self, length_tail]
      have := hone k'
      omega
    · rw [update_of_ne hk]
      exact hone k'

end Change

end Hash

end Spines.Lib
