/-
Linked lists in memory.

A queue is a sentinel, a chain of cells behind it, and a pointer to the last cell,
which is the sentinel when the queue is empty. `Chains` is about several such queues
that share one memory but no cell. The lemmas follow the two splices that programs
make: a cell is linked in behind the last one, and the first one is taken out. When
the first cell was the last one too, the tail has to go back to the sentinel.
-/
import Mathlib.Data.List.Nodup

set_option autoImplicit false

namespace Spines.Lib

open Function List

section Cells

variable {A : Type*}

def Cells (next : A → Option A) : A → List A → Prop
  | a, [] => next a = none
  | a, b :: l => next a = some b ∧ Cells next b l

def lastCell (head : A) (l : List A) : A := (head :: l).getLast (List.cons_ne_nil head l)

variable {next next' : A → Option A} {head a b : A} {l : List A}

theorem lastCell_mem (head : A) (l : List A) : lastCell head l ∈ head :: l := getLast_mem _

theorem lastCell_cons (head b : A) (l : List A) : lastCell head (b :: l) = lastCell b l :=
  getLast_cons (cons_ne_nil b l)

theorem lastCell_concat (head a : A) (l : List A) : lastCell head (l ++ [a]) = a := by
  unfold lastCell
  simp

theorem Cells.congr (h : Cells next head l) (heq : ∀ c ∈ head :: l, next' c = next c) :
    Cells next' head l := by
  induction l generalizing head with
  | nil => exact (heq head (by simp)).trans h
  | cons b l ih =>
    refine ⟨(heq head (by simp)).trans h.1, ih h.2 fun c hc => heq c ?_⟩
    exact mem_cons_of_mem head hc

theorem Cells.last_iff (h : Cells next head (b :: l)) (hnd : (head :: b :: l).Nodup) :
    lastCell head (b :: l) = b ↔ next b = none := by
  rw [lastCell_cons]
  cases l with
  | nil => exact ⟨fun _ => h.2, fun _ => rfl⟩
  | cons c l =>
    constructor
    · intro heq
      rw [lastCell_cons] at heq
      have hmem : b ∈ c :: l := heq ▸ lastCell_mem c l
      simp only [nodup_cons] at hnd
      exact absurd hmem (by simpa using hnd.2.1)
    · intro hnone
      exact absurd (hnone.symm.trans h.2.1) (by simp)

variable [DecidableEq A]

theorem Cells.push (h : Cells next head l) (hnd : (head :: l).Nodup) (ha : a ∉ head :: l) :
    Cells (update (update next a none) (lastCell head l) (some a)) head
      (l ++ [a]) := by
  induction l generalizing head with
  | nil =>
    have hne : a ≠ head := fun heq => ha (by simp [heq])
    refine ⟨update_self _ _ _, ?_⟩
    rw [Cells, lastCell, getLast_singleton, update_of_ne hne, update_self]
  | cons b l ih =>
    rw [nodup_cons] at hnd
    have hlast : head ≠ lastCell b l := fun heq => hnd.1 (heq ▸ lastCell_mem b l)
    have hne : head ≠ a := fun heq => ha (by simp [heq])
    rw [lastCell_cons]
    refine ⟨?_, ih h.2 hnd.2 fun hmem => ha (mem_cons_of_mem head hmem)⟩
    rw [update_of_ne hlast, update_of_ne hne]
    exact h.1

theorem Cells.pop (h : Cells next head (b :: l)) (hnd : (head :: b :: l).Nodup) :
    Cells (update next head (next b)) head l := by
  rw [nodup_cons] at hnd
  cases l with
  | nil =>
    change update next head (next b) head = none
    rw [update_self]
    exact h.2
  | cons c l =>
    refine ⟨(update_self _ _ _).trans h.2.1, h.2.2.congr fun e he => ?_⟩
    apply update_of_ne
    rintro rfl
    exact hnd.1 (mem_cons_of_mem b he)

end Cells

section Chains

variable {A ι : Type*}

structure Chains (next : A → Option A) (head tail : ι → A) (l : ι → List A) : Prop where
  path : ∀ i, Cells next (head i) (l i)
  tail : ∀ i, tail i = lastCell (head i) (l i)
  nodup : ∀ i, (head i :: l i).Nodup
  disjoint : ∀ i j, i ≠ j → (head i :: l i).Disjoint (head j :: l j)

variable [DecidableEq A] [DecidableEq ι] {next : A → Option A} {head tail : ι → A}
  {l : ι → List A} {i : ι} {a b : A} {xs : List A}

theorem Chains.push (h : Chains next head tail l) (i : ι) (ha : ∀ j, a ∉ head j :: l j) :
    Chains (update (update next a none) (tail i) (some a)) head
      (update tail i a) (update l i (l i ++ [a])) := by
  have hmem : ∀ j c, c ∈ head j :: update l i (l i ++ [a]) j →
      c ∈ head j :: l j ∨ c = a ∧ j = i := by
    intro j c hc
    by_cases hj : j = i
    · rw [hj, update_self, ← cons_append, mem_append, mem_singleton] at hc
      rw [hj]
      exact hc.imp id fun hca => ⟨hca, rfl⟩
    · rw [update_of_ne hj] at hc
      exact .inl hc
  refine ⟨fun j => ?_, fun j => ?_, fun j => ?_, fun j k hjk c hcj hck => ?_⟩
  · by_cases hj : j = i
    · rw [hj, update_self, h.tail i]
      exact (h.path i).push (h.nodup i) (ha i)
    · rw [update_of_ne hj]
      refine (h.path j).congr fun c hc => ?_
      have hlast : c ≠ tail i := by
        rintro rfl
        refine h.disjoint j i hj hc ?_
        rw [h.tail i]
        exact lastCell_mem _ _
      have hne : c ≠ a := by
        rintro rfl
        exact ha j hc
      rw [update_of_ne hlast, update_of_ne hne]
  · by_cases hj : j = i
    · rw [hj, update_self, update_self, lastCell_concat]
    · rw [update_of_ne hj, update_of_ne hj]
      exact h.tail j
  · by_cases hj : j = i
    · rw [hj, update_self, ← cons_append]
      refine List.Nodup.append (h.nodup i) (nodup_singleton a) ?_
      rw [disjoint_singleton]
      exact ha i
    · rw [update_of_ne hj]
      exact h.nodup j
  · rcases hmem j c hcj with hcj | ⟨hca, hji⟩
    · rcases hmem k c hck with hck | ⟨hca, -⟩
      · exact h.disjoint j k hjk hcj hck
      · exact ha j (hca ▸ hcj)
    · rcases hmem k c hck with hck | ⟨-, hki⟩
      · exact ha k (hca ▸ hck)
      · exact hjk (hji.trans hki.symm)

theorem Chains.pop (h : Chains next head tail l) (hl : l i = b :: xs) :
    Chains (update next (head i) (next b)) head
      (update tail i (if tail i = b then head i else tail i))
      (update l i xs) := by
  have hmem : ∀ j c, c ∈ head j :: update l i xs j → c ∈ head j :: l j := by
    intro j c hc
    by_cases hj : j = i
    · rw [hj, update_self] at hc
      rw [hj, hl]
      rcases mem_cons.mp hc with rfl | hc
      · exact mem_cons_self
      · exact mem_cons_of_mem _ (mem_cons_of_mem _ hc)
    · rwa [update_of_ne hj] at hc
  have hpath := h.path i
  have hnd := h.nodup i
  rw [hl] at hpath hnd
  refine ⟨fun j => ?_, fun j => ?_, fun j => ?_, fun j k hjk c hcj hck => ?_⟩
  · by_cases hj : j = i
    · rw [hj, update_self]
      exact hpath.pop hnd
    · rw [update_of_ne hj]
      refine (h.path j).congr fun c hc => ?_
      apply update_of_ne
      rintro rfl
      exact h.disjoint j i hj hc mem_cons_self
  · by_cases hj : j = i
    · rw [hj, update_self, update_self, h.tail i, hl]
      cases xs with
      | nil => exact if_pos rfl
      | cons c xs =>
        have hne : lastCell (head i) (b :: c :: xs) ≠ b := by
          intro heq
          have hnone := (hpath.last_iff hnd).mp heq
          exact absurd (hnone.symm.trans hpath.2.1) (by simp)
        rw [if_neg hne, lastCell_cons, lastCell_cons, lastCell_cons]
    · rw [update_of_ne hj, update_of_ne hj]
      exact h.tail j
  · by_cases hj : j = i
    · rw [hj, update_self]
      rw [nodup_cons, nodup_cons] at hnd
      exact nodup_cons.mpr ⟨fun hc => hnd.1 (mem_cons_of_mem _ hc), hnd.2.2⟩
    · rw [update_of_ne hj]
      exact h.nodup j
  · exact h.disjoint j k hjk (hmem j c hcj) (hmem k c hck)

omit [DecidableEq A] [DecidableEq ι] in
theorem Chains.tail_iff (h : Chains next head tail l) (hl : l i = b :: xs) :
    tail i = b ↔ next b = none := by
  have hpath := h.path i
  have hnd := h.nodup i
  rw [hl] at hpath hnd
  rw [h.tail i, hl]
  exact hpath.last_iff hnd

omit [DecidableEq A] in
theorem Chains.popped (h : Chains next head tail l) (hl : l i = b :: xs) (j : ι) :
    b ∉ head j :: update l i xs j := by
  have hnd := h.nodup i
  rw [hl, nodup_cons, nodup_cons] at hnd
  by_cases hj : j = i
  · rw [hj, update_self]
    intro hmem
    rcases mem_cons.mp hmem with heq | hmem
    · exact hnd.1 (heq ▸ mem_cons_self)
    · exact hnd.2.1 hmem
  · rw [update_of_ne hj]
    intro hmem
    refine h.disjoint j i hj hmem ?_
    rw [hl]
    simp

end Chains

end Spines.Lib
