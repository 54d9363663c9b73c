/-
Reading a number of bytes from a stream socket.

What has come lies in the socket in chunks. A read gives what is left of the
first chunk, up to as many bytes as were asked for, and `gather` reads until it
has them all. How the stream is cut into chunks does not show in what it gives
(`gather_spec`). An empty chunk is a read that fails: the end of the stream.
-/
import Mathlib.Data.List.Flatten
import Mathlib.Tactic.Common

set_option autoImplicit false

namespace Spines.Lib

open List

variable {α : Type*}

structure Gathered (α : Type*) where
  all : Bool
  got : List α
  rest : List (List α)

def gather : ℕ → List (List α) → Gathered α
  | 0, cs => ⟨true, [], cs⟩
  | _ + 1, [] => ⟨false, [], []⟩
  | n + 1, c :: cs =>
    if c = [] then ⟨false, [], cs⟩
    else if c.length ≤ n + 1 then
      let r := gather (n + 1 - c.length) cs
      { r with got := c ++ r.got }
    else ⟨true, c.take (n + 1), c.drop (n + 1) :: cs⟩

def Full (cs : List (List α)) : Prop := ∀ c ∈ cs, c ≠ []

instance [DecidableEq α] (cs : List (List α)) : Decidable (Full cs) :=
  inferInstanceAs (Decidable (∀ c ∈ cs, c ≠ []))

theorem Full.tail {c : List α} {cs : List (List α)} (h : Full (c :: cs)) : Full cs :=
  fun d hd => h d (mem_cons_of_mem c hd)

theorem gather_spec {cs : List (List α)} (h : Full cs) : ∀ {n : ℕ}, n ≤ cs.flatten.length →
    (gather n cs).all = true ∧ (gather n cs).got = cs.flatten.take n ∧
      (gather n cs).rest.flatten = cs.flatten.drop n ∧ Full (gather n cs).rest := by
  induction cs with
  | nil =>
    intro n hn
    obtain rfl : n = 0 := Nat.le_zero.mp hn
    exact ⟨rfl, rfl, rfl, h⟩
  | cons c cs ih =>
    intro n hn
    cases n with
    | zero => exact ⟨rfl, rfl, rfl, h⟩
    | succ n =>
      rw [flatten_cons, length_append] at hn
      rw [gather, if_neg (h c mem_cons_self), flatten_cons]
      by_cases hle : c.length ≤ n + 1
      · obtain ⟨hall, hgot, hrest, hfull⟩ := ih h.tail (n := n + 1 - c.length) (by omega)
        rw [if_pos hle]
        refine ⟨hall, ?_, ?_, hfull⟩
        · dsimp only
          rw [hgot, take_append, take_of_length_le hle]
        · dsimp only
          rw [hrest, drop_append, drop_of_length_le hle, nil_append]
      · rw [if_neg hle]
        have hlt : n + 1 ≤ c.length := by omega
        refine ⟨rfl, ?_, ?_, ?_⟩
        · exact (take_append_of_le_length hlt).symm
        · rw [flatten_cons]
          exact (drop_append_of_le_length hlt).symm
        · intro d hd
          rcases mem_cons.mp hd with rfl | hmem
          · apply ne_nil_of_length_pos
            rw [length_drop]
            omega
          · exact h.tail d hmem

theorem gather_append {cs : List (List α)} (h : Full cs) {front back : List α}
    (hcs : cs.flatten = front ++ back) :
    (gather front.length cs).all = true ∧ (gather front.length cs).got = front ∧
      (gather front.length cs).rest.flatten = back ∧ Full (gather front.length cs).rest := by
  have hle : front.length ≤ cs.flatten.length := by
    rw [hcs, length_append]
    exact Nat.le_add_right _ _
  obtain ⟨hall, hgot, hrest, hfull⟩ := gather_spec h hle
  refine ⟨hall, ?_, ?_, hfull⟩
  · rw [hgot, hcs, take_left]
  · rw [hrest, hcs, drop_left]

end Spines.Lib
