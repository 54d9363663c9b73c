/-
Loops that may fail to end.

A loop is given by one round: `none` when its condition fails, otherwise the
state after the body. `Ends round s t` says that the loop, entered in `s`, ends
in `t`; there is no such `t` for a loop that goes on forever. A loop with a
bounded number of rounds is usually written as a recursion on that number; what
such a recursion computes is where the loop ends (`ends_of_rounds`).
-/
import Mathlib.Logic.Relation
import Mathlib.Tactic.Common

set_option autoImplicit false

namespace Spines.Lib

variable {σ : Type*} {round : σ → Option σ}

def Ends (round : σ → Option σ) (s t : σ) : Prop :=
  Relation.ReflTransGen (fun a b => round a = some b) s t ∧ round t = none

theorem Ends.now {s : σ} (h : round s = none) : Ends round s s := ⟨.refl, h⟩

theorem Ends.next {s s' t : σ} (h : round s = some s') (ht : Ends round s' t) : Ends round s t :=
  ⟨ht.1.head h, ht.2⟩

theorem Ends.invariant {s t : σ} (I : σ → Prop) (h : Ends round s t) (hs : I s)
    (hround : ∀ a b, I a → round a = some b → I b) : I t := by
  obtain ⟨hrun, -⟩ := h
  induction hrun with
  | refl => exact hs
  | tail _ hlast ih => exact hround _ _ ih hlast

theorem Ends.unique {s t u : σ} (ht : Ends round s t) (hu : Ends round s u) : t = u := by
  obtain ⟨hrun, hstop⟩ := ht
  induction hrun using Relation.ReflTransGen.head_induction_on with
  | refl =>
    obtain ⟨hrun, -⟩ := hu
    rcases Relation.ReflTransGen.cases_head hrun with rfl | ⟨b, hb, -⟩
    · rfl
    · rw [hstop] at hb
      cases hb
  | head hab _ ih =>
    obtain ⟨hrun, hend⟩ := hu
    rcases Relation.ReflTransGen.cases_head hrun with rfl | ⟨b, hb, hrest⟩
    · rw [hab] at hend
      cases hend
    · obtain rfl := Option.some.inj (hab.symm.trans hb)
      exact ih ⟨hrest, hend⟩

theorem not_ends {s t : σ} (I : σ → Prop) (hs : I s)
    (hround : ∀ a, I a → ∃ b, round a = some b ∧ I b) : ¬ Ends round s t := by
  intro h
  have ht : I t := h.invariant I hs (fun a b ha hab => by
    obtain ⟨b', hb', hI⟩ := hround a ha
    obtain rfl := Option.some.inj (hab.symm.trans hb')
    exact hI)
  obtain ⟨b, hb, -⟩ := hround t ht
  rw [h.2] at hb
  cases hb

theorem ends_of_rounds (loop : ℕ → σ → σ) (I : ℕ → σ → Prop)
    (hstop : ∀ n s, I n s → round s = none → loop n s = s)
    (hgo : ∀ n s s', I n s → round s = some s' → ∃ m, n = m + 1 ∧ loop n s = loop m s' ∧ I m s') :
    ∀ (n : ℕ) (s : σ), I n s → Ends round s (loop n s) := by
  intro n
  induction n with
  | zero =>
    intro s hI
    cases hr : round s with
    | none =>
      rw [hstop 0 s hI hr]
      exact Ends.now hr
    | some s' =>
      obtain ⟨m, hm, -⟩ := hgo 0 s s' hI hr
      cases hm
  | succ n ih =>
    intro s hI
    cases hr : round s with
    | none =>
      rw [hstop (n + 1) s hI hr]
      exact Ends.now hr
    | some s' =>
      obtain ⟨m, hm, hloop, hI'⟩ := hgo (n + 1) s s' hI hr
      obtain rfl : n = m := Nat.succ.inj hm
      rw [hloop]
      exact (ih s' hI').next hr

end Spines.Lib
