/-
Last writer wins.

A register holds at most one record; a record that arrives replaces it when its
stamp is greater. What is in the register after any sequence of arrivals is the
record with the greatest stamp among those that arrived and the one that was there
(`Newest.foldl`), so the order does not matter as long as records with one stamp are
equal (`Newest.unique`). The stamp in a register never decreases (`stamp_le_foldl`).
-/
import Mathlib.Order.WithBot
import Mathlib.Tactic.Common

set_option autoImplicit false

namespace Spines.Lib

section LastWriter

variable {E S : Type*} [LinearOrder S] (stamp : E → S)

def keep_newer (old : Option E) (e : E) : Option E :=
  match old with
  | none => some e
  | some o => if stamp o < stamp e then some e else some o

/-- The register `new` holds the newest of the record in `old` and of `es`; that of
`old` wins a tie. -/
structure Newest (old : Option E) (es : List E) (new : Option E) : Prop where
  held : ∀ e ∈ new, e ∈ old ∨ e ∈ es
  some_of_old : ∀ o ∈ old, ∃ e ∈ new, stamp o ≤ stamp e ∧ (stamp o = stamp e → e = o)
  some_of_mem : ∀ x ∈ es, ∃ e ∈ new, stamp x ≤ stamp e

variable {stamp} {old new : Option E} {es : List E} {e x : E}

theorem keep_newer_spec (stamp : E → S) (old : Option E) (e : E) :
    ∃ k, keep_newer stamp old e = some k ∧ stamp e ≤ stamp k ∧ (k = e ∨ old = some k) ∧
      ∀ o ∈ old, stamp o ≤ stamp k ∧ (stamp o = stamp k → k = o) := by
  cases old with
  | none => exact ⟨e, rfl, le_rfl, .inl rfl, by simp⟩
  | some o =>
    unfold keep_newer
    by_cases h : stamp o < stamp e
    · refine ⟨e, if_pos h, le_rfl, .inl rfl, ?_⟩
      rintro o' ⟨rfl⟩
      exact ⟨h.le, fun heq => absurd heq h.ne⟩
    · refine ⟨o, if_neg h, le_of_not_gt h, .inr rfl, ?_⟩
      rintro o' ⟨rfl⟩
      exact ⟨le_rfl, fun _ => rfl⟩

theorem Newest.foldl (stamp : E → S) (old : Option E) (es : List E) :
    Newest stamp old es (es.foldl (keep_newer stamp) old) := by
  induction es generalizing old with
  | nil =>
    refine ⟨fun e he => .inl he, ?_, by simp⟩
    intro o ho
    exact ⟨o, ho, le_rfl, fun _ => rfl⟩
  | cons e es ih =>
    obtain ⟨k, hk, hek, hfrom, hold⟩ := keep_newer_spec stamp old e
    rw [List.foldl_cons, hk]
    obtain ⟨hheld, hsome, hmem⟩ := ih (some k)
    obtain ⟨n, hn, hkn, hsame⟩ := hsome k rfl
    constructor
    · intro x hx
      rcases hheld x hx with hx | hx
      · obtain rfl : k = x := Option.some.inj hx
        rcases hfrom with rfl | hold
        · exact .inr List.mem_cons_self
        · exact .inl hold
      · exact .inr (List.mem_cons_of_mem _ hx)
    · intro o ho
      obtain ⟨hok, heq⟩ := hold o ho
      refine ⟨n, hn, hok.trans hkn, ?_⟩
      intro hon
      have hkeq : stamp o = stamp k := le_antisymm hok (hon ▸ hkn)
      rw [hsame (hkeq ▸ hon), heq hkeq]
    · intro x hx
      rcases List.mem_cons.mp hx with rfl | hx
      · exact ⟨n, hn, hek.trans hkn⟩
      · exact hmem x hx

theorem Newest.unique (h : Newest stamp old es new) (hx : x ∈ old ∨ x ∈ es)
    (hmax : ∀ y, y ∈ old ∨ y ∈ es → stamp y ≤ stamp x)
    (hdistinct : ∀ y, y ∈ old ∨ y ∈ es → stamp y = stamp x → y = x) : new = some x := by
  obtain ⟨e, he, hle⟩ : ∃ e ∈ new, stamp x ≤ stamp e := by
    rcases hx with hx | hx
    · obtain ⟨e, he, hle, -⟩ := h.some_of_old x hx
      exact ⟨e, he, hle⟩
    · exact h.some_of_mem x hx
  have hfrom := h.held e he
  have heq := le_antisymm (hmax e hfrom) hle
  rw [← hdistinct e hfrom heq]
  exact he

theorem Newest.agree {x y a b : Option E} {es fs : List E} (ha : Newest stamp x es a)
    (hb : Newest stamp y fs b) (hes : ∀ e, e ∈ es ↔ e ∈ y) (hfs : ∀ e, e ∈ fs ↔ e ∈ x)
    (hsame : ∀ e ∈ x, ∀ f ∈ y, stamp e = stamp f → e = f) : a = b := by
  have hle : ∀ {x y a b : Option E} {es fs : List E}, Newest stamp x es a → Newest stamp y fs b →
      (∀ e, e ∈ es ↔ e ∈ y) → (∀ e, e ∈ fs ↔ e ∈ x) → ∀ u ∈ a, ∃ w ∈ b, stamp u ≤ stamp w := by
    intro x y a b es fs ha hb hes hfs u hu
    obtain hu | hu := ha.held u hu
    · exact hb.some_of_mem u ((hfs u).mpr hu)
    · obtain ⟨w, hw, hle, -⟩ := hb.some_of_old u ((hes u).mp hu)
      exact ⟨w, hw, hle⟩
  cases a with
  | none =>
    cases b with
    | none => rfl
    | some w =>
      obtain ⟨u, hu, -⟩ := hle hb ha hfs hes w rfl
      cases hu
  | some u =>
    obtain ⟨w, hw, huw⟩ := hle ha hb hes hfs u rfl
    obtain ⟨u', hu', hwu⟩ := hle hb ha hfs hes w hw
    obtain rfl := Option.some.inj hu'
    have heq := le_antisymm huw hwu
    rw [show b = some w from hw]
    obtain hux | huy := ha.held u rfl
    · obtain hwy | hwx := hb.held w hw
      · rw [hsame u hux w hwy heq]
      · rw [Option.some.inj (hux.symm.trans ((hfs w).mp hwx))]
    · obtain hwy | hwx := hb.held w hw
      · rw [Option.some.inj (((hes u).mp huy).symm.trans hwy)]
      · rw [hsame w ((hfs w).mp hwx) u ((hes u).mp huy) heq.symm]

theorem stamp_le_foldl (stamp : E → S) (o : E) (es : List E) :
    ∃ e, es.foldl (keep_newer stamp) (some o) = some e ∧ stamp o ≤ stamp e := by
  obtain ⟨e, he, hle, -⟩ := (Newest.foldl stamp (some o) es).some_of_old o rfl
  exact ⟨e, he, hle⟩

end LastWriter

end Spines.Lib
