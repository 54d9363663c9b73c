/-
Writing to a socket that takes what it likes.

A writer offers what is left of a frame, from a position on; the socket takes some of it,
nothing, or refuses for now, and the writer goes on until the frame is out or the socket
refuses. `drain` is that loop. Whatever the socket does, what was taken and what is left
are the frame (`drain_spec`); how far the writer gets before it is refused can be read
off the answers (`taken`).
-/
import Mathlib.Data.List.Forall2
import Mathlib.Order.Nat
import Mathlib.Algebra.GroupWithZero.Nat

set_option autoImplicit false

namespace Spines.Lib

open List

variable {α β : Type*}

/-! ## 1. The loop -/

inductive Ret
  | wrote (n : ℕ)
  | again
  | error
  deriving DecidableEq, Repr

inductive Stop
  | done
  | blocked
  | zero
  | broken
  deriving DecidableEq, Repr

/-- The end of a loop: the position, what was taken, and the answers that were not asked
for. -/
structure Drained (α : Type*) where
  stop : Stop
  pos : ℕ
  out : List α
  rest : List Ret

/-- `offer` is what the writer offers at a position. With `halt` the loop ends when nothing
is taken. It has no value when there are too few answers, or when one is more than was
offered. -/
def drain (halt : Bool) (offer : ℕ → List α) (total : ℕ) : List Ret → ℕ → Option (Drained α)
  | [], pos => if total ≤ pos then some ⟨.done, pos, [], []⟩ else none
  | r :: rets, pos =>
    if total ≤ pos then some ⟨.done, pos, [], r :: rets⟩
    else
      match r with
      | .again => some ⟨.blocked, pos, [], rets⟩
      | .error => some ⟨.broken, pos, [], rets⟩
      | .wrote n =>
        if (offer pos).length < n then none
        else if n = 0 ∧ halt then some ⟨.zero, pos, [], rets⟩
        else (drain halt offer total rets (pos + n)).map fun d =>
          { d with out := (offer pos).take n ++ d.out }

def taken : List Ret → ℕ
  | .wrote n :: rets => n + taken rets
  | _ => 0

/-! ## 2. What a loop does -/

structure Drains (frame : List α) (pos : ℕ) (d : Drained α) : Prop where
  le : pos ≤ d.pos
  le_length : d.pos ≤ frame.length
  split : frame.drop pos = d.out ++ frame.drop d.pos
  done : d.stop = .done ↔ d.pos = frame.length

section Drain

variable {halt : Bool} {offer : ℕ → List α} {frame : List α} {lo pos : ℕ} {rets : List Ret}
  {d : Drained α}

theorem drains_stop {stop : Stop} {rest : List Ret} (hpos : pos < frame.length)
    (hstop : stop ≠ .done) : Drains frame pos ⟨stop, pos, [], rest⟩ := by
  refine ⟨le_rfl, hpos.le, rfl, ?_⟩
  constructor
  · intro h
    exact absurd h hstop
  · intro h
    exact absurd h hpos.ne

theorem drains_done {rest : List Ret} (hle : pos ≤ frame.length) (hpos : frame.length ≤ pos) :
    Drains frame pos ⟨.done, pos, [], rest⟩ :=
  ⟨le_rfl, hle, rfl, iff_of_true rfl (le_antisymm hle hpos)⟩

inductive Rounds (halt : Bool) (offer : ℕ → List α) (total : ℕ) :
    List Ret → ℕ → Drained α → Prop
  | past {rets : List Ret} {pos : ℕ} (h : total ≤ pos) :
      Rounds halt offer total rets pos ⟨.done, pos, [], rets⟩
  | again {rets : List Ret} {pos : ℕ} (h : pos < total) :
      Rounds halt offer total (.again :: rets) pos ⟨.blocked, pos, [], rets⟩
  | error {rets : List Ret} {pos : ℕ} (h : pos < total) :
      Rounds halt offer total (.error :: rets) pos ⟨.broken, pos, [], rets⟩
  | zero {rets : List Ret} {pos : ℕ} (h : pos < total) (hhalt : halt = true) :
      Rounds halt offer total (.wrote 0 :: rets) pos ⟨.zero, pos, [], rets⟩
  | wrote {rets : List Ret} {pos n : ℕ} {d : Drained α} (h : pos < total)
      (hn : n ≤ (offer pos).length) (hrest : Rounds halt offer total rets (pos + n) d) :
      Rounds halt offer total (.wrote n :: rets) pos { d with out := (offer pos).take n ++ d.out }

variable {total : ℕ}

theorem drain_rounds (h : drain halt offer total rets pos = some d) :
    Rounds halt offer total rets pos d := by
  induction rets generalizing pos d with
  | nil =>
    unfold drain at h
    split at h
    · cases h
      exact .past (by assumption)
    · cases h
  | cons r rets ih =>
    unfold drain at h
    split at h
    · cases h
      exact .past (by assumption)
    have hlt : pos < total := by omega
    cases r with
    | again =>
      cases h
      exact .again hlt
    | error =>
      cases h
      exact .error hlt
    | wrote n =>
      dsimp only at h
      split at h
      · cases h
      split at h
      · rename_i hzero
        obtain ⟨rfl, hhalt⟩ := hzero
        cases h
        exact .zero hlt hhalt
      obtain ⟨d', hd', rfl⟩ := Option.map_eq_some_iff.mp h
      exact .wrote hlt (by omega) (ih hd')

theorem drain_spec (hoffer : ∀ s, lo ≤ s → s < frame.length → offer s = frame.drop s)
    (hlo : lo ≤ pos) (hpos : pos ≤ frame.length)
    (h : drain halt offer frame.length rets pos = some d) : Drains frame pos d := by
  have hrounds := drain_rounds h
  clear h
  induction hrounds with
  | past h => exact drains_done hpos h
  | again h => exact drains_stop h nofun
  | error h => exact drains_stop h nofun
  | zero h _ => exact drains_stop h nofun
  | @wrote rets pos n d h hn _ ih =>
    have hoff := hoffer pos hlo h
    rw [hoff, length_drop] at hn
    have hrest := ih (by omega) (by omega)
    refine ⟨by have := hrest.le; dsimp only; omega, hrest.le_length, ?_, hrest.done⟩
    rw [hoff, append_assoc, ← hrest.split, ← drop_drop, take_append_drop]

theorem drain_past (h : total ≤ pos) :
    drain halt offer total rets pos = some ⟨.done, pos, [], rets⟩ := by
  cases rets with
  | nil => exact if_pos h
  | cons r rets => exact if_pos h

theorem drain_rest_subset (h : drain halt offer total rets pos = some d) :
    ∀ r ∈ d.rest, r ∈ rets := by
  have hrounds := drain_rounds h
  clear h
  induction hrounds with
  | past _ => exact fun _ hr => hr
  | again _ => exact fun _ hr => mem_cons_of_mem _ hr
  | error _ => exact fun _ hr => mem_cons_of_mem _ hr
  | zero _ _ => exact fun _ hr => mem_cons_of_mem _ hr
  | wrote _ _ _ ih => exact fun r hr => mem_cons_of_mem _ (ih r hr)

theorem drain_broken (h : drain halt offer total rets pos = some d)
    (hstop : d.stop = .broken) : Ret.error ∈ rets := by
  have hrounds := drain_rounds h
  clear h
  induction hrounds with
  | error _ => exact mem_cons_self
  | wrote _ _ _ ih => exact mem_cons_of_mem _ (ih hstop)
  | _ => cases hstop

theorem drain_zero (h : drain halt offer total rets pos = some d)
    (hstop : d.stop = .zero) : halt = true ∧ Ret.wrote 0 ∈ rets := by
  have hrounds := drain_rounds h
  clear h
  induction hrounds with
  | zero _ hhalt => exact ⟨hhalt, mem_cons_self⟩
  | wrote _ _ _ ih =>
    obtain ⟨hhalt, hmem⟩ := ih hstop
    exact ⟨hhalt, mem_cons_of_mem _ hmem⟩
  | _ => cases hstop

theorem drain_taken (h : drain false offer total rets pos = some d) :
    (d.stop = .done → pos + taken rets = d.pos + taken d.rest) ∧
      (d.stop ≠ .done → d.pos = pos + taken rets) := by
  have hrounds := drain_rounds h
  clear h
  induction hrounds with
  | past _ => exact ⟨fun _ => rfl, fun hne => absurd rfl hne⟩
  | again _ => exact ⟨nofun, fun _ => rfl⟩
  | error _ => exact ⟨nofun, fun _ => rfl⟩
  | zero _ hhalt => cases hhalt
  | wrote _ _ _ ih =>
    obtain ⟨hdone, hstop⟩ := ih
    refine ⟨?_, ?_⟩
    · intro hd
      have heq := hdone hd
      dsimp only [taken]
      omega
    · intro hd
      have heq := hstop hd
      dsimp only [taken]
      omega

/-- The first answers are counts that make up `n`, none of them of nothing. -/
def AddUp (n : ℕ) (rets : List Ret) : Prop :=
  ∃ (ns : List ℕ) (rest : List Ret), rets = ns.map Ret.wrote ++ rest ∧ (∀ k ∈ ns, 0 < k) ∧
    ns.sum = n

theorem addUp_zero (rets : List Ret) : AddUp 0 rets := ⟨[], rets, rfl, nofun, rfl⟩

theorem AddUp.cons {n k : ℕ} (h : AddUp n rets) (hk : 0 < k) : AddUp (k + n) (.wrote k :: rets) := by
  obtain ⟨ns, rest, rfl, hns, hsum⟩ := h
  refine ⟨k :: ns, rest, rfl, ?_, by rw [sum_cons, hsum]⟩
  intro m hm
  rcases mem_cons.mp hm with rfl | hm'
  · exact hk
  · exact hns m hm'

theorem AddUp.uncons {n : ℕ} {r : Ret} (h : AddUp n (r :: rets)) (hn : 0 < n) :
    ∃ k, r = .wrote k ∧ 0 < k ∧ k ≤ n ∧ AddUp (n - k) rets := by
  obtain ⟨ns, rest, heq, hns, hsum⟩ := h
  cases ns with
  | nil =>
    rw [sum_nil] at hsum
    omega
  | cons k ns =>
    obtain ⟨rfl, heq'⟩ := List.cons.inj heq
    rw [sum_cons] at hsum
    exact ⟨k, rfl, hns k mem_cons_self, by omega, ns, rest, heq',
      fun m hm => hns m (mem_cons_of_mem k hm), by omega⟩

theorem drain_halt_done (h : drain true offer total rets pos = some d)
    (hpos : pos ≤ total) (hoffer : ∀ s, s < total → (offer s).length = total - s) :
    d.pos = total ↔ AddUp (total - pos) rets := by
  induction rets generalizing pos d with
  | nil =>
    unfold drain at h
    split at h
    · cases h
      have hzero : total - pos = 0 := by omega
      rw [hzero]
      exact iff_of_true (le_antisymm hpos (by assumption)) (addUp_zero _)
    · cases h
  | cons r rets ih =>
    unfold drain at h
    split at h
    · cases h
      have hzero : total - pos = 0 := by omega
      rw [hzero]
      exact iff_of_true (le_antisymm hpos (by assumption)) (addUp_zero _)
    rename_i hmore
    have hstop : pos ≠ total := by omega
    cases r with
    | again =>
      cases h
      refine iff_of_false hstop fun hsum => ?_
      obtain ⟨k, hr, -⟩ := hsum.uncons (by omega)
      cases hr
    | error =>
      cases h
      refine iff_of_false hstop fun hsum => ?_
      obtain ⟨k, hr, -⟩ := hsum.uncons (by omega)
      cases hr
    | wrote n =>
      dsimp only at h
      split at h
      · cases h
      rename_i hle
      split at h
      · cases h
        rename_i hzero
        refine iff_of_false hstop fun hsum => ?_
        obtain ⟨k, hr, hk, -⟩ := hsum.uncons (by omega)
        obtain rfl := Ret.wrote.inj hr
        omega
      rename_i hsome
      obtain ⟨d', hd', rfl⟩ := Option.map_eq_some_iff.mp h
      rw [hoffer pos (by omega)] at hle
      have hn : 0 < n := Nat.pos_of_ne_zero fun h0 => hsome ⟨h0, rfl⟩
      refine (ih hd' (by omega)).trans ⟨fun hsum => ?_, fun hsum => ?_⟩
      · have hall := hsum.cons hn
        rwa [show n + (total - (pos + n)) = total - pos by omega] at hall
      · obtain ⟨k, hr, -, -, hrest⟩ := hsum.uncons (by omega)
        obtain rfl := Ret.wrote.inj hr
        rwa [show total - pos - n = total - (pos + n) by omega] at hrest

theorem Drains.forall₂ {R : α → β → Prop} {other : List β} (hd : Drains frame pos d)
    (hR : List.Forall₂ R frame other) :
    ∃ part, other.drop pos = part ++ other.drop d.pos ∧ List.Forall₂ R d.out part := by
  have hdrop := List.forall₂_drop pos hR
  rw [hd.split] at hdrop
  have hlen : d.out.length = d.pos - pos := by
    have hsum := congrArg List.length hd.split
    have hle := hd.le
    have hlen := hd.le_length
    rw [length_append, length_drop, length_drop] at hsum
    omega
  have hback : (other.drop pos).drop d.out.length = other.drop d.pos := by
    rw [drop_drop, hlen]
    congr 1
    have hle := hd.le
    omega
  refine ⟨(other.drop pos).take d.out.length, ?_, ?_⟩
  · rw [← hback, take_append_drop]
  · have htake := List.forall₂_take d.out.length hdrop
    rwa [take_left] at htake

end Drain

end Spines.Lib
