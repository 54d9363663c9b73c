/-
Copies of one message spreading over a network.

Every node hands the message on to the nodes its own list `fwd` gives; a copy
carries the number of hops it may still be handed on, and copies are taken up in
any order. `Treelike fwd s` says that the lists form a forest below `s`: no node is
on two lists or twice on one, and `s` is on none. Then no node gets a second copy,
whatever the order (`Spread.Inv`), and once no copy is left, every node below `s`
that is near enough has got one (`Spread.Inv.complete`).
-/
import Spines.Lib.Run

set_option autoImplicit false

namespace Spines.Lib

open List

variable {V : Type*}

/-! ## 1. Copies -/

structure Spread (V : Type*) where
  /-- copies on their way: the node each goes to, and how many nodes may still
  take it up, that one included -/
  flight : List (V × ℕ)
  received : List V

def Spread.sent (st : Spread V) : List V := st.flight.map Prod.fst ++ st.received

def Spread.start (s : V) (t : ℕ) : Spread V := { flight := [(s, t)], received := [] }

inductive Spread.Step (fwd : V → List V) : Spread V → V → Spread V → Prop
  | take {st : Spread V} {n : V} {t : ℕ} {rest : List (V × ℕ)}
      (hflight : st.flight.Perm ((n, t + 1) :: rest)) :
      Step fwd st n
        { flight := rest ++ if 0 < t then (fwd n).map (·, t) else []
          received := n :: st.received }

/-- The lists `fwd` form a tree below `s`, and `depth` counts the hops. -/
structure Treelike (fwd : V → List V) (s : V) (depth : V → ℕ) : Prop where
  nodup : ∀ n, (fwd n).Nodup
  parent : ∀ {v n n'}, v ∈ fwd n → v ∈ fwd n' → n = n'
  root : ∀ n, s ∉ fwd n
  depth_root : depth s = 0
  depth_succ : ∀ {v n}, v ∈ fwd n → depth v = depth n + 1

inductive Below (fwd : V → List V) (s : V) : V → Prop
  | root : Below fwd s s
  | child {n v : V} (h : Below fwd s n) (hv : v ∈ fwd n) : Below fwd s v

theorem Spread.Step.flight {fwd : V → List V} {st st' : Spread V} {n : V}
    (h : Spread.Step fwd st n st') :
    ∃ t rest, st.flight.Perm ((n, t + 1) :: rest) ∧
      st' = { flight := rest ++ if 0 < t then (fwd n).map (·, t) else []
              received := n :: st.received } := by
  cases h with
  | take hflight => exact ⟨_, _, hflight, rfl⟩

/-! ## 2. The invariant -/

/-- What holds of a message that started at `s` with `T`. -/
structure Spread.Inv (fwd : V → List V) (s : V) (depth : V → ℕ) (T : ℕ) (st : Spread V) :
    Prop where
  nodup : st.sent.Nodup
  root : s ∈ st.sent
  parent : ∀ v ∈ st.sent, v = s ∨ ∃ n ∈ st.received, v ∈ fwd n
  left : ∀ v t, (v, t) ∈ st.flight → 0 < t ∧ t + depth v = T
  near : ∀ v ∈ st.received, depth v < T
  closed : ∀ n ∈ st.received, depth n + 1 < T → ∀ v ∈ fwd n, v ∈ st.sent

section Inv

variable {fwd : V → List V} {s n : V} {depth : V → ℕ} {T : ℕ} {st st' : Spread V}

theorem Spread.Inv.start (htree : Treelike fwd s depth) (hT : 0 < T) :
    Spread.Inv fwd s depth T (Spread.start s T) where
  nodup := by simp [sent, Spread.start]
  root := by simp [sent, Spread.start]
  parent := by simp [sent, Spread.start]
  left := by simp [Spread.start, hT, htree.depth_root]
  near := by simp [Spread.start]
  closed := by simp [Spread.start]

theorem Spread.Inv.fresh (htree : Treelike fwd s depth) (h : Spread.Inv fwd s depth T st)
    (hn : n ∉ st.received) : ∀ v ∈ fwd n, v ∉ st.sent := by
  intro v hv hsent
  rcases h.parent v hsent with rfl | ⟨n', hn', hv'⟩
  · exact htree.root n hv
  · rw [htree.parent hv hv'] at hn
    exact hn hn'

theorem Spread.Inv.step (htree : Treelike fwd s depth) (h : Spread.Inv fwd s depth T st)
    (hstep : Spread.Step fwd st n st') : Spread.Inv fwd s depth T st' := by
  obtain ⟨t, rest, hflight, rfl⟩ := hstep.flight
  have hin : (n, t + 1) ∈ st.flight := hflight.mem_iff.mpr mem_cons_self
  have hsent : st.sent.Perm (n :: (rest.map Prod.fst ++ st.received)) := by
    rw [sent]
    exact (hflight.map Prod.fst).append_right _
  have hnd := hsent.nodup_iff.mp h.nodup
  rw [nodup_cons, mem_append, not_or] at hnd
  have hmem : ∀ v, v ∈ st.sent ↔ v = n ∨ v ∈ rest.map Prod.fst ∨ v ∈ st.received := by
    intro v
    rw [hsent.mem_iff, mem_cons, mem_append]
  have hfresh := h.fresh htree hnd.1.2
  have hleft := (h.left n (t + 1) hin).2
  -- the copies handed on
  generalize hnew : (if 0 < t then (fwd n).map (·, t) else []) = new
  have hnew_mem : ∀ v, v ∈ new.map Prod.fst ↔ 0 < t ∧ v ∈ fwd n := by
    intro v
    rw [← hnew]
    split <;> simp [*]
  have hnew_nodup : (new.map Prod.fst).Nodup := by
    rw [← hnew]
    split
    · simpa [Function.comp_def] using htree.nodup n
    · simp
  have hmem' : ∀ v, v ∈ (⟨rest ++ new, n :: st.received⟩ : Spread V).sent ↔
      v ∈ st.sent ∨ (0 < t ∧ v ∈ fwd n) := by
    intro v
    rw [sent, map_append, mem_append, mem_append, mem_cons, hnew_mem, hmem]
    tauto
  constructor
  · have hperm : (⟨rest ++ new, n :: st.received⟩ : Spread V).sent.Perm
        (new.map Prod.fst ++ st.sent) := by
      rw [sent, map_append, append_assoc]
      refine perm_append_comm_assoc _ _ _ |>.trans (List.Perm.append_left _ ?_)
      exact (perm_middle).trans hsent.symm
    rw [hperm.nodup_iff, nodup_append]
    refine ⟨hnew_nodup, h.nodup, ?_⟩
    rintro v hv v' hv' rfl
    exact hfresh v ((hnew_mem v).mp hv).2 hv'
  · exact (hmem' s).mpr (.inl h.root)
  · intro v hv
    rcases (hmem' v).mp hv with hold | ⟨-, hv⟩
    · refine (h.parent v hold).imp_right ?_
      rintro ⟨n', hn', hv'⟩
      exact ⟨n', mem_cons_of_mem _ hn', hv'⟩
    · exact .inr ⟨n, mem_cons_self, hv⟩
  · intro v t' hv
    rcases mem_append.mp hv with hold | hadd
    · exact h.left v t' (hflight.mem_iff.mpr (mem_cons_of_mem _ hold))
    · rw [← hnew] at hadd
      split at hadd
      · rename_i ht
        obtain ⟨v', hv', heq⟩ := mem_map.mp hadd
        obtain ⟨rfl, rfl⟩ := Prod.mk.inj heq
        rw [htree.depth_succ hv']
        omega
      · simp at hadd
  · intro v hv
    rcases mem_cons.mp hv with rfl | hv
    · omega
    · exact h.near v hv
  · intro v hv hnear u hu
    rw [hmem']
    rcases mem_cons.mp hv with rfl | hv
    · exact .inr ⟨by omega, hu⟩
    · exact .inl (h.closed v hv hnear u hu)

theorem Spread.Inv.run (htree : Treelike fwd s depth) (hT : 0 < T)
    (hrun : Run (Spread.Step fwd) (Spread.start s T) st) : Spread.Inv fwd s depth T st :=
  hrun.invariant (Spread.Inv fwd s depth T) (.start htree hT)
    (fun _ _ _ h hstep => h.step htree hstep)

theorem Spread.Inv.below (h : Spread.Inv fwd s depth T st) (htree : Treelike fwd s depth) :
    ∀ v ∈ st.sent, Below fwd s v := by
  intro v
  induction hd : depth v generalizing v with
  | zero =>
    intro hv
    rcases h.parent v hv with rfl | ⟨n, -, hvn⟩
    · exact .root
    · rw [htree.depth_succ hvn] at hd
      omega
  | succ m ih =>
    intro hv
    rcases h.parent v hv with rfl | ⟨n, hn, hvn⟩
    · exact .root
    · rw [htree.depth_succ hvn] at hd
      exact .child (ih n (by omega) (mem_append_right _ hn)) hvn

theorem Spread.Inv.complete (htree : Treelike fwd s depth) (h : Spread.Inv fwd s depth T st)
    (hdone : st.flight = []) {v : V} (hv : Below fwd s v) (hnear : depth v < T) :
    v ∈ st.received := by
  have hsent : st.sent = st.received := by simp [sent, hdone]
  induction hv with
  | root => exact hsent ▸ h.root
  | @child n v hn hv ih =>
    have hdepth := htree.depth_succ hv
    rw [← hsent]
    exact h.closed n (ih (by omega)) (by omega) v hv

end Inv

/-! ## 3. One copy at a time -/

section Single

variable {fwd : V → List V} {s n : V} {T : ℕ} {st st' : Spread V}

structure Spread.Single (fwd : V → List V) (st : Spread V) : Prop where
  one : st.flight.length ≤ 1
  last : ∀ n ∈ st.received, fwd n = [] → st.flight = [] ∧ st.received.head? = some n

theorem Spread.Single.step (hfwd : ∀ n, (fwd n).length ≤ 1) (h : Spread.Single fwd st)
    (hstep : Spread.Step fwd st n st') : Spread.Single fwd st' := by
  obtain ⟨t, rest, hflight, rfl⟩ := hstep.flight
  have hlen := hflight.length_eq
  rw [length_cons] at hlen
  have hone := h.one
  obtain rfl := eq_nil_of_length_eq_zero (l := rest) (by omega)
  constructor
  · rw [nil_append]
    split
    · simpa using hfwd n
    · simp
  · intro m hm hstop
    rcases mem_cons.mp hm with rfl | hm
    · simp [hstop]
    · have hnil := (h.last m hm hstop).1
      rw [hnil] at hlen
      simp at hlen

theorem Spread.Single.run (hfwd : ∀ n, (fwd n).length ≤ 1)
    (hrun : Run (Spread.Step fwd) (Spread.start s T) st) : Spread.Single fwd st :=
  hrun.invariant (Spread.Single fwd) ⟨by simp [Spread.start], by simp [Spread.start]⟩
    (fun _ _ _ h hstep => h.step hfwd hstep)

end Single

end Spines.Lib
