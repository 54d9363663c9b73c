/-
Runs of a labelled transition system, and histories.

A protocol is given here by what one event does to a state; a run is any
finite sequence of events. The one induction over runs is `Run.invariant`:
what holds initially and is preserved by every step holds in every state a run
reaches.

The second half is about histories: lists that only grow at the end. What one
party has seen of a history is a prefix of it, and a running XOR over the
values seen is the XOR of that prefix.
-/
import Mathlib.Data.BitVec

set_option autoImplicit false

namespace Spines.Lib

open List

/-! ## Runs -/

section Runs

variable {σ ε : Type*}

/-- `s'` is reached from `s` by finitely many events of `step`. -/
def Run (step : σ → ε → σ → Prop) : σ → σ → Prop :=
  Relation.ReflTransGen (fun s s' => ∃ e, step s e s')

variable {step : σ → ε → σ → Prop}

theorem Run.refl (s : σ) : Run step s s := Relation.ReflTransGen.refl

theorem Run.tail {s t u : σ} {e : ε} (h : Run step s t) (h' : step t e u) : Run step s u :=
  Relation.ReflTransGen.tail h ⟨e, h'⟩

theorem Run.mono {step' : σ → ε → σ → Prop} {s s' : σ} (hsub : ∀ t e t', step t e t' → step' t e t')
    (h : Run step s s') : Run step' s s' :=
  Relation.ReflTransGen.mono (fun t t' ⟨e, he⟩ => ⟨e, hsub t e t' he⟩) _ _ h

theorem Run.invariant {s s' : σ} (I : σ → Prop) (hinit : I s)
    (hstep : ∀ t e t', I t → step t e t' → I t') (h : Run step s s') : I s' := by
  induction h with
  | refl => exact hinit
  | tail _ hlast ih =>
    obtain ⟨e, he⟩ := hlast
    exact hstep _ e _ ih he

def play (ok : σ → ε → Prop) [∀ s e, Decidable (ok s e)] (next : σ → ε → σ) : σ → List ε → Option σ
  | s, [] => some s
  | s, e :: es => if ok s e then play ok next (next s e) es else none

theorem Run.of_play {ok : σ → ε → Prop} [∀ s e, Decidable (ok s e)] {next : σ → ε → σ}
    {es : List ε} {s : σ} {P : σ → Bool} (h : (play ok next s es).any P = true) :
    ∃ s', Run (fun s e s' => ok s e ∧ s' = next s e) s s' ∧ P s' = true := by
  induction es generalizing s with
  | nil => exact ⟨s, Run.refl s, h⟩
  | cons e es ih =>
    rw [play] at h
    split at h
    · rename_i hok
      obtain ⟨s', hrun, hP⟩ := ih h
      exact ⟨s', .head ⟨e, hok, rfl⟩ hrun, hP⟩
    · cases h

theorem Run.of_foldlM {next : σ → ε → Option σ} {es : List ε} {s s' : σ}
    (h : es.foldlM next s = some s') : Run (fun s e s' => next s e = some s') s s' := by
  induction es generalizing s with
  | nil =>
    obtain rfl := Option.some.inj h
    exact Run.refl s
  | cons e es ih =>
    rw [foldlM_cons] at h
    obtain ⟨t, ht, h⟩ := Option.bind_eq_some_iff.mp h
    exact .head ⟨e, ht⟩ (ih h)

end Runs

/-! ## Loops that may stop -/

/-- A counting loop whose body may stop the program: what every round
establishes from the one before holds at the end, and the loop does not stop. -/
theorem foldlM_range {σ : Type*} (P : ℕ → σ → Prop) {f : σ → ℕ → Option σ} (n : ℕ) {s : σ}
    (h0 : P 0 s) (hstep : ∀ m s, m < n → P m s → ∃ s', f s m = some s' ∧ P (m + 1) s') :
    ∃ s', (range n).foldlM f s = some s' ∧ P n s' := by
  induction n with
  | zero => exact ⟨s, by simp, h0⟩
  | succ n ih =>
    obtain ⟨t, ht, hPt⟩ := ih (fun m s hm => hstep m s (by omega))
    obtain ⟨t', ht', hPt'⟩ := hstep n t (by omega) hPt
    refine ⟨t', ?_, hPt'⟩
    rw [range_succ, foldlM_append, ht]
    simp [ht']

theorem foldlM_range_some {σ : Type*} (P : ℕ → σ → Prop) {f : σ → ℕ → Option σ} (n : ℕ) {s s' : σ}
    (h0 : P 0 s) (hstep : ∀ m t t', m < n → P m t → f t m = some t' → P (m + 1) t')
    (h : (range n).foldlM f s = some s') : P n s' := by
  induction n generalizing s' with
  | zero =>
    obtain rfl : s = s' := by simpa using h
    exact h0
  | succ n ih =>
    rw [range_succ, foldlM_append] at h
    obtain ⟨t, ht, ht'⟩ := Option.bind_eq_some_iff.mp h
    refine hstep n t s' (by omega) (ih (fun m u u' hm => hstep m u u' (by omega)) ht) ?_
    simpa using ht'

theorem foldlM_map_fst {σ τ α : Type*} {f : σ × τ → α → Option (σ × τ)} {g : σ → α → Option σ}
    (h : ∀ s t a, (f (s, t) a).map Prod.fst = g s a) (l : List α) (s : σ) (t : τ) :
    (l.foldlM f (s, t)).map Prod.fst = l.foldlM g s := by
  induction l generalizing s t with
  | nil => rfl
  | cons a l ih =>
    rw [foldlM_cons, foldlM_cons, ← h s t a]
    cases f (s, t) a with
    | none => rfl
    | some st => exact ih st.1 st.2

theorem foldlM_flatMap {σ α β : Type*} {f : σ → β → Option σ} (g : α → List β) (l : List α)
    (s : σ) : (l.flatMap g).foldlM f s = l.foldlM (fun s a => (g a).foldlM f s) s := by
  induction l generalizing s with
  | nil => rfl
  | cons a l ih =>
    rw [flatMap_cons, foldlM_append, foldlM_cons]
    congr 1
    funext t
    exact ih t

/-! ## Prefixes of a history -/

section Histories

variable {α : Type*}

theorem take_eq_of_prefix {l1 l2 : List α} (h : l1 <+: l2) {k : ℕ} (hk : k ≤ l1.length) :
    l1.take k = l2.take k := by
  obtain ⟨t, rfl⟩ := h
  rw [take_append_of_le_length hk]

theorem getElem?_of_prefix {l1 l2 : List α} (h : l1 <+: l2) {i : ℕ} {x : α}
    (hx : l1[i]? = some x) : l2[i]? = some x := by
  obtain ⟨t, rfl⟩ := h
  obtain ⟨hi, -⟩ := List.getElem?_eq_some_iff.mp hx
  rw [List.getElem?_append_left hi, hx]

theorem prefix_concat_of_getElem? {l1 l2 : List α} {x : α} (h : l1 <+: l2)
    (hx : l2[l1.length]? = some x) : l1 ++ [x] <+: l2 := by
  obtain ⟨t, rfl⟩ := h
  rw [List.getElem?_append_right (le_refl _), Nat.sub_self] at hx
  cases t with
  | nil => simp at hx
  | cons y t =>
    have hxy : y = x := by simpa using hx
    subst hxy
    exact ⟨t, by simp⟩

end Histories

/-! ## Running XOR -/

section Digest

variable {w : ℕ}

def digest (l : List (BitVec w)) : BitVec w := l.foldl (· ^^^ ·) 0

@[simp] theorem digest_concat (l : List (BitVec w)) (x : BitVec w) :
    digest (l ++ [x]) = digest l ^^^ x := by
  simp only [digest, foldl_append, foldl_cons, foldl_nil]

end Digest

end Spines.Lib
