/-
Readers that take a stream in chunks.

A reader asks for some bytes and gets some of them, as many as the network has; `read`
is `none` for a chunk that is longer than what was asked for. A step may be `good` or
not, and `Takes` is a run of good steps. When a chunk in two parts does what the whole
does (`Splits`), the chunks do not matter: any run over the bytes of a good run is good
and ends where that ends (`Takes.unique`).
-/
import Mathlib.Data.List.Flatten
import Mathlib.Tactic.Common

set_option autoImplicit false

namespace Spines.Lib

open List

variable {σ α : Type*} {read : σ → List α → Option σ} {good : σ → List α → Prop} {s s' t : σ}
  {c : List α} {cs cs' : List (List α)}

inductive Takes (read : σ → List α → Option σ) (good : σ → List α → Prop) :
    σ → List (List α) → σ → Prop
  | nil (s : σ) : Takes read good s [] s
  | cons {s t s' : σ} {c : List α} {cs : List (List α)} (hc : c ≠ []) (hgood : good s c)
      (hread : read s c = some t) (hrun : Takes read good t cs s') : Takes read good s (c :: cs) s'

def Splits (read : σ → List α → Option σ) (good : σ → List α → Prop) : Prop :=
  ∀ s c₁ c₂ s', c₁ ≠ [] → c₂ ≠ [] → read s (c₁ ++ c₂) = some s' →
    ∃ t t', read s c₁ = some t ∧ good s c₁ ∧ read t c₂ = some t' ∧
      (good t c₂ ↔ good s (c₁ ++ c₂)) ∧ (good t c₂ → t' = s')

theorem takes_append :
    Takes read good s (cs ++ cs') s' ↔ ∃ t, Takes read good s cs t ∧ Takes read good t cs' s' := by
  induction cs generalizing s with
  | nil =>
    constructor
    · intro hrun
      exact ⟨s, .nil s, hrun⟩
    · rintro ⟨t, hnil, hrun⟩
      cases hnil
      exact hrun
  | cons c cs ih =>
    constructor
    · intro hrun
      cases hrun with
      | cons hc hgood hread hrest =>
        obtain ⟨u, hfirst, hlast⟩ := ih.mp hrest
        exact ⟨u, .cons hc hgood hread hfirst, hlast⟩
    · rintro ⟨t, hfirst, hlast⟩
      cases hfirst with
      | cons hc hgood hread hrest => exact .cons hc hgood hread (ih.mpr ⟨t, hrest, hlast⟩)

theorem Splits.bytes_of_chunk (h : Splits read good) (hc : c ≠ []) (hgood : good s c)
    (hread : read s c = some s') : Takes read good s (c.map fun b => [b]) s' := by
  induction c generalizing s with
  | nil => exact absurd rfl hc
  | cons b c ih =>
    cases c with
    | nil => exact .cons hc hgood hread (.nil s')
    | cons b' c =>
      obtain ⟨t, t', hfirst, hgood1, hrest, hiff, hsame⟩ :=
        h s [b] (b' :: c) s' (by simp) (by simp) hread
      have hgood2 := hiff.mpr hgood
      obtain rfl := hsame hgood2
      exact .cons (by simp) hgood1 hfirst (ih (by simp) hgood2 hrest)

theorem Splits.chunk_of_bytes (h : Splits read good) (hc : c ≠ [])
    (hbytes : Takes read good s (c.map fun b => [b]) t) (hread : read s c = some s') :
    good s c ∧ s' = t := by
  induction c generalizing s s' with
  | nil => exact absurd rfl hc
  | cons b c ih =>
    cases hbytes with
    | cons _ hgood hread1 hrest =>
      cases c with
      | nil =>
        cases hrest
        exact ⟨hgood, Option.some.inj (hread.symm.trans hread1)⟩
      | cons b' c =>
        obtain ⟨u, u', hfirst, -, hlast, hiff, hsame⟩ :=
          h s [b] (b' :: c) s' (by simp) (by simp) hread
        obtain rfl := Option.some.inj (hfirst.symm.trans hread1)
        obtain ⟨hgood2, rfl⟩ := ih (by simp) hrest hlast
        exact ⟨hiff.mp hgood2, (hsame hgood2).symm⟩

theorem Takes.bytes (hrun : Takes read good s cs s') (h : Splits read good) :
    Takes read good s (cs.flatten.map fun b => [b]) s' := by
  induction hrun with
  | nil s => exact .nil s
  | cons hc hgood hread _ ih =>
    rw [flatten_cons, map_append]
    exact takes_append.mpr ⟨_, h.bytes_of_chunk hc hgood hread, ih⟩

theorem Takes.regroup {rest : List α} (hrun : Takes read good s cs s') (h : Splits read good)
    (hc : c ≠ []) (hcs : cs.flatten = c ++ rest) (hread : read s c = some t) :
    good s c ∧ Takes read good t (rest.map fun b => [b]) s' := by
  have hbytes := hrun.bytes h
  rw [hcs, map_append] at hbytes
  obtain ⟨u, hfirst, hlast⟩ := takes_append.mp hbytes
  obtain ⟨hgood, rfl⟩ := h.chunk_of_bytes hc hfirst hread
  exact ⟨hgood, hlast⟩

theorem Takes.unique (hrun : Takes read good s cs s') (h : Splits read good)
    (hcs' : ∀ c ∈ cs', c ≠ []) (hsame : cs'.flatten = cs.flatten)
    (hrun' : cs'.foldlM read s = some t) : Takes read good s cs' t ∧ t = s' := by
  induction cs' generalizing s cs with
  | nil =>
    have hbytes := hrun.bytes h
    rw [← hsame] at hbytes
    obtain rfl : s = t := by simpa using hrun'
    cases hbytes
    exact ⟨.nil _, rfl⟩
  | cons c cs' ih =>
    have hc : c ≠ [] := hcs' c mem_cons_self
    rw [foldlM_cons] at hrun'
    obtain ⟨u, hfirst, hrest⟩ := Option.bind_eq_some_iff.mp hrun'
    obtain ⟨hgood, hlast⟩ := hrun.regroup h hc hsame.symm hfirst
    have hcs'' : ∀ c ∈ cs', c ≠ [] := fun c' hc' => hcs' c' (mem_cons_of_mem c hc')
    have hflat : cs'.flatten = (cs'.flatten.map fun b => [b]).flatten :=
      (flatMap_singleton' cs'.flatten).symm
    obtain ⟨htakes, hend⟩ := ih hlast hcs'' hflat hrest
    exact ⟨.cons hc hgood hfirst htakes, hend⟩

end Spines.Lib
