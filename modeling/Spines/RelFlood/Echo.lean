/-
A daemon and what it said of itself before (`daemon/reliable_flood.c`).

A restart forgets `Status_Change[My_ID]`, and a neighbor may send the daemon one of its own earlier
messages. `Process_Status_Change` treats it as any other: until the daemon has something to say of
its own, what it stores has no epoch, so the old costs are put back and the old epoch is inherited.
From its first own change on nothing of this happens, and all that it says is news to the others
(`authority_iff`).
-/
import Spines.RelFlood.Status

set_option autoImplicit false

namespace Spines.RelFlood

open Spines.Lib Function List

/-! ## 1. Runs after a restart -/

section Echo

variable {sc : StatusConf} (site : Site sc)

def told (S : StatusState) (h : List StatusChange) (e : StatusEvent) : List StatusChange :=
  match e with
  | .generate .. => h ++ [(S.handle site.cf sc e).stored site.cf.my_id]
  | _ => h

/-- Nothing is changed by an own message, and a new one is taken by whoever holds any of the earlier
ones: as a message and for the link it is about. -/
def Own_Step (S : StatusState) (h : List StatusChange) (e : StatusEvent) : Prop :=
  match e with
  | .receive _ m => m.creator = site.cf.my_id →
    (S.handle site.cf sc e).stored site.cf.my_id = S.stored site.cf.my_id ∧
      (S.handle site.cf sc e).cost site.cf.my_id = S.cost site.cf.my_id
  | .generate _ n _ => ∀ m ∈ h,
    status_accepted sc ((S.handle site.cf sc e).stored site.cf.my_id) m ∧
      (m.epoch < ((S.handle site.cf sc e).stored site.cf.my_id).epoch ∨
        (m.cell n).seq < (((S.handle site.cf sc e).stored site.cf.my_id).cell n).seq)
  | _ => True

def Authority : StatusState → List StatusChange → List StatusEvent → Prop
  | _, _, [] => True
  | S, h, e :: es => Own_Step site S h e ∧ Authority (S.handle site.cf sc e) (told site S h e) es

/-- Own messages that verify are ones the daemon created, and its changes are about its links. -/
def Genuine (Flow_Source_Epoch : ℕ) :
    StatusState → List StatusChange → List StatusEvent → Prop
  | _, _, [] => True
  | S, h, e :: es =>
    (match e with
      | .receive _ m => m.creator = site.cf.my_id → m ∈ h
      | .generate src_epoch n status =>
        src_epoch = Flow_Source_Epoch ∧ n ∈ sc.neighbor_ids site.cf.my_id ∧ status ≤ 2
      | _ => True) ∧
    Genuine Flow_Source_Epoch (S.handle site.cf sc e) (told site S h e) es

def Quiet_Start : List StatusEvent → Prop
  | [] => True
  | .generate .. :: _ => True
  | .receive _ m :: es => m.creator ≠ site.cf.my_id ∧ Quiet_Start es
  | _ :: es => Quiet_Start es

/-! ## 2. Before the first change, and after it -/

variable {E : ℕ} {S : StatusState} {h : List StatusChange} {es : List StatusEvent}

theorem told_same {e : StatusEvent}
    (hgen : ∀ src_epoch n status, e ≠ .generate src_epoch n status) : told site S h e = h := by
  unfold told
  split
  · exact absurd rfl (hgen _ _ _)
  · rfl

theorem own_unmoved {e : StatusEvent}
    (hgen : ∀ src_epoch n status, e ≠ .generate src_epoch n status)
    (hrec : ∀ k m, e = .receive k m → m.creator = site.cf.my_id →
      ¬ status_accepted sc m (S.stored site.cf.my_id)) :
    (S.handle site.cf sc e).stored site.cf.my_id = S.stored site.cf.my_id ∧
      (S.handle site.cf sc e).cost site.cf.my_id = S.cost site.cf.my_id := by
  by_cases hr : ∃ k m, e = .receive k m
  · obtain ⟨k, m, rfl⟩ := hr
    rw [StatusState.handle]
    rcases process_status_change_cases site.cf sc k m S with ⟨-, hp⟩ | ⟨hacc, hst, hcost⟩
    · rw [hp]
      exact ⟨rfl, rfl⟩
    · have hne : m.creator ≠ site.cf.my_id := by
        intro hm
        apply hrec k m rfl hm
        rwa [hm] at hacc
      rw [hst, hcost, update_of_ne (Ne.symm hne)]
      refine ⟨rfl, funext fun i => ?_⟩
      rw [foldl_apply_cell, if_neg (fun h => hne h.1.1.symm)]
  · have hkeep := handle_stored site.cf sc S hgen (fun k m h => hr ⟨k, m, h⟩)
    rw [hkeep.1, hkeep.2]
    exact ⟨rfl, rfl⟩

structure Speaking (E : ℕ) (S : StatusState) (h : List StatusChange) (n : ℕ) : Prop where
  form : (S.stored site.cf.my_id).Form sc site.cf.my_id
  epoch : (S.stored site.cf.my_id).epoch = E
  few : ∀ i, ((S.stored site.cf.my_id).cell i).seq ≤ n
  latest : ∀ m ∈ h, m.upto (S.stored site.cf.my_id)

theorem speaks {n : ℕ} (hE : 0 < E) (hn : n + 1 < 2 ^ 64)
    (hf : (S.stored site.cf.my_id).Form sc site.cf.my_id)
    (hep : (S.stored site.cf.my_id).epoch = 0 ∧ (∀ m ∈ h, m.epoch < E) ∨
      (S.stored site.cf.my_id).epoch = E ∧ ∀ m ∈ h, m.upto (S.stored site.cf.my_id))
    (hfew : ∀ i, ((S.stored site.cf.my_id).cell i).seq ≤ n) {i status : ℕ}
    (hi : i ∈ sc.neighbor_ids site.cf.my_id) (hs : status ≤ 2) :
    Own_Step site S h (.generate E i status) ∧
      Speaking site E (S.handle site.cf sc (.generate E i status))
        (told site S h (.generate E i status)) (n + 1) := by
  obtain ⟨cost, hok, hgen⟩ := generate_stored site E i hs S
  have hhandle : (S.handle site.cf sc (.generate E i status)).stored site.cf.my_id =
      (S.stored site.cf.my_id).bump E i cost := hgen
  have hepoch : ((S.stored site.cf.my_id).bump E i cost).epoch = E := by
    rcases hep with ⟨h0, -⟩ | ⟨h0, -⟩ <;> simp [StatusChange.bump, h0]
  have hseq : int64u (((S.stored site.cf.my_id).cell i).seq + 1) =
      ((S.stored site.cf.my_id).cell i).seq + 1 := by
    have hle := hfew i
    unfold int64u
    exact Nat.mod_eq_of_lt (by omega)
  have hform := bump_form site hi hok hf (fun h0 => absurd (hepoch.symm.trans h0) hE.ne')
  have hcells : ∀ j, ((S.stored site.cf.my_id).cell j).seq ≤
      (((S.stored site.cf.my_id).bump E i cost).cell j).seq ∧
      (((S.stored site.cf.my_id).bump E i cost).cell j).seq ≤ n + 1 := by
    intro j
    have hle := hfew j
    by_cases hj : j = i
    · rw [hj, bump_self, hseq]
      rw [hj] at hle
      exact ⟨Nat.le_succ _, Nat.succ_le_succ hle⟩
    · rw [bump_other _ _ _ hj]
      omega
  have hself : (((S.stored site.cf.my_id).bump E i cost).cell i).seq =
      ((S.stored site.cf.my_id).cell i).seq + 1 := by
    rw [bump_self, hseq]
  have hnewer : ∀ m ∈ h, m.upto ((S.stored site.cf.my_id).bump E i cost) ∧
      (m.epoch < E ∨ (m.cell i).seq < (((S.stored site.cf.my_id).bump E i cost).cell i).seq) := by
    intro m hm
    rcases hep with ⟨-, hold⟩ | ⟨h0, hup⟩
    · exact ⟨.inl (lt_of_lt_of_eq (hold m hm) hepoch.symm), .inl (hold m hm)⟩
    · rcases hup m hm with hlt | ⟨he, hle⟩
      · exact ⟨.inl (by omega), .inl (by omega)⟩
      · refine ⟨.inr ⟨by omega, fun j => (hle j).trans (hcells j).1⟩, .inr ?_⟩
        have hlei := hle i
        omega
  have hrange := sc.neighbor_ids_range _ i hi
  constructor
  · intro m hm
    obtain ⟨hup, hnew⟩ := hnewer m hm
    rw [hhandle, hepoch]
    have hcreator : 1 ≤ ((S.stored site.cf.my_id).bump E i cost).creator ∧
        ((S.stored site.cf.my_id).bump E i cost).creator ≤ MAX_NODES := by
      rw [hform.creator]
      exact site.my_id_range
    refine ⟨⟨hcreator, ?_, hform.valid, ?_⟩, hnew⟩
    · rcases hup with hlt | ⟨he, -⟩ <;> omega
    · rcases hup with hlt | ⟨-, hle⟩
      · exact .inl hlt
      · rcases hnew with hlt | hlt
        · exact .inl (by omega)
        · refine .inr ⟨?_, i, by rw [mem_range'_1]; omega, hlt⟩
          rintro ⟨j, -, hj⟩
          have hlej := hle j
          omega
  · refine ⟨hhandle ▸ hform, hhandle ▸ hepoch, fun j => ?_, fun m hm => ?_⟩
    · rw [hhandle]
      exact (hcells j).2
    · rcases mem_append.mp hm with hm | hm
      · rw [hhandle]
        exact (hnewer m hm).1
      · rw [mem_singleton.mp hm]
        exact .inr ⟨rfl, fun _ => le_refl _⟩

theorem not_accepted_of_upto {m m' : StatusChange} (hup : m.upto m') :
    ¬ status_accepted sc m m' := by
  rintro ⟨-, hep, -, hnew⟩
  rcases hup with hlt | ⟨he, hle⟩
  · omega
  · rcases hnew with hlt | ⟨-, i, -, hi⟩
    · omega
    · have hlei := hle i
      omega

theorem Speaking.authority (hE : 0 < E) {n : ℕ} (hS : Speaking site E S h n)
    (hn : n + es.length < 2 ^ 64) (hg : Genuine site E S h es) : Authority site S h es := by
  induction es generalizing S h n with
  | nil => trivial
  | cons e es ih =>
    obtain ⟨he, hg⟩ := hg
    rw [length_cons] at hn
    by_cases hgen : ∃ src_epoch i status, e = .generate src_epoch i status
    · obtain ⟨src_epoch, i, status, rfl⟩ := hgen
      obtain ⟨rfl, hi, hs⟩ := he
      have hnext := speaks site hE (by omega) hS.form (.inr ⟨hS.epoch, hS.latest⟩) hS.few hi hs
      exact ⟨hnext.1, ih hnext.2 (by omega) hg⟩
    · have hno : ∀ src_epoch i status, e ≠ .generate src_epoch i status :=
        fun a b c h => hgen ⟨a, b, c, h⟩
      have hkeep := own_unmoved site (S := S) hno (by
        rintro k m rfl hm
        exact not_accepted_of_upto (hS.latest m (he hm)))
      have htold := told_same site (S := S) (h := h) hno
      refine ⟨?_, ih ?_ (by omega : n + es.length < 2 ^ 64) hg⟩
      · unfold Own_Step
        split
        · exact fun _ => hkeep
        · exact absurd rfl (hno _ _ _)
        · trivial
      · rw [htold]
        exact ⟨hkeep.1 ▸ hS.form, hkeep.1 ▸ hS.epoch, hkeep.1 ▸ hS.few, hkeep.1 ▸ hS.latest⟩

theorem silent_iff (hE : 0 < E) (hlen : es.length < 2 ^ 64)
    (hold : ∀ m ∈ h, m.Form sc site.cf.my_id ∧ 0 < m.epoch ∧ m.epoch < E)
    (hf : (S.stored site.cf.my_id).Form sc site.cf.my_id) (hep : (S.stored site.cf.my_id).epoch = 0)
    (hseq : ∀ i, ((S.stored site.cf.my_id).cell i).seq = 0) (hg : Genuine site E S h es) :
    Authority site S h es ↔ Quiet_Start site es := by
  induction es generalizing S with
  | nil => exact Iff.rfl
  | cons e es ih =>
    obtain ⟨he, hg⟩ := hg
    rw [length_cons] at hlen
    -- an event that is no own one leaves everything as it was
    have hquiet : (∀ src_epoch n status, e ≠ .generate src_epoch n status) →
        (∀ k m, e = .receive k m → m.creator ≠ site.cf.my_id) →
        (Authority site S h (e :: es) ↔ Quiet_Start site es) := by
      intro hno hrec
      have hkeep := own_unmoved site (S := S) hno (fun k m hk hm => absurd hm (hrec k m hk))
      have htold := told_same site (S := S) (h := h) hno
      rw [htold] at hg
      have hrest := ih (S := S.handle site.cf sc e) (by omega) (hkeep.1 ▸ hf) (hkeep.1 ▸ hep)
        (hkeep.1 ▸ hseq) hg
      have hkeeps : Own_Step site S h e := by
        unfold Own_Step
        split
        · exact fun _ => hkeep
        · exact absurd rfl (hno _ _ _)
        · trivial
      rw [Authority, htold, hrest]
      exact and_iff_right hkeeps
    cases e with
    | generate src_epoch i status =>
      obtain ⟨rfl, hi, hs⟩ := he
      have hnext := speaks site (S := S) (h := h) hE (by decide : 0 + 1 < 2 ^ 64) hf
        (.inl ⟨hep, fun m hm => (hold m hm).2.2⟩) (fun i => (hseq i).le) hi hs
      refine iff_of_true ⟨hnext.1, ?_⟩ trivial
      exact hnext.2.authority site hE (by omega) hg
    | receive k m =>
      by_cases hm : m.creator = site.cf.my_id
      · refine iff_of_false (fun hauth => ?_) (fun hq => hq.1 hm)
        obtain ⟨hform, hpos, -⟩ := hold m (he hm)
        have hacc : status_accepted sc m (S.stored m.creator) := by
          rw [hm]
          exact ⟨hm ▸ site.my_id_range, by omega, hform.valid, .inl (by omega)⟩
        have hsame := (hauth.1 hm).1
        rw [StatusState.handle] at hsame
        rcases process_status_change_cases site.cf sc k m S with ⟨hno, -⟩ | ⟨-, hst, -⟩
        · exact hno hacc
        · rw [hst, ← hm, update_self] at hsame
          rw [hsame, hm] at hpos
          omega
      · rw [hquiet (by simp) (by rintro k m ⟨⟩; exact hm)]
        exact (and_iff_right hm).symm
    | gen now => exact hquiet (by simp) (by simp)
    | ready k => exact hquiet (by simp) (by simp)
    | send k env => exact hquiet (by simp) (by simp)
    | transfer k => exact hquiet (by simp) (by simp)

/-- **The daemon is the authority on its links** exactly when none of its earlier messages comes back
before its first change after the start. -/
theorem authority_iff (Flow_Source_Epoch : ℕ) (h : List StatusChange) (es : List StatusEvent)
    (hold : ∀ m ∈ h, m.Form sc site.cf.my_id ∧ 0 < m.epoch ∧ m.epoch < Flow_Source_Epoch)
    (hE : 0 < Flow_Source_Epoch) (hlen : es.length < 2 ^ 64)
    (hg : Genuine site Flow_Source_Epoch (StatusState.init site.cf) h es) :
    Authority site (StatusState.init site.cf) h es ↔ Quiet_Start site es :=
  silent_iff site hE hlen hold (form_init site) rfl (fun _ => rfl) hg

end Echo

theorem about_link_form : (about_link 1 10).Form triangle 1 where
  creator := rfl
  other := by
    intro i hi
    simp only [triangle, if_pos, mem_cons, not_mem_nil, or_false, not_or] at hi
    simp [about_link, hi.1, hi.2]
  cost_ok := by
    intro i hi
    have hi' : i = 2 ∨ i = 3 := by simpa [triangle] using hi
    rcases hi' with rfl | rfl <;> decide
  unset := fun h => absurd h (by decide)

theorem corner1_old : ∀ m ∈ [about_link 1 10], m.Form triangle corner1.cf.my_id ∧ 0 < m.epoch ∧
    m.epoch < 9 := by
  intro m hm
  rw [mem_singleton.mp hm]
  exact ⟨about_link_form, by decide, by decide⟩

theorem authority_iff_corner :
    Authority corner1 (StatusState.init corner1.cf) [about_link 1 10] [.receive 1 (about_link 1 10)] ↔
      Quiet_Start corner1 [.receive 1 (about_link 1 10)] :=
  authority_iff corner1 9 [about_link 1 10] [.receive 1 (about_link 1 10)] corner1_old (by decide)
    (by decide) ⟨fun _ => mem_singleton_self _, trivial⟩

/-- Daemon `1` says that its link to `2` is up, is started again, and takes its own message back
from `2`: the link is up again before anything was heard on it. -/
theorem echo_restores_cost :
    (StatusState.init corner1.cf).cost 1 2 = -1 ∧
      ((StatusState.init corner1.cf).handle corner1.cf triangle
        (.receive 1 (about_link 1 10))).cost 1 2 = 10 ∧
      ((StatusState.init corner1.cf).handle corner1.cf triangle
        (.receive 1 (about_link 1 10))).stored 1 = about_link 1 10 ∧
      ¬ Authority corner1 (StatusState.init corner1.cf) [about_link 1 10]
        [.receive 1 (about_link 1 10)] := by
  have hcost : ((StatusState.init corner1.cf).handle corner1.cf triangle
      (.receive 1 (about_link 1 10))).cost 1 2 = 10 := by decide +kernel
  have hacc : status_accepted triangle (about_link 1 10) ((StatusState.init corner1.cf).stored 1) :=
    ⟨by decide, by decide, about_link_form.valid, .inl (by decide)⟩
  refine ⟨rfl, hcost, ?_, fun h => ?_⟩
  · rcases process_status_change_cases corner1.cf triangle 1 (about_link 1 10)
      (StatusState.init corner1.cf) with ⟨hno, -⟩ | ⟨-, hst, -⟩
    · exact absurd hacc hno
    · rw [StatusState.handle, hst]
      exact update_self _ _ _
  · have hsame := congrFun (h.1 rfl).2 2
    rw [show corner1.cf.my_id = 1 from rfl, hcost] at hsame
    exact absurd hsame (by decide)

end Spines.RelFlood
