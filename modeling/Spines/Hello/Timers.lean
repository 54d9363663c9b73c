/-
No timer outlives its link.

`Timed` is the invariant: the tables and the link objects refer to each other
(`Linked`), and each row of the event queue is `Row.Sound` for the link that has
the number, or empty if no link has it. It is kept by every function that
creates or destroys links, queues a timer or runs one, and so a timer that goes
off finds the link for which it was queued.
-/
import Spines.Hello.Events

set_option autoImplicit false

namespace Spines.Hello

open Spines.Lib Function Option
open Spines.StateFlood (Prot_Def)

namespace Daemon

variable {ν : Type} {s : Daemon ν}

/-! ## 1. The invariant -/

/-- The array `Links`, the legs and the link objects refer to each other. -/
structure Linked (s : Daemon ν) : Prop where
  numbers : Slots.Inverse s.Links (fun p => (s.link p).map Link.link_id)
  legs : Slots.Inverse (fun x : ν × Link_Type => (s.leg x.1).links x.2)
    (fun p => (s.link p).map (fun lk => (lk.leg, lk.link_type)))
  fresh : ∀ p lk, s.link p = some lk → p < s.fresh

def reliable (t : Link_Type) : Prop := t = .CONTROL_LINK ∨ t = .RELIABLE_UDP_LINK

/-- `up` are the legs whose control links may have state messages queued. -/
structure Timed (up : ν → Prop) (s : Daemon ν) : Prop extends Linked s where
  data : ∀ p lk, s.link p = some lk → reliable lk.link_type →
    ∃ r, s.r_data p = some r ∧ r.Ordered r.seq_no
  no_data : ∀ p lk, s.link p = some lk → ¬ reliable lk.link_type → s.r_data p = none
  rows : ∀ k p lk, s.Links k = some p → s.link p = some lk →
    (s.queue k).Sound p lk.link_type (up lk.leg) (s.r_data p)
  idle : ∀ k, s.Links k = none → ∀ f, f ≠ Timer.Dead_Leg → s.queue k f = none

theorem Linked.link_of_number (h : Linked s) {k p : ℕ} (hk : s.Links k = some p) :
    ∃ lk, s.link p = some lk ∧ lk.link_id = k := by
  obtain ⟨lk, hlk, hid⟩ := map_eq_some_iff.mp ((h.numbers k p).mp hk)
  exact ⟨lk, hlk, hid⟩

theorem Linked.number_of_link (h : Linked s) {p : ℕ} {lk : Link ν} (hlk : s.link p = some lk) :
    s.Links lk.link_id = some p :=
  (h.numbers lk.link_id p).mpr (by simp [hlk])

theorem Linked.link_of_leg (h : Linked s) {n : ν} {t : Link_Type} {p : ℕ}
    (hp : (s.leg n).links t = some p) :
    ∃ lk, s.link p = some lk ∧ lk.leg = n ∧ lk.link_type = t := by
  obtain ⟨lk, hlk, heq⟩ := map_eq_some_iff.mp ((h.legs (n, t) p).mp hp)
  exact ⟨lk, hlk, congrArg Prod.fst heq, congrArg Prod.snd heq⟩

theorem Linked.leg_of_link (h : Linked s) {p : ℕ} {lk : Link ν} (hlk : s.link p = some lk) :
    (s.leg lk.leg).links lk.link_type = some p :=
  (h.legs (lk.leg, lk.link_type) p).mpr (by simp [hlk])

/-! ## 2. Changes beside the links and the timers -/

section Frame

variable {up : ν → Prop}

theorem Timed.frame {s' : Daemon ν} (h : Timed up s)
    (hleg : ∀ n, (s'.leg n).links = (s.leg n).links) (hLinks : s'.Links = s.Links)
    (hlink : s'.link = s.link) (hdata : s'.r_data = s.r_data) (hfresh : s'.fresh = s.fresh)
    (hqueue : ∀ k f o, s'.queue k f = some o → s.queue k f = some o) : Timed up s' where
  numbers := by
    rw [hLinks, hlink]
    exact h.numbers
  legs := by
    simp only [hleg, hlink]
    exact h.legs
  fresh := by
    rw [hlink, hfresh]
    exact h.fresh
  data := by
    rw [hlink, hdata]
    exact h.data
  no_data := by
    rw [hlink, hdata]
    exact h.no_data
  rows := by
    rw [hLinks, hlink, hdata]
    intro k p lk hk hlk f o hf ho
    exact h.rows k p lk hk hlk f o hf (hqueue k f o ho)
  idle := by
    rw [hLinks]
    intro k hk f hf
    by_contra hq
    obtain ⟨o, ho⟩ := ne_none_iff_exists'.mp hq
    have hold := hqueue k f o ho
    rw [h.idle k hk f hf] at hold
    simp at hold

theorem Timed.narrow {up' : ν → Prop} (h : Timed up s)
    (hup : ∀ n, up n → up' n ∨ (s.leg n).links .CONTROL_LINK = none) : Timed up' s where
  toLinked := h.toLinked
  data := h.data
  no_data := h.no_data
  rows := by
    intro k p lk hk hlk f o hf ho
    have hold := h.rows k p lk hk hlk f o hf ho
    refine ⟨hold.1, ?_⟩
    have hfits := hold.2
    cases f with
    | Net_Send_State_All p_def =>
      refine ⟨hfits.1, (hup lk.leg hfits.2).resolve_right ?_⟩
      have hleg := h.leg_of_link hlk
      rw [hfits.1] at hleg
      simp [hleg]
    | _ => exact hfits
  idle := h.idle

theorem E_dequeue_queue (f g : Timer) (k j : ℕ) (s : Daemon ν) :
    (s.E_dequeue f k).queue j g = if j = k ∧ g = f then none else s.queue j g := by
  by_cases hj : j = k
  · subst hj
    by_cases hg : g = f
    · subst hg
      simp [E_dequeue]
    · simp [E_dequeue, hg]
  · simp [E_dequeue, hj]

theorem Timed.E_dequeue (h : Timed up s) (f : Timer) (k : ℕ) : Timed up (s.E_dequeue f k) := by
  refine h.frame (fun _ => rfl) rfl rfl rfl rfl ?_
  intro j g o ho
  rw [E_dequeue_queue] at ho
  by_cases hjg : j = k ∧ g = f
  · rw [if_pos hjg] at ho
    simp at ho
  · rw [if_neg hjg] at ho
    exact ho

theorem Timed.E_queue (h : Timed up s) {f : Timer} {p : ℕ} {lk : Link ν}
    (hlk : s.link p = some lk) (hfits : f.Fits lk.link_type (up lk.leg) (s.r_data p)) :
    Timed up (s.E_queue f lk.link_id) where
  toLinked := ⟨h.numbers, h.legs, h.fresh⟩
  data := h.data
  no_data := h.no_data
  rows := by
    intro k q lk' hk hlk' g o hg ho
    by_cases hkg : k = lk.link_id ∧ g = f
    · obtain ⟨rfl, rfl⟩ := hkg
      have hk' : s.Links lk.link_id = some q := hk
      have hpq : q = p := some.inj (hk'.symm.trans (h.number_of_link hlk))
      subst hpq
      obtain rfl : lk = lk' := some.inj (hlk.symm.trans hlk')
      have hval : some (s.Links lk.link_id) = some o := by
        simpa [Daemon.E_queue] using ho
      refine ⟨?_, hfits⟩
      rw [← some.inj hval, hk']
    · have hold : s.queue k g = some o := by
        by_cases hk' : k = lk.link_id
        · subst hk'
          have hgf : g ≠ f := fun he => hkg ⟨rfl, he⟩
          simpa [Daemon.E_queue, update_of_ne hgf] using ho
        · simpa [Daemon.E_queue, update_of_ne hk'] using ho
      exact h.rows k q lk' hk hlk' g o hg hold
  idle := by
    intro k hk g hg
    have hk' : s.Links k = none := hk
    have hne : k ≠ lk.link_id := by
      rintro rfl
      rw [h.number_of_link hlk] at hk'
      simp at hk'
    have hold := h.idle k hk' g hg
    simpa [Daemon.E_queue, update_of_ne hne] using hold

variable [DecidableEq ν]

theorem set_leg_links (n : ν) (f : Network_Leg → Network_Leg)
    (hf : ∀ leg, (f leg).links = leg.links) (m : ν) :
    ((s.set_leg n f).leg m).links = (s.leg m).links := by
  by_cases hm : m = n
  · subst hm
    simp [set_leg, hf]
  · simp [set_leg, update_of_ne hm]

theorem set_leg_status (n : ν) (f : Network_Leg → Network_Leg)
    (hf : ∀ leg, (f leg).status = leg.status) (m : ν) (s : Daemon ν) :
    ((s.set_leg n f).leg m).status = (s.leg m).status := by
  by_cases hm : m = n
  · subst hm
    simp [Daemon.set_leg, hf]
  · simp [Daemon.set_leg, update_of_ne hm]

theorem Timed.set_leg (h : Timed up s) (n : ν) (f : Network_Leg → Network_Leg)
    (hf : ∀ leg, (f leg).links = leg.links) : Timed up (s.set_leg n f) :=
  h.frame (set_leg_links n f hf) rfl rfl rfl rfl (fun _ _ _ ho => ho)

end Frame

/-! ## 3. Destroying a link -/

section Destroy

variable {up : ν → Prop}

def OnlyQueue (s s' : Daemon ν) : Prop := ∃ q : ℕ → Row, s' = { s with queue := q }

theorem OnlyQueue.refl (s : Daemon ν) : OnlyQueue s s := ⟨s.queue, rfl⟩

variable {s' s₀ : Daemon ν} {p : ℕ} {lk : Link ν} (k : ℕ) (t : Link_Type) (r : Reliable_Data)
  (g : Timer)

theorem OnlyQueue.E_dequeue (h : OnlyQueue s s') (f : Timer) (k : ℕ) :
    OnlyQueue s (s'.E_dequeue f k) := by
  obtain ⟨q, rfl⟩ := h
  exact ⟨_, rfl⟩

theorem OnlyQueue.ite (h : OnlyQueue s s') (b : Bool) (f : Timer) (k : ℕ) :
    OnlyQueue s (if b = true then s'.E_dequeue f k else s') := by
  by_cases hb : b = true
  · rw [if_pos hb]
    exact h.E_dequeue f k
  · rw [if_neg hb]
    exact h

theorem ite_dequeue_queue (b : Bool) (f g : Timer) (k j : ℕ) (s : Daemon ν) :
    (if b = true then s.E_dequeue f k else s).queue j g
      = if b = true ∧ j = k ∧ g = f then none else s.queue j g := by
  by_cases hb : b = true
  · rw [if_pos hb, E_dequeue_queue]
    simp only [hb, true_and]
  · simp [hb]

theorem cancel_reliable_only (s : Daemon ν) : OnlyQueue s (s.cancel_reliable k t r) := by
  have hflags := ((((OnlyQueue.refl s).ite r.nack_buff .Send_Nack_Retransm k).ite
    r.scheduled_timeout .Reliable_timeout k).ite r.scheduled_ack .Send_Ack k).E_dequeue
      .Try_to_Send k
  by_cases ht : t = .CONTROL_LINK
  · simp only [cancel_reliable, if_pos ht]
    exact ((((hflags.E_dequeue _ _).E_dequeue _ _).E_dequeue _ _).E_dequeue _ _).E_dequeue _ _
  · simp only [cancel_reliable, if_neg ht]
    exact hflags

def Cancelled (t : Link_Type) (r : Reliable_Data) : Timer → Prop
  | .Try_to_Send => True
  | .Send_Nack_Retransm => r.nack_buff = true
  | .Reliable_timeout => r.scheduled_timeout = true
  | .Send_Ack => r.scheduled_ack = true
  | .Send_Hello | .Send_Hello_Request | .Send_Hello_Request_Cnt | .Net_Send_State_All _ =>
    t = .CONTROL_LINK
  | .Dead_Leg | .Send_RT_Nack | .Send_RT_Retransm => False

theorem cancel_reliable_row (hg : Cancelled t r g) :
    (s.cancel_reliable k t r).queue k g = none := by
  by_cases ht : t = .CONTROL_LINK
  · simp only [cancel_reliable, ht, if_true, E_dequeue_queue, ite_dequeue_queue]
    cases g with
    | Net_Send_State_All p_def => cases p_def <;> simp
    | _ => simp_all [Cancelled]
  · simp only [cancel_reliable, ht, if_false, E_dequeue_queue, ite_dequeue_queue]
    cases g <;> simp_all [Cancelled]

theorem cancel_reliable_keep (j : ℕ) (g : Timer) (o : Option ℕ)
    (h : (s.cancel_reliable k t r).queue j g = some o) : s.queue j g = some o := by
  by_cases ht : t = .CONTROL_LINK
  · simp only [cancel_reliable, ht, if_true, E_dequeue_queue, ite_dequeue_queue] at h
    grind
  · simp only [cancel_reliable, ht, if_false, E_dequeue_queue, ite_dequeue_queue] at h
    grind

theorem OnlyQueue.timed (h : OnlyQueue s s₀) (ht : Timed up s)
    (hkeep : ∀ j g o, s₀.queue j g = some o → s.queue j g = some o) : Timed up s₀ := by
  obtain ⟨q, rfl⟩ := h
  exact ht.frame (fun _ => rfl) rfl rfl rfl rfl hkeep

theorem OnlyQueue.link (h : OnlyQueue s s₀) : s₀.link = s.link := by
  obtain ⟨q, rfl⟩ := h
  rfl

structure Torn (n : ν) (s s' : Daemon ν) : Prop where
  self : s'.leg n = { s.leg n with links := (s'.leg n).links }
  other : ∀ m, m ≠ n → s'.leg m = s.leg m
  links : ∀ t p, (s'.leg n).links t = some p → (s.leg n).links t = some p
  edge_cost : s'.edge_cost = s.edge_cost
  neighbor_id : s'.neighbor_id = s.neighbor_id
  Neighbor_Nodes : s'.Neighbor_Nodes = s.Neighbor_Nodes
  Num_Neighbors : s'.Num_Neighbors = s.Num_Neighbors
  Links : ∀ k p, s'.Links k = some p → s.Links k = some p

theorem Torn.refl (n : ν) (s : Daemon ν) : Torn n s s :=
  ⟨rfl, fun _ _ => rfl, fun _ _ hp => hp, rfl, rfl, rfl, rfl, fun _ _ hp => hp⟩

theorem Torn.trans {n : ν} {s1 s2 s3 : Daemon ν} (h : Torn n s1 s2) (h' : Torn n s2 s3) :
    Torn n s1 s3 where
  self := by
    rw [h'.self, h.self]
  other m hm := (h'.other m hm).trans (h.other m hm)
  links t p hp := h.links t p (h'.links t p hp)
  edge_cost := h'.edge_cost.trans h.edge_cost
  neighbor_id := h'.neighbor_id.trans h.neighbor_id
  Neighbor_Nodes := h'.Neighbor_Nodes.trans h.Neighbor_Nodes
  Num_Neighbors := h'.Num_Neighbors.trans h.Num_Neighbors
  Links k p hp := h.Links k p (h'.Links k p hp)

theorem map_update (link : ℕ → Option (Link ν)) (p : ℕ) {β : Type} (f : Link ν → β)
    (v : Option (Link ν)) : update (fun q => (link q).map f) p (v.map f)
      = fun q => (update link p v q).map f := by
  funext q
  by_cases hq : q = p
  · subst hq
    simp
  · simp [hq]

theorem set_link_table [DecidableEq ν] (n : ν) (mode : Link_Type) (v : Option ℕ) (s : Daemon ν) :
    (fun x : ν × Link_Type => ((s.set_link n mode v).leg x.1).links x.2)
      = update (fun x : ν × Link_Type => (s.leg x.1).links x.2) (n, mode) v := by
  funext ⟨m, t⟩
  by_cases hm : m = n
  · subst hm
    by_cases ht : t = mode
    · subst ht
      simp [set_link, set_leg]
    · have hne : (m, t) ≠ (m, mode) := fun he => ht (congrArg Prod.snd he)
      simp [set_link, set_leg, ht, hne]
  · have hne : (m, t) ≠ (n, mode) := fun he => hm (congrArg Prod.fst he)
    simp [set_link, set_leg, hm, hne]

variable [DecidableEq ν]

theorem Timed.free_link (h : Timed up s) (hlk : s.link p = some lk)
    (hempty : ∀ f, f ≠ Timer.Dead_Leg → s.queue lk.link_id f = none) :
    Timed up (s.free_link p lk) where
  numbers := by
    have hleave := h.numbers.leave (a := p) (k := lk.link_id) (by simp [hlk])
    exact map_update s.link p Link.link_id none ▸ hleave
  legs := by
    have hleave := h.legs.leave (a := p) (k := (lk.leg, lk.link_type)) (by simp [hlk])
    rw [← set_link_table] at hleave
    exact map_update s.link p (fun lk => (lk.leg, lk.link_type)) none ▸ hleave
  fresh := by
    intro q lk' hq
    have hold : s.link q = some lk' := by
      by_cases hqp : q = p
      · subst hqp
        simp [Daemon.free_link] at hq
      · simpa [Daemon.free_link, Daemon.set_link, Daemon.set_leg, hqp] using hq
    exact h.fresh q lk' hold
  data := by
    intro q lk' hq hrel
    by_cases hqp : q = p
    · subst hqp
      simp [Daemon.free_link] at hq
    · simp only [Daemon.free_link, update_of_ne hqp] at hq ⊢
      exact h.data q lk' hq hrel
  no_data := by
    intro q lk' hq hrel
    by_cases hqp : q = p
    · subst hqp
      simp [Daemon.free_link] at hq
    · simp only [Daemon.free_link, update_of_ne hqp] at hq ⊢
      exact h.no_data q lk' hq hrel
  rows := by
    intro k q lk' hk hq
    by_cases hqp : q = p
    · subst hqp
      simp [Daemon.free_link] at hq
    · by_cases hkid : k = lk.link_id
      · subst hkid
        simp [Daemon.free_link] at hk
      · simp only [Daemon.free_link, update_of_ne hqp, update_of_ne hkid]
          at hk hq ⊢
        exact h.rows k q lk' hk hq
  idle := by
    intro k hk f hf
    by_cases hkid : k = lk.link_id
    · subst hkid
      exact hempty f hf
    · simp only [Daemon.free_link, update_of_ne hkid] at hk
      exact h.idle k hk f hf

structure Freed (lk : Link ν) (p : ℕ) (s s' : Daemon ν) : Prop where
  leg : s'.leg = (s.set_link lk.leg lk.link_type none).leg
  edge_cost : s'.edge_cost = s.edge_cost
  neighbor_id : s'.neighbor_id = s.neighbor_id
  Neighbor_Nodes : s'.Neighbor_Nodes = s.Neighbor_Nodes
  Num_Neighbors : s'.Num_Neighbors = s.Num_Neighbors
  link : s'.link = Function.update s.link p none
  Links : s'.Links = Function.update s.Links lk.link_id none

theorem Freed.of_only (h : OnlyQueue s s₀) (lk : Link ν) (p : ℕ) :
    Freed lk p s (s₀.free_link p lk) := by
  obtain ⟨q, rfl⟩ := h
  exact ⟨rfl, rfl, rfl, rfl, rfl, rfl, rfl⟩

theorem cancelled_of_fits {t : Link_Type} {up' : Prop} {r : Reliable_Data} {f : Timer}
    (hf : f ≠ .Dead_Leg) (ht : t ≠ .REALTIME_UDP_LINK) (h : f.Fits t up' (some r)) :
    Cancelled t r f := by
  cases f <;> simp_all [Timer.Fits, Cancelled]

theorem Timed.cancelled (h : Timed up s) (hlk : s.link p = some lk)
    (hit : lk.link_type ≠ .INTRUSION_TOL_LINK) :
    ∃ s₀, OnlyQueue s s₀ ∧ (∀ j g o, s₀.queue j g = some o → s.queue j g = some o)
      ∧ (∀ f, f ≠ Timer.Dead_Leg → s₀.queue lk.link_id f = none)
      ∧ s.Destroy_Link lk.link_id = some (s₀.free_link p lk) := by
  have hk := h.number_of_link hlk
  have hrow := h.rows lk.link_id p lk hk hlk
  have hfits : ∀ f, f ≠ Timer.Dead_Leg → s.queue lk.link_id f ≠ none →
      f.Fits lk.link_type (up lk.leg) (s.r_data p) := by
    intro f hf hq
    obtain ⟨o, ho⟩ := ne_none_iff_exists'.mp hq
    exact (hrow f o hf ho).2
  by_cases hrel : reliable lk.link_type
  · obtain ⟨r, hr, -⟩ := h.data p lk hlk hrel
    have hrt : lk.link_type ≠ .REALTIME_UDP_LINK := by
      rcases hrel with hc | hc <;> simp [hc]
    refine ⟨s.cancel_reliable lk.link_id lk.link_type r, cancel_reliable_only _ _ _ _,
      cancel_reliable_keep _ _ _, ?_, ?_⟩
    · intro f hf
      by_contra hq
      obtain ⟨o, ho⟩ := ne_none_iff_exists'.mp hq
      have hold := cancel_reliable_keep _ _ _ _ _ _ ho
      have hcan := cancelled_of_fits hf hrt (hr ▸ hfits f hf (by simp [hold]))
      exact hq (cancel_reliable_row _ _ _ _ hcan)
    · simp only [Destroy_Link, hk, bind_some, hlk, map_some, if_neg hit, hr,
        if_neg hrt]
  · have hnone := h.no_data p lk hlk hrel
    by_cases hrt : lk.link_type = .REALTIME_UDP_LINK
    · refine ⟨s.cancel_realtime lk.link_id, ((OnlyQueue.refl s).E_dequeue _ _).E_dequeue _ _,
        ?_, ?_, ?_⟩
      · intro j g o ho
        simp only [cancel_realtime, E_dequeue_queue] at ho
        grind
      · intro f hf
        by_contra hq
        have hold : s.queue lk.link_id f ≠ none := by
          intro hq'
          simp [cancel_realtime, E_dequeue_queue, hq'] at hq
        have hff := hfits f hf hold
        rw [hnone, hrt] at hff
        cases f <;> simp_all [Timer.Fits, cancel_realtime, E_dequeue_queue]
      · simp only [Destroy_Link, hk, bind_some, hlk, map_some, if_neg hit, hnone,
          if_pos hrt]
    · refine ⟨s, OnlyQueue.refl s, fun _ _ _ ho => ho, ?_, ?_⟩
      · intro f hf
        by_contra hq
        have hff := hfits f hf hq
        rw [hnone] at hff
        have hc : lk.link_type ≠ .CONTROL_LINK := fun hc => hrel (.inl hc)
        cases f <;> simp_all [Timer.Fits]
      · simp only [Destroy_Link, hk, bind_some, hlk, map_some, if_neg hit, hnone,
          if_neg hrt]

theorem Timed.Destroy_Link (h : Timed up s) (hlk : s.link p = some lk)
    (hit : lk.link_type ≠ .INTRUSION_TOL_LINK) :
    ∃ s', s.Destroy_Link lk.link_id = some s' ∧ Timed up s' ∧ Freed lk p s s' := by
  obtain ⟨s₀, honly, hkeep, hempty, heq⟩ := h.cancelled hlk hit
  have ht := honly.timed h hkeep
  have hlk0 : s₀.link p = some lk := by
    rw [honly.link]
    exact hlk
  exact ⟨_, heq, ht.free_link hlk0 hempty, Freed.of_only honly lk p⟩

theorem Freed.torn (h : Freed lk p s s') : Torn lk.leg s s' where
  self := by
    rw [h.leg]
    simp [set_link, set_leg]
  other m hm := by
    rw [h.leg]
    simp [set_link, set_leg, hm]
  links t q hq := by
    rw [h.leg] at hq
    by_cases ht : t = lk.link_type
    · subst ht
      simp [set_link, set_leg] at hq
    · simpa [set_link, set_leg, ht] using hq
  edge_cost := h.edge_cost
  neighbor_id := h.neighbor_id
  Neighbor_Nodes := h.Neighbor_Nodes
  Num_Neighbors := h.Num_Neighbors
  Links k q hq := by
    rw [h.Links] at hq
    by_cases hk : k = lk.link_id
    · subst hk
      simp at hq
    · rwa [update_of_ne hk] at hq

theorem Timed.destroy_link (h : Timed up s) (n : ν) (mode : Link_Type) :
    ∃ s', s.destroy_link n mode = some s' ∧ Timed up s' ∧ Torn n s s'
      ∧ (mode ≠ .INTRUSION_TOL_LINK → (s'.leg n).links mode = none) := by
  by_cases hnone : (s.leg n).links mode = none
  · exact ⟨s, by rw [Daemon.destroy_link, hnone], h, Torn.refl n s, fun _ => hnone⟩
  · obtain ⟨p, hp⟩ := ne_none_iff_exists'.mp hnone
    obtain ⟨lk, hlk, rfl, rfl⟩ := h.link_of_leg hp
    have hround : s.destroy_link lk.leg lk.link_type = s.Destroy_Link lk.link_id := by
      rw [Daemon.destroy_link, hp]
      simp only [hlk, bind_some]
    by_cases hit : lk.link_type = .INTRUSION_TOL_LINK
    · refine ⟨s, ?_, h, Torn.refl _ s, fun hne => absurd hit hne⟩
      rw [hround, Daemon.Destroy_Link, h.number_of_link hlk]
      simp only [bind_some, hlk, map_some, if_pos hit]
    · obtain ⟨s', heq, ht, hfreed⟩ := h.Destroy_Link hlk hit
      refine ⟨s', hround.trans heq, ht, hfreed.torn, fun _ => ?_⟩
      rw [hfreed.leg]
      simp [Daemon.set_link, Daemon.set_leg]

theorem Timed.destroy_links (h : Timed up s) (n : ν) (modes : List Link_Type) :
    ∃ s', modes.foldlM (Daemon.destroy_link n) s = some s' ∧ Timed up s' ∧ Torn n s s'
      ∧ ∀ t ∈ modes, t ≠ .INTRUSION_TOL_LINK → (s'.leg n).links t = none := by
  induction modes generalizing s with
  | nil => exact ⟨s, rfl, h, Torn.refl n s, by simp⟩
  | cons mode modes ih =>
    obtain ⟨s1, heq1, ht1, htorn1, hmode⟩ := h.destroy_link n mode
    obtain ⟨s', heq, ht, htorn, hmodes⟩ := ih ht1
    refine ⟨s', ?_, ht, htorn1.trans htorn, ?_⟩
    · rw [List.foldlM_cons, heq1]
      exact heq
    · intro t hmem hit
      rcases List.mem_cons.mp hmem with rfl | hmem
      · by_contra hq
        obtain ⟨p, hp⟩ := ne_none_iff_exists'.mp hq
        have hold := htorn.links t p hp
        rw [hmode hit] at hold
        simp at hold
      · exact hmodes t hmem hit

theorem Timed.destroy_all (h : Timed up s) (n : ν) :
    ∃ s', Link_Type.all.foldlM (Daemon.destroy_link n) s = some s' ∧ Timed up s' ∧ Torn n s s'
      ∧ ∀ t, t ≠ .INTRUSION_TOL_LINK → (s'.leg n).links t = none := by
  obtain ⟨s', heq, ht, htorn, hgone⟩ := h.destroy_links n Link_Type.all
  refine ⟨s', heq, ht, htorn, fun t => hgone t ?_⟩
  cases t <;> decide

end Destroy

/-! ## 4. Creating a link -/

section Create

variable {up : ν → Prop} [DecidableEq ν]

variable {n : ν} {s' : Daemon ν}

theorem Timed.new_link (h : Timed up s) {mode : Link_Type} {linkid : ℕ}
    (hfree : s.Links linkid = none) (hslot : (s.leg n).links mode = none) (w : Window) :
    Timed up (s.new_link n mode linkid w) := by
  have hunused : s.link s.fresh = none := by
    by_contra hq
    obtain ⟨lk, hlk⟩ := ne_none_iff_exists'.mp hq
    exact absurd (h.fresh _ lk hlk) (lt_irrefl _)
  have hold : ∀ q lk, (s.new_link n mode linkid w).link q = some lk → q ≠ s.fresh →
      s.link q = some lk := by
    intro q lk hq hne
    simpa [Daemon.new_link, Daemon.set_link, Daemon.set_leg, hne] using hq
  have hnew : ∀ lk, (s.new_link n mode linkid w).link s.fresh = some lk → lk = ⟨linkid, mode, n⟩ := by
    intro lk hq
    have heq : some (⟨linkid, mode, n⟩ : Link ν) = some lk := by
      simpa [Daemon.new_link, Daemon.set_link, Daemon.set_leg] using hq
    exact (some.inj heq).symm
  constructor
  case toLinked =>
    constructor
    case numbers =>
      have htake := h.numbers.take hfree (a := s.fresh) (by simp [hunused])
      exact map_update s.link s.fresh Link.link_id (some ⟨linkid, mode, n⟩) ▸ htake
    case legs =>
      have htake := h.legs.take (k := (n, mode)) hslot (a := s.fresh) (by simp [hunused])
      rw [← set_link_table] at htake
      exact map_update s.link s.fresh (fun lk => (lk.leg, lk.link_type))
        (some ⟨linkid, mode, n⟩) ▸ htake
    case fresh =>
      intro q lk hq
      by_cases hne : q = s.fresh
      · subst hne
        exact Nat.lt_succ_self _
      · exact Nat.lt_succ_of_lt (h.fresh q lk (hold q lk hq hne))
  case data =>
    intro q lk hq hrel
    by_cases hne : q = s.fresh
    · subst hne
      obtain rfl := hnew lk hq
      refine ⟨Reliable_Data.new w, ?_, rfl⟩
      rcases hrel with hc | hc <;>
        simp_all [Daemon.new_link, Daemon.set_link, Daemon.set_leg]
    · obtain ⟨r, hr, hord⟩ := h.data q lk (hold q lk hq hne) hrel
      refine ⟨r, ?_, hord⟩
      simpa [Daemon.new_link, Daemon.set_link, Daemon.set_leg, hne] using hr
  case no_data =>
    intro q lk hq hrel
    by_cases hne : q = s.fresh
    · subst hne
      obtain rfl := hnew lk hq
      have hmode : ¬ (mode = .CONTROL_LINK ∨ mode = .RELIABLE_UDP_LINK) := hrel
      simp [Daemon.new_link, Daemon.set_link, Daemon.set_leg, hmode]
    · have hr := h.no_data q lk (hold q lk hq hne) hrel
      simpa [Daemon.new_link, Daemon.set_link, Daemon.set_leg, hne] using hr
  case rows =>
    intro k q lk hk hq
    by_cases hkid : k = linkid
    · -- the row of a free number is empty
      subst hkid
      intro f o hf ho
      have hrow := h.idle k hfree f hf
      have ho' : s.queue k f = some o := ho
      rw [hrow] at ho'
      simp at ho'
    · have hk' : s.Links k = some q := by
        simpa [Daemon.new_link, Daemon.set_link, Daemon.set_leg, hkid] using hk
      have hne : q ≠ s.fresh := by
        rintro rfl
        obtain ⟨lk', hlk', -⟩ := h.link_of_number hk'
        rw [hunused] at hlk'
        simp at hlk'
      have hrow := h.rows k q lk hk' (hold q lk hq hne)
      simpa [Daemon.new_link, Daemon.set_link, Daemon.set_leg, hne] using hrow
  case idle =>
    intro k hk f hf
    by_cases hkid : k = linkid
    · subst hkid
      simp [Daemon.new_link, Daemon.set_link, Daemon.set_leg] at hk
    · have hk' : s.Links k = none := by
        simpa [Daemon.new_link, Daemon.set_link, Daemon.set_leg, hkid] using hk
      exact h.idle k hk' f hf

theorem new_link_object (n : ν) (mode : Link_Type) (linkid : ℕ) (w : Window) (s : Daemon ν) :
    (s.new_link n mode linkid w).link s.fresh = some ⟨linkid, mode, n⟩ := by
  simp [new_link, set_link, set_leg]

theorem add_neighbor_cases (h : s.add_neighbor n = some s') :
    (∃ k, s.neighbor_id n = some k ∧ s' = s) ∨ (∃ k, s.neighbor_id n = none
      ∧ Slots.first_free s.Neighbor_Nodes (MAX_LINKS / MAX_LINKS_4_EDGE) = some k
      ∧ s' = { s with
        neighbor_id := update s.neighbor_id n (some k)
        Num_Neighbors := max s.Num_Neighbors (k + 1)
        Neighbor_Nodes := update s.Neighbor_Nodes k (some n) }) := by
  cases hold : s.neighbor_id n with
  | some k =>
    rw [add_neighbor, hold] at h
    exact .inl ⟨k, rfl, (some.inj h).symm⟩
  | none =>
    rw [add_neighbor, hold] at h
    obtain ⟨k, hk, rfl⟩ := map_eq_some_iff.mp h
    exact .inr ⟨k, rfl, hk, rfl⟩

theorem Timed.add_neighbor (h : Timed up s) (heq : s.add_neighbor n = some s') :
    Timed up s' ∧ s'.leg = s.leg ∧ s'.link = s.link := by
  rcases add_neighbor_cases heq with ⟨k, -, rfl⟩ | ⟨k, -, -, rfl⟩
  · exact ⟨h, rfl, rfl⟩
  · exact ⟨h.frame (fun _ => rfl) rfl rfl rfl rfl (fun _ _ _ ho => ho), rfl, rfl⟩

theorem Timed.start_control (h : Timed up s) {p linkid : ℕ}
    (hlk : s.link p = some ⟨linkid, .CONTROL_LINK, n⟩) (heq : s.start_control n linkid = some s') :
    Timed up s' ∧ (s.leg n).status = .DISCONNECTED_LEG ∧ ∀ m, m ≠ n → s'.leg m = s.leg m := by
  rw [Daemon.start_control] at heq
  by_cases hidle : (s.leg n).status = .DISCONNECTED_LEG ∧ (s.leg n).cost = -1
  · rw [if_pos hidle] at heq
    obtain ⟨t, ht, rfl⟩ := map_eq_some_iff.mp heq
    have hset := h.set_leg n Network_Leg.wait (fun _ => rfl)
    obtain ⟨hsound, hleg, hlink⟩ := hset.add_neighbor ht
    have hlk' : t.link p = some ⟨linkid, .CONTROL_LINK, n⟩ := by
      rw [hlink]
      exact hlk
    refine ⟨hsound.E_queue hlk' rfl, hidle.1, ?_⟩
    intro m hm
    have hsame : t.leg m = s.leg m := by
      rw [hleg]
      simp [Daemon.set_leg, hm]
    exact hsame
  · simp [if_neg hidle] at heq

theorem Timed.Create_Link (h : Timed up s) {cfg : Config ν} {mode : Link_Type} {k : ℕ}
    (heq : s.Create_Link cfg n mode = some (s', k)) :
    Timed up s' ∧ ∀ m, (s.leg m).status = .CONNECTED_LEG → (s'.leg m).status = .CONNECTED_LEG := by
  rcases Create_Link_cases heq with ⟨-, rfl⟩ | ⟨hslot, hfree, hrest⟩
  · exact ⟨h, fun _ hm => hm⟩
  · have hnew := h.new_link (Slots.first_free_spec hfree).2 hslot cfg.initial_window
    have hstatus : ∀ m, ((s.new_link n mode k cfg.initial_window).leg m).status
        = (s.leg m).status := by
      intro m
      by_cases hm : m = n
      · subst hm
        simp [Daemon.new_link, Daemon.set_link, Daemon.set_leg]
      · simp [Daemon.new_link, Daemon.set_link, Daemon.set_leg, hm]
    rcases hrest with ⟨-, rfl⟩ | ⟨rfl, hstart⟩
    · exact ⟨hnew, fun m hm => (hstatus m).trans hm⟩
    · obtain ⟨hsound, hdis, hother⟩ :=
        hnew.start_control (new_link_object n .CONTROL_LINK k cfg.initial_window s) hstart
      refine ⟨hsound, fun m hm => ?_⟩
      have hne : m ≠ n := by
        rintro rfl
        rw [hstatus m, hm] at hdis
        simp at hdis
      rw [hother m hne, hstatus m]
      exact hm

end Create

/-! ## 5. Costs and connections -/

def Up (s : Daemon ν) : ν → Prop := fun n => (s.leg n).status = .CONNECTED_LEG

section Connect

variable {up : ν → Prop}

theorem Timed.queue_states (h : Timed up s) {p : ℕ} {lk : Link ν} (hlk : s.link p = some lk)
    (htype : lk.link_type = .CONTROL_LINK) (hup : up lk.leg) :
    Timed up (s.queue_states lk.link_id) := by
  have hedges := h.E_queue hlk (f := .Net_Send_State_All .Edge_Prot_Def) ⟨htype, hup⟩
  exact hedges.E_queue hlk (f := .Net_Send_State_All .Groups_Prot_Def) ⟨htype, hup⟩

variable [DecidableEq ν]

theorem put_cost_leg (n m : ν) (c : ℤ) (s : Daemon ν) :
    ((s.put_cost n c).leg m).status = (s.leg m).status
      ∧ ((s.put_cost n c).leg m).links = (s.leg m).links := by
  by_cases hm : m = n
  · subst hm
    simp [put_cost, set_leg]
  · simp [put_cost, set_leg, hm]

theorem Timed.put_cost (h : Timed up s) (n : ν) (c : ℤ) : Timed up (s.put_cost n c) :=
  h.frame (fun m => (put_cost_leg n m c s).2) rfl rfl rfl rfl (fun _ _ _ ho => ho)

theorem Timed.Set_Cost (h : Timed up s) {n : ν} {c : ℤ} {s' : Daemon ν}
    (hup : (s.leg n).status = .CONNECTED_LEG → up n) (heq : s.Network_Leg_Set_Cost n c = some s') :
    Timed up s' ∧ ∀ m, (s'.leg m).status = (s.leg m).status
      ∧ (s'.leg m).links = (s.leg m).links := by
  have hput := h.put_cost n c
  have hleg := fun m => put_cost_leg n m c s
  rcases Network_Leg_Set_Cost_cases heq with
    ⟨-, rfl⟩ | ⟨-, -, hst, p, lk, hp, hlk, rfl⟩ | ⟨-, -, -, k, -, rfl⟩ | ⟨-, -, -, rfl⟩
  · exact ⟨h, fun _ => ⟨rfl, rfl⟩⟩
  · obtain ⟨lk', hlk', hn, htype⟩ := h.link_of_leg hp
    obtain rfl : lk = lk' := some.inj (hlk.symm.trans hlk')
    exact ⟨hput.queue_states hlk htype (hn ▸ hup hst), hleg⟩
  · exact ⟨hput.frame (fun _ => rfl) rfl rfl rfl rfl (fun _ _ _ ho => ho), hleg⟩
  · exact ⟨hput, hleg⟩

theorem Timed.take_down (h : Timed up s) (n : ν) :
    ∃ s1, Link_Type.all.foldlM (Daemon.destroy_link n) (s.set_leg n Network_Leg.drop) = some s1
      ∧ Timed up s1 ∧ Torn n (s.set_leg n Network_Leg.drop) s1
      ∧ ∀ t, t ≠ .INTRUSION_TOL_LINK → (s1.leg n).links t = none :=
  (h.set_leg n Network_Leg.drop (fun _ => rfl)).destroy_all n

theorem Timed.Disconnect_Network_Leg (h : Timed (Up s) s) {n : ν} {s' : Daemon ν}
    (heq : s.Disconnect_Network_Leg n = some s') : Timed (Up s') s' := by
  rw [Daemon.Disconnect_Network_Leg] at heq
  by_cases hdis : (s.leg n).status = .DISCONNECTED_LEG
  · simp [if_pos hdis] at heq
  · rw [if_neg hdis] at heq
    obtain ⟨s1, hloop, ht, htorn, hgone⟩ := h.take_down n
    rw [hloop] at heq
    have hstatus : (s1.leg n).status = .DISCONNECTED_LEG := by
      rw [htorn.self]
      simp [Daemon.set_leg, Network_Leg.drop]
    obtain ⟨ht', hleg⟩ := ht.Set_Cost (fun hc => by simp [hstatus] at hc) heq
    apply ht'.narrow
    intro m hm
    by_cases hmn : m = n
    · subst hmn
      exact .inr (by rw [(hleg m).2]; exact hgone _ (by simp))
    · refine .inl ?_
      have hsame : (s1.leg m).status = (s.leg m).status := by
        rw [htorn.other m hmn]
        simp [Daemon.set_leg, hmn]
      rw [Up, (hleg m).1, hsame]
      exact hm

end Connect

/-! ## 6. Reliable links -/

section Reliable

variable {up : ν → Prop}

/-- Links, costs and neighbors are as they were; counters, reliable data and
timers may have changed. -/
structure Calm (s s' : Daemon ν) : Prop where
  status : ∀ m, (s'.leg m).status = (s.leg m).status
  cost : ∀ m, (s'.leg m).cost = (s.leg m).cost
  links : ∀ m, (s'.leg m).links = (s.leg m).links
  edge_cost : s'.edge_cost = s.edge_cost
  neighbor_id : s'.neighbor_id = s.neighbor_id
  Neighbor_Nodes : s'.Neighbor_Nodes = s.Neighbor_Nodes
  Num_Neighbors : s'.Num_Neighbors = s.Num_Neighbors
  Links : s'.Links = s.Links

theorem Calm.refl (s : Daemon ν) : Calm s s :=
  ⟨fun _ => rfl, fun _ => rfl, fun _ => rfl, rfl, rfl, rfl, rfl, rfl⟩

theorem Calm.trans {s1 s2 s3 : Daemon ν} (h : Calm s1 s2) (h' : Calm s2 s3) : Calm s1 s3 where
  status m := (h'.status m).trans (h.status m)
  cost m := (h'.cost m).trans (h.cost m)
  links m := (h'.links m).trans (h.links m)
  edge_cost := h'.edge_cost.trans h.edge_cost
  neighbor_id := h'.neighbor_id.trans h.neighbor_id
  Neighbor_Nodes := h'.Neighbor_Nodes.trans h.Neighbor_Nodes
  Num_Neighbors := h'.Num_Neighbors.trans h.Num_Neighbors
  Links := h'.Links.trans h.Links

theorem Calm.put (s : Daemon ν) (r : ℕ → Option Reliable_Data) (q : ℕ → Row) :
    Calm s { s with r_data := r, queue := q } :=
  ⟨fun _ => rfl, fun _ => rfl, fun _ => rfl, rfl, rfl, rfl, rfl, rfl⟩

theorem Timed.calm {s' : Daemon ν} (h : Timed (Up s) s') (hcalm : Calm s s') : Timed (Up s') s' :=
  h.narrow (fun m hm => .inl (by rw [Up, hcalm.status m]; exact hm))

theorem Timed.on_rel (h : Timed up s) {p : ℕ} {lk : Link ν} {r : Reliable_Data}
    (hlk : s.link p = some lk) (hr : s.r_data p = some r) {f : ℕ → Rel → Option Rel}
    (hf : ∃ x, f p ⟨r, s.queue lk.link_id⟩ = some x ∧ x.Sound p lk.link_type (up lk.leg)
      ∧ x.r.Ordered x.r.seq_no) :
    ∃ s', s.on_rel lk.link_id f = some s' ∧ Timed up s' ∧ Calm s s' := by
  obtain ⟨x, hx, hsound, hord⟩ := hf
  have hk := h.number_of_link hlk
  refine ⟨s.put_rel lk.link_id p x, ?_, ?_, Calm.put s _ _⟩
  · simp only [Daemon.on_rel, hk, bind_some, hr, hx, map_some]
  · constructor
    case toLinked => exact ⟨h.numbers, h.legs, h.fresh⟩
    case data =>
      intro q lk' hq hrel
      by_cases hqp : q = p
      · subst hqp
        exact ⟨x.r, by simp [put_rel], hord⟩
      · simpa [put_rel, hqp] using h.data q lk' hq hrel
    case no_data =>
      intro q lk' hq hrel
      by_cases hqp : q = p
      · subst hqp
        have hnone := h.no_data q lk' hq hrel
        rw [hr] at hnone
        simp at hnone
      · simpa [put_rel, hqp] using h.no_data q lk' hq hrel
    case rows =>
      intro k q lk' hkq hq
      by_cases hkid : k = lk.link_id
      · subst hkid
        obtain rfl : p = q := some.inj (hk.symm.trans hkq)
        obtain rfl : lk = lk' := some.inj (hlk.symm.trans hq)
        simpa [put_rel, Rel.Sound] using hsound
      · have hne : q ≠ p := by
          rintro rfl
          exact hkid (h.numbers.same_place hkq hk)
        simpa [put_rel, hkid, hne] using h.rows k q lk' hkq hq
    case idle =>
      intro k hkn f' hf'
      have hne : k ≠ lk.link_id := by
        rintro rfl
        have hkn' : s.Links lk.link_id = none := hkn
        rw [hk] at hkn'
        simp at hkn'
      simpa [put_rel, hne] using h.idle k hkn f' hf'

theorem Timed.rel (h : Timed up s) {p : ℕ} {lk : Link ν} (hlk : s.link p = some lk)
    (hrel : reliable lk.link_type) : ∃ r, s.r_data p = some r ∧ r.Ordered r.seq_no
      ∧ (⟨r, s.queue lk.link_id⟩ : Rel).Sound p lk.link_type (up lk.leg) := by
  obtain ⟨r, hr, hord⟩ := h.data p lk hlk hrel
  have hrow := h.rows lk.link_id p lk (h.number_of_link hlk) hlk
  rw [hr] at hrow
  exact ⟨r, hr, hord, hrow⟩

theorem send_messages_spec {lk : ℕ} {t : Link_Type} {up' : Prop} (k : ℕ) {x : Rel}
    (h : x.Sound lk t up') (hord : x.r.Ordered x.r.seq_no) :
    ∃ x', send_messages k lk x = some x' ∧ x'.Sound lk t up' ∧ x'.r.Ordered x'.r.seq_no := by
  induction k generalizing x with
  | zero => exact ⟨x, rfl, h, hord⟩
  | succ k ih =>
    obtain ⟨y, hy, hysound, hyord⟩ := Rel.Reliable_Send_Msg_spec h hord
    obtain ⟨x', hx', hsound, hord'⟩ := ih hysound hyord
    refine ⟨x', ?_, hsound, hord'⟩
    rw [send_messages, hy]
    exact hx'

theorem Timed.send (h : Timed up s) {p : ℕ} {lk : Link ν} (hlk : s.link p = some lk)
    (hrel : reliable lk.link_type) (k : ℕ) :
    ∃ s', s.on_rel lk.link_id (send_messages k) = some s' ∧ Timed up s' ∧ Calm s s' := by
  obtain ⟨r, hr, hord, hsound⟩ := h.rel hlk hrel
  exact h.on_rel hlk hr (send_messages_spec k hsound hord)

end Reliable

/-! ## 7. Timers that go off -/

section Fire

variable {up : ν → Prop} {k p : ℕ} {lk : Link ν} {f : Timer}

theorem control_link_of_type (hk : s.Links k = some p) (hlk : s.link p = some lk)
    (ht : lk.link_type = .CONTROL_LINK) : s.control_link k = some lk := by
  simp [control_link, hk, hlk, ht]

theorem Timed.object (h : Timed up s) {o : Option ℕ} (hf : f ≠ .Dead_Leg)
    (hq : s.queue k f = some o) :
    ∃ p lk, o = some p ∧ s.Links k = some p ∧ s.link p = some lk ∧ lk.link_id = k
      ∧ f.Fits lk.link_type (up lk.leg) (s.r_data p) := by
  have hnone : s.Links k ≠ none := by
    intro hnone
    rw [h.idle k hnone f hf] at hq
    simp at hq
  obtain ⟨p, hp⟩ := ne_none_iff_exists'.mp hnone
  obtain ⟨lk, hlk, hid⟩ := h.link_of_number hp
  obtain ⟨ho, hfits⟩ := h.rows k p lk hp hlk f o hf hq
  exact ⟨p, lk, ho, hp, hlk, hid, hfits⟩

theorem reliable_of_fits (h : Timed up s) (hlk : s.link p = some lk) {r : Reliable_Data}
    (hr : s.r_data p = some r) : reliable lk.link_type := by
  by_contra hrel
  rw [h.no_data p lk hlk hrel] at hr
  simp at hr

variable [DecidableEq ν]

theorem Calm.set_leg (n : ν) (f : Network_Leg → Network_Leg)
    (hf : ∀ leg, (f leg).status = leg.status ∧ (f leg).cost = leg.cost ∧ (f leg).links = leg.links)
    (s : Daemon ν) : Calm s (s.set_leg n f) where
  status := fun m => set_leg_status n f (fun leg => (hf leg).1) m s
  cost := fun m => by
    by_cases hm : m = n
    · subst hm
      simp [Daemon.set_leg, (hf _).2.1]
    · simp [Daemon.set_leg, hm]
  links := set_leg_links n f (fun leg => (hf leg).2.2)
  edge_cost := rfl
  neighbor_id := rfl
  Neighbor_Nodes := rfl
  Num_Neighbors := rfl
  Links := rfl

omit [DecidableEq ν] in
theorem Timed.ite_queue (h : Timed up s) (hlk : s.link p = some lk)
    (hfits : f.Fits lk.link_type (up lk.leg) (s.r_data p)) (b : Prop) [Decidable b] :
    Timed up (if b then s.E_queue f lk.link_id else s)
      ∧ Calm s (if b then s.E_queue f lk.link_id else s)
      ∧ (if b then s.E_queue f lk.link_id else s).link = s.link := by
  by_cases hb : b
  · rw [if_pos hb]
    exact ⟨h.E_queue hlk hfits, Calm.put s s.r_data _, rfl⟩
  · rw [if_neg hb]
    exact ⟨h, Calm.refl s, rfl⟩

omit [DecidableEq ν] in
theorem Timed.escalate (h : Timed up s) (cfg : Config ν) (hlk : s.link p = some lk)
    (ht : lk.link_type = .CONTROL_LINK) (k : ℕ) :
    Timed up (s.escalate cfg lk.link_id k) ∧ Calm s (s.escalate cfg lk.link_id k)
      ∧ (s.escalate cfg lk.link_id k).link = s.link := by
  obtain ⟨h1, hcalm1, hlink1⟩ :=
    h.ite_queue hlk (f := .Send_Hello_Request_Cnt) ht (k = cfg.hello_cnt_start)
  have hlk1 := (congrFun hlink1 p).trans hlk
  obtain ⟨h2, hcalm2, hlink2⟩ := h1.ite_queue hlk1 (f := .Dead_Leg) trivial (k = DEAD_LINK_CNT)
  exact ⟨h2, hcalm1.trans hcalm2, hlink2.trans hlink1⟩

theorem Timed.Send_Hello (h : Timed up s) {cfg : Config ν} (hlk : s.link p = some lk)
    (ht : lk.link_type = .CONTROL_LINK) :
    ∃ s', s.Send_Hello cfg lk.link_id = some s' ∧ Timed up s' ∧ Calm s s' := by
  obtain ⟨h1, hcalm1, hlink1⟩ := h.escalate cfg hlk ht (s.leg lk.leg).hellos_out
  have h2 := h1.set_leg lk.leg Network_Leg.sent (fun _ => rfl)
  have hcalm2 := Calm.set_leg lk.leg Network_Leg.sent (fun _ => ⟨rfl, rfl, rfl⟩)
    (s.escalate cfg lk.link_id (s.leg lk.leg).hellos_out)
  have hlk2 := (congrFun hlink1 p).trans hlk
  refine ⟨_, ?_, h2.E_queue (f := .Send_Hello) hlk2 ht,
    (hcalm1.trans hcalm2).trans (Calm.put _ _ _)⟩
  rw [Daemon.Send_Hello, control_link_of_type (h.number_of_link hlk) hlk ht]
  rfl

theorem Timed.fire (h : Timed (Up s) s) (cfg : Config ν) (c : Choice) (hf : f ≠ .Dead_Leg)
    (hq : s.queue k f ≠ none) :
    ∃ s', (s.E_dequeue f k).call cfg f k c = some s' ∧ Timed (Up s) s' ∧ Calm s s' := by
  obtain ⟨o, ho⟩ := ne_none_iff_exists'.mp hq
  obtain ⟨p, lk, -, hk, hlk, rfl, hfits⟩ := h.object hf ho
  have h0 := h.E_dequeue f lk.link_id
  have hcalm0 : Calm s (s.E_dequeue f lk.link_id) := Calm.put s s.r_data _
  have hgone : (s.E_dequeue f lk.link_id).queue lk.link_id f = none := by
    simp [E_dequeue_queue]
  have hcontrol : lk.link_type = .CONTROL_LINK →
      (s.E_dequeue f lk.link_id).control_link lk.link_id = some lk :=
    control_link_of_type hk hlk
  -- a timer of a reliable link runs its function on the link's reliable data
  have hrel : ∀ {g : ℕ → Rel → Option Rel} {r : Reliable_Data}, s.r_data p = some r →
      (∀ x : Rel, x.r = r → x.row f = none → x.Sound p lk.link_type (Up s lk.leg) →
        x.r.Ordered x.r.seq_no →
        ∃ x', g p x = some x' ∧ x'.Sound p lk.link_type (Up s lk.leg)
          ∧ x'.r.Ordered x'.r.seq_no) →
      ∃ s', (s.E_dequeue f lk.link_id).on_rel lk.link_id g = some s' ∧ Timed (Up s) s'
        ∧ Calm s s' := by
    intro g r hr hg
    have hreliable := reliable_of_fits h0 hlk hr
    obtain ⟨r', hr', hord, hsound⟩ := h0.rel hlk hreliable
    obtain rfl : r = r' := some.inj (hr.symm.trans hr')
    obtain ⟨s', heq, ht, hcalm⟩ := h0.on_rel hlk hr (hg _ rfl hgone hsound hord)
    exact ⟨s', heq, ht, hcalm0.trans hcalm⟩
  cases f with
  | Send_Hello =>
    obtain ⟨s', heq, ht, hcalm⟩ := @Timed.Send_Hello _ _ _ _ _ _ h0 cfg hlk hfits
    exact ⟨s', heq, ht, hcalm0.trans hcalm⟩
  | Dead_Leg => exact absurd rfl hf
  | Send_Hello_Request =>
    refine ⟨_, ?_, h0, hcalm0⟩
    rw [call, Send_Hello_Request, hcontrol hfits]
    rfl
  | Send_Hello_Request_Cnt =>
    refine ⟨_, ?_, h0.E_queue (f := .Send_Hello_Request_Cnt) hlk hfits,
      hcalm0.trans (Calm.put _ _ _)⟩
    rw [call, Send_Hello_Request_Cnt, hcontrol hfits]
    rfl
  | Net_Send_State_All p_def =>
    obtain ⟨htype, hup⟩ := hfits
    obtain ⟨s', heq, ht, hcalm⟩ := h0.send hlk (.inl htype) c.messages
    refine ⟨s', ?_, ht, hcalm0.trans hcalm⟩
    rw [call, Net_Send_State_All, hcontrol htype]
    exact (if_pos hup).trans heq
  | Reliable_timeout =>
    obtain ⟨r, hr, hconn⟩ := hfits
    refine hrel hr (fun x hx _ hsound hord => ?_)
    exact x.Reliable_timeout_spec c.window_size hsound hord ⟨r, by rw [hx]; rfl, hconn⟩
  | Send_Ack =>
    obtain ⟨r, hr, hconn⟩ := hfits
    refine hrel hr (fun x hx hnone hsound hord => ?_)
    exact x.Send_Ack_spec hsound hord hnone ⟨r, by rw [hx]; rfl, hconn⟩
  | Send_Nack_Retransm =>
    obtain ⟨r, hr, hconn⟩ := hfits
    refine hrel hr (fun x hx hnone hsound hord => ?_)
    exact x.Send_Nack_Retransm_spec c.window_size hsound hord hnone ⟨r, by rw [hx]; rfl, hconn⟩
  | Try_to_Send =>
    obtain ⟨r, hr, hconn⟩ := hfits
    refine hrel hr (fun x hx _ hsound hord => ?_)
    obtain ⟨x', hx', hsound', hord', -, hseq⟩ := x.Send_Much_spec hsound hord
    exact ⟨x', hx', hsound', hseq ▸ hord'⟩
  | Send_RT_Nack =>
    refine ⟨_, ?_, h0, hcalm0⟩
    have hrt : lk.link_type = .REALTIME_UDP_LINK := hfits
    simp [call, Send_RT, Daemon.E_dequeue, hk, hlk, hrt]
  | Send_RT_Retransm =>
    refine ⟨_, ?_, h0, hcalm0⟩
    have hrt : lk.link_type = .REALTIME_UDP_LINK := hfits
    simp [call, Send_RT, Daemon.E_dequeue, hk, hlk, hrt]

end Fire

/-! ## 8. Hello packets -/

section Hello

variable {up : ν → Prop} [DecidableEq ν]

def SameControl (s s' : Daemon ν) : Prop :=
  ∀ m, (s'.leg m).status = (s.leg m).status
    ∧ (s'.leg m).links .CONTROL_LINK = (s.leg m).links .CONTROL_LINK

omit [DecidableEq ν] in
theorem SameControl.trans {s1 s2 s3 : Daemon ν} (h : SameControl s1 s2) (h' : SameControl s2 s3) :
    SameControl s1 s3 :=
  fun m => ⟨(h' m).1.trans (h m).1, (h' m).2.trans (h m).2⟩

variable {s' : Daemon ν} {cfg : Config ν} {n : ν} {mode : Link_Type} {p : ℕ} {pkt : Hello_Packet}
  {env : Readings}

omit [DecidableEq ν] in
theorem Timed.same_up (h : Timed (Up s) s') (hsame : ∀ m, (s'.leg m).status = (s.leg m).status) :
    Timed (Up s') s' :=
  h.narrow (fun m hm => .inl (by rw [Up, hsame m]; exact hm))

theorem Timed.Create_Link_data (h : Timed up s) (hmode : mode ≠ .CONTROL_LINK) {x : Daemon ν × ℕ}
    (heq : s.Create_Link cfg n mode = some x) : Timed up x.1 ∧ SameControl s x.1 := by
  obtain ⟨s', k⟩ := x
  refine ⟨(h.Create_Link heq).1, ?_⟩
  rcases Create_Link_cases heq with ⟨-, rfl⟩ | ⟨-, -, ⟨-, rfl⟩ | ⟨hc, -⟩⟩
  · exact fun _ => ⟨rfl, rfl⟩
  · intro m
    by_cases hm : m = n
    · subst hm
      simp [Daemon.new_link, Daemon.set_link, Daemon.set_leg, hmode.symm]
    · simp [Daemon.new_link, Daemon.set_link, Daemon.set_leg, hm]
  · exact absurd hc hmode

theorem Timed.create_links (h : Timed up s) (heq : s.create_links cfg n = some s') :
    Timed up s' ∧ SameControl s s' := by
  obtain ⟨x, hx, heq⟩ := bind_eq_some_iff.mp heq
  obtain ⟨y, hy, heq⟩ := bind_eq_some_iff.mp heq
  obtain ⟨z, hz, heq⟩ := bind_eq_some_iff.mp heq
  obtain ⟨hx1, hx2⟩ := h.Create_Link_data (by simp) hx
  obtain ⟨hy1, hy2⟩ := hx1.Create_Link_data (by simp) hy
  obtain ⟨hz1, hz2⟩ := hy1.Create_Link_data (by simp) hz
  have hsame := (hx2.trans hy2).trans hz2
  dsimp only at heq
  by_cases hit : cfg.Config_File_Found = true ∧ cfg.Sorted_Edges n = true
  · rw [if_pos hit] at heq
    obtain ⟨w, hw, rfl⟩ := map_eq_some_iff.mp heq
    obtain ⟨hw1, hw2⟩ := hz1.Create_Link_data (by simp) hw
    exact ⟨hw1, hsame.trans hw2⟩
  · rw [if_neg hit] at heq
    obtain rfl := some.inj heq
    exact ⟨hz1, hsame⟩

omit [DecidableEq ν] in
theorem Timed.set_connected (h : Timed up s) (heq : s.set_connected p = some s') :
    Timed up s' ∧ s'.leg = s.leg ∧ s'.link = s.link
      ∧ (∃ r, s'.r_data p = some r ∧ r.flags = .CONNECTED_LINK)
      ∧ ∀ q r, s.r_data q = some r → r.flags = .CONNECTED_LINK →
        ∃ r', s'.r_data q = some r' ∧ r'.flags = .CONNECTED_LINK := by
  obtain ⟨r, hr, rfl⟩ := map_eq_some_iff.mp heq
  refine ⟨?_, rfl, rfl, ⟨_, update_self _ _ _, rfl⟩, ?_⟩
  · constructor
    case toLinked => exact ⟨h.numbers, h.legs, h.fresh⟩
    case data =>
      intro q lk hq hrel
      obtain ⟨r', hr', hord⟩ := h.data q lk hq hrel
      by_cases hqp : q = p
      · subst hqp
        obtain rfl : r = r' := some.inj (hr.symm.trans hr')
        exact ⟨_, update_self _ _ _, hord⟩
      · exact ⟨r', by simpa [hqp] using hr', hord⟩
    case no_data =>
      intro q lk hq hrel
      have hnone := h.no_data q lk hq hrel
      by_cases hqp : q = p
      · subst hqp
        rw [hr] at hnone
        simp at hnone
      · simpa [hqp] using hnone
    case rows =>
      intro k q lk hk hq f o hf ho
      have hold := h.rows k q lk hk hq f o hf ho
      refine ⟨hold.1, ?_⟩
      have hfits := hold.2
      by_cases hqp : q = p
      · subst hqp
        rw [hr] at hfits
        cases f <;> simp_all [Timer.Fits]
      · simpa [hqp] using hfits
    case idle => exact h.idle
  · intro q r' hr' hflags
    by_cases hqp : q = p
    · subst hqp
      exact ⟨_, update_self _ _ _, rfl⟩
    · exact ⟨r', by simpa [hqp] using hr', hflags⟩

omit [DecidableEq ν] in
theorem Timed.queue_for (h : Timed up s) {f : Timer}
    (hfits : ∀ p, (s.leg n).links mode = some p → f.Fits mode (up n) (s.r_data p))
    (heq : s.queue_for f n mode = some s') :
    Timed up s' ∧ s'.leg = s.leg ∧ s'.r_data = s.r_data := by
  obtain ⟨lk, hbind, rfl⟩ := map_eq_some_iff.mp heq
  obtain ⟨p, hp, hlk⟩ := bind_eq_some_iff.mp hbind
  obtain ⟨lk', hlk', rfl, rfl⟩ := h.link_of_leg hp
  obtain rfl : lk = lk' := some.inj (hlk.symm.trans hlk')
  exact ⟨h.E_queue hlk (hfits p hp), rfl, rfl⟩

theorem Timed.connected (h : Timed (Up s) s) (n : ν) :
    Timed (Up (s.set_leg n Network_Leg.connected)) (s.set_leg n Network_Leg.connected) := by
  apply (h.set_leg n Network_Leg.connected (fun _ => rfl)).narrow
  intro m hm
  by_cases hmn : m = n
  · subst hmn
    simp [Up, Daemon.set_leg, Network_Leg.connected]
  · simpa [Up, Daemon.set_leg, hmn] using Or.inl hm

theorem Timed.connect (h : Timed (Up s) s) (hp : (s.leg n).links .CONTROL_LINK = some p)
    (heq : s.connect cfg n p = some s') : Timed (Up s') s' := by
  obtain ⟨s2, hs2, heq⟩ := bind_eq_some_iff.mp heq
  obtain ⟨s3, hs3, heq⟩ := bind_eq_some_iff.mp heq
  obtain ⟨s4, hs4, heq⟩ := bind_eq_some_iff.mp heq
  obtain ⟨q, hq, heq⟩ := bind_eq_some_iff.mp heq
  obtain ⟨s5, hs5, heq⟩ := bind_eq_some_iff.mp heq
  obtain ⟨s6, hs6, heq⟩ := bind_eq_some_iff.mp heq
  obtain ⟨s7, hs7, heq⟩ := bind_eq_some_iff.mp heq
  -- the status first: from here on the leg counts as connected
  have h1 := h.connected n
  obtain ⟨h2, hleg2⟩ := h1.Set_Cost (fun hc => hc) hs2
  obtain ⟨h3, hsame3⟩ := h2.create_links hs3
  obtain ⟨h4, hleg4, -, hr4, -⟩ := h3.set_connected hs4
  obtain ⟨h5, hleg5, -, hr5, hkeep5⟩ := h4.set_connected hs5
  obtain ⟨h6, hleg6, hdata6⟩ := h5.queue_for (fun _ _ => by rfl) hs6
  -- both reliable links are connected before their first `Try_to_Send` is queued
  have hcontrol : (s6.leg n).links .CONTROL_LINK = some p := by
    rw [hleg6, hleg5, hleg4, (hsame3 n).2, (hleg2 n).2,
      set_leg_links n Network_Leg.connected (fun _ => rfl)]
    exact hp
  obtain ⟨r, hr, hflags⟩ := hr4
  obtain ⟨r', hr', hflags'⟩ := hkeep5 p r hr hflags
  obtain ⟨h7, hleg7, hdata7⟩ := h6.queue_for (fun p' hp' => by
    obtain rfl : p = p' := some.inj (hcontrol.symm.trans hp')
    exact ⟨r', by rw [hdata6]; exact hr', hflags'⟩) hs7
  have hreliable : (s7.leg n).links .RELIABLE_UDP_LINK = some q := by
    rw [hleg7, hleg6, hleg5]
    exact hq
  obtain ⟨r2, hr2, hflags2⟩ := hr5
  obtain ⟨h8, hleg8, -⟩ := h7.queue_for (fun p' hp' => by
    obtain rfl : q = p' := some.inj (hreliable.symm.trans hp')
    exact ⟨r2, by rw [hdata7, hdata6]; exact hr2, hflags2⟩) heq
  apply h8.same_up
  intro m
  rw [hleg8, hleg7, hleg6, hleg5, hleg4, (hsame3 m).1, (hleg2 m).1]

theorem Timed.Update_Cost (h : Timed (Up s) s) {c : Option ℤ}
    (heq : s.Network_Leg_Update_Cost cfg n c = some s') : Timed (Up s') s' := by
  unfold Network_Leg_Update_Cost at heq
  split_ifs at heq
  · obtain rfl := some.inj heq
    exact h
  · cases c with
    | none =>
      obtain rfl := some.inj heq
      exact h
    | some cost16 =>
      obtain ⟨ht, hleg⟩ := h.Set_Cost (fun hc => hc) heq
      exact ht.same_up (fun m => (hleg m).1)

theorem Timed.heard (h : Timed up s) (n : ν) {lk : Link ν} (hlk : s.link p = some lk)
    (htype : lk.link_type = .CONTROL_LINK) (pkt : Hello_Packet) :
    ∃ s2, (if pkt.type = .HELLO_REQ_TYPE then
        ((s.hear n p pkt.seq_no).E_dequeue .Send_Hello_Request_Cnt lk.link_id).E_queue
          .Send_Hello lk.link_id
      else (s.hear n p pkt.seq_no).E_dequeue .Send_Hello_Request_Cnt lk.link_id) = s2
      ∧ Timed up s2 ∧ Calm s s2 ∧ (s2.leg n).connect_cnter = (s.leg n).connect_cnter := by
  have hcalm1 : Calm s (s.hear n p pkt.seq_no) := by
    have hset := Calm.set_leg n Network_Leg.answered (fun _ => ⟨rfl, rfl, rfl⟩) s
    exact ⟨hset.status, hset.cost, hset.links, rfl, rfl, rfl, rfl, rfl⟩
  have ht1 : Timed up (s.hear n p pkt.seq_no) :=
    h.frame hcalm1.links rfl rfl rfl rfl (fun _ _ _ ho => ho)
  have ht2 := ht1.E_dequeue .Send_Hello_Request_Cnt lk.link_id
  have hcount : ((s.hear n p pkt.seq_no).leg n).connect_cnter = (s.leg n).connect_cnter := by
    simp [hear, Daemon.set_leg, Network_Leg.answered]
  refine ⟨_, rfl, ?_⟩
  -- a request is answered at once
  by_cases hreq : pkt.type = .HELLO_REQ_TYPE
  · rw [if_pos hreq]
    exact ⟨ht2.E_queue hlk htype, hcalm1.trans (Calm.put _ _ _), hcount⟩
  · rw [if_neg hreq]
    exact ⟨ht2, hcalm1.trans (Calm.put _ _ _), hcount⟩

theorem Timed.take_hello (h : Timed (Up s) s) {lk : Link ν} (hlk : s.link p = some lk)
    (htype : lk.link_type = .CONTROL_LINK)
    (heq : s.take_hello cfg lk.leg p lk.link_id pkt env = some s') : Timed (Up s') s' := by
  rw [Daemon.take_hello] at heq
  by_cases hold : pkt.seq_no + 3 < s.other_side_hello_seq p
  · rw [if_pos hold] at heq
    obtain rfl := some.inj heq
    exact h
  · rw [if_neg hold] at heq
    obtain ⟨s2, hs2, h2, hcalm2, -⟩ := h.heard lk.leg hlk htype pkt
    dsimp only at heq
    rw [hs2] at heq
    have h2' := h2.calm hcalm2
    cases hstatus : (s2.leg lk.leg).status with
    | CONNECTED_LEG =>
      rw [hstatus] at heq
      exact h2'.Update_Cost heq
    | NOT_YET_CONNECTED_LEG =>
      rw [hstatus] at heq
      dsimp only at heq
      have h3 : Timed (Up (s2.set_leg lk.leg Network_Leg.counted))
          (s2.set_leg lk.leg Network_Leg.counted) :=
        (h2'.set_leg lk.leg Network_Leg.counted (fun _ => rfl)).same_up
          (set_leg_status lk.leg Network_Leg.counted (fun _ => rfl) · s2)
      split_ifs at heq with hcount
      · refine h3.connect ?_ heq
        rw [set_leg_links lk.leg Network_Leg.counted (fun _ => rfl), hcalm2.links, ← htype]
        exact h.leg_of_link hlk
      · obtain rfl := some.inj heq
        exact h3
    | DISCONNECTED_LEG =>
      rw [hstatus] at heq
      simp at heq

theorem Timed.Create_Link_up (h : Timed (Up s) s) {k : ℕ}
    (heq : s.Create_Link cfg n mode = some (s', k)) : Timed (Up s') s' := by
  obtain ⟨ht, hstatus⟩ := h.Create_Link heq
  exact ht.narrow (fun m hm => .inl (hstatus m hm))

theorem Create_Link_control {k : ℕ} (heq : s.Create_Link cfg n .CONTROL_LINK = some (s', k)) :
    s'.link s.fresh = some ⟨k, .CONTROL_LINK, n⟩ := by
  rcases Create_Link_cases heq with ⟨hit, -⟩ | ⟨-, -, ⟨hne, -⟩ | ⟨-, hstart⟩⟩
  · simp at hit
  · exact absurd rfl hne
  · rw [start_control] at hstart
    split_ifs at hstart
    obtain ⟨t, ht, rfl⟩ := map_eq_some_iff.mp hstart
    rcases add_neighbor_cases ht with ⟨_, -, rfl⟩ | ⟨_, -, -, rfl⟩
    · exact new_link_object n .CONTROL_LINK k cfg.initial_window s
    · exact new_link_object n .CONTROL_LINK k cfg.initial_window s

theorem Timed.restart (h : Timed (Up s) s) (heq : s.restart cfg n = some s') :
    Timed (Up s') s' := by
  obtain ⟨s1, hs1, heq⟩ := bind_eq_some_iff.mp heq
  obtain ⟨⟨s2, k⟩, hs2, heq⟩ := bind_eq_some_iff.mp heq
  have h1 := h.Disconnect_Network_Leg hs1
  have h2 := h1.Create_Link_up hs2
  have hlk : s2.link s1.fresh = some ⟨k, .CONTROL_LINK, n⟩ := Create_Link_control hs2
  obtain ⟨s3, hs3, h3, hcalm⟩ := @Timed.Send_Hello _ _ _ _ _ _ h2 cfg hlk rfl
  obtain rfl : s3 = s' := some.inj (hs3.symm.trans heq)
  exact h3.calm hcalm

theorem Timed.Process_hello_packet (h : Timed (Up s) s)
    (hp : (s.leg n).links .CONTROL_LINK = some p)
    (heq : s.Process_hello_packet cfg p pkt env = some s') : Timed (Up s') s' := by
  obtain ⟨lk, hlk, rfl, htype⟩ := h.link_of_leg hp
  rw [Daemon.Process_hello_packet, hlk, bind_some] at heq
  dsimp only at heq
  split_ifs at heq
  · obtain rfl := some.inj heq
    exact h
  · exact h.take_hello hlk htype heq
  · have h1 : Timed (Up (s.set_leg lk.leg (Network_Leg.meet pkt.ctrl_link_id)))
        (s.set_leg lk.leg (Network_Leg.meet pkt.ctrl_link_id)) :=
      (h.set_leg lk.leg (Network_Leg.meet pkt.ctrl_link_id) (fun _ => rfl)).same_up
        (set_leg_status lk.leg (Network_Leg.meet pkt.ctrl_link_id) (fun _ => rfl) · s)
    exact h1.take_hello hlk htype heq
  · exact h.restart heq

theorem Timed.Process_hello (h : Timed (Up s) s) (heq : s.Process_hello cfg n pkt env = some s') :
    Timed (Up s') s' := by
  obtain ⟨s1, hs1, heq⟩ := bind_eq_some_iff.mp heq
  have h1 : Timed (Up s1) s1 := by
    rw [Process_hello_ping] at hs1
    split_ifs at hs1 with hnew
    · obtain ⟨⟨t, k⟩, ht, rfl⟩ := map_eq_some_iff.mp hs1
      exact h.Create_Link_up ht
    · obtain rfl := some.inj hs1
      exact h
  cases hp : (s1.leg n).links .CONTROL_LINK with
  | none =>
    rw [hp] at heq
    obtain rfl := some.inj heq
    exact h1
  | some p =>
    rw [hp] at heq
    dsimp only at heq
    split_ifs at heq with hping
    · obtain rfl := some.inj heq
      exact h1
    · exact h1.Process_hello_packet hp heq

end Hello

/-! ## 9. Every event -/

section Events

theorem Timed.Prot_process_scat (h : Timed (Up s) s) (cfg : Config ν) (n : ν) (mode : Link_Type)
    (id : ℕ) (body : Body) :
    ∃ s', s.Prot_process_scat cfg n mode id body = some s' ∧ Timed (Up s) s' ∧ Calm s s' := by
  cases hp : (s.leg n).links mode with
  | none => exact ⟨s, by rw [Daemon.Prot_process_scat, hp], h, Calm.refl s⟩
  | some p =>
    obtain ⟨lk, hlk, rfl, rfl⟩ := h.link_of_leg hp
    rw [Daemon.Prot_process_scat, hp]
    simp only [hlk, bind_some]
    by_cases hdrop : cfg.Intrusion_Tolerance_Mode = false
        ∧ id ≠ (s.leg lk.leg).other_side_ctrl_link_id
    · exact ⟨s, if_pos hdrop, h, Calm.refl s⟩
    · rw [if_neg hdrop]
      -- a packet for a reliable link
      have hrel : ∀ {g : ℕ → Rel → Option Rel}, reliable lk.link_type →
          (∀ x : Rel, x.Sound p lk.link_type (Up s lk.leg) → x.r.Ordered x.r.seq_no →
            ∃ x', g p x = some x' ∧ x'.Sound p lk.link_type (Up s lk.leg)
              ∧ x'.r.Ordered x'.r.seq_no) →
          ∃ s', s.on_rel lk.link_id g = some s' ∧ Timed (Up s) s' ∧ Calm s s' := by
        intro g hreliable hg
        obtain ⟨r, hr, hord, hsound⟩ := h.rel hlk hreliable
        exact h.on_rel hlk hr (hg _ hsound hord)
      -- a timer that is queued for a realtime link
      have hrt : ∀ {f : Timer}, lk.link_type = .REALTIME_UDP_LINK →
          (f = .Send_RT_Nack ∨ f = .Send_RT_Retransm) →
          Timed (Up s) (s.E_queue f lk.link_id) ∧ Calm s (s.E_queue f lk.link_id) := by
        intro f ht hf
        refine ⟨h.E_queue hlk ?_, Calm.put s s.r_data _⟩
        rcases hf with rfl | rfl <;> exact ht
      split
      case h_1 a ht =>
        refine hrel (.inl ht) (fun x hx hord => ⟨_, rfl, ?_⟩)
        rw [ht] at hx ⊢
        exact x.Process_state_packet_spec a hx hord
      case h_2 a ht =>
        exact hrel (.inl ht) (fun x hx hord => ⟨_, rfl, x.Process_ack_packet_spec a hx hord⟩)
      case h_3 a ht =>
        exact hrel (.inr ht)
          (fun x hx hord => ⟨_, rfl, x.Process_rel_udp_data_packet_spec a hx hord⟩)
      case h_4 a ht =>
        exact hrel (.inr ht) (fun x hx hord => ⟨_, rfl, x.Process_ack_packet_spec a hx hord⟩)
      case h_5 nacks ht =>
        refine ⟨_, rfl, ?_⟩
        by_cases hn : nacks = true
        · rw [if_pos hn]
          exact hrt ht (.inl rfl)
        · rw [if_neg hn]
          exact ⟨h, Calm.refl s⟩
      case h_6 ht => exact ⟨_, rfl, hrt ht (.inr rfl)⟩
      case h_7 => exact ⟨s, rfl, h, Calm.refl s⟩

theorem Timed.Net_Send_State_Updates (h : Timed (Up s) s) {n : ν} (k : ℕ)
    (hup : (s.leg n).status = .CONNECTED_LEG) (hp : (s.leg n).links .CONTROL_LINK ≠ none) :
    ∃ s', s.Net_Send_State_Updates n k = some s' ∧ Timed (Up s) s' ∧ Calm s s' := by
  obtain ⟨p, hp⟩ := ne_none_iff_exists'.mp hp
  obtain ⟨lk, hlk, -, ht⟩ := h.link_of_leg hp
  rw [Daemon.Net_Send_State_Updates, if_pos hup, hp]
  simp only [bind_some, hlk]
  exact h.send hlk (.inl ht) k

theorem Timed.Forward_Rel_UDP_Data (h : Timed (Up s) s) (n : ν) :
    ∃ s', s.Forward_Rel_UDP_Data n = some s' ∧ Timed (Up s) s' ∧ Calm s s' := by
  by_cases hcost : s.edge_cost n = -1
  · exact ⟨s, if_pos hcost, h, Calm.refl s⟩
  · rw [Daemon.Forward_Rel_UDP_Data, if_neg hcost]
    cases hp : (s.leg n).links .RELIABLE_UDP_LINK with
    | none => exact ⟨s, rfl, h, Calm.refl s⟩
    | some p =>
      obtain ⟨lk, hlk, -, ht⟩ := h.link_of_leg hp
      obtain ⟨r, hr, hord, hsound⟩ := h.rel hlk (.inr ht)
      simp only [hlk, bind_some]
      exact h.on_rel hlk hr (Rel.Reliable_Send_Msg_spec hsound hord)

variable [DecidableEq ν]

variable {s' : Daemon ν} {cfg : Config ν}

theorem Timed.Dead_Leg (h : Timed (Up s) s) {k : ℕ} (heq : s.Dead_Leg k = some s') :
    Timed (Up s') s' := by
  rw [Daemon.Dead_Leg] at heq
  cases hlk : s.control_link k with
  | none =>
    rw [hlk] at heq
    obtain rfl := some.inj heq
    exact h
  | some lk =>
    rw [hlk] at heq
    dsimp only at heq
    split_ifs at heq
    · obtain rfl := some.inj heq
      exact h
    · exact h.Disconnect_Network_Leg heq

theorem Timed.next (h : Timed (Up s) s) {e : Event ν} (heq : s.next cfg e = some s') :
    Timed (Up s') s' := by
  cases e with
  | hello n pkt env => exact h.Process_hello heq
  | packet n mode id body =>
    obtain ⟨t, ht, htimed, hcalm⟩ := h.Prot_process_scat cfg n mode id body
    obtain rfl : t = s' := some.inj (ht.symm.trans heq)
    exact htimed.calm hcalm
  | state_updates n k =>
    rw [Daemon.next] at heq
    split_ifs at heq
    · have hup : (s.leg n).status = .CONNECTED_LEG := by
        by_contra hup
        simp [Daemon.Net_Send_State_Updates, hup] at heq
      have hp : (s.leg n).links .CONTROL_LINK ≠ none := by
        intro hp
        simp [Daemon.Net_Send_State_Updates, hup, hp] at heq
      obtain ⟨t, ht, htimed, hcalm⟩ := h.Net_Send_State_Updates k hup hp
      obtain rfl : t = s' := some.inj (ht.symm.trans heq)
      exact htimed.calm hcalm
    · obtain rfl := some.inj heq
      exact h
  | forward n =>
    obtain ⟨t, ht, htimed, hcalm⟩ := h.Forward_Rel_UDP_Data n
    obtain rfl : t = s' := some.inj (ht.symm.trans heq)
    exact htimed.calm hcalm
  | timer f k c =>
    rw [Daemon.next] at heq
    by_cases hq : s.queue k f = none
    · rw [if_pos hq] at heq
      obtain rfl := some.inj heq
      exact h
    · rw [if_neg hq] at heq
      by_cases hf : f = .Dead_Leg
      · subst hf
        have h0 : Timed (Up (s.E_dequeue .Dead_Leg k)) (s.E_dequeue .Dead_Leg k) :=
          h.E_dequeue .Dead_Leg k
        exact h0.Dead_Leg heq
      · obtain ⟨t, ht, htimed, hcalm⟩ := h.fire cfg c hf hq
        obtain rfl : t = s' := some.inj (ht.symm.trans heq)
        exact htimed.calm hcalm

/-! ## 10. Runs -/

omit [DecidableEq ν] in
theorem Timed.init : Timed (Up (Init_Nodes : Daemon ν)) Init_Nodes where
  numbers := fun _ _ => by simp [Init_Nodes]
  legs := fun _ _ => by simp [Init_Nodes, Network_Leg.new]
  fresh := by simp [Init_Nodes]
  data := by simp [Init_Nodes]
  no_data := by simp [Init_Nodes]
  rows := by simp [Init_Nodes]
  idle := by simp [Init_Nodes]

theorem Timed.isolate (h : Timed (Up s) s) {n : ν} (heq : s.isolate cfg n = some s') :
    Timed (Up s') s' := by
  rw [Daemon.isolate] at heq
  split_ifs at heq
  · obtain ⟨⟨t, k⟩, ht, rfl⟩ := map_eq_some_iff.mp heq
    exact (h.connected n).Create_Link_up ht
  · obtain rfl := some.inj heq
    exact h

theorem Timed.Init_Network {legs : List ν} (heq : Init_Network cfg legs = some s) :
    Timed (Up s) s := by
  rw [Daemon.Init_Network] at heq
  split_ifs at heq
  · have hall : ∀ (l : List ν) (t : Daemon ν), Timed (Up t) t →
        l.foldlM (Daemon.isolate cfg) t = some s → Timed (Up s) s := by
      intro l
      induction l with
      | nil =>
        intro t ht hfold
        obtain rfl := some.inj hfold
        exact ht
      | cons n l ih =>
        intro t ht hfold
        rw [List.foldlM_cons] at hfold
        obtain ⟨t', ht', hfold⟩ := bind_eq_some_iff.mp hfold
        exact ih t' (ht.isolate ht') hfold
    exact hall legs Init_Nodes Timed.init heq
  · obtain rfl := some.inj heq
    exact Timed.init

theorem Timed.run {legs : List ν} {s₀ : Daemon ν} (hinit : Daemon.Init_Network cfg legs = some s₀)
    (hrun : Run (fun s e s' => Daemon.next cfg s e = some s') s₀ s) : Timed (Up s) s :=
  hrun.invariant (fun t => Timed (Up t) t) (Timed.Init_Network hinit)
    (fun _ _ _ ht he => ht.next he)

/-- No event outlives its link. Whatever is queued for the number of a link,
other than `Dead_Leg`, was queued for the object that has the number now; the
object is of the type and in the state that the function asks for; and the
function goes off without an `EXIT` or a failed assertion. -/
theorem no_event_outlives_link (cfg : Config ν) (legs : List ν) (s₀ s : Daemon ν)
    (hinit : Daemon.Init_Network cfg legs = some s₀)
    (hrun : Run (fun s e s' => Daemon.next cfg s e = some s') s₀ s)
    (f : Timer) (linkid : ℕ) (owner : Option ℕ) (hf : f ≠ .Dead_Leg)
    (hq : s.queue linkid f = some owner) :
    (∃ p lk, owner = some p ∧ s.Links linkid = some p ∧ s.link p = some lk ∧ lk.link_id = linkid
      ∧ f.Fits lk.link_type ((s.leg lk.leg).status = .CONNECTED_LEG) (s.r_data p))
    ∧ ∀ c, (s.next cfg (.timer f linkid c)).isSome = true := by
  have ht := Timed.run hinit hrun
  refine ⟨ht.object hf hq, fun c => ?_⟩
  have hne : s.queue linkid f ≠ none := by simp [hq]
  obtain ⟨s', hs', -⟩ := ht.fire cfg c hf hne
  rw [Daemon.next, if_neg hne, hs']
  rfl

end Events

def plain : Config Unit where
  Intrusion_Tolerance_Mode := false
  Config_File_Found := false
  Sorted_Edges := fun _ => false
  Route_Weight := .DISTANCE_ROUTE
  hello_cnt_start := 7
  initial_window := 20000

def hello (t : Hello_Type) : Event Unit :=
  .hello () ⟨t, 5, 0, true⟩ ⟨true, none⟩

theorem no_event_outlives_link_sent :
    ∃ s : Daemon Unit, Run (fun s e s' => Daemon.next plain s e = some s') Init_Nodes s
      ∧ ∃ p lk, s.link p = some lk ∧ lk.link_type = .RELIABLE_UDP_LINK
        ∧ ∀ c, (s.next plain (.timer .Reliable_timeout lk.link_id c)).isSome = true := by
  let es := hello .HELLO_PING_TYPE :: List.replicate 6 (hello .HELLO_TYPE) ++ [.forward ()]
  have hrun : (es.foldlM (Daemon.next plain) Init_Nodes).any (fun s =>
      s.queue 2 .Reliable_timeout == some (some 2)
        && (s.link 2).any (fun lk => lk.link_type == .RELIABLE_UDP_LINK && lk.link_id == 2)) = true := by
    decide +kernel
  obtain ⟨s, hs, hend⟩ := (any_eq_true _ _).mp hrun
  simp only [Bool.and_eq_true, beq_iff_eq, any_eq_true] at hend
  obtain ⟨hq, lk, hlk, ht, hid⟩ := hend
  refine ⟨s, Run.of_foldlM hs, 2, lk, hlk, ht, ?_⟩
  rw [hid]
  exact (no_event_outlives_link plain [()] Init_Nodes s rfl (Run.of_foldlM hs) .Reliable_timeout 2
    (some 2) (by decide) hq).2

end Daemon

end Spines.Hello
