/-
Two ends of an intrusion-tolerant link and the network between them.

The network keeps every packet an end ever sent and may hand any of them to the
other end at any time, any number of times: loss, duplication, delay and
reordering are all in that, forging is not. Ends restart and learn of each
other's incarnations on their own schedule.

No end restarts under an incarnation it has used before: the incarnation is the
second at which the link is created, so restarts are in different seconds.
-/
import Spines.IntruTol.Window

set_option autoImplicit false

namespace Spines.IntruTol

open Spines.Lib Function Option List

/-! ## The system -/

structure Pair where
  ends : Bool → LinkEnd
  incs : Bool → List ℕ

/-- Both ends right after `Create_Link`. -/
def Pair.create (cf : Conf) (sec : Bool → ℕ) : Pair :=
  ⟨fun x => LinkEnd.create cf (sec x), fun x => [sec x]⟩

/-- The network delivers only what the other end has sent, as what it was sent. -/
def genuine (s : Pair) (x : Bool) : Event → Bool
  | .data_packet p => decide (p ∈ (s.ends (!x)).sent) && decide (0 < p.tail.link_seq)
  | .ack_packet p => decide (p ∈ (s.ends (!x)).sent) && decide (p.tail.link_seq = 0)
  | .ping _ _ p => decide (p ∈ (s.ends (!x)).pings)
  | .dh _ p => decide (p ∈ (s.ends (!x)).pings)
  | _ => true

def incs_after (s : Pair) (x : Bool) : Event → Bool → List ℕ
  | .restart sec => Function.update s.incs x (sec :: s.incs x)
  | _ => s.incs

/-- Event `ev` at end `x`. -/
def Pair.act (cf : Conf) (s : Pair) (x : Bool) (env : Env) (ev : Event) : Pair :=
  ⟨Function.update s.ends x (handle cf env (s.ends x) ev), incs_after s x ev⟩

/-- One event of the system. With `fresh`, an end restarts only under an
incarnation it has not used before. -/
def PairStep (cf : Conf) (fresh : Bool) (s : Pair) (l : Bool × Event) (s' : Pair) : Prop :=
  genuine s l.1 l.2 = true ∧ ((s.ends l.1).exited = false ∨ ∃ sec, l.2 = .restart sec) ∧
  (fresh = true → ∀ sec, l.2 = .restart sec → sec ∉ s.incs l.1) ∧
  ∃ env, s' = s.act cf l.1 env l.2

/-! ## Histories -/

theorem prefix_log_at (h : ℕ → ℕ → List LinkEntry) (a b : ℕ) (x : List LinkEntry) (a' b' : ℕ) :
    h a' b' <+: log_at h a b x a' b' := by
  unfold log_at
  split
  · rename_i heq
    rw [heq.1, heq.2]
    exact prefix_append _ _
  · exact prefix_refl _

theorem log_at_self (h : ℕ → ℕ → List LinkEntry) (a b : ℕ) (x : List LinkEntry) :
    log_at h a b x a b = h a b ++ x := if_pos ⟨rfl, rfl⟩

theorem log_at_ne (h : ℕ → ℕ → List LinkEntry) {a b a' b' : ℕ} (x : List LinkEntry)
    (hne : ¬ (a' = a ∧ b' = b)) : log_at h a b x a' b' = h a' b' := if_neg hne

/-! ## The invariant -/

/-- An end and its own histories: what is logged under the current pair is what
happened since the last incarnation change, and later incarnations of the
neighbor are not logged yet. -/
structure Own (X : Proto) : Prop where
  packed : X.packed X.ngbr X.my = X.packed_now
  consumed : X.consumed X.ngbr X.my = X.consumed_now
  later : ∀ k, X.ngbr < k → X.packed k X.my = [] ∧ X.consumed k X.my = []

/-- Only the incarnations in `used` appear in an end's histories. -/
structure Unused (used : List ℕ) (X : Proto) : Prop where
  my : X.my ∈ used
  other : ∀ m, m ∉ used → ∀ k, X.packed k m = [] ∧ X.consumed k m = []

/-- `X` as a sender to `Y`: every packet of `X` on the network is the one packed
under its number and incarnations, every packet of `Y` acknowledges a prefix of
what `Y` consumed with that prefix's digest, and what `Y` has consumed or stored
is what `X` packed. -/
structure Dir (X Y : Proto) : Prop where
  data : ∀ p ∈ X.sent, 0 < p.tail.link_seq →
    (X.packed p.tail.aru_incarnation p.tail.incarnation)[p.tail.link_seq - 1]?
      = some ⟨p.tail.link_seq, p.data, p.tail.seq_nonce⟩
  aru : ∀ p ∈ Y.sent,
    p.tail.aru ≤ (Y.consumed p.tail.aru_incarnation p.tail.incarnation).length ∧
    p.tail.aru_nonce = digest (((Y.consumed p.tail.aru_incarnation p.tail.incarnation).take
      p.tail.aru).map LinkEntry.nonce)
  pre : ∀ a b, Y.consumed a b <+: X.packed b a
  cells : ∀ s, Y.in_tail ≤ s → s < Y.in_head → Y.flags (s % MAX_SEND_ON_LINK) = .recvd →
    (X.packed Y.my Y.ngbr)[s - 1]?
      = some ⟨s, (Y.pkts (s % MAX_SEND_ON_LINK)).getD [], Y.in_nonces (s % MAX_SEND_ON_LINK)⟩

/-- Everything about end `X`, with `Y` at the other end. -/
structure Both (used : List ℕ) (X Y : Proto) : Prop where
  inv : EndInv X
  own : Own X
  unused : Unused used X
  out : Dir X Y
  inn : Dir Y X

/-- A packet end `X` may process: the other end sent it, under matching
incarnations. -/
def Good (X Y : Proto) (p : ItPacket) : Prop :=
  p ∈ Y.sent ∧ p.tail.incarnation = X.ngbr ∧ p.tail.aru_incarnation = X.my

/-! ## One step of the protocol -/

section Steps

variable {used : List ℕ} {X Y : Proto}

theorem Both.reports (h : Both used X Y) {p : ItPacket} (hrep : Reports X p) :
    p.tail.aru ≤ (X.consumed p.tail.aru_incarnation p.tail.incarnation).length ∧
    p.tail.aru_nonce = digest (((X.consumed p.tail.aru_incarnation p.tail.incarnation).take
      p.tail.aru).map LinkEntry.nonce) := by
  have hlen := h.inv.2.length_consumed
  rw [hrep.aru_incarnation, hrep.incarnation, h.own.consumed, hrep.aru, hrep.aru_nonce]
  refine ⟨by omega, ?_⟩
  rw [take_of_length_le (by omega)]
  exact h.inv.2.aru

theorem Both.send (h : Both used X Y) (p : ItPacket) (hrep : Reports X p)
    (hdata : 0 < p.tail.link_seq →
      (X.packed X.ngbr X.my)[p.tail.link_seq - 1]? = some ⟨p.tail.link_seq, p.data, p.tail.seq_nonce⟩)
    (hinv : EndInv { X with sent := X.sent ++ [p] }) :
    Both used { X with sent := X.sent ++ [p] } Y := by
  refine ⟨hinv, ⟨h.own.packed, h.own.consumed, h.own.later⟩, ⟨h.unused.my, h.unused.other⟩,
    ⟨?_, h.out.aru, h.out.pre, h.out.cells⟩, ⟨h.inn.data, ?_, h.inn.pre, h.inn.cells⟩⟩
  · intro q hq hpos
    rcases mem_append.mp hq with hold | hnew
    · exact h.out.data q hold hpos
    · rw [mem_singleton.mp hnew] at hpos ⊢
      show (X.packed p.tail.aru_incarnation p.tail.incarnation)[p.tail.link_seq - 1]? = _
      rw [hrep.aru_incarnation, hrep.incarnation]
      exact hdata hpos
  · intro q hq
    rcases mem_append.mp hq with hold | hnew
    · exact h.inn.aru q hold
    · rw [mem_singleton.mp hnew]
      exact h.reports hrep

theorem Dir.grow_packed (h : Dir X Y) (a b : ℕ) (l : List LinkEntry) {X' : Proto}
    (hsent : X'.sent = X.sent) (hpacked : X'.packed = log_at X.packed a b l) : Dir X' Y := by
  refine ⟨?_, h.aru, ?_, ?_⟩
  · intro p hp hpos
    rw [hsent] at hp
    rw [hpacked]
    exact getElem?_of_prefix (prefix_log_at _ _ _ _ _ _) (h.data p hp hpos)
  · intro a' b'
    rw [hpacked]
    exact (h.pre a' b').trans (prefix_log_at _ _ _ _ _ _)
  · intro s hs1 hs2 hrec
    rw [hpacked]
    exact getElem?_of_prefix (prefix_log_at _ _ _ _ _ _) (h.cells s hs1 hs2 hrec)

theorem Both.outStep {X' : Proto} (h : Both used X Y) (hstep : OutStep X X') : Both used X' Y := by
  have hinv : EndInv X' := (DrainStep.out hstep).endInv h.inv
  cases hstep with
  | send p seq h1 h2 hdata hseq hnonce hrep =>
    refine h.send p hrep (fun _ => ?_) hinv
    have htcp := h.inv.1.tcp_le
    obtain ⟨x, hx, hxs, hxd, hxn⟩ := h.inv.1.cell seq h1 (by omega)
    rw [hdata] at hxd
    rw [h.own.packed, hseq, hx, hnonce, hxn, some.inj hxd, ← hxs]
  | ack p hseq hrep => exact h.send p hrep (fun hpos => by omega) hinv
  | pack data nonce hroom =>
    refine ⟨hinv, ⟨?_, h.own.consumed, ?_⟩, ⟨h.unused.my, ?_⟩,
      h.out.grow_packed X.ngbr X.my _ rfl rfl, ⟨h.inn.data, h.inn.aru, h.inn.pre, h.inn.cells⟩⟩
    · show log_at X.packed X.ngbr X.my _ X.ngbr X.my = X.packed_now ++ _
      rw [log_at_self, h.own.packed]
    · intro k hk
      change X.ngbr < k at hk
      refine ⟨?_, (h.own.later k hk).2⟩
      show log_at X.packed X.ngbr X.my _ k X.my = []
      rw [log_at_ne _ _ (by omega), (h.own.later k hk).1]
    · intro m hm k
      refine ⟨?_, (h.unused.other m hm k).2⟩
      have hne : m ≠ X.my := fun heq => hm (heq ▸ h.unused.my)
      show log_at X.packed X.ngbr X.my _ k m = []
      rw [log_at_ne _ _ (fun hc => hne hc.2), (h.unused.other m hm k).1]
  | advance hlt =>
    exact ⟨hinv, ⟨h.own.packed, h.own.consumed, h.own.later⟩, ⟨h.unused.my, h.unused.other⟩,
      ⟨h.out.data, h.out.aru, h.out.pre, h.out.cells⟩,
      ⟨h.inn.data, h.inn.aru, h.inn.pre, h.inn.cells⟩⟩

theorem Both.consume (h : Both used X Y) (hd : X.draining = false)
    (hrec : X.flags (X.in_tail % MAX_SEND_ON_LINK) = .recvd) : Both used X.consume Y := by
  have hinv : EndInv X.consume := (DrainStep.consume hd hrec).endInv h.inv
  have hlt := h.inv.2.tail_lt hd hrec
  have hhead := h.inv.2.head_le
  have hlen := h.inv.2.length_consumed
  have hcell := h.inn.cells X.in_tail (le_refl _) hlt hrec
  refine ⟨hinv, ⟨h.own.packed, ?_, ?_⟩, ⟨h.unused.my, ?_⟩,
    ⟨h.out.data, h.out.aru, h.out.pre, h.out.cells⟩, ⟨h.inn.data, ?_, ?_, ?_⟩⟩
  · show log_at X.consumed X.ngbr X.my _ X.ngbr X.my = X.consumed_now ++ _
    rw [log_at_self, h.own.consumed]
  · intro k hk
    change X.ngbr < k at hk
    refine ⟨(h.own.later k hk).1, ?_⟩
    show log_at X.consumed X.ngbr X.my _ k X.my = []
    rw [log_at_ne _ _ (by omega), (h.own.later k hk).2]
  · intro m hm k
    refine ⟨(h.unused.other m hm k).1, ?_⟩
    have hne : m ≠ X.my := fun heq => hm (heq ▸ h.unused.my)
    show log_at X.consumed X.ngbr X.my _ k m = []
    rw [log_at_ne _ _ (fun hc => hne hc.2), (h.unused.other m hm k).2]
  · -- an older acknowledgement is about a prefix that has not changed
    intro p hp
    obtain ⟨hle, hdig⟩ := h.inn.aru p hp
    have hpre : X.consumed p.tail.aru_incarnation p.tail.incarnation
        <+: X.consume.consumed p.tail.aru_incarnation p.tail.incarnation :=
      prefix_log_at _ _ _ _ _ _
    exact ⟨hle.trans hpre.length_le, by rw [hdig, take_eq_of_prefix hpre hle]⟩
  · intro a b
    by_cases hab : a = X.ngbr ∧ b = X.my
    · rw [hab.1, hab.2]
      show log_at X.consumed X.ngbr X.my _ X.ngbr X.my <+: Y.packed X.my X.ngbr
      rw [log_at_self]
      refine prefix_concat_of_getElem? (h.inn.pre _ _) ?_
      rw [h.own.consumed, show X.consumed_now.length = X.in_tail - 1 by omega]
      exact hcell
    · show log_at X.consumed X.ngbr X.my _ a b <+: Y.packed b a
      rw [log_at_ne _ _ hab]
      exact h.inn.pre a b
  · intro s hs1 hs2 hs3
    change X.in_tail + 1 ≤ s at hs1
    change s < X.in_head at hs2
    show (Y.packed X.my X.ngbr)[s - 1]? = some ⟨s, _, update X.in_nonces _ _ _⟩
    rw [update_slot_ne _ _ (show X.in_tail ≤ s by omega) (by omega) (le_refl _)
      (by simp only [MAX_SEND_ON_LINK]; omega) (by omega)]
    exact h.inn.cells s (by omega) hs2 hs3

theorem Both.free (h : Both used X Y) (hd : X.draining = true) :
    Both used (X.free ((X.in_tail - 1) % MAX_SEND_ON_LINK)) Y := by
  have hinv := (DrainStep.free hd).endInv h.inv
  refine ⟨hinv, ⟨h.own.packed, h.own.consumed, h.own.later⟩, ⟨h.unused.my, h.unused.other⟩,
    ⟨h.out.data, h.out.aru, h.out.pre, h.out.cells⟩, ⟨h.inn.data, h.inn.aru, h.inn.pre, ?_⟩⟩
  intro s hs1 hs2 hs3
  change update X.flags _ _ _ = CellFlag.recvd at hs3
  by_cases hslot : s % MAX_SEND_ON_LINK = (X.in_tail - 1) % MAX_SEND_ON_LINK
  · rw [hslot, update_self] at hs3
    exact absurd hs3 (by decide)
  · rw [update_of_ne hslot] at hs3
    show (Y.packed X.my X.ngbr)[s - 1]? = some ⟨s, (update X.pkts _ _ _).getD [], _⟩
    rw [update_of_ne hslot]
    exact h.inn.cells s hs1 hs2 hs3

theorem Both.store (h : Both used X Y) {p : ItPacket} (hp : Storable X p)
    (hd : X.draining = false) (hgood : Good X Y p) : Both used (X.store p) Y := by
  have hstep : PStep (some p) X (X.store p) := PStep.store p rfl hp hd
  have hinv := hstep.endInv h.inv
  refine ⟨hinv, ⟨h.own.packed, h.own.consumed, h.own.later⟩, ⟨h.unused.my, h.unused.other⟩,
    ⟨h.out.data, h.out.aru, h.out.pre, h.out.cells⟩, ⟨h.inn.data, h.inn.aru, h.inn.pre, ?_⟩⟩
  intro s hs1 hs2 hs3
  change X.in_tail ≤ s at hs1
  have hbound : s < X.in_tail + MAX_SEND_ON_LINK := lt_of_lt_of_le hs2 hinv.2.head_le
  rw [store_flags h.inv.2 hp s hs1 hbound] at hs3
  rw [store_pkts hp s hs1 hbound]
  show (Y.packed X.my X.ngbr)[s - 1]? = some ⟨s, _, update X.in_nonces _ _ _⟩
  by_cases hs : s = p.tail.link_seq
  · rw [if_pos hs, hs, update_self, ← hgood.2.1, ← hgood.2.2]
    exact h.inn.data p hgood.1 hp.1
  · rw [if_neg hs] at hs3 ⊢
    rw [update_slot_ne _ _ hs1 hbound hp.2.1 hp.2.2.1 hs]
    by_cases hgap : X.in_head ≤ s ∧ s < p.tail.link_seq
    · rw [if_pos hgap] at hs3
      exact absurd hs3 (by decide)
    · rw [if_neg hgap] at hs3
      refine h.inn.cells s hs1 ?_ hs3
      have hhead : (X.store p).in_head
          = if X.in_head ≤ p.tail.link_seq then p.tail.link_seq + 1 else X.in_head := rfl
      rw [hhead] at hs2
      split at hs2 <;> omega

theorem Both.change {X' : Proto} (h : Both used X Y) {inc : ℕ} {entries : List LinkEntry}
    (hinc : X.ngbr < inc) (hch : Changed X X' inc entries) : Both used X' Y := by
  have hlater := h.own.later inc hinc
  refine ⟨⟨OutInv.changed hch, InInv.changed hch⟩, ⟨?_, ?_, ?_⟩, ⟨?_, ?_⟩,
    h.out.grow_packed inc X.my entries hch.sent hch.packed, ⟨?_, ?_, ?_, ?_⟩⟩
  · rw [hch.packed, hch.ngbr, hch.my, log_at_self, hlater.1, hch.packed_now, nil_append]
  · rw [hch.consumed, hch.ngbr, hch.my, hlater.2, hch.consumed_now]
  · intro k hk
    rw [hch.ngbr] at hk
    have hk' := h.own.later k (by omega)
    rw [hch.packed, hch.consumed, hch.my, log_at_ne _ _ (by omega)]
    exact hk'
  · rw [hch.my]
    exact h.unused.my
  · intro m hm k
    have hne : m ≠ X.my := fun heq => hm (heq ▸ h.unused.my)
    rw [hch.packed, hch.consumed, log_at_ne _ _ (fun hc => hne hc.2)]
    exact h.unused.other m hm k
  · exact h.inn.data
  · rw [hch.sent, hch.consumed]
    exact h.inn.aru
  · rw [hch.consumed]
    exact h.inn.pre
  · intro s hs1 hs2
    rw [hch.in_tail] at hs1
    rw [hch.in_head] at hs2
    omega

/-- **One step.** Whatever a handler does at one end keeps the relation to the
other, provided the packet it processes is one the other end sent. -/
theorem Both.step {X' : Proto} {r : Option ItPacket} (h : Both used X Y) (hstep : PStep r X X')
    (hgood : ∀ p, r = some p → Good X Y p) : Both used X' Y ∧ ∀ p, r = some p → Good X' Y p := by
  cases hstep with
  | drain hs =>
    cases hs with
    | out ho =>
      have hsame := ho.sameIn
      refine ⟨h.outStep ho, fun p hp => ?_⟩
      obtain ⟨h1, h2, h3⟩ := hgood p hp
      exact ⟨h1, by rw [hsame.ngbr]; exact h2, by rw [hsame.my]; exact h3⟩
    | consume hd hrec => exact ⟨h.consume hd hrec, hgood⟩
    | free hd => exact ⟨h.free hd, hgood⟩
  | release p hr hacc =>
    refine ⟨⟨(PStep.release p hr hacc).endInv h.inv, ⟨h.own.packed, h.own.consumed, h.own.later⟩,
      ⟨h.unused.my, h.unused.other⟩, ⟨h.out.data, h.out.aru, h.out.pre, h.out.cells⟩,
      ⟨h.inn.data, h.inn.aru, h.inn.pre, h.inn.cells⟩⟩, hgood⟩
  | store p hr hst hd => exact ⟨h.store hst hd (hgood p hr), hgood⟩
  | change inc entries hr hinc hch =>
    refine ⟨h.change hinc hch, fun p hp => ?_⟩
    rw [hr] at hp
    exact absurd hp (by simp)

theorem Both.run {X' : Proto} {r : Option ItPacket} (h : Both used X Y) (hrun : PRun r X X')
    (hgood : ∀ p, r = some p → Good X Y p) : Both used X' Y := by
  have hall : Both used X' Y ∧ ∀ p, r = some p → Good X' Y p := by
    induction hrun with
    | refl => exact ⟨h, hgood⟩
    | tail _ hstep ih => exact ih.1.step hstep ih.2
  exact hall.1

end Steps

/-! ## Runs of the system -/

def PairInv (s : Pair) : Prop :=
  ∀ x, Both (s.incs x) (s.ends x).view (s.ends (!x)).view ∧ TailOpen (s.ends x).view

theorem Dir.create (cf : Conf) (m n : ℕ) :
    Dir (LinkEnd.create cf m).view (LinkEnd.create cf n).view := by
  refine ⟨?_, ?_, fun a b => prefix_refl _, ?_⟩
  · intro p hp
    exact absurd hp not_mem_nil
  · intro p hp
    exact absurd hp not_mem_nil
  · intro s hs1 hs2
    change 1 ≤ s at hs1
    change s < 1 at hs2
    omega

theorem pairInv_create (cf : Conf) (sec : Bool → ℕ) : PairInv (Pair.create cf sec) := by
  intro x
  have hset := settled_create cf (sec x)
  exact ⟨⟨hset.1, ⟨rfl, rfl, fun _ _ => ⟨rfl, rfl⟩⟩,
    ⟨mem_singleton_self _, fun _ _ _ => ⟨rfl, rfl⟩⟩, Dir.create cf _ _, Dir.create cf _ _⟩, hset.2⟩

theorem Both.restart {cf : Conf} {env : Env} {used : List ℕ} {e : LinkEnd} {Y : Proto} {sec : ℕ}
    (h : Both used e.view Y) (hsec : sec ∉ used) :
    Both (sec :: used) (restart cf sec env e).view Y := by
  have hnew := h.unused.other sec hsec
  refine ⟨(settled_restart cf sec env e).1, ⟨(hnew 0).1, (hnew 0).2, fun k _ => hnew k⟩,
    ⟨mem_cons_self, ?_⟩, ⟨h.out.data, h.out.aru, h.out.pre, h.out.cells⟩,
    ⟨h.inn.data, h.inn.aru, h.inn.pre, ?_⟩⟩
  · intro m hm k
    exact h.unused.other m (fun hc => hm (mem_cons_of_mem _ hc)) k
  · intro s hs1 hs2
    change 1 ≤ s at hs1
    change s < 1 at hs2
    omega

theorem Both.swap {used used' : List ℕ} {X X' Y : Proto} (h : Both used Y X)
    (h' : Both used' X' Y) : Both used Y X' :=
  ⟨h.inv, h.own, h.unused, h'.inn, h'.out⟩

theorem handle_both {cf : Conf} {env : Env} {used : List ℕ} {e : LinkEnd} {Y : Proto} {ev : Event}
    (h : Both used e.view Y) (hopen : TailOpen e.view) (hev : ∀ sec, ev ≠ .restart sec)
    (hsent : ∀ p, ev.packet = some p → p ∈ Y.sent) (hfront : ∀ p ∈ Y.sent, p.front = p.tail) :
    Both used (handle cf env e ev).view Y := by
  by_cases hmatch : ∀ p, ev.packet = some p → Good e.view Y p
  · exact h.run (handle_run cf env e ev h.inv hopen hev).1 hmatch
  · -- some incarnation differs, and the handler returns at once
    push Not at hmatch
    obtain ⟨p, hp, hbad⟩ := hmatch
    have hmem := hsent p hp
    have hdiff : ¬ (p.tail.incarnation = e.ngbr_incarnation ∧
        p.tail.aru_incarnation = e.my_incarnation) := fun hc => hbad ⟨hmem, hc.1, hc.2⟩
    have hskip : handle cf env e ev = e := by
      cases ev with
      | data_packet q =>
        obtain rfl : q = p := some.inj hp
        simp only [handle, process_intru_tol_data_packet]
        by_cases h1 : q.tail.incarnation = e.ngbr_incarnation
        · rw [if_neg (not_not.mpr h1), if_pos (fun h2 => hdiff ⟨h1, h2⟩)]
        · rw [if_pos h1]
      | ack_packet q =>
        obtain rfl : q = p := some.inj hp
        have hq := hfront q hmem
        simp only [handle, process_intru_tol_ack_packet, hq]
        by_cases h1 : q.tail.incarnation = e.ngbr_incarnation
        · rw [if_neg (not_not.mpr h1), if_pos (fun h2 => hdiff ⟨h1, h2⟩)]
        · rw [if_pos h1]
      | _ => exact absurd hp (by simp [Event.packet])
    rw [hskip]
    exact h

def Fronts (s : Pair) : Prop := ∀ x, ∀ p ∈ (s.ends x).sent, p.front = p.tail

theorem PStep.fronts {r : Option ItPacket} {σ σ' : Proto} (hstep : PStep r σ σ')
    (h : ∀ p ∈ σ.sent, p.front = p.tail) : ∀ p ∈ σ'.sent, p.front = p.tail := by
  have hsend : ∀ p : ItPacket, p.front = p.tail → ∀ q ∈ σ.sent ++ [p], q.front = q.tail := by
    intro p hp q hq
    rcases mem_append.mp hq with hold | hnew
    · exact h q hold
    · rw [mem_singleton.mp hnew]
      exact hp
  cases hstep with
  | drain hs =>
    cases hs with
    | out ho =>
      cases ho with
      | send p seq h1 h2 hdata hseq hnonce hrep => exact hsend p hrep.front
      | ack p hseq hrep => exact hsend p hrep.front
      | pack data nonce hroom => exact h
      | advance hlt => exact h
    | consume hd hrec => exact h
    | free hd => exact h
  | release p hr hacc => exact h
  | store p hr hst hd => exact h
  | change inc entries hr hinc hch => rw [hch.sent]; exact h

theorem PRun.fronts {r : Option ItPacket} {σ σ' : Proto} (hrun : PRun r σ σ')
    (h : ∀ p ∈ σ.sent, p.front = p.tail) : ∀ p ∈ σ'.sent, p.front = p.tail := by
  induction hrun with
  | refl => exact h
  | tail _ hstep ih => exact hstep.fronts ih

theorem pairInv_step {cf : Conf} {s s' : Pair} {l : Bool × Event} (h : PairInv s ∧ Fronts s)
    (hstep : PairStep cf true s l s') : PairInv s' ∧ Fronts s' := by
  obtain ⟨x, ev⟩ := l
  obtain ⟨hgen, -, hfresh, env, rfl⟩ := hstep
  obtain ⟨hinv, hfronts⟩ := h
  dsimp only at hgen hfresh ⊢
  have hself : (s.act cf x env ev).ends x = handle cf env (s.ends x) ev :=
    update_self _ _ _
  have hother : (s.act cf x env ev).ends (!x) = s.ends (!x) :=
    update_of_ne (by cases x <;> decide) _ _
  -- the end at which the event happens
  have hnew : Both ((s.act cf x env ev).incs x) (handle cf env (s.ends x) ev).view
      (s.ends (!x)).view ∧ TailOpen (handle cf env (s.ends x) ev).view ∧
      ∀ p ∈ (handle cf env (s.ends x) ev).sent, p.front = p.tail := by
    by_cases hev : ∃ sec, ev = .restart sec
    · obtain ⟨sec, rfl⟩ := hev
      have hincs : (s.act cf x env (.restart sec)).incs x = sec :: s.incs x :=
        update_self _ _ _
      rw [hincs]
      exact ⟨(hinv x).1.restart (hfresh rfl sec rfl), (settled_restart cf sec env (s.ends x)).2,
        hfronts x⟩
    · have hev' : ∀ sec, ev ≠ .restart sec := fun sec heq => hev ⟨sec, heq⟩
      have hincs : (s.act cf x env ev).incs = s.incs := by
        cases ev with
        | restart sec => exact absurd rfl (hev' sec)
        | _ => rfl
      have hrun := handle_run cf env (s.ends x) ev (hinv x).1.inv (hinv x).2 hev'
      have hsent : ∀ p, ev.packet = some p → p ∈ (s.ends (!x)).view.sent := by
        intro p hp
        cases ev with
        | data_packet q =>
          obtain rfl : q = p := some.inj hp
          simp only [genuine, Bool.and_eq_true, decide_eq_true_eq] at hgen
          exact hgen.1
        | ack_packet q =>
          obtain rfl : q = p := some.inj hp
          simp only [genuine, Bool.and_eq_true, decide_eq_true_eq] at hgen
          exact hgen.1
        | _ => exact absurd hp (by simp [Event.packet])
      rw [hincs]
      exact ⟨handle_both (hinv x).1 (hinv x).2 hev' hsent (hfronts (!x)), hrun.2,
        hrun.1.fronts (hfronts x)⟩
  have hincs' : (s.act cf x env ev).incs (!x) = s.incs (!x) := by
    have hne : (!x) ≠ x := by cases x <;> decide
    cases ev with
    | restart sec => exact update_of_ne hne _ _
    | _ => rfl
  have hswap := (hinv (!x)).1
  rw [Bool.not_not] at hswap
  constructor
  · intro y
    by_cases hy : y = x
    · rw [hy, hself, hother]
      exact ⟨hnew.1, hnew.2.1⟩
    · obtain rfl : y = !x := by cases y <;> cases x <;> simp_all
      rw [hother, Bool.not_not, hself, hincs']
      exact ⟨hswap.swap hnew.1, (hinv (!x)).2⟩
  · intro y
    by_cases hy : y = x
    · rw [hy, hself]
      exact hnew.2.2
    · obtain rfl : y = !x := by cases y <;> cases x <;> simp_all
      rw [hother]
      exact hfronts (!x)

theorem pairInv_run {cf : Conf} {sec : Bool → ℕ} {s : Pair}
    (hrun : Run (PairStep cf true) (Pair.create cf sec) s) : PairInv s := by
  have hinit : PairInv (Pair.create cf sec) ∧ Fronts (Pair.create cf sec) :=
    ⟨pairInv_create cf sec, fun x p hp => absurd hp not_mem_nil⟩
  exact (hrun.invariant (fun t => PairInv t ∧ Fronts t) hinit
    (fun _ _ _ h hstep => pairInv_step h hstep)).1

/-! ## Results -/

/-- What each end has consumed under a pair of incarnations is a prefix of what
the other end has packed under it. -/
def InOrder (s : Pair) : Prop :=
  ∀ x a b, (s.ends (!x)).consumed a b <+: (s.ends x).packed b a

/-- The nonce check accepts every acknowledgement in flight to end `x` whose
incarnations match and whose aru is in the window. -/
def AcksMatch (s : Pair) : Prop :=
  ∀ x, ∀ p ∈ (s.ends (!x)).sent, p.tail.incarnation = (s.ends x).ngbr_incarnation →
    p.tail.aru_incarnation = (s.ends x).my_incarnation →
    (s.ends x).outb.out_tail_seq ≤ p.tail.aru → p.tail.aru < (s.ends x).outb.tcp_head_seq →
    p.tail.aru_nonce = (s.ends x).outb.out_nonce_digest (p.tail.aru % MAX_SEND_ON_LINK)

/-- **In-order delivery.** Over every interleaving of packing, retransmitting,
acknowledging, losing, duplicating and reordering, and of restarts under unused
incarnations and incarnation changes on either side: no gap, no duplicate, no
reordering, and nothing of another incarnation pair. -/
theorem consumed_prefix_packed {cf : Conf} {sec : Bool → ℕ} {s : Pair}
    (hrun : Run (PairStep cf true) (Pair.create cf sec) s) : InOrder s := by
  intro x a b
  exact (pairInv_run hrun x).1.out.pre a b

/-- **Honest acknowledgements pass the nonce check.** The receiver's running XOR
and the sender's digest are digests of the same prefix of one history. -/
theorem honest_ack_matches {cf : Conf} {sec : Bool → ℕ} {s : Pair}
    (hrun : Run (PairStep cf true) (Pair.create cf sec) s) : AcksMatch s := by
  intro x p hp hinc haru h1 h2
  have hboth := (pairInv_run hrun x).1
  obtain ⟨hle, hdig⟩ := hboth.out.aru p hp
  rw [hinc, haru] at hle hdig
  have hpre := hboth.out.pre (s.ends x).my_incarnation (s.ends x).ngbr_incarnation
  have hcur : (s.ends x).view.packed (s.ends x).ngbr_incarnation (s.ends x).my_incarnation
      = (s.ends x).packed_now := hboth.own.packed
  rw [hcur] at hpre
  have htcp : (s.ends x).outb.tcp_head_seq ≤ (s.ends x).outb.out_head_seq := hboth.inv.1.tcp_le
  have hhead : (s.ends x).outb.out_head_seq ≤ (s.ends x).outb.out_tail_seq + MAX_SEND_ON_LINK :=
    hboth.inv.1.head_le
  have hwin := hboth.inv.1.digest p.tail.aru (show _ < (s.ends x).outb.out_head_seq by omega)
    (show (s.ends x).outb.out_head_seq ≤ _ by omega)
  rw [hdig, take_eq_of_prefix hpre hle]
  exact hwin.symm

/-! ## Scripted runs -/

/-- A script: who acts, in which surroundings, and which event, given the state
(so that a script can say "the second packet the other end sent"). -/
abbrev Script := List (Bool × Env × (Pair → Event))

def Event.is_restart : Event → Bool
  | .restart _ => true
  | _ => false

def play (cf : Conf) (fresh : Bool) : Pair → Script → Option Pair
  | s, [] => some s
  | s, (x, env, f) :: rest =>
    if genuine s x (f s) = true ∧ (s.ends x).exited = false ∧
        (fresh = true → (f s).is_restart = false) then
      play cf fresh (s.act cf x env (f s)) rest
    else none

theorem play_run {cf : Conf} {fresh : Bool} (script : Script) :
    ∀ {s s' : Pair}, play cf fresh s script = some s' → Run (PairStep cf fresh) s s' := by
  induction script with
  | nil =>
    intro s s' h
    rw [play, some_inj] at h
    rw [h]
    exact Run.refl s'
  | cons item rest ih =>
    intro s s' h
    obtain ⟨x, env, f⟩ := item
    rw [play] at h
    by_cases hok : genuine s x (f s) = true ∧ (s.ends x).exited = false ∧
        (fresh = true → (f s).is_restart = false)
    · rw [if_pos hok] at h
      obtain ⟨hgen, hexit, hfresh⟩ := hok
      have hstep : PairStep cf fresh s (x, f s) (s.act cf x env (f s)) := by
        refine ⟨hgen, .inl hexit, fun hf sec heq => ?_, env, rfl⟩
        have hno := hfresh hf
        dsimp only at heq
        rw [heq] at hno
        exact absurd hno.symm Bool.false_ne_true
      exact .head ⟨_, hstep⟩ (ih h)
    · rw [if_neg hok] at h
      exact absurd h (by simp)

def nth_ping (x : Bool) (n : ℕ) (s : Pair) : Event :=
  .ping true true ((s.ends x).pings.getD n ⟨0, 0⟩)

def nth_data (x : Bool) (n : ℕ) (s : Pair) : Event :=
  .data_packet ((s.ends x).sent.getD n ahead_packet)

def two_ends : Pair := Pair.create plain_conf (fun x => if x then 9 else 5)

def first_packet : Script :=
  [(false, plain_env, fun _ => .ping_it_timeout),
   (true, plain_env, nth_ping false 0),
   (false, plain_env, nth_ping true 0),
   (false, plain_env, fun _ => .forward (plain_msg [[1]])),
   (true, plain_env, nth_data false 0)]

def other_nonces : Env := { plain_env with nonce := fun s => BitVec.ofNat 64 (s + 77) }

def restart_race : Script :=
  first_packet ++
  [(false, plain_env, fun _ => .restart 5),
   (false, plain_env, nth_ping true 0),
   (false, other_nonces, fun _ => .forward (plain_msg [[2]])),
   (false, other_nonces, fun _ => .forward (plain_msg [[3]]))]

theorem consumed_prefix_packed_first :
    ∃ s, Run (PairStep plain_conf true) two_ends s ∧ InOrder s ∧
      (s.ends true).consumed 5 9 = (s.ends false).packed 9 5 ∧
      ((s.ends true).consumed 5 9).length = 2 := by
  let both : Script := first_packet ++
    [(false, plain_env, fun _ => .forward (plain_msg [[2]])), (true, plain_env, nth_data false 1)]
  obtain ⟨s, hs⟩ : ∃ s, play plain_conf true two_ends both = some s :=
    isSome_iff_exists.mp (by decide +kernel)
  have hrun := play_run both hs
  have hlogs : (play plain_conf true two_ends both).map
      (fun s => decide ((s.ends true).consumed 5 9 = (s.ends false).packed 9 5 ∧
        ((s.ends true).consumed 5 9).length = 2)) = some true := by decide +kernel
  rw [hs, map_some, some_inj, decide_eq_true_eq] at hlogs
  exact ⟨s, hrun, consumed_prefix_packed hrun, hlogs⟩

/-- **A restart within the second.** The other end has packet `1` of the old
window and takes packet `2` of the new one: packet `1` of the new window is
missing from what it consumes. -/
theorem restart_race_out_of_order :
    ∃ s, Run (PairStep plain_conf false) two_ends s ∧ ¬ InOrder s := by
  obtain ⟨s, hs⟩ : ∃ s, play plain_conf false two_ends
      (restart_race ++ [(true, plain_env, nth_data false 2)]) = some s :=
    isSome_iff_exists.mp (by decide +kernel)
  have hbad : (play plain_conf false two_ends
      (restart_race ++ [(true, plain_env, nth_data false 2)])).map
      (fun s => decide ((s.ends true).consumed 5 9 <+: (s.ends false).packed 9 5)) = some false := by
    decide +kernel
  rw [hs, map_some, some_inj, decide_eq_false_iff_not] at hbad
  exact ⟨s, play_run _ hs, fun hin => hbad (hin false 5 9)⟩

theorem first_ack {fresh : Bool} {script : Script} {s : Pair} {tcp_head : ℕ} (h1 : 1 < tcp_head)
    (hs : play plain_conf fresh two_ends script = some s)
    (hack : (play plain_conf fresh two_ends script).map (fun s =>
      ((s.ends true).sent.map ItPacket.tail, (s.ends false).ngbr_incarnation,
        (s.ends false).my_incarnation, (s.ends false).outb.out_tail_seq,
        (s.ends false).outb.tcp_head_seq)) = some ([⟨0, 0, 1, 6, 9, 5⟩], 9, 5, 1, tcp_head))
    (hmatch : AcksMatch s) : ∃ p ∈ (s.ends true).sent, p.tail.aru = 1 ∧ p.tail.aru_nonce = 6 ∧
      p.tail.aru_nonce = (s.ends false).outb.out_nonce_digest 1 := by
  rw [hs, map_some, some_inj] at hack
  simp only [Prod.mk.injEq] at hack
  obtain ⟨htails, hw1, hw2, hw3, hw4⟩ := hack
  obtain ⟨p, hp, hpt⟩ : ∃ p ∈ (s.ends true).sent, p.tail = ⟨0, 0, 1, 6, 9, 5⟩ :=
    List.mem_map.mp (by rw [htails]; exact mem_singleton_self _)
  have h := hmatch false p hp (by rw [hpt, hw1]) (by rw [hpt, hw2]) (by rw [hpt, hw3])
    (by rw [hpt, hw4]; exact h1)
  rw [hpt] at h
  exact ⟨p, hp, by rw [hpt], by rw [hpt], by rw [hpt]; exact h⟩

theorem honest_ack_matches_first :
    ∃ s, Run (PairStep plain_conf true) two_ends s ∧ AcksMatch s ∧
      ∃ p ∈ (s.ends true).sent, p.tail.aru = 1 ∧
        p.tail.aru_nonce = (s.ends false).outb.out_nonce_digest 1 := by
  obtain ⟨s, hs⟩ : ∃ s, play plain_conf true two_ends
      (first_packet ++ [(true, plain_env, fun _ => .ack_it_timeout)]) = some s :=
    isSome_iff_exists.mp (by decide +kernel)
  have hrun := play_run _ hs
  have hmatch := honest_ack_matches hrun
  obtain ⟨p, hp, haru, -, hnonce⟩ :=
    first_ack (by decide : 1 < 2) hs (by decide +kernel) hmatch
  exact ⟨s, hrun, hmatch, p, hp, haru, hnonce⟩

/-- **The same restart.** The other end acknowledges packet `1` of the old
window, and the new packet `1` has another nonce. -/
theorem restart_race_ack_refused :
    ∃ s, Run (PairStep plain_conf false) two_ends s ∧ ¬ AcksMatch s := by
  obtain ⟨s, hs⟩ : ∃ s, play plain_conf false two_ends
      (restart_race ++ [(true, plain_env, fun _ => .ack_it_timeout)]) = some s :=
    isSome_iff_exists.mp (by decide +kernel)
  have hnew : (play plain_conf false two_ends
      (restart_race ++ [(true, plain_env, fun _ => .ack_it_timeout)])).map
      (fun s => (s.ends false).outb.out_nonce_digest 1) = some 78 := by decide +kernel
  rw [hs, map_some, some_inj] at hnew
  refine ⟨s, play_run _ hs, fun hmatch => ?_⟩
  obtain ⟨p, -, -, hold, hnonce⟩ := first_ack (by decide : 1 < 3) hs (by decide +kernel) hmatch
  rw [hold, hnew] at hnonce
  exact absurd hnonce (by decide)

end Spines.IntruTol
