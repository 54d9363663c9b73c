/-
The window protocol of an intrusion-tolerant link.

This is the link with everything removed that only decides **when** something
happens: timers, flags of the retransmission machinery, fragments, the waiting
message. What is left is a state `Proto` (two rings of `MAX_SEND_ON_LINK`
cells, the nonces and their digests, the incarnations, the histories) and the
few things that can happen to it:

* `OutStep`: a packet is sent, an ack is sent, a packet enters the outgoing
  window, the TCP window opens by one;
* `Proto.release`: an acknowledgement moves the tail;
* `Proto.store`, `Proto.consume`, `Proto.free`: a packet enters the incoming
  window, leaves it in order, and its cell becomes empty;
* `Changed`: an incarnation change.
-/
import Spines.IntruTol.Link

set_option autoImplicit false

namespace Spines.IntruTol

open Spines.Lib Function List

/-! ## State and steps -/

@[ext]
structure Proto where
  cells : ℕ → Option Bytes
  nonces : ℕ → BitVec 64
  digests : ℕ → BitVec 64
  head : ℕ
  tail : ℕ
  tcp : ℕ
  flags : ℕ → CellFlag
  pkts : ℕ → Option Bytes
  in_nonces : ℕ → BitVec 64
  aru_digest : BitVec 64
  in_head : ℕ
  in_tail : ℕ
  my : ℕ
  ngbr : ℕ
  draining : Bool
  packed_now : List LinkEntry
  consumed_now : List LinkEntry
  stored_now : List ℕ
  packed : ℕ → ℕ → List LinkEntry
  consumed : ℕ → ℕ → List LinkEntry
  sent : List ItPacket

def LinkEnd.view (e : LinkEnd) : Proto where
  cells := fun i => (e.outb.outgoing i).pkt.map List.flatten
  nonces := e.outb.out_nonce
  digests := e.outb.out_nonce_digest
  head := e.outb.out_head_seq
  tail := e.outb.out_tail_seq
  tcp := e.outb.tcp_head_seq
  flags := fun i => (e.inb.incoming i).flags
  pkts := fun i => (e.inb.incoming i).pkt
  in_nonces := e.inb.in_nonce
  aru_digest := e.inb.aru_nonce_digest
  in_head := e.inb.in_head_seq
  in_tail := e.inb.in_tail_seq
  my := e.my_incarnation
  ngbr := e.ngbr_incarnation
  draining := e.draining
  packed_now := e.packed_now
  consumed_now := e.consumed_now
  stored_now := e.stored_now
  packed := e.packed
  consumed := e.consumed
  sent := e.sent

structure Reports (σ : Proto) (p : ItPacket) : Prop where
  front : p.front = p.tail
  aru : p.tail.aru = σ.in_tail - 1
  aru_nonce : p.tail.aru_nonce = σ.aru_digest
  incarnation : p.tail.incarnation = σ.my
  aru_incarnation : p.tail.aru_incarnation = σ.ngbr
  nacks : ∀ n ∈ p.nacks, σ.in_tail ≤ n ∧ n < σ.in_head ∧ σ.flags (n % MAX_SEND_ON_LINK) = .nack

def Proto.pack (σ : Proto) (data : Bytes) (nonce : BitVec 64) : Proto :=
  { σ with
    cells := Function.update σ.cells (σ.head % MAX_SEND_ON_LINK) (some data)
    nonces := Function.update σ.nonces (σ.head % MAX_SEND_ON_LINK) nonce
    digests := Function.update σ.digests (σ.head % MAX_SEND_ON_LINK)
      (nonce ^^^ σ.digests ((σ.head - 1) % MAX_SEND_ON_LINK))
    head := σ.head + 1
    packed_now := σ.packed_now ++ [⟨σ.head, data, nonce⟩]
    packed := log_at σ.packed σ.ngbr σ.my [⟨σ.head, data, nonce⟩] }

inductive OutStep : Proto → Proto → Prop
  | send {σ : Proto} (p : ItPacket) (seq : ℕ) (h1 : σ.tail ≤ seq) (h2 : seq < σ.tcp)
      (hdata : σ.cells (seq % MAX_SEND_ON_LINK) = some p.data)
      (hseq : p.tail.link_seq = seq)
      (hnonce : p.tail.seq_nonce = σ.nonces (seq % MAX_SEND_ON_LINK)) (hrep : Reports σ p) :
      OutStep σ { σ with sent := σ.sent ++ [p] }
  | ack {σ : Proto} (p : ItPacket) (hseq : p.tail.link_seq = 0) (hrep : Reports σ p) :
      OutStep σ { σ with sent := σ.sent ++ [p] }
  | pack {σ : Proto} (data : Bytes) (nonce : BitVec 64)
      (h : σ.head - σ.tail < MAX_SEND_ON_LINK) : OutStep σ (σ.pack data nonce)
  | advance {σ : Proto} (h : σ.tcp < σ.head) : OutStep σ { σ with tcp := σ.tcp + 1 }

def OutRun : Proto → Proto → Prop := Relation.ReflTransGen OutStep

/-- An acknowledgement of everything up to `aru`. -/
def Proto.release (σ : Proto) (aru : ℕ) : Proto :=
  { σ with
    cells := fillRange MAX_SEND_ON_LINK none σ.tail (aru + 1 - σ.tail) σ.cells
    tail := aru + 1 }

def Accepts (σ : Proto) (p : ItPacket) : Prop :=
  σ.tail ≤ p.tail.aru ∧ p.tail.aru < σ.tcp ∧
    p.tail.aru_nonce = σ.digests (p.tail.aru % MAX_SEND_ON_LINK)

/-- Packet `p` enters the incoming window. -/
def Proto.store (σ : Proto) (p : ItPacket) : Proto :=
  let seq := p.tail.link_seq
  let flags := Function.update σ.flags (seq % MAX_SEND_ON_LINK) .recvd
  { σ with
    flags :=
      if σ.in_head ≤ seq then
        fillRange MAX_SEND_ON_LINK .nack σ.in_head (seq - σ.in_head) flags
      else flags
    pkts := Function.update σ.pkts (seq % MAX_SEND_ON_LINK) (some p.data)
    in_nonces := Function.update σ.in_nonces (seq % MAX_SEND_ON_LINK) p.tail.seq_nonce
    in_head := if σ.in_head ≤ seq then seq + 1 else σ.in_head
    stored_now := σ.stored_now ++ [seq] }

def Storable (σ : Proto) (p : ItPacket) : Prop :=
  0 < p.tail.link_seq ∧ σ.in_tail ≤ p.tail.link_seq ∧
    p.tail.link_seq < σ.in_tail + MAX_SEND_ON_LINK ∧
    σ.flags (p.tail.link_seq % MAX_SEND_ON_LINK) ≠ .recvd

def Proto.consume (σ : Proto) : Proto :=
  let i := σ.in_tail % MAX_SEND_ON_LINK
  let entry : LinkEntry := ⟨σ.in_tail, (σ.pkts i).getD [], σ.in_nonces i⟩
  { σ with
    aru_digest := σ.aru_digest ^^^ σ.in_nonces i
    in_tail := σ.in_tail + 1
    in_nonces := Function.update σ.in_nonces i 0
    consumed_now := σ.consumed_now ++ [entry]
    consumed := log_at σ.consumed σ.ngbr σ.my [entry]
    draining := true }

def Proto.free (σ : Proto) (i : ℕ) : Proto :=
  { σ with
    flags := Function.update σ.flags i .empty
    pkts := Function.update σ.pkts i none
    draining := false }

structure Changed (σ σ' : Proto) (inc : ℕ) (entries : List LinkEntry) : Prop where
  my : σ'.my = σ.my
  ngbr : σ'.ngbr = inc
  sent : σ'.sent = σ.sent
  in_tail : σ'.in_tail = 1
  in_head : σ'.in_head = 1
  aru_digest : σ'.aru_digest = 0
  draining : σ'.draining = false
  flags : ∀ i, i < MAX_SEND_ON_LINK → σ'.flags i = .empty
  pkts : ∀ i, i < MAX_SEND_ON_LINK → σ'.pkts i = none
  consumed_now : σ'.consumed_now = []
  stored_now : σ'.stored_now = []
  consumed : σ'.consumed = σ.consumed
  packed_now : σ'.packed_now = entries
  packed : σ'.packed = log_at σ.packed inc σ.my entries
  tail : σ'.tail = 1
  head : σ'.head = entries.length + 1
  tcp : 1 ≤ σ'.tcp ∧ σ'.tcp ≤ σ'.head
  len : entries.length ≤ MAX_SEND_ON_LINK
  seqs : entries.map LinkEntry.seq = range' 1 entries.length
  cell : ∀ s, 1 ≤ s → s < σ'.head → ∃ x, entries[s - 1]? = some x ∧ x.seq = s ∧
    σ'.cells (s % MAX_SEND_ON_LINK) = some x.data ∧ σ'.nonces (s % MAX_SEND_ON_LINK) = x.nonce
  digest : ∀ s, s < σ'.head → σ'.head ≤ s + MAX_SEND_ON_LINK →
    σ'.digests (s % MAX_SEND_ON_LINK) = digest ((entries.take s).map LinkEntry.nonce)

/-! ## The outgoing window -/

/-- The outgoing window against its history. The digests are right for the last
`MAX_SEND_ON_LINK` numbers, `0` included: that covers the window, and the
number before it, from which the next digest is computed. -/
structure OutInv (σ : Proto) : Prop where
  start : 1 ≤ σ.tail
  tail_le : σ.tail ≤ σ.tcp
  tcp_le : σ.tcp ≤ σ.head
  head_le : σ.head ≤ σ.tail + MAX_SEND_ON_LINK
  seqs : σ.packed_now.map LinkEntry.seq = range' 1 (σ.head - 1)
  cell : ∀ s, σ.tail ≤ s → s < σ.head → ∃ x, σ.packed_now[s - 1]? = some x ∧ x.seq = s ∧
    σ.cells (s % MAX_SEND_ON_LINK) = some x.data ∧ σ.nonces (s % MAX_SEND_ON_LINK) = x.nonce
  digest : ∀ s, s < σ.head → σ.head ≤ s + MAX_SEND_ON_LINK →
    σ.digests (s % MAX_SEND_ON_LINK) = digest ((σ.packed_now.take s).map LinkEntry.nonce)

variable {σ σ' : Proto} {p : ItPacket} {r : Option ItPacket}

theorem OutInv.len (h : OutInv σ) : σ.packed_now.length + 1 = σ.head := by
  have hlen := congrArg List.length h.seqs
  have h1 := h.start
  have h2 := h.tail_le
  have h3 := h.tcp_le
  rw [length_map, length_range'] at hlen
  omega

theorem OutInv.pack (h : OutInv σ) (data : Bytes) (nonce : BitVec 64)
    (hroom : σ.head - σ.tail < MAX_SEND_ON_LINK) : OutInv (σ.pack data nonce) := by
  have h1 := h.start
  have h2 := h.tail_le
  have h3 := h.tcp_le
  have h4 := h.len
  refine ⟨h1, h2, ?_, ?_, ?_, ?_, ?_⟩
  · show σ.tcp ≤ σ.head + 1
    omega
  · show σ.head + 1 ≤ σ.tail + MAX_SEND_ON_LINK
    omega
  · show (σ.packed_now ++ [_]).map LinkEntry.seq = range' 1 (σ.head + 1 - 1)
    rw [map_append, map_singleton, h.seqs,
      show σ.head + 1 - 1 = (σ.head - 1) + 1 by omega, range'_1_concat,
      show 1 + (σ.head - 1) = σ.head by omega]
  · intro s hs1 hs2
    change s < σ.head + 1 at hs2
    change σ.tail ≤ s at hs1
    show ∃ x, (σ.packed_now ++ [_])[s - 1]? = some x ∧ x.seq = s ∧
      update σ.cells _ _ (s % MAX_SEND_ON_LINK) = some x.data ∧
      update σ.nonces _ _ (s % MAX_SEND_ON_LINK) = x.nonce
    by_cases hs : s = σ.head
    · subst hs
      refine ⟨⟨σ.head, data, nonce⟩, ?_, rfl, ?_, ?_⟩
      · rw [List.getElem?_append_right (by omega), show σ.head - 1 - σ.packed_now.length = 0 by omega]
        rfl
      · rw [update_self]
      · rw [update_self]
    · obtain ⟨x, hx, hseq, hc, hn⟩ := h.cell s hs1 (by omega)
      refine ⟨x, ?_, hseq, ?_, ?_⟩
      · rw [List.getElem?_append_left (by omega), hx]
      · rw [update_slot_ne _ _ hs1 (by omega) (by omega) (by omega) hs, hc]
      · rw [update_slot_ne _ _ hs1 (by omega) (by omega) (by omega) hs, hn]
  · intro s hs1 hs2
    change s < σ.head + 1 at hs1
    change σ.head + 1 ≤ s + MAX_SEND_ON_LINK at hs2
    show update σ.digests _ _ (s % MAX_SEND_ON_LINK)
      = Lib.digest (((σ.packed_now ++ [_]).take s).map LinkEntry.nonce)
    by_cases hs : s = σ.head
    · -- the new digest continues the one of the number before
      subst hs
      have hprev := h.digest (σ.head - 1) (by omega) (by simp only [MAX_SEND_ON_LINK]; omega)
      rw [take_of_length_le (by omega)] at hprev
      rw [update_self, hprev, take_of_length_le
        (by rw [length_append, length_singleton]; omega), map_append,
        map_singleton, digest_concat, BitVec.xor_comm]
    · rw [update_slot_ne _ _ (le_refl s) (by simp only [MAX_SEND_ON_LINK]; omega)
        (by omega) (by omega) hs, h.digest s (by omega) (by omega),
        take_append_of_le_length (by omega)]

theorem OutInv.release (h : OutInv σ) (aru : ℕ) (h1 : σ.tail ≤ aru) (h2 : aru < σ.tcp) :
    OutInv (σ.release aru) := by
  have htcp := h.tcp_le
  have hle := h.head_le
  refine ⟨?_, ?_, htcp, ?_, h.seqs, ?_, h.digest⟩
  · show 1 ≤ aru + 1
    omega
  · show aru + 1 ≤ σ.tcp
    omega
  · show σ.head ≤ aru + 1 + MAX_SEND_ON_LINK
    omega
  · intro s hs1 hs2
    change aru + 1 ≤ s at hs1
    change s < σ.head at hs2
    obtain ⟨x, hx, hseq, hc, hn⟩ := h.cell s (by omega) hs2
    refine ⟨x, hx, hseq, ?_, hn⟩
    show fillRange MAX_SEND_ON_LINK none σ.tail (aru + 1 - σ.tail) σ.cells _ = _
    rw [fillRange_other, hc]
    intro q hq1 hq2
    exact slot_ne hq1 (by omega) (by omega) (by omega) (by omega)

theorem OutInv.changed {inc : ℕ} {entries : List LinkEntry} (h : Changed σ σ' inc entries) :
    OutInv σ' := by
  have hhead := h.head
  have htail := h.tail
  have hlen := h.len
  refine ⟨by omega, by rw [htail]; exact h.tcp.1, h.tcp.2, by omega, ?_, ?_, ?_⟩
  · rw [h.packed_now, hhead, h.seqs, Nat.add_sub_cancel]
  · intro s hs1 hs2
    rw [h.packed_now]
    exact h.cell s (by omega) hs2
  · intro s hs1 hs2
    rw [h.packed_now]
    exact h.digest s hs1 hs2

theorem OutStep.outInv (hstep : OutStep σ σ') (h : OutInv σ) : OutInv σ' := by
  cases hstep with
  | send p seq h1 h2 hdata hseq hnonce hrep =>
    exact ⟨h.start, h.tail_le, h.tcp_le, h.head_le, h.seqs, h.cell, h.digest⟩
  | ack p hseq hrep => exact ⟨h.start, h.tail_le, h.tcp_le, h.head_le, h.seqs, h.cell, h.digest⟩
  | pack data nonce hroom => exact h.pack data nonce hroom
  | advance hlt =>
    have htail := h.tail_le
    exact ⟨h.start, Nat.le_succ_of_le htail, hlt, h.head_le, h.seqs, h.cell, h.digest⟩

theorem OutRun.outInv (hrun : OutRun σ σ') (h : OutInv σ) : OutInv σ' := by
  induction hrun with
  | refl => exact h
  | tail _ hstep ih => exact hstep.outInv ih

/-! ## The incoming window -/

/-- The incoming window against its history. While the in-order loop hands a
packet up (`draining`), the cell of that packet, the last one of the window
that starts at `in_tail`, is not yet empty. -/
structure InInv (σ : Proto) : Prop where
  start : 1 ≤ σ.in_tail
  le : σ.in_tail ≤ σ.in_head
  head_le : σ.in_head ≤ σ.in_tail + MAX_SEND_ON_LINK
  drain : σ.draining = true → σ.in_head < σ.in_tail + MAX_SEND_ON_LINK
  window : ∀ s, σ.in_tail ≤ s → s < σ.in_head →
    (σ.flags (s % MAX_SEND_ON_LINK) = .recvd ∧ (σ.pkts (s % MAX_SEND_ON_LINK)).isSome) ∨
    (σ.flags (s % MAX_SEND_ON_LINK) = .nack ∧ σ.pkts (s % MAX_SEND_ON_LINK) = none)
  outside : ∀ s, σ.in_head ≤ s → s < σ.in_tail + MAX_SEND_ON_LINK →
    (σ.draining = true → s + 1 ≠ σ.in_tail + MAX_SEND_ON_LINK) →
    σ.flags (s % MAX_SEND_ON_LINK) = .empty ∧ σ.pkts (s % MAX_SEND_ON_LINK) = none
  seqs : σ.consumed_now.map LinkEntry.seq = range' 1 (σ.in_tail - 1)
  aru : σ.aru_digest = digest (σ.consumed_now.map LinkEntry.nonce)
  stored : ∀ s, s ∈ σ.stored_now ↔ (1 ≤ s ∧ s < σ.in_tail) ∨
    (σ.in_tail ≤ s ∧ s < σ.in_head ∧ σ.flags (s % MAX_SEND_ON_LINK) = .recvd)

theorem InInv.length_consumed (h : InInv σ) : σ.consumed_now.length + 1 = σ.in_tail := by
  have hlen := congrArg List.length h.seqs
  have hstart := h.start
  rw [length_map, length_range'] at hlen
  omega

structure SameIn (σ σ' : Proto) : Prop where
  flags : σ'.flags = σ.flags
  pkts : σ'.pkts = σ.pkts
  in_nonces : σ'.in_nonces = σ.in_nonces
  aru_digest : σ'.aru_digest = σ.aru_digest
  in_head : σ'.in_head = σ.in_head
  in_tail : σ'.in_tail = σ.in_tail
  my : σ'.my = σ.my
  ngbr : σ'.ngbr = σ.ngbr
  draining : σ'.draining = σ.draining
  consumed_now : σ'.consumed_now = σ.consumed_now
  stored_now : σ'.stored_now = σ.stored_now
  consumed : σ'.consumed = σ.consumed

theorem SameIn.refl (σ : Proto) : SameIn σ σ :=
  ⟨rfl, rfl, rfl, rfl, rfl, rfl, rfl, rfl, rfl, rfl, rfl, rfl⟩

theorem OutStep.sameIn (h : OutStep σ σ') : SameIn σ σ' := by
  cases h <;> exact ⟨rfl, rfl, rfl, rfl, rfl, rfl, rfl, rfl, rfl, rfl, rfl, rfl⟩

theorem OutRun.sameIn (h : OutRun σ σ') : SameIn σ σ' := by
  induction h with
  | refl => exact SameIn.refl σ
  | tail _ hstep ih =>
    have h' := hstep.sameIn
    exact ⟨h'.flags.trans ih.flags, h'.pkts.trans ih.pkts, h'.in_nonces.trans ih.in_nonces,
      h'.aru_digest.trans ih.aru_digest, h'.in_head.trans ih.in_head,
      h'.in_tail.trans ih.in_tail, h'.my.trans ih.my, h'.ngbr.trans ih.ngbr,
      h'.draining.trans ih.draining, h'.consumed_now.trans ih.consumed_now,
      h'.stored_now.trans ih.stored_now, h'.consumed.trans ih.consumed⟩

theorem InInv.same (h : InInv σ) (hs : SameIn σ σ') : InInv σ' := by
  obtain ⟨h1, h2, h3, h4, h5, h6, h7, h8, h9⟩ := h
  rw [← hs.in_tail] at h1 h2 h3 h4 h5 h6 h7 h9
  rw [← hs.in_head] at h2 h3 h4 h5 h6 h9
  rw [← hs.draining] at h4 h6
  rw [← hs.flags] at h5 h6 h9
  rw [← hs.pkts] at h5 h6
  rw [← hs.consumed_now] at h7 h8
  rw [← hs.aru_digest] at h8
  rw [← hs.stored_now] at h9
  exact ⟨h1, h2, h3, h4, h5, h6, h7, h8, h9⟩

theorem store_flags (h : InInv σ) (hp : Storable σ p) (s : ℕ) (h1 : σ.in_tail ≤ s)
    (h2 : s < σ.in_tail + MAX_SEND_ON_LINK) :
    (σ.store p).flags (s % MAX_SEND_ON_LINK)
      = if s = p.tail.link_seq then .recvd
        else if σ.in_head ≤ s ∧ s < p.tail.link_seq then .nack
        else σ.flags (s % MAX_SEND_ON_LINK) := by
  obtain ⟨-, hp1, hp2, -⟩ := hp
  have hle := h.le
  have hupd : ∀ t, σ.in_tail ≤ t → t < σ.in_tail + MAX_SEND_ON_LINK →
      update σ.flags (p.tail.link_seq % MAX_SEND_ON_LINK) CellFlag.recvd
          (t % MAX_SEND_ON_LINK)
        = if t = p.tail.link_seq then .recvd else σ.flags (t % MAX_SEND_ON_LINK) := by
    intro t ht1 ht2
    by_cases ht : t = p.tail.link_seq
    · rw [if_pos ht, ht, update_self]
    · rw [if_neg ht, update_slot_ne _ _ ht1 ht2 hp1 hp2 ht]
  simp only [Proto.store]
  by_cases hhead : σ.in_head ≤ p.tail.link_seq
  · rw [if_pos hhead]
    by_cases hgap : σ.in_head ≤ s ∧ s < p.tail.link_seq
    · rw [fillRange_mem _ _ _ _ _ _ hgap.1 (by omega), if_neg (by omega), if_pos hgap]
    · rw [fillRange_other, hupd s h1 h2, if_neg hgap]
      intro q hq1 hq2
      exact slot_ne (by omega) (by omega) h1 h2 (by omega)
  · rw [if_neg hhead, hupd s h1 h2]
    by_cases hs : s = p.tail.link_seq
    · rw [if_pos hs, if_pos hs]
    · rw [if_neg hs, if_neg hs, if_neg (by omega)]

theorem store_pkts (hp : Storable σ p) (s : ℕ) (h1 : σ.in_tail ≤ s)
    (h2 : s < σ.in_tail + MAX_SEND_ON_LINK) :
    (σ.store p).pkts (s % MAX_SEND_ON_LINK)
      = if s = p.tail.link_seq then some p.data else σ.pkts (s % MAX_SEND_ON_LINK) := by
  show update σ.pkts _ _ _ = _
  by_cases hs : s = p.tail.link_seq
  · rw [if_pos hs, hs, update_self]
  · rw [if_neg hs, update_slot_ne _ _ h1 h2 hp.2.1 hp.2.2.1 hs]

theorem InInv.store (h : InInv σ) (hp : Storable σ p) (hd : σ.draining = false) :
    InInv (σ.store p) := by
  have hflags := store_flags h hp
  have hpkts := store_pkts hp
  have hle := h.le
  have hhead_le := h.head_le
  obtain ⟨hp0, hp1, hp2, hp3⟩ := hp
  have hhead : (σ.store p).in_head
      = if σ.in_head ≤ p.tail.link_seq then p.tail.link_seq + 1 else σ.in_head := rfl
  have hbound : σ.in_head ≤ (σ.store p).in_head ∧ p.tail.link_seq < (σ.store p).in_head ∧
      (σ.store p).in_head ≤ σ.in_tail + MAX_SEND_ON_LINK := by
    rw [hhead]; split <;> omega
  refine ⟨h.start, ?_, hbound.2.2, ?_, ?_, ?_, h.seqs, h.aru, ?_⟩
  · show σ.in_tail ≤ (σ.store p).in_head
    omega
  · intro hdr
    exact absurd (hd.symm.trans hdr) Bool.false_ne_true
  · intro s hs1 hs2
    change σ.in_tail ≤ s at hs1
    rw [hflags s hs1 (by omega), hpkts s hs1 (by omega)]
    by_cases hs : s = p.tail.link_seq
    · left
      rw [if_pos hs, if_pos hs]
      exact ⟨rfl, rfl⟩
    · rw [if_neg hs, if_neg hs]
      by_cases hgap : σ.in_head ≤ s ∧ s < p.tail.link_seq
      · right
        rw [if_pos hgap]
        exact ⟨rfl, (h.outside s hgap.1 (by omega) (fun hdr => by simp [hd] at hdr)).2⟩
      · rw [if_neg hgap]
        refine h.window s hs1 ?_
        rw [hhead] at hs2
        split at hs2 <;> omega
  · intro s hs1 hs2 _
    change s < σ.in_tail + MAX_SEND_ON_LINK at hs2
    rw [hflags s (by omega) hs2, hpkts s (by omega) hs2, if_neg (by omega), if_neg (by omega),
      if_neg (by omega)]
    exact h.outside s (by omega) hs2 (fun hdr => by simp [hd] at hdr)
  · intro s
    show s ∈ σ.stored_now ++ [p.tail.link_seq] ↔ (1 ≤ s ∧ s < σ.in_tail) ∨
      (σ.in_tail ≤ s ∧ s < (σ.store p).in_head ∧ (σ.store p).flags (s % MAX_SEND_ON_LINK) = .recvd)
    rw [mem_append, mem_singleton, h.stored s]
    have hnack : CellFlag.nack ≠ CellFlag.recvd := by decide
    constructor
    · rintro ((hlt | ⟨hs1, hs2, hrec⟩) | rfl)
      · exact .inl hlt
      · refine .inr ⟨hs1, by omega, ?_⟩
        rw [hflags s hs1 (by omega)]
        split
        · rfl
        · rw [if_neg (by omega), hrec]
      · refine .inr ⟨hp1, hbound.2.1, ?_⟩
        rw [hflags _ hp1 hp2, if_pos rfl]
    · rintro (hlt | ⟨hs1, hs2, hrec⟩)
      · exact .inl (.inl hlt)
      · rw [hflags s hs1 (by omega)] at hrec
        by_cases hs : s = p.tail.link_seq
        · exact .inr hs
        · rw [if_neg hs] at hrec
          by_cases hgap : σ.in_head ≤ s ∧ s < p.tail.link_seq
          · rw [if_pos hgap] at hrec
            exact absurd hrec hnack
          · rw [if_neg hgap] at hrec
            refine .inl (.inr ⟨hs1, ?_, hrec⟩)
            rw [hhead] at hs2
            split at hs2 <;> omega

theorem InInv.tail_lt (h : InInv σ) (hd : σ.draining = false)
    (hrec : σ.flags (σ.in_tail % MAX_SEND_ON_LINK) = .recvd) : σ.in_tail < σ.in_head := by
  by_contra hge
  have hout := h.outside σ.in_tail (by omega) (by simp only [MAX_SEND_ON_LINK]; omega)
    (fun hdr => by simp [hd] at hdr)
  rw [hout.1] at hrec
  exact absurd hrec (by decide)

theorem InInv.consume (h : InInv σ) (hd : σ.draining = false)
    (hrec : σ.flags (σ.in_tail % MAX_SEND_ON_LINK) = .recvd) : InInv σ.consume := by
  have hlt := h.tail_lt hd hrec
  have hstart := h.start
  have hhead_le := h.head_le
  have htail : σ.consume.in_tail = σ.in_tail + 1 := rfl
  have hhead : σ.consume.in_head = σ.in_head := rfl
  refine ⟨by omega, by omega, by omega, fun _ => by omega, ?_, ?_, ?_, ?_, ?_⟩
  · intro s hs1 hs2
    exact h.window s (by omega) (by omega)
  · intro s hs1 hs2 hs3
    have hne := hs3 rfl
    exact h.outside s (by omega) (by omega) (fun hdr => by simp [hd] at hdr)
  · show (σ.consumed_now ++ [_]).map LinkEntry.seq = range' 1 (σ.in_tail + 1 - 1)
    rw [map_append, map_singleton, h.seqs,
      show σ.in_tail + 1 - 1 = (σ.in_tail - 1) + 1 by omega, range'_1_concat,
      show 1 + (σ.in_tail - 1) = σ.in_tail by omega]
  · show σ.aru_digest ^^^ _ = digest ((σ.consumed_now ++ [_]).map LinkEntry.nonce)
    rw [map_append, map_singleton, digest_concat, h.aru]
  · intro s
    show s ∈ σ.stored_now ↔ (1 ≤ s ∧ s < σ.in_tail + 1) ∨
      (σ.in_tail + 1 ≤ s ∧ s < σ.in_head ∧ σ.flags (s % MAX_SEND_ON_LINK) = .recvd)
    rw [h.stored s]
    constructor
    · rintro (hl | ⟨hs1, hs2, hs3⟩)
      · exact .inl (by omega)
      · by_cases hs : s = σ.in_tail
        · exact .inl (by omega)
        · exact .inr ⟨by omega, hs2, hs3⟩
    · rintro (hl | ⟨hs1, hs2, hs3⟩)
      · by_cases hs : s = σ.in_tail
        · exact .inr ⟨by omega, by omega, by rw [hs]; exact hrec⟩
        · exact .inl (by omega)
      · exact .inr ⟨by omega, hs2, hs3⟩

theorem InInv.free (h : InInv σ) (hd : σ.draining = true) :
    InInv (σ.free ((σ.in_tail - 1) % MAX_SEND_ON_LINK)) := by
  have hstart := h.start
  have hdrain := h.drain hd
  have hpos : 0 < MAX_SEND_ON_LINK := by decide
  -- the freed cell is the last one of the window that starts at `in_tail`
  have hslot : (σ.in_tail - 1) % MAX_SEND_ON_LINK
      = (σ.in_tail + MAX_SEND_ON_LINK - 1) % MAX_SEND_ON_LINK := by
    rw [show σ.in_tail + MAX_SEND_ON_LINK - 1 = σ.in_tail - 1 + MAX_SEND_ON_LINK by omega,
      Nat.add_mod_right]
  have hkeep : ∀ {α : Type} (r : ℕ → α) (x : α) (s : ℕ), σ.in_tail ≤ s →
      s + 1 < σ.in_tail + MAX_SEND_ON_LINK →
      update r ((σ.in_tail - 1) % MAX_SEND_ON_LINK) x (s % MAX_SEND_ON_LINK)
        = r (s % MAX_SEND_ON_LINK) := by
    intro α r x s hs1 hs2
    rw [hslot]
    exact update_slot_ne r x hs1 (by omega) (by omega) (by omega) (by omega)
  have hle := h.le
  refine ⟨h.start, h.le, h.head_le, fun hdr => absurd hdr Bool.false_ne_true, ?_, ?_, h.seqs, h.aru, ?_⟩
  · intro s hs1 hs2
    change σ.in_tail ≤ s at hs1
    change s < σ.in_head at hs2
    show (update σ.flags _ _ _ = _ ∧ (update σ.pkts _ _ _).isSome) ∨
      (update σ.flags _ _ _ = _ ∧ update σ.pkts _ _ _ = none)
    rw [hkeep σ.flags _ s hs1 (by omega), hkeep σ.pkts _ s hs1 (by omega)]
    exact h.window s hs1 hs2
  · intro s hs1 hs2 _
    change σ.in_head ≤ s at hs1
    change s < σ.in_tail + MAX_SEND_ON_LINK at hs2
    show update σ.flags _ _ _ = _ ∧ update σ.pkts _ _ _ = none
    by_cases hlast : s + 1 = σ.in_tail + MAX_SEND_ON_LINK
    · rw [hslot, show σ.in_tail + MAX_SEND_ON_LINK - 1 = s by omega, update_self,
        update_self]
      exact ⟨rfl, rfl⟩
    · rw [hkeep σ.flags _ s (by omega) (by omega), hkeep σ.pkts _ s (by omega) (by omega)]
      exact h.outside s hs1 hs2 (fun _ => hlast)
  · intro s
    show s ∈ σ.stored_now ↔ (1 ≤ s ∧ s < σ.in_tail) ∨
      (σ.in_tail ≤ s ∧ s < σ.in_head ∧ update σ.flags _ _ _ = CellFlag.recvd)
    rw [h.stored s]
    constructor
    · rintro (hl | ⟨hs1, hs2, hs3⟩)
      · exact .inl hl
      · exact .inr ⟨hs1, hs2, by rw [hkeep σ.flags _ s hs1 (by omega)]; exact hs3⟩
    · rintro (hl | ⟨hs1, hs2, hs3⟩)
      · exact .inl hl
      · rw [hkeep σ.flags _ s hs1 (by omega)] at hs3
        exact .inr ⟨hs1, hs2, hs3⟩

theorem InInv.release (h : InInv σ) (aru : ℕ) : InInv (σ.release aru) :=
  ⟨h.start, h.le, h.head_le, h.drain, h.window, h.outside, h.seqs, h.aru, h.stored⟩

theorem InInv.changed {inc : ℕ} {entries : List LinkEntry} (h : Changed σ σ' inc entries) :
    InInv σ' := by
  have htail := h.in_tail
  have hhead := h.in_head
  have hpos : 0 < MAX_SEND_ON_LINK := by decide
  refine ⟨by omega, by omega, by omega, ?_, ?_, ?_, ?_, ?_, ?_⟩
  · intro hdr
    omega
  · intro s hs1 hs2
    omega
  · intro s _ _ _
    exact ⟨h.flags _ (Nat.mod_lt _ hpos), h.pkts _ (Nat.mod_lt _ hpos)⟩
  · rw [h.consumed_now, htail]
    rfl
  · rw [h.consumed_now, h.aru_digest]
    rfl
  · intro s
    rw [h.stored_now, htail, hhead]
    constructor
    · intro hs
      exact absurd hs not_mem_nil
    · rintro (hl | ⟨hs1, hs2, -⟩) <;> omega

/-! ## Runs of the protocol -/

inductive DrainStep : Proto → Proto → Prop
  | out {σ σ' : Proto} (h : OutStep σ σ') : DrainStep σ σ'
  | consume {σ : Proto} (hd : σ.draining = false)
      (hrec : σ.flags (σ.in_tail % MAX_SEND_ON_LINK) = .recvd) : DrainStep σ σ.consume
  | free {σ : Proto} (hd : σ.draining = true) :
      DrainStep σ (σ.free ((σ.in_tail - 1) % MAX_SEND_ON_LINK))

def DrainRun : Proto → Proto → Prop := Relation.ReflTransGen DrainStep

/-- Everything a handler may do to the protocol state. `r` is the packet the
handler was called with, if any. -/
inductive PStep (r : Option ItPacket) : Proto → Proto → Prop
  | drain {σ σ' : Proto} (h : DrainStep σ σ') : PStep r σ σ'
  | release {σ : Proto} (p : ItPacket) (hr : r = some p) (h : Accepts σ p) :
      PStep r σ (σ.release p.tail.aru)
  | store {σ : Proto} (p : ItPacket) (hr : r = some p) (h : Storable σ p)
      (hd : σ.draining = false) : PStep r σ (σ.store p)
  | change {σ σ' : Proto} (inc : ℕ) (entries : List LinkEntry) (hr : r = none)
      (hinc : σ.ngbr < inc) (h : Changed σ σ' inc entries) : PStep r σ σ'

def PRun (r : Option ItPacket) : Proto → Proto → Prop := Relation.ReflTransGen (PStep r)

def EndInv (σ : Proto) : Prop := OutInv σ ∧ InInv σ

theorem OutRun.drainRun (h : OutRun σ σ') : DrainRun σ σ' :=
  Relation.ReflTransGen.mono (fun _ _ hs => DrainStep.out hs) _ _ h

theorem DrainRun.pRun (h : DrainRun σ σ') : PRun r σ σ' :=
  Relation.ReflTransGen.mono (fun _ _ hs => PStep.drain hs) _ _ h

theorem OutRun.pRun (h : OutRun σ σ') : PRun r σ σ' :=
  h.drainRun.pRun

theorem DrainStep.endInv (hstep : DrainStep σ σ') (h : EndInv σ) : EndInv σ' := by
  obtain ⟨ho, hi⟩ := h
  cases hstep with
  | out hs => exact ⟨hs.outInv ho, hi.same hs.sameIn⟩
  | consume hd hrec =>
    exact ⟨⟨ho.start, ho.tail_le, ho.tcp_le, ho.head_le, ho.seqs, ho.cell, ho.digest⟩,
      hi.consume hd hrec⟩
  | free hd =>
    exact ⟨⟨ho.start, ho.tail_le, ho.tcp_le, ho.head_le, ho.seqs, ho.cell, ho.digest⟩,
      hi.free hd⟩

theorem PStep.endInv (hstep : PStep r σ σ') (h : EndInv σ) : EndInv σ' := by
  cases hstep with
  | drain hs => exact hs.endInv h
  | release p _ hacc => exact ⟨h.1.release _ hacc.1 hacc.2.1, h.2.release _⟩
  | store p _ hst hd =>
    have ho := h.1
    exact ⟨⟨ho.start, ho.tail_le, ho.tcp_le, ho.head_le, ho.seqs, ho.cell, ho.digest⟩,
      h.2.store hst hd⟩
  | change inc entries _ _ hch => exact ⟨OutInv.changed hch, InInv.changed hch⟩

theorem PRun.endInv (hrun : PRun r σ σ') (h : EndInv σ) : EndInv σ' := by
  induction hrun with
  | refl => exact h
  | tail _ hstep ih => exact hstep.endInv ih

theorem OutStep.tail_eq (h : OutStep σ σ') : σ'.tail = σ.tail := by
  cases h <;> rfl

theorem DrainRun.tail_eq (h : DrainRun σ σ') : σ'.tail = σ.tail := by
  induction h with
  | refl => rfl
  | tail _ hstep ih =>
    rw [← ih]
    cases hstep with
    | out hs => exact hs.tail_eq
    | consume hd hrec => rfl
    | free hd => rfl

end Spines.IntruTol
