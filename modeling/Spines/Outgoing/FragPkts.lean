/-
`daemon/session.c`: where `Session_Deliver_Data` keeps fragments until their packet is complete.

The packets wait in a list, each with a scatter that has a place for every fragment. How many
fragments there are, which one has come and how long it is are read off the header as they
are; `frag_num` and `frag_idx` are `char`s with a sign. Nothing compares the index with the
number or the length with what was received, so a fragment may be put outside of its packet
or be taken for longer than it is. A negative index is outside of the array, and the model
stops there.

`Fine` says of a fragment, from what is kept when it comes, that neither happens.
-/
import Spines.Outgoing.Stream

set_option autoImplicit false

namespace Spines.Outgoing.FragPkts

open Spines.Lib Function Option List

/-! ## 1. Fragments and the packets they belong to -/

def FRAG_TTL : ℤ := 30
def ARCH_SCATTER_SIZE : ℕ := 1024

/-- A message object, of which the first `len` bytes were received. -/
structure Msg where
  mem : Mem
  len : ℕ

section Header

variable (e : Endian) (m : Msg)

def Msg.source : ℕ := m.mem.load e 0 4
def Msg.source_port : ℕ := m.mem.load e 12 2
/-- `u_hdr->len` -/
def Msg.hdr_len : ℕ := m.mem.load e 16 2
def Msg.seq_no : ℕ := m.mem.load e 18 2
def Msg.sess_id : ℕ := m.mem.load e 20 2
def Msg.frag_num : ℤ := char (m.mem 22)
def Msg.frag_idx : ℤ := char (m.mem 23)

end Header

structure Element where
  buf : Option Msg
  len : ℕ

/-- `num_elements` and `elements` are those of its scatter. -/
structure Frag_Packet where
  num_elements : ℕ
  elements : ℕ → Element
  recv_elements : ℕ
  sess_id : ℕ
  seq_no : ℕ
  snd_port : ℕ
  sender : ℕ
  timestamp_sec : ℤ

inductive Fault
  | out_of_bounds
  deriving DecidableEq, Repr

def Frag_Packet.Of (e : Endian) (frag_pkt : Frag_Packet) (m : Msg) : Prop :=
  frag_pkt.sess_id = m.sess_id e ∧ frag_pkt.sender = m.source e ∧
    frag_pkt.snd_port = m.source_port e ∧ frag_pkt.seq_no = m.seq_no e

instance (e : Endian) (frag_pkt : Frag_Packet) (m : Msg) : Decidable (frag_pkt.Of e m) :=
  inferInstanceAs (Decidable (_ ∧ _))

/-- The search for the packet of a fragment, which deletes the old ones on its way: the
packets before it, and with the packet those behind it. -/
def search (e : Endian) (now : ℤ) (m : Msg) :
    List Frag_Packet → List Frag_Packet × Option (Frag_Packet × List Frag_Packet)
  | [] => ([], none)
  | frag_pkt :: rest =>
    if now - frag_pkt.timestamp_sec > FRAG_TTL then search e now m rest
    else if frag_pkt.Of e m then ([], some (frag_pkt, rest))
    else
      let r := search e now m rest
      (frag_pkt :: r.1, r.2)

def Msg.element (e : Endian) (m : Msg) : Element :=
  { buf := some m, len := m.hdr_len e + SIZEOF_UDP_HEADER }

def Frag_Packet.insert (e : Endian) (now : ℤ) (m : Msg) (frag_pkt : Frag_Packet) : Frag_Packet :=
  { frag_pkt with
    elements := Function.update frag_pkt.elements m.frag_idx.toNat (m.element e)
    recv_elements := (frag_pkt.recv_elements + 1) % 2 ^ 16
    timestamp_sec := now }

/-- A packet of which one fragment has come, in memory that held `junk`. -/
def Frag_Packet.new (e : Endian) (now : ℤ) (junk : ℕ → Element) (m : Msg) : Frag_Packet where
  num_elements := m.frag_num.toNat
  elements := Function.update
    (fun i => if i < m.frag_num.toNat then { junk i with buf := none } else junk i)
    m.frag_idx.toNat (m.element e)
  recv_elements := 1
  sess_id := m.sess_id e
  seq_no := m.seq_no e
  snd_port := m.source_port e
  sender := m.source e
  timestamp_sec := now

/-- The packet of a fragment after it was put there, or none if it was deleted, with those
before and behind it, and the index that was used with the number of elements. -/
structure Placed where
  before : List Frag_Packet
  frag_pkt : Option Frag_Packet
  behind : List Frag_Packet
  used : Option (ℕ × ℕ)

def place (e : Endian) (now : ℤ) (junk : ℕ → Element) (pkts : List Frag_Packet) (m : Msg) :
    Except Fault Placed :=
  match search e now m pkts with
  | (before, some (frag_pkt, behind)) =>
    if (frag_pkt.num_elements : ℤ) ≠ m.frag_num then .ok ⟨before, none, behind, none⟩
    else if m.frag_idx < 0 then .error .out_of_bounds
    else
      let used := some (m.frag_idx.toNat, frag_pkt.num_elements)
      if (frag_pkt.elements m.frag_idx.toNat).buf.isSome then .ok ⟨before, none, behind, used⟩
      else .ok ⟨before, some (frag_pkt.insert e now m), behind, used⟩
  | (live, none) =>
    if m.frag_idx < 0 then .error .out_of_bounds
    else
      .ok ⟨[], some (Frag_Packet.new e now junk m), live,
        some (m.frag_idx.toNat, m.frag_num.toNat)⟩

/-- What is kept after a packet, what became of it if it was a fragment, and the packet that
is complete. -/
structure Delivered where
  frag_pkts : List Frag_Packet
  placed : Option Placed
  complete : Option Frag_Packet

/-- `Session_Deliver_Data`, for the routings that look for fragments, up to the writers. -/
def Session_Deliver_Data (e : Endian) (now : ℤ) (junk : ℕ → Element) (pkts : List Frag_Packet)
    (m : Msg) : Except Fault Delivered :=
  if m.frag_num > 1 then do
    let p ← place e now junk pkts m
    match p.frag_pkt with
    | none => .ok ⟨p.before ++ p.behind, some p, none⟩
    | some frag_pkt =>
      if frag_pkt.recv_elements = frag_pkt.num_elements then
        .ok ⟨p.before ++ p.behind, some p, some frag_pkt⟩
      else .ok ⟨p.before ++ frag_pkt :: p.behind, some p, none⟩
  else .ok ⟨pkts, none, none⟩

/-! ## 2. What is meant to hold -/

structure Frag_Packet.Sound (frag_pkt : Frag_Packet) : Prop where
  room : frag_pkt.num_elements ≤ 127
  counted : frag_pkt.recv_elements =
    (range frag_pkt.num_elements).countP fun i => (frag_pkt.elements i).buf.isSome
  lens : ∀ i < frag_pkt.num_elements, ∀ m, (frag_pkt.elements i).buf = some m →
    (frag_pkt.elements i).len = m.len

/-- Indexes are inside of the scatter, what is kept is sound, and the elements of a packet
that is complete are the bytes that were received. -/
structure Delivered.Right (d : Delivered) : Prop where
  inside : ∀ p ∈ d.placed, ∀ idx num, p.used = some (idx, num) →
    idx < num ∧ num ≤ ARCH_SCATTER_SIZE
  placed : ∀ p ∈ d.placed, ∀ frag_pkt ∈ p.frag_pkt, frag_pkt.Sound
  kept : ∀ frag_pkt ∈ d.frag_pkts, frag_pkt.Sound
  complete : ∀ frag_pkt ∈ d.complete, ∀ i < frag_pkt.num_elements,
    ∃ m, frag_pkt.elements i = ⟨some m, m.len⟩

/-- The index of a fragment is below its number, and its length is right if it is going to be
kept. The index does not matter when the packet it belongs to has another number. -/
def FineFor (e : Endian) (m : Msg) : Option (Frag_Packet × List Frag_Packet) → Prop
  | none => 0 ≤ m.frag_idx ∧ m.frag_idx < m.frag_num ∧ m.hdr_len e + SIZEOF_UDP_HEADER = m.len
  | some (frag_pkt, _) =>
    (frag_pkt.num_elements : ℤ) = m.frag_num →
      0 ≤ m.frag_idx ∧ m.frag_idx < m.frag_num ∧
        ((frag_pkt.elements m.frag_idx.toNat).buf = none →
          m.hdr_len e + SIZEOF_UDP_HEADER = m.len)

def Fine (e : Endian) (now : ℤ) (pkts : List Frag_Packet) (m : Msg) : Prop :=
  m.frag_num > 1 → FineFor e m (search e now m pkts).2

/-! ## 3. One packet -/

section Step

variable {e : Endian} {now : ℤ} {junk : ℕ → Element} {pkts before behind : List Frag_Packet}
  {m : Msg} {frag_pkt : Frag_Packet}

theorem char_le (x : UInt8) : char x ≤ 127 := by
  have hlt := x.toNat_lt
  unfold char
  split <;> omega

theorem countP_fill {p q : ℕ → Bool} {n i : ℕ} (hi : i < n) (hp : p i = false) (hq : q i = true)
    (h : ∀ j, j ≠ i → q j = p j) : (range n).countP q = (range n).countP p + 1 := by
  induction n with
  | zero => omega
  | succ n ih =>
    simp only [range_succ, countP_append, countP_singleton]
    by_cases hlast : i = n
    · have hsame : (range n).countP q = (range n).countP p := by
        refine countP_congr (fun j hj => ?_)
        rw [mem_range] at hj
        rw [h j (by omega)]
      rw [← hlast] at hsame ⊢
      rw [hsame, hp, hq]
      rfl
    · rw [ih (by omega), h n (Ne.symm hlast)]
      omega

theorem search_subset {r : List Frag_Packet × Option (Frag_Packet × List Frag_Packet)}
    (h : search e now m pkts = r) : (∀ f ∈ r.1, f ∈ pkts) ∧
      ∀ f rest, r.2 = some (f, rest) → f ∈ pkts ∧ ∀ f' ∈ rest, f' ∈ pkts := by
  subst h
  induction pkts with
  | nil => simp [search]
  | cons head rest ih =>
    obtain ⟨hbefore, hfound⟩ := ih
    rw [search]
    split
    · exact ⟨fun f hf => mem_cons_of_mem _ (hbefore f hf), fun f rest' hf =>
        ⟨mem_cons_of_mem _ (hfound f rest' hf).1,
          fun f' hf' => mem_cons_of_mem _ ((hfound f rest' hf).2 f' hf')⟩⟩
    split
    · refine ⟨by simp, fun f rest' hf => ?_⟩
      obtain ⟨rfl, rfl⟩ := Prod.mk.inj (some.inj hf)
      exact ⟨mem_cons_self, fun f' hf' => mem_cons_of_mem _ hf'⟩
    · refine ⟨fun f hf => ?_, fun f rest' hf => ?_⟩
      · obtain rfl | hf := mem_cons.mp hf
        · exact mem_cons_self
        · exact mem_cons_of_mem _ (hbefore f hf)
      · exact ⟨mem_cons_of_mem _ (hfound f rest' hf).1,
          fun f' hf' => mem_cons_of_mem _ ((hfound f rest' hf).2 f' hf')⟩

theorem insert_sound (h : frag_pkt.Sound) (hidx : m.frag_idx.toNat < frag_pkt.num_elements)
    (hfree : (frag_pkt.elements m.frag_idx.toNat).buf = none) :
    (frag_pkt.insert e now m).Sound ↔ m.hdr_len e + SIZEOF_UDP_HEADER = m.len := by
  have hroom := h.room
  constructor
  · intro hsound
    have hlen := hsound.lens m.frag_idx.toNat hidx m (by
      simp [Frag_Packet.insert, Msg.element])
    simpa [Frag_Packet.insert, Msg.element] using hlen
  · intro hlen
    have hcount : (range frag_pkt.num_elements).countP (fun i =>
        ((frag_pkt.insert e now m).elements i).buf.isSome) = frag_pkt.recv_elements + 1 := by
      rw [h.counted]
      refine countP_fill hidx ?_ ?_ (fun j hj => ?_)
      · rw [hfree]
        rfl
      · simp [Frag_Packet.insert, Msg.element]
      · simp [Frag_Packet.insert, update_of_ne hj]
    have hle := countP_le_length (l := range frag_pkt.num_elements)
      (p := fun i => ((frag_pkt.insert e now m).elements i).buf.isSome)
    rw [hcount, length_range] at hle
    refine ⟨hroom, ?_, fun i hi m' hm' => ?_⟩
    · refine Eq.trans ?_ hcount.symm
      change (frag_pkt.recv_elements + 1) % 2 ^ 16 = _
      omega
    · simp only [Frag_Packet.insert] at hi hm' ⊢
      by_cases hi' : i = m.frag_idx.toNat
      · rw [hi', update_self] at hm' ⊢
        obtain rfl := some.inj hm'
        exact hlen
      · rw [update_of_ne hi'] at hm' ⊢
        exact h.lens i hi m' hm'

theorem new_sound (hlo : 0 ≤ m.frag_idx) (hidx : m.frag_idx < m.frag_num) :
    (Frag_Packet.new e now junk m).Sound ↔ m.hdr_len e + SIZEOF_UDP_HEADER = m.len := by
  have hchar := char_le (m.mem 22)
  change m.frag_num ≤ 127 at hchar
  have hlt : m.frag_idx.toNat < m.frag_num.toNat := by omega
  constructor
  · intro hsound
    have hlen := hsound.lens m.frag_idx.toNat hlt m (by simp [Frag_Packet.new, Msg.element])
    simpa [Frag_Packet.new, Msg.element] using hlen
  · intro hlen
    refine ⟨?_, ?_, fun i hi m' hm' => ?_⟩
    · simp only [Frag_Packet.new]
      omega
    · have hnone : (range m.frag_num.toNat).countP (fun i =>
          (if i < m.frag_num.toNat then { junk i with buf := none } else junk i).buf.isSome) = 0 := by
        rw [countP_eq_zero]
        intro i hi
        rw [mem_range] at hi
        simp [hi]
      refine Eq.trans ?_ (countP_fill (p := fun i =>
        (if i < m.frag_num.toNat then { junk i with buf := none } else junk i).buf.isSome)
        hlt ?_ ?_ (fun j hj => ?_)).symm
      · rw [hnone]
        rfl
      · simp [hlt]
      · simp [Frag_Packet.new, Msg.element]
      · simp [Frag_Packet.new, update_of_ne hj]
    · simp only [Frag_Packet.new] at hi hm' ⊢
      by_cases hi' : i = m.frag_idx.toNat
      · rw [hi', update_self] at hm' ⊢
        obtain rfl := some.inj hm'
        exact hlen
      · rw [update_of_ne hi', if_pos hi] at hm'
        cases hm'

theorem Frag_Packet.Sound.whole (h : frag_pkt.Sound)
    (hall : frag_pkt.recv_elements = frag_pkt.num_elements) :
    ∀ i < frag_pkt.num_elements, ∃ m, frag_pkt.elements i = ⟨some m, m.len⟩ := by
  intro i hi
  have hcount := h.counted
  rw [hall] at hcount
  have hlen : (range frag_pkt.num_elements).countP (fun i =>
      (frag_pkt.elements i).buf.isSome) = (range frag_pkt.num_elements).length := by
    rw [length_range]
    exact hcount.symm
  have hsome := countP_eq_length.mp hlen i (mem_range.mpr hi)
  obtain ⟨m, hm⟩ := isSome_iff_exists.mp hsome
  refine ⟨m, ?_⟩
  rw [← h.lens i hi m hm, ← hm]

def Placed.Inside (p : Placed) : Prop :=
  ∀ idx num, p.used = some (idx, num) → idx < num ∧ num ≤ ARCH_SCATTER_SIZE

theorem place_new (hs : search e now m pkts = (before, none)) (hlo : ¬m.frag_idx < 0) :
    place e now junk pkts m = .ok ⟨[], some (Frag_Packet.new e now junk m), before,
      some (m.frag_idx.toNat, m.frag_num.toNat)⟩ := by
  rw [place, hs]
  exact if_neg hlo

section Found

variable (hs : search e now m pkts = (before, some (frag_pkt, behind)))
include hs

theorem place_other (hother : (frag_pkt.num_elements : ℤ) ≠ m.frag_num) :
    place e now junk pkts m = .ok ⟨before, none, behind, none⟩ := by
  rw [place, hs]
  exact if_pos hother

theorem place_twice (hnum : (frag_pkt.num_elements : ℤ) = m.frag_num) (hlo : ¬m.frag_idx < 0)
    (hthere : (frag_pkt.elements m.frag_idx.toNat).buf.isSome) :
    place e now junk pkts m = .ok ⟨before, none, behind,
      some (m.frag_idx.toNat, frag_pkt.num_elements)⟩ := by
  rw [place, hs]
  dsimp only
  rw [if_neg (not_not.mpr hnum), if_neg hlo, if_pos hthere]

theorem place_insert (hnum : (frag_pkt.num_elements : ℤ) = m.frag_num) (hlo : ¬m.frag_idx < 0)
    (hfree : (frag_pkt.elements m.frag_idx.toNat).buf = none) :
    place e now junk pkts m = .ok ⟨before, some (frag_pkt.insert e now m), behind,
      some (m.frag_idx.toNat, frag_pkt.num_elements)⟩ := by
  have hnot : ¬(frag_pkt.elements m.frag_idx.toNat).buf.isSome = true :=
    not_isSome_iff_eq_none.mpr hfree
  rw [place, hs]
  dsimp only
  rw [if_neg (not_not.mpr hnum), if_neg hlo, if_neg hnot]

end Found

theorem place_fault (junk : ℕ → Element) (pkts : List Frag_Packet) (hneg : m.frag_idx < 0) :
    (∃ fault, place e now junk pkts m = .error fault) ∨
      ∃ f behind, (search e now m pkts).2 = some (f, behind) ∧
        (f.num_elements : ℤ) ≠ m.frag_num := by
  obtain ⟨before, found, hs⟩ : ∃ before found, search e now m pkts = (before, found) :=
    ⟨_, _, rfl⟩
  rw [place, hs]
  cases found with
  | none => exact .inl ⟨_, if_pos hneg⟩
  | some entry =>
    obtain ⟨f, behind⟩ := entry
    by_cases hother : (f.num_elements : ℤ) ≠ m.frag_num
    · exact .inr ⟨f, behind, rfl, hother⟩
    · refine .inl ⟨.out_of_bounds, ?_⟩
      dsimp only
      rw [if_neg hother, if_pos hneg]

theorem deliver_of_place {p : Placed} (hnum : m.frag_num > 1)
    (hplace : place e now junk pkts m = .ok p) :
    Session_Deliver_Data e now junk pkts m = match p.frag_pkt with
      | none => .ok ⟨p.before ++ p.behind, some p, none⟩
      | some frag_pkt =>
        if frag_pkt.recv_elements = frag_pkt.num_elements then
          .ok ⟨p.before ++ p.behind, some p, some frag_pkt⟩
        else .ok ⟨p.before ++ frag_pkt :: p.behind, some p, none⟩ := by
  rw [Session_Deliver_Data, if_pos hnum, hplace]
  rfl

theorem deliver_placed {p : Placed} (hnum : m.frag_num > 1) (hplace : place e now junk pkts m = .ok p)
    (hbefore : ∀ f ∈ p.before, f.Sound) (hbehind : ∀ f ∈ p.behind, f.Sound) :
    (∃ d, Session_Deliver_Data e now junk pkts m = .ok d ∧ d.Right) ↔
      p.Inside ∧ ∀ f ∈ p.frag_pkt, f.Sound := by
  have hothers : ∀ f ∈ p.before ++ p.behind, f.Sound := by
    intro f hf
    exact (mem_append.mp hf).elim (hbefore f) (hbehind f)
  rw [deliver_of_place hnum hplace]
  constructor
  · rintro ⟨d, hd, h⟩
    have hplaced : d.placed = some p := by
      split at hd
      · obtain rfl := Except.ok.inj hd
        rfl
      · split at hd
        all_goals
          obtain rfl := Except.ok.inj hd
          rfl
    exact ⟨h.inside p hplaced, h.placed p hplaced⟩
  · rintro ⟨hinside, hsound⟩
    have hin : ∀ p' ∈ some p, p'.Inside := by
      rintro p' hp'
      obtain rfl := some.inj hp'
      exact hinside
    have hput : ∀ p' ∈ some p, ∀ f ∈ p'.frag_pkt, f.Sound := by
      rintro p' hp'
      obtain rfl := some.inj hp'
      exact hsound
    split
    · exact ⟨_, rfl, hin, hput, hothers, by simp⟩
    · rename_i frag_pkt hp
      split
      · rename_i hall
        refine ⟨_, rfl, hin, hput, hothers, fun f hf => ?_⟩
        obtain rfl := some.inj hf
        exact (hsound frag_pkt hp).whole hall
      · refine ⟨_, rfl, hin, hput, fun f hf => ?_, by simp⟩
        obtain hf | hf := mem_append.mp hf
        · exact hbefore f hf
        · obtain rfl | hf := mem_cons.mp hf
          · exact hsound f hp
          · exact hbehind f hf

theorem deliver_fault {fault : Fault} (hnum : m.frag_num > 1)
    (hplace : place e now junk pkts m = .error fault) :
    ¬∃ d, Session_Deliver_Data e now junk pkts m = .ok d ∧ d.Right := by
  rintro ⟨d, hd, -⟩
  rw [Session_Deliver_Data, if_pos hnum, hplace] at hd
  cases hd

theorem deliver_new_iff (hnum : m.frag_num > 1) (hs : search e now m pkts = (before, none))
    (hlive : ∀ f ∈ before, f.Sound) :
    (∃ d, Session_Deliver_Data e now junk pkts m = .ok d ∧ d.Right) ↔ FineFor e m none := by
  have hchar := char_le (m.mem 22)
  change m.frag_num ≤ 127 at hchar
  have harch : ARCH_SCATTER_SIZE = 1024 := rfl
  by_cases hneg : m.frag_idx < 0
  · obtain ⟨fault, hplace⟩ | ⟨f, behind, hfound, -⟩ :=
      place_fault junk pkts hneg
    · refine iff_of_false (deliver_fault hnum hplace) ?_
      rintro ⟨hlo, -⟩
      omega
    · rw [hs] at hfound
      cases hfound
  rw [deliver_placed hnum (place_new hs hneg) (by simp) hlive]
  constructor
  · rintro ⟨hinside, hsound⟩
    have hlt := (hinside _ _ rfl).1
    have hidx : m.frag_idx < m.frag_num := by omega
    exact ⟨by omega, hidx, (new_sound (by omega) hidx).mp (hsound _ rfl)⟩
  · rintro ⟨hlo, hidx, hlen⟩
    refine ⟨fun idx num hused => ?_, fun f hf => ?_⟩
    · obtain ⟨rfl, rfl⟩ := Prod.mk.inj (some.inj hused)
      omega
    · obtain rfl := some.inj hf
      exact (new_sound hlo hidx).mpr hlen

theorem deliver_found_iff (hnum : m.frag_num > 1)
    (hs : search e now m pkts = (before, some (frag_pkt, behind))) (hsound : frag_pkt.Sound)
    (hlive : ∀ f ∈ before, f.Sound) (hafter : ∀ f ∈ behind, f.Sound) :
    (∃ d, Session_Deliver_Data e now junk pkts m = .ok d ∧ d.Right) ↔
      FineFor e m (some (frag_pkt, behind)) := by
  have hroom := hsound.room
  have harch : ARCH_SCATTER_SIZE = 1024 := rfl
  by_cases hother : (frag_pkt.num_elements : ℤ) ≠ m.frag_num
  · rw [deliver_placed hnum (place_other hs hother) hlive hafter]
    refine iff_of_true ⟨?_, ?_⟩ (fun hsame => absurd hsame hother)
    · rintro idx num hused
      cases hused
    · rintro f hf
      cases hf
  rw [not_not] at hother
  by_cases hneg : m.frag_idx < 0
  · obtain ⟨fault, hplace⟩ | ⟨f, behind', hfound, hne⟩ :=
      place_fault junk pkts hneg
    · refine iff_of_false (deliver_fault hnum hplace) ?_
      intro h
      have hlo := (h hother).1
      omega
    · rw [hs] at hfound
      obtain ⟨rfl, -⟩ := Prod.mk.inj (some.inj hfound)
      exact absurd hother hne
  by_cases hthere : (frag_pkt.elements m.frag_idx.toNat).buf.isSome
  · rw [deliver_placed hnum (place_twice hs hother hneg hthere) hlive hafter]
    constructor
    · rintro ⟨hinside, -⟩ -
      have hlt := (hinside _ _ rfl).1
      refine ⟨by omega, by omega, fun hnone => ?_⟩
      rw [hnone] at hthere
      cases hthere
    · intro h
      obtain ⟨hlo, hidx, -⟩ := h hother
      refine ⟨fun idx num hused => ?_, fun f hf => ?_⟩
      · obtain ⟨rfl, rfl⟩ := Prod.mk.inj (some.inj hused)
        omega
      · cases hf
  · have hfree := not_isSome_iff_eq_none.mp hthere
    rw [deliver_placed hnum (place_insert hs hother hneg hfree) hlive hafter]
    constructor
    · rintro ⟨hinside, hnew⟩ -
      have hlt := (hinside _ _ rfl).1
      exact ⟨by omega, by omega, fun _ => (insert_sound hsound hlt hfree).mp (hnew _ rfl)⟩
    · intro h
      obtain ⟨hlo, hidx, hlen⟩ := h hother
      have hlt : m.frag_idx.toNat < frag_pkt.num_elements := by omega
      refine ⟨fun idx num hused => ?_, fun f hf => ?_⟩
      · obtain ⟨rfl, rfl⟩ := Prod.mk.inj (some.inj hused)
        omega
      · obtain rfl := some.inj hf
        exact (insert_sound hsound hlt hfree).mpr (hlen hfree)

theorem deliver_iff (hkept : ∀ f ∈ pkts, f.Sound) :
    (∃ d, Session_Deliver_Data e now junk pkts m = .ok d ∧ d.Right) ↔ Fine e now pkts m := by
  by_cases hnum : m.frag_num > 1
  · obtain ⟨before, found, hs⟩ : ∃ before found, search e now m pkts = (before, found) :=
      ⟨_, _, rfl⟩
    obtain ⟨hbefore, hfound⟩ := search_subset hs
    have hlive : ∀ f ∈ before, f.Sound := fun f hf => hkept f (hbefore f hf)
    have hfine : Fine e now pkts m ↔ FineFor e m found := by
      rw [Fine, hs]
      exact ⟨fun h => h hnum, fun h _ => h⟩
    rw [hfine]
    cases found with
    | none => exact deliver_new_iff hnum hs hlive
    | some entry =>
      obtain ⟨hmem, hrest⟩ := hfound entry.1 entry.2 rfl
      exact deliver_found_iff hnum hs (hkept _ hmem) hlive fun f hf => hkept f (hrest f hf)
  · refine iff_of_true ⟨⟨pkts, none, none⟩, if_neg hnum, ?_, ?_, hkept, ?_⟩ (fun h => absurd h hnum)
    · simp
    · simp
    · simp

end Step

/-! ## 4. Runs -/

section Runs

variable {e : Endian}

/-- One packet of a run: when it comes, the memory a new `Frag_Packet` would be in, and the
packet. -/
structure Arrival where
  now : ℤ
  junk : ℕ → Element
  msg : Msg

def Safe (e : Endian) : List Arrival → List Frag_Packet → Prop
  | [], _ => True
  | a :: as, pkts => ∃ d, Session_Deliver_Data e a.now a.junk pkts a.msg = .ok d ∧ d.Right ∧
      Safe e as d.frag_pkts

def AllFine (e : Endian) : List Arrival → List Frag_Packet → Prop
  | [], _ => True
  | a :: as, pkts => Fine e a.now pkts a.msg ∧
      ∀ d, Session_Deliver_Data e a.now a.junk pkts a.msg = .ok d → AllFine e as d.frag_pkts

theorem safe_iff (as : List Arrival) {pkts : List Frag_Packet} (hkept : ∀ f ∈ pkts, f.Sound) :
    Safe e as pkts ↔ AllFine e as pkts := by
  induction as generalizing pkts with
  | nil => exact Iff.rfl
  | cons a as ih =>
    constructor
    · rintro ⟨d, hd, hright, hrest⟩
      refine ⟨(deliver_iff hkept).mp ⟨d, hd, hright⟩, fun d' hd' => ?_⟩
      obtain rfl := Except.ok.inj (hd.symm.trans hd')
      exact (ih hright.kept).mp hrest
    · rintro ⟨hfine, hrest⟩
      have hstep : ∃ d, Session_Deliver_Data e a.now a.junk pkts a.msg = .ok d ∧ d.Right :=
        (deliver_iff hkept).mpr hfine
      obtain ⟨d, hd, hright⟩ := hstep
      exact ⟨d, hd, hright, (ih hright.kept).mpr (hrest d hd)⟩

end Runs

/-- From a new session on, whatever packets come. -/
theorem fragments_safe (e : Endian) (as : List Arrival) : Safe e as [] ↔ AllFine e as [] :=
  safe_iff as (by simp)

def fragment (frag_idx len : UInt8) : Msg where
  mem i := if i = 16 then len else if i = 22 then 2 else if i = 23 then frag_idx else 0
  len := 28

/-- The place of the sixth of two fragments, and 200 bytes of a fragment without any. -/
theorem fragments_unsafe :
    ¬Safe .little [⟨0, fun _ => ⟨none, 0⟩, fragment 5 0⟩] [] ∧
    ¬Safe .little [⟨0, fun _ => ⟨none, 0⟩, fragment 0 200⟩] [] := by
  constructor
  · rintro ⟨d, hd, hright, -⟩
    obtain rfl := Except.ok.inj hd
    have hin := (hright.inside _ rfl 5 2 rfl).1
    omega
  · rintro ⟨d, hd, hright, -⟩
    obtain rfl := Except.ok.inj hd
    have hlen := (hright.placed _ rfl _ rfl).lens 0 (by decide) (fragment 0 200) rfl
    exact absurd hlen (by decide)

end Spines.Outgoing.FragPkts
