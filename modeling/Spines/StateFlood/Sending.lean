/-
`daemon/state_flood.c`: sending the changed states to the neighbors.

`Net_Send_State_Updates` goes over the changed states by source, packs those that one
neighbor still needs and sets the neighbor's bit in each. After six packets it gives up
for now; everything it has set a bit for is in one of these packets. The function works
on the hash while it enumerates it in two ways, all entries and those of one source; an
`Enumeration` is what the hash says.
-/
import Mathlib.Data.List.TakeWhile
import Spines.StateFlood.Packets

set_option autoImplicit false

namespace Spines.StateFlood

open Spines.Lib List

/-! ## 1. The loops -/

abbrev Key := Spines_ID × Spines_ID

def Changed_State.key (c : Changed_State) : Key := (c.source_addr, c.dest_addr)

structure Enumeration where
  order : List Key
  keyed : Spines_ID → List Spines_ID

structure Enumeration.Of (en : Enumeration) (changes : List Changed_State) : Prop where
  order : en.order.Perm (changes.map Changed_State.key)
  keyed : ∀ src, ((en.keyed src).map fun dst => (src, dst)).Perm
    ((changes.map Changed_State.key).filter fun k => k.1 = src)

section Model

variable {p : Prot_Def}

def no_lts : (p : Prot_Def) → p.Lts
  | .Edge_Prot_Def => 0
  | .Groups_Prot_Def => ()

def Daemon.state (d : Daemon p) (k : Key) : State_Data p :=
  (Find_State d.All_States k.1 k.2).getD (fresh_state ⟨0, 0⟩ false 0 (no_lts p))

def needs (changes : List Changed_State) (slot : ℕ) (k : Key) : Bool :=
  (Find_Changed_State changes k.1 k.2).any fun cg_state => !cg_state.mask slot

def set_bit (changes : List Changed_State) (slot : ℕ) (k : Key) : List Changed_State :=
  set_mask changes k.1 k.2 fun m i => m i || i == slot

/-- Variables of `Net_Send_State_Updates`; `pkt_cnt` is the number of packets sent. -/
structure Progress (p : Prot_Def) where
  buffer : Buffer p
  changes : List Changed_State
  done_srcs : List Node_ID

/-- What does not change during the call. -/
structure Call (p : Prot_Def) where
  new_ref_cnt : ℕ → Mem
  e : Endian
  now : sp_time
  d : Daemon p
  neighbor_id : ℕ
  en : Enumeration

/-- The packet goes out when it is `full`. The flag says whether the limit on the
number of packets is not passed yet. -/
def Progress.flush (c : Call p) (st : Progress p) (full : Bool) : Progress p × Bool :=
  if full then
    let b := st.buffer.send_packet c.new_ref_cnt
    ({ st with buffer := b }, !(b.sent.length > 5))
  else (st, true)

/-- The loop over the other states of a source; `false` when it returns -1. -/
def send_next_states (c : Call p) (source : Node_ID) :
    List Spines_ID → Progress p → Progress p × Bool
  | [], st => (st, true)
  | dst :: rest, st =>
    if needs st.changes c.neighbor_id (source, dst) then
      let full := st.buffer.full_for_cell
      let (st, go) := st.flush c full
      if go then
        let b := if full then st.buffer.put_header c.e source 0 else st.buffer
        send_next_states c source rest { st with
          buffer := b.put_cell c.e ((c.d.state (source, dst)).cell c.now dst)
          changes := set_bit st.changes c.neighbor_id (source, dst) }
      else (st, false)
    else send_next_states c source rest st

def send_source (c : Call p) (source : Node_ID) (st : Progress p) : Progress p × Bool :=
  if source ∈ st.done_srcs then (st, true)
  else
    -- the first state of this source that the neighbor needs
    match (c.en.keyed source).dropWhile fun dst =>
        !needs st.changes c.neighbor_id (source, dst) with
    | [] => ({ st with done_srcs := source :: st.done_srcs }, true)
    | dst :: rest =>
      let (st, go) := st.flush c st.buffer.full_for_part
      if go then
        let (st, go) := send_next_states c source rest { st with
          buffer := st.buffer.put_part c.e source ((c.d.state (source, dst)).cell c.now dst)
          changes := set_bit st.changes c.neighbor_id (source, dst) }
        if go then ({ st with done_srcs := source :: st.done_srcs }, true) else (st, false)
      else (st, false)

def send_sources (c : Call p) : List Key → Progress p → Progress p × Bool
  | [], st => (st, true)
  | k :: rest, st =>
    let (st, go) := send_source c k.1 st
    if go then send_sources c rest st else (st, false)

/-- The packets sent, the changed states with their new bits, and whether everything
was sent. -/
def Net_Send_State_Updates (c : Call p) : List (Packet p) × List Changed_State × Bool :=
  let (st, go) := send_sources c c.en.order
    { buffer := .first c.new_ref_cnt, changes := c.d.Changed_States, done_srcs := [] }
  let b := if go && st.buffer.pack_bytes != 0 then st.buffer.send_packet c.new_ref_cnt
    else st.buffer
  (b.sent, st.changes, go)

/-- What one call of `Send_State_Updates` finds: the clock, the buffers and how the
hash enumerates the changes for each neighbor. -/
structure Sending where
  e : Endian
  now : sp_time
  new_ref_cnt : ℕ → ℕ → Mem
  en : ℕ → Enumeration

/-- Body of the loop over the slots: the daemon, the packets for each neighbor, and the
flag for changes only partially sent. -/
def send_to_slot (s : Sending) (st : Daemon p × List (Node_ID × Packet p) × Bool) (i : ℕ) :
    Daemon p × List (Node_ID × Packet p) × Bool :=
  let (d, out, flag) := st
  match d.Neighbor_Nodes[i]? with
  | some (some nd) =>
    if d.connected nd then
      let (pkts, changes, all_sent) := Net_Send_State_Updates
        { new_ref_cnt := s.new_ref_cnt i, e := s.e, now := s.now, d := d, neighbor_id := i,
          en := s.en i }
      ({ d with Changed_States := changes }, out ++ pkts.map fun pk => (nd, pk), flag || !all_sent)
    else st
  | _ => st

def Send_State_Updates (s : Sending) (d : Daemon p) : Daemon p × List (Node_ID × Packet p) :=
  let (d, out, flag) := (range d.Neighbor_Nodes.length).foldl (send_to_slot s) (d, [], false)
  if flag then ({ d with queued := true }, out) else ({ d with Changed_States := [] }, out)

end Model

/-! ## 2. Bits -/

section Bits

variable {changes : List Changed_State} {slot : ℕ} {k k' : Key} {ks : List Key}

def Distinct (changes : List Changed_State) : Prop :=
  (changes.map Changed_State.key).Nodup

/-- The changed states with the bit of a slot set for all of `ks`. -/
def mark (changes : List Changed_State) (slot : ℕ) (ks : List Key) : List Changed_State :=
  changes.map fun c =>
    if c.key ∈ ks then { c with mask := fun i => c.mask i || i == slot } else c

theorem is_iff (c : Changed_State) (k : Key) : c.is k.1 k.2 ↔ c.key = k := by
  simp [Changed_State.is, Changed_State.key, Prod.ext_iff]

@[simp] theorem mark_nil : mark changes slot [] = changes := by
  simp [mark]

theorem mark_keys : (mark changes slot ks).map Changed_State.key =
    changes.map Changed_State.key := by
  rw [mark, map_map]
  apply map_congr_left
  intro c _
  simp only [Function.comp_apply]
  split <;> rfl

theorem set_bit_mark : set_bit (mark changes slot ks) slot k = mark changes slot (ks ++ [k]) := by
  unfold set_bit set_mask mark
  rw [map_map]
  apply map_congr_left
  intro c _
  have hkey : ∀ m, (({ c with mask := m } : Changed_State).is k.1 k.2 ↔ c.key = k) := by
    intro m
    exact is_iff _ k
  by_cases hks : c.key ∈ ks
  · by_cases hk : c.key = k
    · simp [hks, (hkey _).mpr hk]
    · simp [hks, (hkey _).not.mpr hk]
  · by_cases hk : c.key = k
    · subst hk
      simp [hks, (is_iff c c.key).mpr rfl]
    · simp [hks, hk, (is_iff c k).not.mpr hk]

theorem find_changed_iff (h : Distinct changes) {c : Changed_State} :
    Find_Changed_State changes k.1 k.2 = some c ↔ c ∈ changes ∧ c.key = k := by
  unfold Find_Changed_State
  constructor
  · intro hfind
    have his := List.find?_some hfind
    exact ⟨mem_of_find?_eq_some hfind, (is_iff c k).mp his⟩
  · rintro ⟨hc, hk⟩
    obtain ⟨c', hfind⟩ : ∃ c', changes.find? (fun c => c.is k.1 k.2) = some c' := by
      rw [← Option.isSome_iff_exists, List.find?_isSome]
      exact ⟨c, hc, (is_iff c k).mpr hk⟩
    have his := List.find?_some hfind
    have hk' := (is_iff c' k).mp his
    rw [hfind, inj_on_of_nodup_map h (mem_of_find?_eq_some hfind) hc (hk'.trans hk.symm)]

theorem needs_iff (h : Distinct changes) :
    needs changes slot k ↔ ∃ c ∈ changes, c.key = k ∧ c.mask slot = false := by
  unfold needs
  simp only [Option.any_eq_true, find_changed_iff h, Bool.not_eq_true']
  simp only [and_assoc]

theorem needs_mark (h : Distinct changes) :
    needs (mark changes slot ks) slot k ↔ needs changes slot k ∧ k ∉ ks := by
  have h' : Distinct (mark changes slot ks) := by
    rw [Distinct, mark_keys]
    exact h
  rw [needs_iff h', needs_iff h]
  unfold mark
  simp only [mem_map]
  constructor
  · rintro ⟨_, ⟨c, hc, rfl⟩, hk, hmask⟩
    by_cases hks : c.key ∈ ks
    · simp [hks] at hmask
    · rw [if_neg hks] at hk hmask
      exact ⟨⟨c, hc, hk, hmask⟩, hk ▸ hks⟩
  · rintro ⟨⟨c, hc, rfl, hmask⟩, hks⟩
    exact ⟨c, ⟨c, hc, if_neg hks⟩, rfl, hmask⟩

end Bits

/-! ## 3. What a call sends -/

section Loops

variable {p : Prot_Def} {c : Call p} {st st' : Progress p} {ks : List Key} {source : Node_ID}
  {go : Bool}

def Call.cell (c : Call p) (k : Key) : Node_ID × State_Cell p :=
  (k.1, (c.d.state k).cell c.now k.2)

/-- The keys `ks` have been packed so far, and their bits are set. -/
structure Progress.Sent (c : Call p) (st : Progress p) (ks : List Key) : Prop where
  nodup : ks.Nodup
  needed : ∀ k ∈ ks, needs c.d.Changed_States c.neighbor_id k
  changes : st.changes = mark c.d.Changed_States c.neighbor_id ks
  content : st.buffer.content = ks.map c.cell
  empty : st.buffer.pack_bytes = 0 → st.buffer.parts = []

theorem put_cell_bytes (e : Endian) (b : Buffer p) (cell : State_Cell p) :
    (b.put_cell e cell).pack_bytes ≠ 0 := by
  have hpos : 0 < Cell_packet_size p := by cases p <;> decide
  rw [Buffer.put_cell, write_cell_eq]
  dsimp only
  omega

theorem Progress.Sent.add (hd : Distinct c.d.Changed_States) (h : st.Sent c ks) {k : Key}
    (hneed : needs st.changes c.neighbor_id k) (srcs : List Node_ID) {b : Buffer p}
    (hb : b.content = st.buffer.content ++ [c.cell k]) (hbytes : b.pack_bytes ≠ 0) :
    Progress.Sent c ⟨b, set_bit st.changes c.neighbor_id k, srcs⟩ (ks ++ [k]) := by
  rw [h.changes, needs_mark hd] at hneed
  constructor
  · rw [nodup_append]
    refine ⟨h.nodup, nodup_singleton k, ?_⟩
    rintro k' hk' k'' hk'' rfl
    exact hneed.2 (mem_singleton.mp hk'' ▸ hk')
  · intro k' hk'
    rcases mem_append.mp hk' with hk' | hk'
    · exact h.needed k' hk'
    · rw [mem_singleton.mp hk']
      exact hneed.1
  · rw [h.changes, set_bit_mark]
  · rw [hb, h.content, map_append, map_singleton]
  · exact fun hzero => absurd hzero hbytes

theorem flush_spec (h : st.Sent c ks) (full : Bool) :
    (st.flush c full).1.Sent c ks ∧ (st.flush c full).1.changes = st.changes ∧
      (st.flush c full).1.done_srcs = st.done_srcs ∧
      ((st.flush c full).2 = false → (st.flush c full).1.buffer.parts = []) ∧
      (st.flush c full).1.buffer = if full then st.buffer.send_packet c.new_ref_cnt else st.buffer := by
  unfold Progress.flush
  cases full with
  | false => exact ⟨h, rfl, rfl, by simp, rfl⟩
  | true =>
    refine ⟨⟨h.nodup, h.needed, h.changes, ?_, fun _ => rfl⟩, rfl, rfl, fun _ => rfl, rfl⟩
    exact (send_packet_content st.buffer c.new_ref_cnt).trans h.content

structure Progress.Went (c : Call p) (ks : List Key) (st' : Progress p) (go : Bool)
    (ks' : List Key) : Prop where
  sent : st'.Sent c ks'
  more : ks ⊆ ks'
  stopped : go = false → st'.buffer.parts = []

theorem Progress.Sent.satisfied (hd : Distinct c.d.Changed_States) (h : st.Sent c ks)
    {ks' : List Key} (h' : st'.Sent c ks') (hmore : ks ⊆ ks') {k : Key}
    (hk : ¬needs st.changes c.neighbor_id k) : ¬needs st'.changes c.neighbor_id k := by
  rw [h.changes, needs_mark hd] at hk
  rw [h'.changes, needs_mark hd]
  exact fun hneed => hk ⟨hneed.1, fun hks => hneed.2 (hmore hks)⟩

theorem send_next_states_spec (hd : Distinct c.d.Changed_States) (dsts : List Spines_ID)
    (h : st.Sent c ks) (hlast : ∃ init cs, st.buffer.parts = init ++ [(source, cs)])
    (hrun : send_next_states c source dsts st = (st', go)) :
    ∃ ks', Progress.Went c ks st' go ks' ∧ st'.done_srcs = st.done_srcs ∧
      (go = true → ∀ dst ∈ dsts, ¬needs st'.changes c.neighbor_id (source, dst)) := by
  induction dsts generalizing st ks with
  | nil =>
    obtain ⟨rfl, rfl⟩ := Prod.mk.inj hrun
    exact ⟨ks, ⟨h, List.Subset.refl _, by simp⟩, rfl, by simp⟩
  | cons dst dsts ih =>
    unfold send_next_states at hrun
    by_cases hneed : needs st.changes c.neighbor_id (source, dst)
    · rw [if_pos hneed] at hrun
      dsimp only at hrun
      obtain ⟨hflush, hchanges, hdone, hstop, hbuffer⟩ := flush_spec h st.buffer.full_for_cell
      split at hrun
      · -- the cell is packed
        rename_i hgo
        generalize hb : (if st.buffer.full_for_cell then
          (st.flush c st.buffer.full_for_cell).1.buffer.put_header c.e source 0
          else (st.flush c st.buffer.full_for_cell).1.buffer) = b at hrun
        have hb' : b.content = st.buffer.content ∧
            ∃ init cs, b.parts = init ++ [(source, cs)] := by
          rw [← hb, hbuffer]
          by_cases hfull : st.buffer.full_for_cell
          · simp only [hfull, if_true]
            refine ⟨?_, [], [], rfl⟩
            rw [put_header_content, send_packet_content]
          · rw [if_neg hfull, if_neg hfull]
            exact ⟨rfl, hlast⟩
        obtain ⟨hcontent, init, cs, hparts⟩ := hb'
        have hput : (b.put_cell c.e ((c.d.state (source, dst)).cell c.now dst)).content =
            st.buffer.content ++ [c.cell (source, dst)] := by
          rw [put_cell_content hparts, hcontent]
          rfl
        have hadd := h.add hd hneed st.done_srcs hput (put_cell_bytes _ _ _)
        rw [hchanges, hdone] at hrun
        obtain ⟨ks', hwent, hdone', hall⟩ :=
          ih hadd ⟨init, _, put_cell_parts hparts⟩ hrun
        refine ⟨ks', ⟨hwent.sent, ?_, hwent.stopped⟩, hdone', ?_⟩
        · exact fun k hk => hwent.more (mem_append_left _ hk)
        · intro hgo' dst' hdst'
          rcases mem_cons.mp hdst' with rfl | hdst'
          · rw [hwent.sent.changes, needs_mark hd]
            exact fun hneed' => hneed'.2 (hwent.more (by simp))
          · exact hall hgo' dst' hdst'
      · rename_i hgo
        obtain ⟨rfl, rfl⟩ := Prod.mk.inj hrun
        exact ⟨ks, ⟨hflush, List.Subset.refl _, fun _ => hstop (by simpa using hgo)⟩, hdone,
          by simp⟩
    · rw [if_neg hneed] at hrun
      obtain ⟨ks', hwent, hdone', hall⟩ := ih h hlast hrun
      refine ⟨ks', hwent, hdone', ?_⟩
      intro hgo dst' hdst'
      rcases mem_cons.mp hdst' with rfl | hdst'
      · exact h.satisfied hd hwent.sent hwent.more hneed
      · exact hall hgo dst' hdst'

def Progress.Satisfied (c : Call p) (st : Progress p) (source : Node_ID) : Prop :=
  ∀ dst, ¬needs st.changes c.neighbor_id (source, dst)

theorem satisfied_of_keyed (hd : Distinct c.d.Changed_States) (hen : c.en.Of c.d.Changed_States)
    (h : st.Sent c ks)
    (hall : ∀ dst ∈ c.en.keyed source, ¬needs st.changes c.neighbor_id (source, dst)) :
    st.Satisfied c source := by
  intro dst hneed
  apply hall dst ?_ hneed
  rw [h.changes, needs_mark hd, needs_iff hd] at hneed
  obtain ⟨⟨cg_state, hcg, hkey, -⟩, -⟩ := hneed
  have hmem : (source, dst) ∈ (c.en.keyed source).map fun dst => (source, dst) := by
    rw [(hen.keyed source).mem_iff, mem_filter]
    exact ⟨hkey ▸ mem_map_of_mem hcg, by simp⟩
  simpa using hmem

theorem send_source_spec (hd : Distinct c.d.Changed_States) (hen : c.en.Of c.d.Changed_States)
    (h : st.Sent c ks) (hdone : ∀ src ∈ st.done_srcs, st.Satisfied c src)
    (hrun : send_source c source st = (st', go)) :
    ∃ ks', Progress.Went c ks st' go ks' ∧
      (go = true → source ∈ st'.done_srcs ∧ ∀ src ∈ st'.done_srcs, st'.Satisfied c src) := by
  unfold send_source at hrun
  by_cases hsource : source ∈ st.done_srcs
  · rw [if_pos hsource] at hrun
    obtain ⟨rfl, rfl⟩ := Prod.mk.inj hrun
    exact ⟨ks, ⟨h, List.Subset.refl _, by simp⟩, fun _ => ⟨hsource, hdone⟩⟩
  rw [if_neg hsource] at hrun
  -- the states before the first one needed
  have hkeyed := takeWhile_append_dropWhile (l := c.en.keyed source)
    (p := fun dst => !needs st.changes c.neighbor_id (source, dst))
  have hfront : ∀ dst ∈ (c.en.keyed source).takeWhile fun dst =>
      !needs st.changes c.neighbor_id (source, dst),
      ¬needs st.changes c.neighbor_id (source, dst) := by
    intro dst hdst
    simpa using mem_takeWhile_imp hdst
  split at hrun
  · -- no state of this source is needed
    rename_i hnone
    obtain ⟨rfl, rfl⟩ := Prod.mk.inj hrun
    have hsat : st.Satisfied c source := by
      apply satisfied_of_keyed hd hen h
      rw [← hkeyed, hnone, append_nil]
      exact hfront
    refine ⟨ks, ⟨⟨h.nodup, h.needed, h.changes, h.content, h.empty⟩, List.Subset.refl _, by simp⟩, ?_⟩
    intro _
    refine ⟨mem_cons_self, ?_⟩
    intro src hsrc
    rcases mem_cons.mp hsrc with rfl | hsrc
    · exact hsat
    · exact hdone src hsrc
  · rename_i dst rest hrest
    have hneed : needs st.changes c.neighbor_id (source, dst) := by
      have hhead := List.head?_dropWhile_not
        (fun dst => !needs st.changes c.neighbor_id (source, dst)) (c.en.keyed source)
      rw [hrest] at hhead
      simpa using hhead
    dsimp only at hrun
    obtain ⟨hflush, hchanges, hsrcs, hstop, hbuffer⟩ := flush_spec h st.buffer.full_for_part
    split at hrun
    · have hput : ((st.flush c st.buffer.full_for_part).1.buffer.put_part c.e source
          ((c.d.state (source, dst)).cell c.now dst)).content =
          st.buffer.content ++ [c.cell (source, dst)] := by
        rw [put_part_content, hflush.content, h.content]
        rfl
      rw [hchanges, hsrcs] at hrun
      have hbytes : ((st.flush c st.buffer.full_for_part).1.buffer.put_part c.e source
          ((c.d.state (source, dst)).cell c.now dst)).pack_bytes ≠ 0 := by
        rw [put_part_eq]
        exact put_cell_bytes _ _ _
      have hadd := h.add hd hneed st.done_srcs hput hbytes
      obtain ⟨⟨st1, go1⟩, hrun1⟩ : ∃ r, r = send_next_states c source rest
          ⟨(st.flush c st.buffer.full_for_part).1.buffer.put_part c.e source
            ((c.d.state (source, dst)).cell c.now dst),
            set_bit st.changes c.neighbor_id (source, dst), st.done_srcs⟩ := ⟨_, rfl⟩
      obtain ⟨ks', hwent, hsrcs', hall⟩ := send_next_states_spec hd rest hadd
        ⟨_, _, put_part_parts _ _ _⟩ hrun1.symm
      have hmore : ks ⊆ ks' := fun k hk => hwent.more (mem_append_left _ hk)
      rw [← hrun1] at hrun
      dsimp only at hrun hsrcs'
      split at hrun
      · rename_i hgo
        obtain ⟨rfl, rfl⟩ := Prod.mk.inj hrun
        have hsat : st1.Satisfied c source := by
          apply satisfied_of_keyed hd hen hwent.sent
          intro dst' hdst'
          rw [← hkeyed, hrest, mem_append, mem_cons] at hdst'
          rcases hdst' with hdst' | rfl | hdst'
          · exact h.satisfied hd hwent.sent hmore (hfront dst' hdst')
          · rw [hwent.sent.changes, needs_mark hd]
            exact fun hneed' => hneed'.2 (hwent.more (by simp))
          · exact hall hgo dst' hdst'
        refine ⟨ks', ⟨⟨hwent.sent.nodup, hwent.sent.needed, hwent.sent.changes,
          hwent.sent.content, hwent.sent.empty⟩, hmore, by simp⟩, ?_⟩
        intro _
        refine ⟨mem_cons_self, ?_⟩
        intro src hsrc
        rcases mem_cons.mp hsrc with rfl | hsrc
        · exact hsat
        · rw [hsrcs'] at hsrc
          exact fun dst' => h.satisfied hd hwent.sent hmore (hdone src hsrc dst')
      · rename_i hgo
        obtain ⟨rfl, rfl⟩ := Prod.mk.inj hrun
        exact ⟨ks', ⟨hwent.sent, hmore, fun _ => hwent.stopped (by simpa using hgo)⟩, by simp⟩
    · rename_i hgo
      obtain ⟨rfl, rfl⟩ := Prod.mk.inj hrun
      exact ⟨ks, ⟨hflush, List.Subset.refl _, fun _ => hstop (by simpa using hgo)⟩, by simp⟩

theorem send_sources_spec (hd : Distinct c.d.Changed_States) (hen : c.en.Of c.d.Changed_States)
    (order : List Key) (h : st.Sent c ks) (hdone : ∀ src ∈ st.done_srcs, st.Satisfied c src)
    (hrun : send_sources c order st = (st', go)) :
    ∃ ks', Progress.Went c ks st' go ks' ∧ (go = true → ∀ k ∈ order, st'.Satisfied c k.1) := by
  induction order generalizing st ks with
  | nil =>
    obtain ⟨rfl, rfl⟩ := Prod.mk.inj hrun
    exact ⟨ks, ⟨h, List.Subset.refl _, by simp⟩, by simp⟩
  | cons k order ih =>
    unfold send_sources at hrun
    obtain ⟨⟨st1, go1⟩, hrun1⟩ : ∃ r, r = send_source c k.1 st := ⟨_, rfl⟩
    obtain ⟨ks1, hwent, hsat⟩ := send_source_spec hd hen h hdone hrun1.symm
    rw [← hrun1] at hrun
    dsimp only at hrun
    split at hrun
    · rename_i hgo
      obtain ⟨hmem, hdone1⟩ := hsat hgo
      obtain ⟨ks', hwent', hall⟩ := ih hwent.sent hdone1 hrun
      refine ⟨ks', ⟨hwent'.sent, fun k hk => hwent'.more (hwent.more hk),
        hwent'.stopped⟩, ?_⟩
      intro hgo' k' hk'
      rcases mem_cons.mp hk' with rfl | hk'
      · exact fun dst => hwent.sent.satisfied hd hwent'.sent hwent'.more (hdone1 _ hmem dst)
      · exact hall hgo' k' hk'
    · rename_i hgo
      obtain ⟨rfl, rfl⟩ := Prod.mk.inj hrun
      exact ⟨ks1, ⟨hwent.sent, hwent.more, fun _ => hwent.stopped (by simpa using hgo)⟩, by simp⟩

/-- A call packs some of the states that the neighbor needs, each once, and sets their
bits; if it does not give up, it packs all of them. -/
theorem net_send_state_updates_spec (hd : Distinct c.d.Changed_States)
    (hen : c.en.Of c.d.Changed_States) {pkts : List (Packet p)} {changes : List Changed_State}
    (hrun : Net_Send_State_Updates c = (pkts, changes, go)) :
    ∃ ks : List Key, ks.Nodup ∧ (∀ k ∈ ks, needs c.d.Changed_States c.neighbor_id k) ∧
      changes = mark c.d.Changed_States c.neighbor_id ks ∧
      (pkts.flatMap fun pk => cells pk.parts) = ks.map c.cell ∧
      (go = true → ∀ k, needs c.d.Changed_States c.neighbor_id k → k ∈ ks) := by
  unfold Net_Send_State_Updates at hrun
  obtain ⟨⟨st, go'⟩, hrun'⟩ : ∃ r, r = send_sources c c.en.order
      ⟨.first c.new_ref_cnt, c.d.Changed_States, []⟩ := ⟨_, rfl⟩
  have hfirst : Progress.Sent c ⟨.first c.new_ref_cnt, c.d.Changed_States, []⟩ [] :=
    ⟨nodup_nil, by simp, mark_nil.symm, rfl, fun _ => rfl⟩
  obtain ⟨ks, hwent, hall⟩ := send_sources_spec hd hen c.en.order hfirst (by simp) hrun'.symm
  rw [← hrun'] at hrun
  dsimp only at hrun
  obtain ⟨hpkts, hrest⟩ := Prod.mk.inj hrun
  obtain ⟨rfl, rfl⟩ := Prod.mk.inj hrest
  refine ⟨ks, hwent.sent.nodup, hwent.sent.needed, hwent.sent.changes, ?_, ?_⟩
  · -- nothing is left in the buffer
    have hsent : ∀ b : Buffer p, b.parts = [] → (b.sent.flatMap fun pk => cells pk.parts) = b.content := by
      intro b hb
      simp [Buffer.content, hb, cells]
    rw [← hwent.sent.content, ← hpkts]
    by_cases hlast : go' && st.buffer.pack_bytes != 0
    · rw [if_pos hlast, hsent _ rfl, send_packet_content]
    · rw [if_neg hlast]
      apply hsent
      cases go' with
      | false => exact hwent.stopped rfl
      | true => exact hwent.sent.empty (by simpa using hlast)
  · intro hgo k hneed
    by_contra hks
    obtain ⟨cg_state, hcg, hkey, -⟩ := (needs_iff hd).mp hneed
    have horder : k ∈ c.en.order := by
      rw [hen.order.mem_iff]
      exact hkey ▸ mem_map_of_mem hcg
    apply hall hgo k horder k.2
    rw [hwent.sent.changes, needs_mark hd]
    exact ⟨hneed, hks⟩

end Loops

end Spines.StateFlood
