/-
How many packets a message takes on an intrusion-tolerant link.

Two loops decide it independently: `Calculate_Packets_In_Message` of
`daemon/protocol.c` goes over the elements with a running length, and
`Pack_Fragments_Into_Packets_IT` fills one packet after the other. Both are
next-fit on the elements with their headers: the first by definition
(`calculate_packets_eq`), the second because it fills a packet as far as it goes
(`pack_one_count`).
-/
import Spines.IntruTol.Window
import Spines.Lib.NextFit

set_option autoImplicit false

namespace Spines.IntruTol

open Spines.Lib.NextFit List

/-! ## 1. The count -/

/-- What a packet has room for, as the `size_t` of the comparison.
`link_addition` is `Link_Header_Size(mode)`. -/
def packet_room (link_addition : ℕ) : ℕ := (MAX_PACKET_SIZE + 2 ^ 64 - link_addition) % 2 ^ 64

/-- One element: `packets` and `curr_pkt_len`, both `int16u`. -/
def count_element (link_addition : ℕ) (acc : ℕ × ℕ) (element : Bytes) : ℕ × ℕ :=
  let needed := element.length + SIZEOF_FRAGMENT_HEADER
  if packet_room link_addition < acc.2 + needed then ((acc.1 + 1) % 65536, needed % 65536)
  else (acc.1, (acc.2 + needed) % 65536)

/-- `Calculate_Packets_In_Message`: the number of packets and `*last_pkt_space`. -/
def calculate_packets_in_message (link_addition : ℕ) (m : SysScatter) : ℕ × ℕ :=
  let r := m.body.foldl (count_element link_addition) (1, 0)
  (r.1, (MAX_PACKET_SIZE + 2 ^ 17 - link_addition - r.2) % 65536)

theorem calculate_packets_range (link_addition : ℕ) {m : SysScatter}
    (hlen : m.body.length < MAX_SCATTER_ELEMENTS) :
    1 ≤ (calculate_packets_in_message link_addition m).1 ∧
      (calculate_packets_in_message link_addition m).1 ≤ MAX_SCATTER_ELEMENTS := by
  have hcount : ∀ (l : List Bytes) (acc : ℕ × ℕ), 1 ≤ acc.1 → acc.1 + l.length < 65536 →
      1 ≤ (l.foldl (count_element link_addition) acc).1 ∧
        (l.foldl (count_element link_addition) acc).1 ≤ acc.1 + l.length := by
    intro l
    induction l with
    | nil => exact fun acc h _ => ⟨h, le_refl _⟩
    | cons x l ih =>
      intro acc h1 h2
      rw [length_cons] at h2
      have hstep : 1 ≤ (count_element link_addition acc x).1 ∧
          (count_element link_addition acc x).1 ≤ acc.1 + 1 := by
        dsimp only [count_element]
        split_ifs <;> dsimp only <;> omega
      obtain ⟨h3, h4⟩ := ih (count_element link_addition acc x) hstep.1 (by omega)
      rw [foldl_cons, length_cons]
      exact ⟨h3, by omega⟩
  simp only [MAX_SCATTER_ELEMENTS] at hlen ⊢
  obtain ⟨h1, h2⟩ := hcount m.body (1, 0) (le_refl 1) (by dsimp only; omega)
  dsimp only at h2
  exact ⟨h1, le_trans h2 (by omega)⟩

def needed (element : Bytes) : ℕ := element.length + SIZEOF_FRAGMENT_HEADER

def Conf.cap (cf : Conf) : ℕ := MAX_PACKET_SIZE - cf.link_header_size

variable {m : SysScatter}

theorem calculate_packets_eq {cf : Conf} (hlen : m.body.length < MAX_SCATTER_ELEMENTS)
    (hfit : ∀ x ∈ m.body,
      x.length + cf.link_header_size + SIZEOF_FRAGMENT_HEADER ≤ MAX_PACKET_SIZE) :
    m.body.foldl (count_element cf.link_header_size) (1, 0)
      = next_fit cf.cap (m.body.map needed) := by
  have hcount : ∀ (l : List Bytes) (b f : ℕ), b + l.length < 65536 → f ≤ MAX_PACKET_SIZE →
      (∀ x ∈ l, x.length + cf.link_header_size + SIZEOF_FRAGMENT_HEADER ≤ MAX_PACKET_SIZE) →
      l.foldl (count_element cf.link_header_size) (b, f)
        = (l.map needed).foldl (place cf.cap) (b, f) := by
    intro l
    induction l with
    | nil => exact fun _ _ _ _ _ => rfl
    | cons x l ih =>
      intro b f hb hf hl
      have hx := hl x (mem_cons_self ..)
      simp only [MAX_PACKET_SIZE, SIZEOF_FRAGMENT_HEADER] at hx hf
      have hroom : packet_room cf.link_header_size = cf.cap := by
        simp only [packet_room, Conf.cap, MAX_PACKET_SIZE]
        omega
      rw [length_cons] at hb
      rw [map_cons, foldl_cons, foldl_cons]
      have hneed : needed x ≤ cf.cap ∧ cf.cap ≤ 1472 := by
        simp only [needed, Conf.cap, MAX_PACKET_SIZE, SIZEOF_FRAGMENT_HEADER]
        omega
      have hstep : count_element cf.link_header_size (b, f) x
          = if packet_room cf.link_header_size < f + needed x then ((b + 1) % 65536, needed x % 65536) else (b, (f + needed x) % 65536) := rfl
      have hrest := fun y hy => hl y (mem_cons_of_mem x hy)
      rw [hstep, hroom, place]
      by_cases hfits : f + needed x ≤ cf.cap
      · rw [if_neg (by omega), if_pos hfits, Nat.mod_eq_of_lt (by omega)]
        exact ih b _ (by omega) (by simp only [MAX_PACKET_SIZE]; omega) hrest
      · rw [if_pos (by omega), if_neg hfits, Nat.mod_eq_of_lt (by omega),
          Nat.mod_eq_of_lt (by omega)]
        exact ih (b + 1) _ (by omega) (by simp only [MAX_PACKET_SIZE]; omega) hrest
  simp only [MAX_SCATTER_ELEMENTS] at hlen
  exact hcount m.body 1 0 (by omega) (Nat.zero_le _) hfit

/-! ## 2. A packet is filled as far as it goes -/

theorem fill_loop_full (lhs : ℕ) (m : SysScatter) (total fuel : ℕ) : ∀ st : FillState,
    MAX_PACKET_SIZE ≤ fuel + st.data_len →
    fill_fits lhs m total (fill_loop lhs m total fuel st) = false := by
  induction fuel with
  | zero =>
    intro st h
    have hfull : ¬ st.data_len + (m.element st.out_frag_idx).length + lhs
        + SIZEOF_FRAGMENT_HEADER ≤ MAX_PACKET_SIZE := by
      simp only [SIZEOF_FRAGMENT_HEADER]
      omega
    rw [fill_loop, fill_fits, decide_eq_false hfull, Bool.and_false]
  | succ fuel ih =>
    intro st h
    rw [fill_loop]
    by_cases hfit : fill_fits lhs m total st = true
    · rw [if_pos hfit]
      apply ih
      simp only [fill_step, SIZEOF_FRAGMENT_HEADER]
      omega
    · rw [if_neg hfit]
      exact Bool.eq_false_of_not_eq_true hfit

theorem fill_loop_le (lhs : ℕ) (m : SysScatter) (total fuel : ℕ) : ∀ st : FillState,
    st.data_len + lhs ≤ MAX_PACKET_SIZE →
    (fill_loop lhs m total fuel st).data_len + lhs ≤ MAX_PACKET_SIZE := by
  induction fuel with
  | zero => exact fun _ h => h
  | succ fuel ih =>
    intro st h
    rw [fill_loop]
    by_cases hfit : fill_fits lhs m total st = true
    · rw [if_pos hfit]
      apply ih
      simp only [fill_fits, Bool.and_eq_true, decide_eq_true_eq] at hfit
      simp only [fill_step]
      omega
    · rw [if_neg hfit]
      exact h

def sizes (m : SysScatter) (a : ℕ) : List ℕ := (m.body.drop (a - 1)).map needed

theorem sizes_cons {a : ℕ} (h1 : 1 ≤ a) (h2 : a ≤ m.body.length) :
    sizes m a = needed (m.element a) :: sizes m (a + 1) := by
  obtain ⟨i, rfl⟩ : ∃ i, a = i + 1 := ⟨a - 1, by omega⟩
  have helem : m.element (i + 1) = m.body[i] := by
    rw [SysScatter.element, getD_cons_succ, getD_eq_getElem _ _ (by omega)]
  rw [sizes, sizes, helem, Nat.add_sub_cancel, Nat.add_sub_cancel,
    drop_eq_getElem_cons (by omega), map_cons]

theorem sizes_split (total : ℕ) {a : ℕ} (h1 : 1 ≤ a) (c : ℕ) (h2 : a + c ≤ m.body.length + 1) :
    ∃ p, sizes m a = p ++ sizes m (a + c) ∧ p.sum = (packet_bytes m total a c).length := by
  induction c with
  | zero => exact ⟨[], rfl, rfl⟩
  | succ c ih =>
    obtain ⟨p, hp, hsum⟩ := ih (by omega)
    refine ⟨p ++ [needed (m.element (a + c))], ?_, ?_⟩
    · rw [hp, sizes_cons (by omega) (by omega), append_assoc, singleton_append]
      rfl
    · rw [packet_bytes_add, packet_bytes_one, length_append, frag_bytes_length,
        sum_append, hsum, sum_singleton, needed]

def packets_from (cf : Conf) (m : SysScatter) (a : ℕ) : ℕ := (next_fit cf.cap (sizes m a)).1

theorem fill_packet_count {cf : Conf} (hm : Fits cf.link_header_size m) {a c : ℕ}
    (h1 : 1 ≤ a) (h2 : a + c ≤ m.body.length + 1)
    (hfill : Filled m m.body.length a c (fill_packet cf.link_header_size m a m.body.length)) :
    packets_from cf m a
      = if a + c = m.body.length + 1 then 1 else 1 + packets_from cf m (a + c) := by
  obtain ⟨p, hp, hsum⟩ := sizes_split m.body.length h1 c h2
  have hstop := fill_loop_full cf.link_header_size m m.body.length MAX_PACKET_SIZE ⟨a, 0, []⟩
    (le_refl _)
  rw [← fill_packet] at hstop
  simp only [fill_fits, Bool.and_eq_false_imp, decide_eq_true_eq, decide_eq_false_iff_not,
    hfill.idx, hfill.len, ← hsum] at hstop
  have hcap : p.sum ≤ cf.cap := by
    rw [hsum, ← hfill.len]
    have hone := hm.elem (m.element 1) (m.element_mem 1 (le_refl 1) hm.pos)
    have hle := fill_loop_le cf.link_header_size m m.body.length MAX_PACKET_SIZE ⟨a, 0, []⟩
      (by dsimp only; omega)
    simp only [Conf.cap, fill_packet]
    omega
  by_cases hlast : a + c = m.body.length + 1
  · have hnil : sizes m (a + c) = [] := by
      rw [sizes, drop_of_length_le (by omega), map_nil]
    rw [if_pos hlast, packets_from, hp, hnil, append_nil, next_fit_of_sum_le hcap]
  · rw [if_neg hlast, packets_from, packets_from, hp]
    have hnext := hm.element_le (a + c) (by omega) (by omega)
    have hmore := hstop (by omega)
    rw [sizes_cons (a := a + c) (by omega) (by omega),
      next_fit_append hcap (by simp only [Conf.cap, needed]; omega)
        (by simp only [Conf.cap, needed]; omega)]

/-! ## 3. All packets of a message -/

inductive Packing (cf : Conf) (m : SysScatter) (N k : ℕ) (e : LinkEnd) : Prop
  | more (a : ℕ) (h1 : 1 ≤ a) (h2 : a ≤ max m.body.length 1)
      (hmsg : e.outb.out_message = some m) (hidx : e.outb.out_frag_idx = a)
      (htotal : e.outb.out_frag_total = m.body.length) (hcount : k + packets_from cf m a = N)
  | done (hmsg : e.outb.out_message = none) (hcount : k = N)

section Packing

variable {cf : Conf} {m : SysScatter} {N k : ℕ} {e : LinkEnd}

theorem packets_from_pos (cf : Conf) (m : SysScatter) (a : ℕ) : 1 ≤ packets_from cf m a :=
  next_fit_pos _

theorem Packing.pack_one (hlen : m.body.length < MAX_SCATTER_ELEMENTS)
    (hfit : ∀ x ∈ m.body, x.length + cf.link_header_size + SIZEOF_FRAGMENT_HEADER ≤ MAX_PACKET_SIZE)
    (env : Env) (h : Packing cf m N k e) (hmsg : e.outb.out_message = some m) :
    Packing cf m N (k + 1) (IntruTol.pack_one cf env m e) := by
  cases h with
  | done hnone => simp [hnone] at hmsg
  | more a h1 h2 _ hidx htotal hcount =>
    by_cases hpos : 1 ≤ m.body.length
    · have hm : Fits cf.link_header_size m :=
        ⟨hpos, by simp only [MAX_SCATTER_ELEMENTS] at hlen ⊢; omega, hfit⟩
      obtain ⟨c, hc1, hc2, hfill⟩ := fill_packet_spec hm a h1 (by omega)
      have hleft := fill_packet_count hm h1 hc2 hfill
      have hidx' : (IntruTol.pack_one cf env m e).outb.out_frag_idx = a + c := by
        simp only [IntruTol.pack_one, hidx, htotal, hfill.idx]
      have hmsg' : (IntruTol.pack_one cf env m e).outb.out_message
          = if m.body.length < a + c then none else some m := by
        simp only [IntruTol.pack_one, hidx, htotal, hfill.idx]
      by_cases hlast : a + c = m.body.length + 1
      · rw [if_pos hlast] at hleft
        exact Packing.done (by rw [hmsg', if_pos (by omega)]) (by omega)
      · rw [if_neg hlast] at hleft
        exact Packing.more (a + c) (by omega) (by omega) (by rw [hmsg', if_neg (by omega)]) hidx'
          htotal (by omega)
    · -- the only packet of a message without body elements
      have hzero : m.body = [] := length_eq_zero_iff.mp (by omega)
      have ha : a = 1 := by omega
      subst ha
      have hstop : fill_packet cf.link_header_size m 1 0 = ⟨1, 0, []⟩ := by
        rw [fill_packet, show MAX_PACKET_SIZE = (MAX_PACKET_SIZE - 1) + 1 from rfl, fill_loop]
        exact if_neg (by simp [fill_fits])
      have hone : packets_from cf m 1 = 1 := by
        rw [packets_from, sizes, hzero]
        rfl
      refine Packing.done ?_ (by omega)
      rw [hzero] at htotal
      simp only [IntruTol.pack_one, hidx, htotal, length_nil, hstop]
      rfl

theorem pack_one_log (cf : Conf) (env : Env) (m : SysScatter) (e : LinkEnd) :
    ∃ entry, (IntruTol.pack_one cf env m e).packed_now = e.packed_now ++ [entry]
      ∧ (IntruTol.pack_one cf env m e).outb.out_head_seq = e.outb.out_head_seq + 1
      ∧ (IntruTol.pack_one cf env m e).outb.out_tail_seq = e.outb.out_tail_seq :=
  ⟨_, rfl, rfl, rfl⟩

theorem Packing.message (h : Packing cf m N k e) :
    e.outb.out_message = none ∨ e.outb.out_message = some m := by
  cases h with
  | more _ _ _ hmsg => exact .inr hmsg
  | done hmsg => exact .inl hmsg

theorem Packing.pack_loop (hlen : m.body.length < MAX_SCATTER_ELEMENTS)
    (hfit : ∀ x ∈ m.body, x.length + cf.link_header_size + SIZEOF_FRAGMENT_HEADER ≤ MAX_PACKET_SIZE)
    (env : Env) (fuel : ℕ) : ∀ {k : ℕ} {e : LinkEnd}, Packing cf m N k e →
    ∃ new, (IntruTol.pack_loop cf env fuel e).packed_now = e.packed_now ++ new
      ∧ (IntruTol.pack_loop cf env fuel e).outb.out_head_seq = e.outb.out_head_seq + new.length
      ∧ Packing cf m N (k + new.length) (IntruTol.pack_loop cf env fuel e) ∧ (N - k ≤ fuel →
        e.outb.out_head_seq - e.outb.out_tail_seq + (N - k) ≤ MAX_SEND_ON_LINK →
        e.outb.out_tail_seq ≤ e.outb.out_head_seq →
        (IntruTol.pack_loop cf env fuel e).outb.out_message = none) := by
  induction fuel with
  | zero =>
    intro k e h
    refine ⟨[], (append_nil _).symm, rfl, h, fun hfuel _ _ => ?_⟩
    cases h with
    | done hmsg _ => exact hmsg
    | more a _ _ _ _ _ hcount =>
      have hpos := packets_from_pos cf m a
      omega
  | succ fuel ih =>
    intro k e h
    rw [IntruTol.pack_loop]
    rcases h.message with hmsg | hmsg
    · rw [hmsg]
      exact ⟨[], (append_nil _).symm, rfl, h, fun _ _ _ => hmsg⟩
    · rw [hmsg]
      dsimp only
      by_cases hroom : e.outb.out_head_seq - e.outb.out_tail_seq < MAX_SEND_ON_LINK
      · rw [if_pos hroom]
        have hone := h.pack_one hlen hfit env hmsg
        obtain ⟨entry, hlog, hhead, htail⟩ := pack_one_log cf env m e
        obtain ⟨new, hlog', hhead', hrest, hall⟩ := ih hone
        refine ⟨entry :: new, ?_, ?_, ?_, fun hfuel hspace hle => ?_⟩
        · rw [hlog', hlog, append_assoc, singleton_append]
        · rw [hhead', hhead, length_cons]
          omega
        · rw [length_cons, add_comm new.length 1, ← add_assoc]
          exact hrest
        · apply hall
          · omega
          · rw [hhead, htail]
            by_cases hk : N ≤ k
            · omega
            · omega
          · rw [hhead, htail]
            omega
      · rw [if_neg hroom]
        refine ⟨[], (append_nil _).symm, rfl, h, fun _ hspace _ => ?_⟩
        cases h with
        | done hnone _ => exact hnone
        | more a _ _ _ _ _ hcount =>
          have hpos := packets_from_pos cf m a
          omega

theorem Packing.start (hw : Waiting m e) : Packing cf m (packets_from cf m 1) 0 e := by
  obtain ⟨hmsg, hidx, htotal⟩ := hw
  rw [SysScatter.num_elements, Nat.add_sub_cancel] at htotal
  exact Packing.more 1 (le_refl 1) (by omega) hmsg hidx htotal (zero_add _)

theorem Packing.calls (hlen : m.body.length < MAX_SCATTER_ELEMENTS)
    (hfit : ∀ x ∈ m.body, x.length + cf.link_header_size + SIZEOF_FRAGMENT_HEADER ≤ MAX_PACKET_SIZE)
    (hw : Waiting m e) {packets : List Bytes} {e' : LinkEnd} (h : PackCalls cf e packets e') :
    Packing cf m (packets_from cf m 1) packets.length e' := by
  induction h with
  | start => exact Packing.start hw
  | @call packets e1 env _ ih =>
    unfold pack_fragments_into_packets_it
    by_cases hup : env.link_up = false
    · rw [if_pos hup, drop_length, map_nil, append_nil]
      exact ih
    · rw [if_neg hup]
      obtain ⟨new, hlog, -, hrest, -⟩ := ih.pack_loop hlen hfit env MAX_SEND_ON_LINK
      rw [hlog, drop_left, length_append, length_map]
      exact hrest
  | between _ hmsg hidx htotal ih =>
    cases ih with
    | more a h1 h2 hmsg' hidx' htotal' hcount =>
      exact Packing.more a h1 h2 (hmsg.trans hmsg') (hidx.trans hidx') (htotal.trans htotal')
        hcount
    | done hnone hcount => exact Packing.done (hmsg.trans hnone) hcount

end Packing

/-! ## 4. An element that fits into no packet -/

theorem fill_loop_stuck {lhs : ℕ} (hlen : m.body.length < MAX_SCATTER_ELEMENTS)
    (hbig : MAX_PACKET_SIZE
      < (m.element m.body.length).length + lhs + SIZEOF_FRAGMENT_HEADER) (fuel : ℕ) :
    ∀ st : FillState, st.out_frag_idx ≤ m.body.length →
      (fill_loop lhs m m.body.length fuel st).out_frag_idx ≤ m.body.length := by
  induction fuel with
  | zero => exact fun _ h => h
  | succ fuel ih =>
    intro st h
    rw [fill_loop]
    by_cases hfit : fill_fits lhs m m.body.length st = true
    · rw [if_pos hfit]
      apply ih
      simp only [fill_fits, Bool.and_eq_true, decide_eq_true_eq] at hfit
      simp only [MAX_SCATTER_ELEMENTS] at hlen
      have hne : st.out_frag_idx ≠ m.body.length := by
        intro heq
        rw [heq] at hfit
        omega
      simp only [fill_step]
      omega
    · rw [if_neg hfit]
      exact h

def Stuck (m : SysScatter) (e : LinkEnd) : Prop :=
  e.outb.out_message = some m ∧ e.outb.out_frag_idx ≤ m.body.length
    ∧ e.outb.out_frag_total = m.body.length

theorem Stuck.pack_loop {cf : Conf} (hlen : m.body.length < MAX_SCATTER_ELEMENTS)
    (hbig : MAX_PACKET_SIZE
      < (m.element m.body.length).length + cf.link_header_size + SIZEOF_FRAGMENT_HEADER)
    (env : Env) (fuel : ℕ) {e : LinkEnd} (h : Stuck m e) :
    Stuck m (IntruTol.pack_loop cf env fuel e) := by
  refine pack_loop_keeps (P := Stuck m) ?_ fuel h
  rintro m' e ⟨hmsg, hidx, htotal⟩ hm -
  obtain rfl : m' = m := Option.some.inj (hm.symm.trans hmsg)
  have hstuck := fill_loop_stuck hlen hbig MAX_PACKET_SIZE ⟨e.outb.out_frag_idx, 0, []⟩ hidx
  have hfill : (fill_packet cf.link_header_size m' e.outb.out_frag_idx
      e.outb.out_frag_total).out_frag_idx ≤ m'.body.length := by
    rw [htotal]
    exact hstuck
  have hkept : (IntruTol.pack_one cf env m' e).outb.out_message = some m' := by
    apply if_neg
    rw [htotal] at hfill ⊢
    exact not_lt.mpr hfill
  exact ⟨hkept, hfill, htotal⟩

theorem Stuck.calls {cf : Conf} (hlen : m.body.length < MAX_SCATTER_ELEMENTS)
    (hbig : MAX_PACKET_SIZE
      < (m.element m.body.length).length + cf.link_header_size + SIZEOF_FRAGMENT_HEADER)
    {e e' : LinkEnd} (h : Stuck m e) {packets : List Bytes} (hcalls : PackCalls cf e packets e') :
    Stuck m e' := by
  induction hcalls with
  | start => exact h
  | call env _ ih =>
    unfold pack_fragments_into_packets_it
    by_cases hup : env.link_up = false
    · rw [if_pos hup]
      exact ih
    · rw [if_neg hup]
      exact ih.pack_loop hlen hbig env MAX_SEND_ON_LINK
  | between _ hmsg hidx htotal ih =>
    obtain ⟨hmsg', hidx', htotal'⟩ := ih
    exact ⟨hmsg.trans hmsg', hidx ▸ hidx', htotal.trans htotal'⟩

/-! ## 5. The count is the number of packets -/

section Count

variable {cf : Conf} {m : SysScatter}

theorem packed_count (hlen : m.body.length < MAX_SCATTER_ELEMENTS)
    (hfit : ∀ x ∈ m.body, x.length + cf.link_header_size + SIZEOF_FRAGMENT_HEADER ≤ MAX_PACKET_SIZE)
    {e e' : LinkEnd} (hw : Waiting m e) {packets : List Bytes} (h : PackCalls cf e packets e')
    (hnone : e'.outb.out_message = none) : packets.length = packets_from cf m 1 := by
  cases Packing.calls hlen hfit hw h with
  | more _ _ _ hmsg =>
    rw [hmsg] at hnone
    exact absurd hnone (Option.some_ne_none m)
  | done _ hcount => exact hcount

theorem calculate_packets_count (hlen : m.body.length < MAX_SCATTER_ELEMENTS) (hfit : ∀ x ∈ m.body,
      x.length + cf.link_header_size + SIZEOF_FRAGMENT_HEADER ≤ MAX_PACKET_SIZE) :
    (calculate_packets_in_message cf.link_header_size m).1 = packets_from cf m 1 := by
  rw [calculate_packets_in_message, calculate_packets_eq hlen hfit]
  rfl

theorem calculate_packets_space (hlen : m.body.length < MAX_SCATTER_ELEMENTS)
    (hlhs : cf.link_header_size ≤ MAX_PACKET_SIZE) (hfit : ∀ x ∈ m.body,
      x.length + cf.link_header_size + SIZEOF_FRAGMENT_HEADER ≤ MAX_PACKET_SIZE) :
    (calculate_packets_in_message cf.link_header_size m).2
      = cf.cap - (next_fit cf.cap (m.body.map needed)).2 := by
  have hload : (next_fit cf.cap (m.body.map needed)).2 ≤ cf.cap := by
    apply next_fit_load
    intro n hn
    obtain ⟨x, hx, rfl⟩ := mem_map.mp hn
    have hle := hfit x hx
    simp only [needed, Conf.cap]
    omega
  rw [calculate_packets_in_message, calculate_packets_eq hlen hfit]
  simp only [Conf.cap, MAX_PACKET_SIZE] at hload hlhs ⊢
  omega

theorem finishing_call (hlen : m.body.length < MAX_SCATTER_ELEMENTS)
    (hfit : ∀ x ∈ m.body, x.length + cf.link_header_size + SIZEOF_FRAGMENT_HEADER ≤ MAX_PACKET_SIZE)
    {e : LinkEnd} (hw : Waiting m e) :
    ∃ packets e', PackCalls cf e packets e' ∧ e'.outb.out_message = none := by
  have hempty : PackCalls cf e [] { e with outb.out_tail_seq := e.outb.out_head_seq } :=
    PackCalls.between PackCalls.start rfl rfl rfl
  have hstart : Packing cf m (packets_from cf m 1) 0
      { e with outb.out_tail_seq := e.outb.out_head_seq } := Packing.start hw
  obtain ⟨-, -, -, -, hall⟩ := hstart.pack_loop hlen hfit plain_env MAX_SEND_ON_LINK
  have hcount : packets_from cf m 1 ≤ m.body.length + 1 := by
    have hbounds : packets_from cf m 1 ≤ (sizes m 1).length + 1 := (next_fit_bounds (sizes m 1)).2
    rw [sizes, length_map, length_drop] at hbounds
    exact hbounds
  have hroom : packets_from cf m 1 ≤ MAX_SEND_ON_LINK := by
    simp only [MAX_SCATTER_ELEMENTS] at hlen
    simp only [MAX_SEND_ON_LINK]
    omega
  refine ⟨_, _, hempty.call plain_env, ?_⟩
  exact hall hroom (by dsimp only; omega) (le_refl _)

/-- With a last element of another length. The packer gets through with the same
number of packets just when the element has grown by no more than the space. -/
theorem grown_message {body : List Bytes} {x y : Bytes}
    (hlen : (body ++ [x]).length < MAX_SCATTER_ELEMENTS) (hdr : Bytes) (hfit : ∀ z ∈ body ++ [x],
      z.length + cf.link_header_size + SIZEOF_FRAGMENT_HEADER ≤ MAX_PACKET_SIZE)
    (hxy : x.length ≤ y.length) {e : LinkEnd} (hw : Waiting ⟨hdr, body ++ [y]⟩ e) :
    (∃ packets e', PackCalls cf e packets e' ∧ e'.outb.out_message = none ∧ packets.length
          = (calculate_packets_in_message cf.link_header_size ⟨hdr, body ++ [x]⟩).1)
      ↔ y.length - x.length
        ≤ (calculate_packets_in_message cf.link_header_size ⟨hdr, body ++ [x]⟩).2 := by
  have hlast : ∀ z : Bytes,
      (SysScatter.element ⟨hdr, body ++ [z]⟩ (body ++ [z]).length) = z := by
    intro z
    simp [SysScatter.element]
  have hx := hfit x (mem_append_right body (mem_singleton_self x))
  have hlen' : (body ++ [y]).length < MAX_SCATTER_ELEMENTS := by
    rw [length_append, length_singleton] at hlen ⊢
    exact hlen
  have hload : needed x ≤ (next_fit cf.cap (body.map needed ++ [needed x])).2 :=
    next_fit_last (body.map needed) (needed x)
  have hspace := calculate_packets_space (m := ⟨hdr, body ++ [x]⟩) hlen (by omega) hfit
  rw [map_append, map_singleton] at hspace
  by_cases hy : y.length + cf.link_header_size + SIZEOF_FRAGMENT_HEADER ≤ MAX_PACKET_SIZE
  · have hfit' : ∀ z ∈ body ++ [y],
        z.length + cf.link_header_size + SIZEOF_FRAGMENT_HEADER ≤ MAX_PACKET_SIZE := by
      intro z hz
      rcases mem_append.mp hz with hz | hz
      · exact hfit z (mem_append_left [x] hz)
      · rw [mem_singleton.mp hz]
        exact hy
    have hgrow : (next_fit cf.cap (body.map needed ++ [needed y])).1
          = (next_fit cf.cap (body.map needed ++ [needed x])).1
        ↔ needed y - needed x ≤ cf.cap - (next_fit cf.cap (body.map needed ++ [needed x])).2 := by
      apply next_fit_grow
      · simp only [needed]
        omega
      · simp only [needed, Conf.cap]
        omega
    have hcount : ∀ z : Bytes, packets_from cf ⟨hdr, body ++ [z]⟩ 1
        = (next_fit cf.cap (body.map needed ++ [needed z])).1 := by
      intro z
      rw [packets_from, sizes, Nat.sub_self, drop_zero, map_append, map_singleton]
    rw [calculate_packets_count hlen hfit, hspace, hcount x]
    rw [show y.length - x.length = needed y - needed x by simp only [needed]; omega, ← hgrow,
      ← hcount y]
    constructor
    · rintro ⟨packets, e', hcalls, hnone, heq⟩
      rw [← heq]
      exact (packed_count hlen' hfit' hw hcalls hnone).symm
    · intro heq
      obtain ⟨packets, e', hcalls, hnone⟩ := finishing_call hlen' hfit' hw
      refine ⟨packets, e', hcalls, hnone, ?_⟩
      rw [← heq]
      exact packed_count hlen' hfit' hw hcalls hnone
  · apply iff_of_false
    · -- the packer never gets past an element that fits nowhere
      rintro ⟨packets, e', hcalls, hnone, -⟩
      obtain ⟨hmsg, hidx, htotal⟩ := hw
      rw [SysScatter.num_elements, Nat.add_sub_cancel] at htotal
      have hstart : Stuck ⟨hdr, body ++ [y]⟩ e := by
        refine ⟨hmsg, ?_, htotal⟩
        rw [hidx, length_append, length_singleton]
        omega
      have hstuck := hstart.calls hlen' (by rw [hlast y]; omega) hcalls
      rw [hstuck.1] at hnone
      exact absurd hnone (Option.some_ne_none _)
    · rw [hspace]
      simp only [needed] at hload
      simp only [Conf.cap, needed] at hload ⊢
      omega

theorem counted_call (hlen : m.body.length < MAX_SCATTER_ELEMENTS)
    (hfit : ∀ x ∈ m.body, x.length + cf.link_header_size + SIZEOF_FRAGMENT_HEADER ≤ MAX_PACKET_SIZE)
    {e : LinkEnd} (hw : Waiting m e) {env : Env} (hup : env.link_up = true)
    (hle : e.outb.out_tail_seq ≤ e.outb.out_head_seq)
    (hroom : e.outb.out_head_seq - e.outb.out_tail_seq
        + (calculate_packets_in_message cf.link_header_size m).1 ≤ MAX_SEND_ON_LINK) :
    (pack_fragments_into_packets_it cf env e).2.outb.out_message = none
      ∧ (pack_fragments_into_packets_it cf env e).2.outb.out_head_seq
        = e.outb.out_head_seq + (calculate_packets_in_message cf.link_header_size m).1 := by
  rw [calculate_packets_count hlen hfit] at hroom ⊢
  have hstart : Packing cf m (packets_from cf m 1) 0 e := Packing.start hw
  obtain ⟨new, -, hhead, hrest, hall⟩ := hstart.pack_loop hlen hfit env MAX_SEND_ON_LINK
  have hnone := hall (by omega) (by omega) hle
  rw [pack_fragments_into_packets_it, if_neg (by rw [hup]; exact Bool.false_ne_true.symm)]
  refine ⟨hnone, ?_⟩
  cases hrest with
  | more _ _ _ hmsg =>
    rw [hmsg] at hnone
    exact absurd hnone (Option.some_ne_none m)
  | done _ hcount =>
    rw [zero_add] at hcount
    rw [← hcount]
    exact hhead

/-- `Calculate_Packets_In_Message` returns the number of packets that
`Pack_Fragments_Into_Packets_IT` makes of a message, over as many calls as the
window asks for, and in a single one where the window has the room. The space it
reports is what the last element can grow by without another packet. -/
theorem packets_in_message (cf : Conf) (m : SysScatter)
    (hlen : m.body.length < MAX_SCATTER_ELEMENTS) (hfit : ∀ x ∈ m.body,
      x.length + cf.link_header_size + SIZEOF_FRAGMENT_HEADER ≤ MAX_PACKET_SIZE) :
    (∀ e, Waiting m e → (∃ packets e', PackCalls cf e packets e' ∧ e'.outb.out_message = none)
      ∧ (∀ packets e', PackCalls cf e packets e' → e'.outb.out_message = none →
          packets.length = (calculate_packets_in_message cf.link_header_size m).1)
      ∧ ∀ env : Env, env.link_up = true → e.outb.out_tail_seq ≤ e.outb.out_head_seq →
          e.outb.out_head_seq - e.outb.out_tail_seq
              + (calculate_packets_in_message cf.link_header_size m).1 ≤ MAX_SEND_ON_LINK →
          (pack_fragments_into_packets_it cf env e).2.outb.out_message = none
            ∧ (pack_fragments_into_packets_it cf env e).2.outb.out_head_seq
              = e.outb.out_head_seq + (calculate_packets_in_message cf.link_header_size m).1)
    ∧ ∀ (body : List Bytes) (x y : Bytes), m.body = body ++ [x] → x.length ≤ y.length →
        ∀ e, Waiting ⟨m.hdr, body ++ [y]⟩ e →
          ((∃ packets e', PackCalls cf e packets e' ∧ e'.outb.out_message = none
              ∧ packets.length = (calculate_packets_in_message cf.link_header_size m).1)
            ↔ y.length - x.length ≤ (calculate_packets_in_message cf.link_header_size m).2) := by
  constructor
  · intro e hw
    refine ⟨finishing_call hlen hfit hw, fun packets e' h hnone => ?_, fun env hup hle hroom => ?_⟩
    · rw [calculate_packets_count hlen hfit]
      exact packed_count hlen hfit hw h hnone
    · exact counted_call hlen hfit hw hup hle hroom
  · intro body x y hbody hxy e hw
    obtain ⟨hdr, elements⟩ := m
    dsimp only at hbody hw hlen hfit
    subst hbody
    exact grown_message hlen hdr hfit hxy hw

def exact_msg : SysScatter := plain_msg [replicate 700 0, replicate 688 0]

def exact_end : LinkEnd :=
  { LinkEnd.create plain_conf 7 with
    outb.out_message := some exact_msg, outb.out_frag_idx := 1, outb.out_frag_total := 2 }

theorem packets_in_message_exact :
    calculate_packets_in_message plain_conf.link_header_size exact_msg = (1, 0)
      ∧ (pack_fragments_into_packets_it plain_conf plain_env exact_end).2.outb.out_head_seq
        = exact_end.outb.out_head_seq + 1 := by
  have hcount : calculate_packets_in_message plain_conf.link_header_size exact_msg = (1, 0) := by
    decide +kernel
  have hall := packets_in_message plain_conf exact_msg (by decide) (by decide +kernel)
  have hcall := (hall.1 exact_end ⟨rfl, rfl, rfl⟩).2.2 plain_env rfl (by decide)
  rw [hcount] at hcall
  exact ⟨hcount, (hcall (by decide)).2⟩

end Count

end Spines.IntruTol
