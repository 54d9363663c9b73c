/-
A message that waits for room, and the packets of an outgoing window
(`daemon/intrusion_tol_udp.c`: `Forward_Intru_Tol_Data`,
`Pack_Fragments_Into_Packets_IT`, `Process_IT_Ack`, `Assign_Resources_IT`).

Packing is resumed from three handlers, and `Full_Link_IT` never looks at
`out_message`. What keeps the dissemination layer from handing down a message
while another is half packed is an invariant: between two handlers a message
waits only where the window is full.

For the packets themselves the messages have to fit. Then the window is the end
of a row of batches, each the packets of one message from its first fragment on,
and a waiting message is the one of the last batch.
-/
import Spines.IntruTol.PacketCount
import Mathlib.Algebra.Order.BigOperators.Group.List
import Mathlib.Data.List.TakeWhile

set_option autoImplicit false

namespace Spines.IntruTol

open Spines.Lib Function Option List

/-! ## 1. What the packer works on -/

def LinkEnd.window (e : LinkEnd) : List (List Bytes) :=
  ringList MAX_SEND_ON_LINK (fun k => (e.outb.outgoing k).pkt.getD []) e.outb.out_tail_seq
    (e.outb.out_head_seq - e.outb.out_tail_seq)

/-- The outbound fields that `Pack_Fragments_Into_Packets_IT` reads and writes,
the window as a list. -/
structure Load where
  tail : ℕ
  head : ℕ
  window : List (List Bytes)
  message : Option SysScatter
  idx : ℕ
  total : ℕ

def LinkEnd.load (e : LinkEnd) : Load where
  tail := e.outb.out_tail_seq
  head := e.outb.out_head_seq
  window := e.window
  message := e.outb.out_message
  idx := e.outb.out_frag_idx
  total := e.outb.out_frag_total

theorem LinkEnd.window_length (e : LinkEnd) :
    e.window.length = e.outb.out_head_seq - e.outb.out_tail_seq := by
  rw [LinkEnd.window, ringList_length]

variable {e e' : LinkEnd} {aru lhs : ℕ} {gone : List (List Bytes)} (env : Env) (m : SysScatter)
  (cnt : ℕ)

theorem load_of_outb (h : e'.outb = e.outb) : e'.load = e.load := by
  unfold LinkEnd.load LinkEnd.window
  rw [h]

theorem touch_load (e : LinkEnd) (i tcp : ℕ) (c : ItBufferCell)
    (hc : c.pkt = (e.outb.outgoing i).pkt) :
    ({ e with
      outb.outgoing := update e.outb.outgoing i c
      outb.tcp_head_seq := tcp } : LinkEnd).load = e.load := by
  have hcells : (fun k => (update e.outb.outgoing i c k).pkt.getD [])
      = fun k => (e.outb.outgoing k).pkt.getD [] := by
    funext k
    by_cases hk : k = i
    · rw [hk, update_self, hc]
    · rw [update_of_ne hk]
  simp only [LinkEnd.load, LinkEnd.window, hcells]

theorem send_new_load (cf : Conf) (env : Env) (stop : Bool) (cnt : ℕ) :
    ∀ e : LinkEnd, (send_new cf env stop cnt e).load = e.load := by
  induction cnt with
  | zero => intro e; rfl
  | succ cnt ih =>
    intro e
    have hsent := (load_of_outb (send_it_data_msg_outb cf env e.outb.tcp_head_seq _)).trans
      (touch_load e (e.outb.tcp_head_seq % MAX_SEND_ON_LINK) (e.outb.tcp_head_seq + 1)
        { e.outb.outgoing (e.outb.tcp_head_seq % MAX_SEND_ON_LINK) with
          timestamp := env.now + env.initial_nack_timeout } rfl)
    rw [send_new]
    split
    · exact hsent
    · rw [ih]
      exact hsent

theorem retransm_loop_load (cf : Conf) (env : Env) (cnt : ℕ) :
    ∀ (i budget : ℕ) (e : LinkEnd), (retransm_loop cf env cnt i budget e).load = e.load := by
  induction cnt with
  | zero =>
    intro i budget e
    rw [retransm_loop]
  | succ cnt ih =>
    intro i budget e
    cases budget with
    | zero =>
      rw [retransm_loop]
      omega
    | succ budget =>
      rw [retransm_loop]
      split
      · rw [ih]
        exact (load_of_outb (send_it_data_msg_outb cf env i _)).trans
          (touch_load e (i % MAX_SEND_ON_LINK) e.outb.tcp_head_seq
            { e.outb.outgoing (i % MAX_SEND_ON_LINK) with
              resent := true, nacked := false, timestamp := env.now + env.nack_timeout } rfl)
      · exact ih (i + 1) (budget + 1) e

theorem reliable_it_timeout_load (cf : Conf) (env : Env) (e : LinkEnd) :
    (reliable_it_timeout cf env e).load = e.load := by
  unfold reliable_it_timeout
  split
  · exact (load_of_outb (send_it_data_msg_outb cf env _ _)).trans
      (touch_load e ((e.outb.tcp_head_seq - 1) % MAX_SEND_ON_LINK) e.outb.tcp_head_seq
        { e.outb.outgoing ((e.outb.tcp_head_seq - 1) % MAX_SEND_ON_LINK) with
          resent := true, timestamp := env.now + env.nack_timeout } rfl)
  · rfl

theorem ack_it_timeout_load (cf : Conf) (env : Env) (e : LinkEnd) :
    (ack_it_timeout cf env e).load = e.load := by
  apply load_of_outb
  unfold ack_it_timeout send_it_ack it_link_send
  split
  · rfl
  · dsimp only
    split <;> rfl

theorem mark_all_load (nacks : List ℕ) : ∀ e : LinkEnd, (nacks.foldl mark_nacked e).load = e.load := by
  induction nacks with
  | nil => intro e; rfl
  | cons n nacks ih =>
    intro e
    rw [foldl_cons, ih, mark_nacked]
    split
    · exact touch_load e (n % MAX_SEND_ON_LINK) e.outb.tcp_head_seq
        { e.outb.outgoing (n % MAX_SEND_ON_LINK) with nacked := true } rfl
    · rfl

theorem pack_one_window (cf : Conf) (env : Env) (m : SysScatter)
    (hle : e.outb.out_tail_seq ≤ e.outb.out_head_seq)
    (hroom : e.outb.out_head_seq - e.outb.out_tail_seq < MAX_SEND_ON_LINK) :
    (pack_one cf env m e).window = e.window ++
      [(fill_packet cf.link_header_size m e.outb.out_frag_idx e.outb.out_frag_total).elements] := by
  have hcells : ∀ c : ItBufferCell, (fun k => (update e.outb.outgoing
        (e.outb.out_head_seq % MAX_SEND_ON_LINK) c k).pkt.getD [])
      = update (fun k => (e.outb.outgoing k).pkt.getD [])
        (e.outb.out_head_seq % MAX_SEND_ON_LINK) (c.pkt.getD []) := by
    intro c
    exact (Function.comp_update (fun c : ItBufferCell => c.pkt.getD []) e.outb.outgoing _ c)
  have hhead : e.outb.out_head_seq
      = e.outb.out_tail_seq + (e.outb.out_head_seq - e.outb.out_tail_seq) := by omega
  have hcnt : e.outb.out_head_seq + 1 - e.outb.out_tail_seq
      = e.outb.out_head_seq - e.outb.out_tail_seq + 1 := by omega
  have h := ringList_concat (fun k => (e.outb.outgoing k).pkt.getD []) e.outb.out_tail_seq
    (fill_packet cf.link_header_size m e.outb.out_frag_idx e.outb.out_frag_total).elements hroom
  rw [← hhead] at h
  simp only [LinkEnd.window, pack_one, hcells, hcnt]
  exact h

theorem cleanup_loop_other : ∀ (i : ℕ) (outgoing : ℕ → ItBufferCell) (k : ℕ),
    (∀ q, i ≤ q → q < i + cnt → q % MAX_SEND_ON_LINK ≠ k) →
    cleanup_loop cnt i outgoing k = outgoing k := by
  induction cnt with
  | zero => intro i outgoing k _; rfl
  | succ cnt ih =>
    intro i outgoing k h
    rw [cleanup_loop, ih (i + 1) _ k (fun q h1 h2 => h q (by omega) (by omega))]
    exact update_of_ne (h i (le_refl i) (by omega)).symm _ _

theorem cleanup_window {head : ℕ} (outgoing : ℕ → ItBufferCell) (lo k : ℕ)
    (hlen : head ≤ lo + MAX_SEND_ON_LINK) :
    ringList MAX_SEND_ON_LINK (fun j => (cleanup_loop k lo outgoing j).pkt.getD []) (lo + k)
        (head - (lo + k))
      = (ringList MAX_SEND_ON_LINK (fun j => (outgoing j).pkt.getD []) lo (head - lo)).drop k := by
  rw [ringList_drop, Nat.sub_sub]
  apply ringList_congr
  intro q h1 h2
  rw [cleanup_loop_other]
  intro p h3 h4
  exact slot_ne h3 (by omega) (by omega) (by omega) (by omega)

theorem release_window (aru : ℕ) (h1 : e.outb.out_tail_seq ≤ aru)
    (hlen : e.outb.out_head_seq ≤ e.outb.out_tail_seq + MAX_SEND_ON_LINK) :
    (release aru e).window = e.window.drop (aru + 1 - e.outb.out_tail_seq) := by
  have h := cleanup_window e.outb.outgoing e.outb.out_tail_seq (aru + 1 - e.outb.out_tail_seq) hlen
  rw [show e.outb.out_tail_seq + (aru + 1 - e.outb.out_tail_seq) = aru + 1 by omega] at h
  exact h

/-! ## 2. A message waits only where the window is full -/

/-- `out_message` is set only with a full window. -/
def Rested (e : LinkEnd) : Prop :=
  e.outb.out_message.isSome = true →
    e.outb.out_head_seq - e.outb.out_tail_seq = MAX_SEND_ON_LINK

theorem Rested.of_load (h : Rested e) (hl : e'.load = e.load) : Rested e' := by
  unfold Rested
  rw [show e'.outb.out_message = e.outb.out_message from congrArg Load.message hl,
    show e'.outb.out_head_seq = e.outb.out_head_seq from congrArg Load.head hl,
    show e'.outb.out_tail_seq = e.outb.out_tail_seq from congrArg Load.tail hl]
  exact h

theorem pack_loop_rested (cf : Conf) (env : Env) (fuel : ℕ) : ∀ e : LinkEnd, OutInv e.view →
    MAX_SEND_ON_LINK ≤ e.outb.out_head_seq - e.outb.out_tail_seq + fuel →
    Rested (pack_loop cf env fuel e) := by
  induction fuel with
  | zero =>
    intro e h hfuel _
    have hlen : e.outb.out_head_seq ≤ e.outb.out_tail_seq + MAX_SEND_ON_LINK := h.head_le
    show e.outb.out_head_seq - e.outb.out_tail_seq = MAX_SEND_ON_LINK
    omega
  | succ fuel ih =>
    intro e h hfuel
    rw [pack_loop]
    cases hm : e.outb.out_message with
    | none =>
      intro hsome
      rw [hm] at hsome
      exact absurd hsome Bool.false_ne_true
    | some m =>
      dsimp only
      have hlen : e.outb.out_head_seq ≤ e.outb.out_tail_seq + MAX_SEND_ON_LINK := h.head_le
      have hle : e.outb.out_tail_seq ≤ e.outb.out_head_seq := h.tail_le.trans h.tcp_le
      by_cases hroom : e.outb.out_head_seq - e.outb.out_tail_seq < MAX_SEND_ON_LINK
      · rw [if_pos hroom]
        apply ih
        · rw [pack_one_view]
          exact h.pack _ _ hroom
        · show MAX_SEND_ON_LINK ≤ e.outb.out_head_seq + 1 - e.outb.out_tail_seq + fuel
          omega
      · rw [if_neg hroom]
        intro _
        omega

theorem pack_or_drop_rested (cf : Conf) (env : Env) (h : OutInv e.view) :
    Rested (pack_or_drop cf env e) := by
  rcases pack_or_drop_cases cf env e with ⟨-, heq⟩ | ⟨-, heq⟩
  · rw [heq]
    intro hsome
    exact absurd hsome Bool.false_ne_true
  · rw [heq]
    exact pack_loop_rested cf env MAX_SEND_ON_LINK e h (Nat.le_add_left _ _)

def taken (m : SysScatter) (e : LinkEnd) : LinkEnd :=
  { e with
    outb.out_message := some m
    outb.out_frag_idx := 1
    outb.out_frag_total := (m.num_elements - 1) % 256 }

theorem forward_cases (cf : Conf) (env : Env) (m : SysScatter) (e : LinkEnd) :
    ((env.link_up = false ∨ e.outb.out_message.isSome = true ∨ msg_too_big cf m = true
        ∨ m.hdr.length ≠ SIZEOF_PACKET_HEADER) ∧ forward_intru_tol_data cf env m e = (false, e)) ∨
    (¬ (env.link_up = false ∨ e.outb.out_message.isSome = true ∨ msg_too_big cf m = true
        ∨ m.hdr.length ≠ SIZEOF_PACKET_HEADER) ∧ forward_intru_tol_data cf env m e =
      (true, send_new cf env true
        (usable_window env (pack_loop cf env MAX_SEND_ON_LINK (taken m e)).outb)
        (pack_loop cf env MAX_SEND_ON_LINK (taken m e)))) := by
  unfold forward_intru_tol_data pack_fragments_into_packets_it
  by_cases hbad : env.link_up = false ∨ e.outb.out_message.isSome = true ∨ msg_too_big cf m = true
      ∨ m.hdr.length ≠ SIZEOF_PACKET_HEADER
  · left
    rw [if_pos hbad]
    exact ⟨hbad, rfl⟩
  · right
    have hup : ¬ env.link_up = false := fun hup => hbad (.inl hup)
    rw [if_neg hbad]
    dsimp only
    rw [if_neg hup, if_neg Bool.true_eq_false_eq_False]
    exact ⟨hbad, rfl⟩

theorem forward_rested (cf : Conf) (env : Env) (m : SysScatter) (h : OutInv e.view) (hr : Rested e)
    : Rested (forward_intru_tol_data cf env m e).2 := by
  rcases forward_cases cf env m e with ⟨-, heq⟩ | ⟨-, heq⟩
  · rw [heq]
    exact hr
  · rw [heq]
    apply Rested.of_load _ (send_new_load cf env true _ _)
    exact pack_loop_rested cf env MAX_SEND_ON_LINK (taken m e) h (Nat.le_add_left _ _)

variable {Q : SysScatter → Prop}

theorem forward_all_keeps {cf : Conf} {env : Env} {P : LinkEnd → Prop}
    (hP : ∀ {m e}, Q m → OutInv e.view → P e → P (forward_intru_tol_data cf env m e).2)
    (ms : List SysScatter) : ∀ {e : LinkEnd}, (∀ m ∈ ms, Q m) → OutInv e.view → P e →
      P (forward_all cf env ms e) := by
  induction ms with
  | nil => exact fun _ _ he => he
  | cons m ms ih =>
    intro e hQ h he
    apply ih (fun m' hm' => hQ m' (mem_cons_of_mem m hm'))
    · exact (forward_intru_tol_data_run cf env m e h).outInv h
    · exact hP (hQ m mem_cons_self) h he

theorem assign_keeps {cf : Conf} {env : Env} {P : LinkEnd → Prop}
    (hP : ∀ {m e}, Q m → OutInv e.view → P e → P (forward_intru_tol_data cf env m e).2)
    (rounds : List (List SysScatter)) : ∀ {e : LinkEnd}, (∀ ms ∈ rounds, ∀ m ∈ ms, Q m) →
      OutInv e.view → P e → P (assign_resources_it cf env rounds e) := by
  induction rounds with
  | nil => exact fun _ _ he => he
  | cons ms rest ih =>
    intro e hQ h he
    rw [assign_resources_it]
    split
    · exact he
    · apply ih (fun ms' hms' => hQ ms' (mem_cons_of_mem ms hms'))
      · exact (forward_all_run cf env ms e h).outInv h
      · exact forward_all_keeps hP ms (hQ ms mem_cons_self) h he

/-- The end at which `Process_IT_Ack` calls `Assign_Resources_IT`: the
acknowledged packets are gone, the TCP window has been used, and the waiting
message has been packed on. -/
def acknowledged (cf : Conf) (env : Env) (aru : ℕ) (e : LinkEnd) : LinkEnd :=
  pack_or_drop cf env
    (send_new cf env false (usable_window env (release aru e).outb) (release aru e))

theorem acknowledged_inv (cf : Conf) (env : Env) (h : OutInv e.view)
    (h1 : e.outb.out_tail_seq ≤ aru) (h2 : aru < e.outb.tcp_head_seq) :
    OutInv (send_new cf env false (usable_window env (release aru e).outb) (release aru e)).view
      ∧ OutInv (acknowledged cf env aru e).view := by
  have hrel : OutInv (release aru e).view := by
    rw [release_view]
    exact h.release _ h1 h2
  have hsent := (send_new_run cf env false _ _ hrel (usable_window_le env _ hrel)).outInv hrel
  exact ⟨hsent, (pack_or_drop_run cf env _).outInv hsent⟩

theorem acknowledged_rested (cf : Conf) (env : Env) (h : OutInv e.view)
    (h1 : e.outb.out_tail_seq ≤ aru) (h2 : aru < e.outb.tcp_head_seq) :
    Rested (acknowledged cf env aru e) :=
  pack_or_drop_rested cf env (acknowledged_inv cf env h h1 h2).1

/-! ## 3. The packets of one message -/

/-- The two elements that fragment `i` of a message takes in a packet: its bytes
and its trailer. -/
def fragment (m : SysScatter) (i : ℕ) : List Bytes :=
  [m.element i, FragmentHeader.encode ⟨(m.element i).length % 65536, i, m.body.length⟩]

def packet (m : SysScatter) (a c : ℕ) : List Bytes := (range' a c).flatMap (fragment m)

theorem packet_concat (a c : ℕ) : packet m a (c + 1) = packet m a c ++ fragment m (a + c) := by
  rw [packet, range'_1_concat, flatMap_append, flatMap_singleton]
  rfl

theorem fill_loop_packet {m : SysScatter} (hm : Fits lhs m) (a fuel : ℕ) :
    ∀ (c : ℕ) (st : FillState), st.out_frag_idx = a + c → st.elements = packet m a c →
      a + c ≤ m.body.length + 1 →
      ∃ d, c ≤ d ∧ a + d ≤ m.body.length + 1 ∧
        (fill_loop lhs m m.body.length fuel st).out_frag_idx = a + d ∧
        (fill_loop lhs m m.body.length fuel st).elements = packet m a d := by
  induction fuel with
  | zero => exact fun c st hidx helems hle => ⟨c, le_refl c, hle, hidx, helems⟩
  | succ fuel ih =>
    intro c st hidx helems hle
    rw [fill_loop]
    by_cases hfit : fill_fits lhs m m.body.length st = true
    · rw [if_pos hfit]
      have hle' : a + c ≤ m.body.length := by
        simp only [fill_fits, Bool.and_eq_true, decide_eq_true_eq, hidx] at hfit
        exact hfit.1
      have hmax := hm.le
      simp only [MAX_SCATTER_ELEMENTS] at hmax
      obtain ⟨d, hd, hrest⟩ := ih (c + 1) (fill_step m m.body.length st)
        (by simp only [fill_step, hidx]; omega)
        (by rw [packet_concat, ← helems, ← hidx]; rfl) (by omega)
      exact ⟨d, by omega, hrest⟩
    · rw [if_neg hfit]
      exact ⟨c, le_refl c, hle, hidx, helems⟩

theorem fill_packet_packet {m : SysScatter} (hm : Fits lhs m) (a : ℕ) (h1 : 1 ≤ a)
    (h2 : a ≤ m.body.length) :
    ∃ c, 1 ≤ c ∧ a + c ≤ m.body.length + 1 ∧
      (fill_packet lhs m a m.body.length).out_frag_idx = a + c ∧
      (fill_packet lhs m a m.body.length).elements = packet m a c := by
  have hmax := hm.le
  simp only [MAX_SCATTER_ELEMENTS] at hmax
  have hfit : fill_fits lhs m m.body.length ⟨a, 0, []⟩ = true := by
    have := hm.element_le a h1 h2
    simp only [fill_fits, Bool.and_eq_true, decide_eq_true_eq]
    exact ⟨h2, by omega⟩
  rw [fill_packet, show MAX_PACKET_SIZE = (MAX_PACKET_SIZE - 1) + 1 from rfl, fill_loop,
    if_pos hfit]
  apply fill_loop_packet hm a (MAX_PACKET_SIZE - 1) 1
  · simp only [fill_step]
    omega
  · rw [packet, range'_one, flatMap_singleton]
    rfl
  · omega

/-- The packets that carry the fragments from `a` on, as many in each as the
list says. -/
def cut_packets (m : SysScatter) : ℕ → List ℕ → List (List Bytes)
  | _, [] => []
  | a, c :: cuts => packet m a c :: cut_packets m (a + c) cuts

theorem cut_packets_concat (d : ℕ) (cuts : List ℕ) : ∀ a,
    cut_packets m a (cuts ++ [d]) = cut_packets m a cuts ++ [packet m (a + cuts.sum) d] := by
  induction cuts with
  | nil => exact fun a => rfl
  | cons c cuts ih =>
    intro a
    rw [cons_append, cut_packets, cut_packets, ih, sum_cons, add_assoc]
    rfl

theorem cut_packets_length (cuts : List ℕ) : ∀ a, (cut_packets m a cuts).length = cuts.length := by
  induction cuts with
  | nil => exact fun a => rfl
  | cons c cuts ih =>
    intro a
    rw [cut_packets, length_cons, length_cons, ih]

/-- A message of which the first fragments are packed: how many went into each
packet. -/
structure Batch where
  msg : SysScatter
  cuts : List ℕ
  some_cut : cuts ≠ []
  pos : ∀ c ∈ cuts, 1 ≤ c
  le : cuts.sum ≤ msg.body.length
  max : msg.body.length < MAX_SCATTER_ELEMENTS

/-- Its packets, the first of which starts with fragment `1`. -/
def Batch.packets (b : Batch) : List (List Bytes) := cut_packets b.msg 1 b.cuts

def Batch.single (m : SysScatter) (c : ℕ) (hc : 1 ≤ c) (hle : c ≤ m.body.length)
    (hmax : m.body.length < MAX_SCATTER_ELEMENTS) : Batch where
  msg := m
  cuts := [c]
  some_cut := List.cons_ne_nil c []
  pos := fun _ hd => (List.mem_singleton.mp hd).symm ▸ hc
  le := by rwa [List.sum_singleton]
  max := hmax

def Batch.extend (b : Batch) (c : ℕ) (hc : 1 ≤ c) (hle : b.cuts.sum + c ≤ b.msg.body.length) :
    Batch where
  msg := b.msg
  cuts := b.cuts ++ [c]
  some_cut := List.append_ne_nil_of_left_ne_nil b.some_cut [c]
  pos := by
    intro d hd
    rcases List.mem_append.mp hd with hd | hd
    · exact b.pos d hd
    · rwa [List.mem_singleton.mp hd]
  le := by rwa [List.sum_append, List.sum_singleton]
  max := b.max

variable {bs : List Batch} (b : Batch)

theorem Batch.extend_packets (c : ℕ) (hc : 1 ≤ c) (hle : b.cuts.sum + c ≤ b.msg.body.length) :
    (b.extend c hc hle).packets = b.packets ++ [packet b.msg (b.cuts.sum + 1) c] := by
  rw [Batch.packets, Batch.packets, Batch.extend, cut_packets_concat, add_comm 1]

theorem Batch.length_lt : b.packets.length < MAX_SEND_ON_LINK := by
  have hlen := length_le_sum_of_one_le b.cuts b.pos
  have hle := b.le
  have hmax := b.max
  rw [Batch.packets, cut_packets_length]
  simp only [MAX_SCATTER_ELEMENTS] at hmax
  simp only [MAX_SEND_ON_LINK]
  omega

theorem cut_packets_mem {m : SysScatter} {cuts : List ℕ} (hpos : ∀ c ∈ cuts, 1 ≤ c) : ∀ {a p},
    p ∈ cut_packets m a cuts → ∃ a' c, a ≤ a' ∧ 1 ≤ c ∧ a' + c ≤ a + cuts.sum ∧ p = packet m a' c := by
  induction cuts with
  | nil => exact fun h => absurd h not_mem_nil
  | cons c cuts ih =>
    intro a p h
    rw [sum_cons]
    rcases mem_cons.mp h with rfl | h
    · exact ⟨a, c, le_refl a, hpos c mem_cons_self, by omega, rfl⟩
    · obtain ⟨a', d, h1, h2, h3, rfl⟩ := ih (fun d hd => hpos d (mem_cons_of_mem c hd)) h
      exact ⟨a', d, by omega, h2, by omega, rfl⟩

theorem Batch.mem_packets {p : List Bytes} (h : p ∈ b.packets) :
    ∃ a c, 1 ≤ a ∧ 1 ≤ c ∧ a + c ≤ b.msg.body.length + 1 ∧ p = packet b.msg a c := by
  obtain ⟨a, c, h1, h2, h3, rfl⟩ := cut_packets_mem b.pos h
  have hle := b.le
  exact ⟨a, c, h1, h2, by omega, rfl⟩

/-! ## 4. What every handler keeps

A property of link ends that looks at the load only is kept by a handler if
three operations keep it: taking a message on, going on after an
acknowledgement, and starting a new incarnation. `Q` says which messages are
forwarded. -/

/-- All messages forwarded while the event is handled are in `Q`. -/
structure Hands (Q : SysScatter → Prop) (env : Env) (ev : Event) : Prop where
  assigned : ∀ ms ∈ env.assigned, ∀ m ∈ ms, Q m
  deliver : ∀ seq, ∀ m ∈ env.deliver seq, Q m
  forward : ∀ m, ev = .forward m → Q m

/-- One event in which only messages of `Q` are forwarded. -/
def StepOf (cf : Conf) (Q : SysScatter → Prop) (e : LinkEnd) (ev : Event) (e' : LinkEnd) : Prop :=
  (e.exited = false ∨ ∃ sec, ev = .restart sec) ∧ ∃ env, Hands Q env ev ∧ e' = handle cf env e ev

theorem StepOf.step {cf : Conf} {ev : Event} (h : StepOf cf Q e ev e') : Step cf e ev e' := by
  obtain ⟨hlive, env, -, heq⟩ := h
  exact ⟨hlive, env, heq⟩

theorem settled_run_of {cf : Conf} {sec : ℕ}
    (hrun : Run (StepOf cf Q) (LinkEnd.create cf sec) e) : Settled e :=
  settled_run (hrun.mono fun _ _ _ h => h.step)

/-- The end of a new incarnation on which `Incarnation_Change` calls
`Assign_Resources_IT`. -/
def renewed (cf : Conf) (env : Env) (inc : ℕ) (e : LinkEnd) : LinkEnd :=
  if cf.reintroduce_messages = true then reintroduce cf env (reset_inbound cf env inc e)
  else drop_outbound (reset_inbound cf env inc e)

theorem renewed_inv (cf : Conf) (env : Env) (inc : ℕ) (h : EndInv e.view)
    (hd : e.view.draining = false) : OutInv (renewed cf env inc e).view := by
  unfold renewed
  by_cases hre : cf.reintroduce_messages = true
  · rw [if_pos hre, reintroduce_eq]
    obtain ⟨entries, hch⟩ := reintroduced_changed cf env inc e h.1 h.2 hd
    exact (pack_or_drop_run cf env _).outInv (OutInv.changed hch)
  · rw [if_neg hre]
    exact OutInv.changed (drop_outbound_changed cf env inc e h.2 hd)

structure Carried (cf : Conf) (Q : SysScatter → Prop) (P : LinkEnd → Prop) : Prop where
  load : ∀ {e e' : LinkEnd}, e'.load = e.load → P e → P e'
  forward : ∀ (env : Env) {m : SysScatter} {e : LinkEnd}, Q m → OutInv e.view → P e →
    P (forward_intru_tol_data cf env m e).2
  acknowledged : ∀ (env : Env) {aru : ℕ} {e : LinkEnd}, OutInv e.view → e.outb.out_tail_seq ≤ aru →
    aru < e.outb.tcp_head_seq → P e → P (acknowledged cf env aru e)
  renewed : ∀ (env : Env) (inc : ℕ) {e : LinkEnd}, Settled e → P e → P (renewed cf env inc e)
  restart : ∀ (sec : ℕ) (env : Env) (e : LinkEnd), P (IntruTol.restart cf sec env e)

section Handlers

variable {cf : Conf} {Q : SysScatter → Prop} {P : LinkEnd → Prop}

variable {e : LinkEnd} {env : Env} {ev : Event}

theorem Carried.of_outb (hP : Carried cf Q P) {e' : LinkEnd} (he : P e) (h : e'.outb = e.outb) :
    P e' :=
  hP.load (load_of_outb h) he

theorem Carried.forward_all (hP : Carried cf Q P) (env : Env) {ms : List SysScatter}
    (hQ : ∀ m ∈ ms, Q m) (h : OutInv e.view) (he : P e) : P (forward_all cf env ms e) :=
  forward_all_keeps (hP.forward env) ms hQ h he

theorem Carried.assign (hP : Carried cf Q P) (env : Env) {rounds : List (List SysScatter)}
    (hQ : ∀ ms ∈ rounds, ∀ m ∈ ms, Q m) (h : OutInv e.view) (he : P e) :
    P (assign_resources_it cf env rounds e) :=
  assign_keeps (hP.forward env) rounds hQ h he

theorem Carried.check_advertised_aru (hP : Carried cf Q P) {p : ItPacket} {e1 : LinkEnd}
    (hQ : ∀ ms ∈ env.assigned, ∀ m ∈ ms, Q m) (h : OutInv e.view) (he : P e)
    (h1 : check_advertised_aru cf env p e = some e1) : P e1 := by
  unfold IntruTol.check_advertised_aru at h1
  by_cases hrange : e.outb.out_tail_seq ≤ p.tail.aru ∧ p.tail.aru < e.outb.tcp_head_seq
  · rw [if_pos hrange] at h1
    by_cases hnonce : p.tail.aru_nonce ≠ e.outb.out_nonce_digest (p.tail.aru % MAX_SEND_ON_LINK)
    · rw [if_pos hnonce] at h1
      exact absurd h1 (some_ne_none e1).symm
    · rw [if_neg hnonce] at h1
      obtain rfl := some.inj h1
      exact hP.assign env hQ (acknowledged_inv cf env h hrange.1 hrange.2).2
        (hP.acknowledged env h hrange.1 hrange.2 he)
  · rw [if_neg hrange] at h1
    obtain rfl := some.inj h1
    exact he

theorem Carried.check_nack_requests (hP : Carried cf Q P) {p : ItPacket} {e1 : LinkEnd} (he : P e)
    (h1 : check_nack_requests cf env p e = some e1) : P e1 := by
  unfold IntruTol.check_nack_requests at h1
  split at h1
  · split at h1
    · exact absurd h1 (some_ne_none e1).symm
    · obtain rfl := some.inj h1
      have hmark := hP.load (mark_all_load (p.nacks.take ((p.ack_len - SIZEOF_PKT_TAIL) / 8)) e) he
      split
      · exact hmark
      · exact hP.load (retransm_loop_load cf env _ _ _ _) hmark
  · obtain rfl := some.inj h1
    exact he

theorem Carried.rebuild (hP : Carried cf Q P) (hQ : ∀ seq, ∀ m ∈ env.deliver seq, Q m) (seq : ℕ)
    (buff : Bytes) (h : OutInv e.view) (he : P e) : P (rebuild cf env seq buff e) := by
  unfold IntruTol.rebuild
  dsimp only
  split
  · have hforwarded := hP.forward_all env
      (e :=
        { e with
          inb.in_message := (build_message_from_fragments_it e.inb.in_message buff).2
          delivered := e.delivered ++
            [(build_message_from_fragments_it e.inb.in_message buff).2.body] })
      (hQ seq) h (hP.of_outb he rfl)
    exact hP.of_outb hforwarded rfl
  · exact hP.of_outb he rfl

theorem Carried.drain_one (hP : Carried cf Q P) (hQ : ∀ seq, ∀ m ∈ env.deliver seq, Q m)
    (h : EndInv e.view) (hd : e.view.draining = false)
    (hrec : e.view.flags (e.view.in_tail % MAX_SEND_ON_LINK) = .recvd) (he : P e) :
    P (drain_one cf env e) := by
  have hcons : DrainStep e.view (consume e).view := by
    rw [consume_view]
    exact DrainStep.consume hd hrec
  have hconsumed : P (consume e) := hP.of_outb he rfl
  unfold IntruTol.drain_one
  dsimp only
  split
  · exact hP.of_outb (hP.rebuild hQ _ _ (hcons.endInv h).1 hconsumed) rfl
  · exact hP.of_outb hconsumed rfl

theorem Carried.drain_loop (hP : Carried cf Q P) (hQ : ∀ seq, ∀ m ∈ env.deliver seq, Q m) (fuel : ℕ)
    : ∀ {e : LinkEnd}, EndInv e.view →
      e.view.draining = false → P e → P (drain_loop cf env fuel e) := by
  induction fuel with
  | zero => exact fun _ _ he => he
  | succ fuel ih =>
    intro e h hd he
    rw [IntruTol.drain_loop]
    by_cases hrec : (e.inb.incoming (e.inb.in_tail_seq % MAX_SEND_ON_LINK)).flags = .recvd
    · rw [if_pos hrec]
      obtain ⟨hrun, hd', -, -⟩ := drain_one_run cf env e h hd hrec
      exact ih ((hrun.pRun (r := none)).endInv h) hd' (hP.drain_one hQ h hd hrec he)
    · rw [if_neg hrec]
      exact he

theorem Carried.check_link_seq (hP : Carried cf Q P) (hQ : ∀ seq, ∀ m ∈ env.deliver seq, Q m)
    (p : ItPacket) (h : EndInv e.view) (hd : e.view.draining = false) (he : P e) :
    P (check_link_seq cf env p e).2 := by
  unfold IntruTol.check_link_seq
  by_cases hzero : p.tail.link_seq = 0
  · rw [if_pos hzero]
    exact he
  rw [if_neg hzero]
  dsimp only
  split
  · exact hP.of_outb he rfl
  rename_i hold
  split
  · exact hP.of_outb he rfl
  rename_i hfar
  split
  · exact hP.of_outb he rfl
  rename_i hdup
  -- the state with the packet stored
  obtain ⟨e1, he1⟩ : ∃ e1, e1 = store_packet env p
      { e with inb.incoming_msg_count := e.inb.incoming_msg_count + 1 } := ⟨_, rfl⟩
  have hview : e1.view = e.view.store p := by
    rw [he1]
    exact store_packet_view env p _
  have hst : Storable e.view p := ⟨by omega, not_lt.mp hold, not_le.mp hfar, hdup⟩
  have hinv : EndInv e1.view := by
    rw [hview]
    exact (PStep.store p rfl hst hd : PStep (some p) e.view (e.view.store p)).endInv h
  have hstored : P e1 := by
    rw [he1]
    exact hP.of_outb he rfl
  rw [← he1]
  have hdel := deliver_unordered_run cf env p e1 hinv.1
  have hmid : P (deliver_unordered cf env p e1) := by
    unfold deliver_unordered
    split
    · dsimp only
      split
      · exact hstored
      · split
        · exact hP.of_outb hstored rfl
        · exact hP.forward_all env (hQ _) (show OutInv _ from hinv.1) (hP.of_outb hstored rfl)
    · exact hstored
  apply hP.drain_loop hQ MAX_SEND_ON_LINK ((hdel.pRun (r := none)).endInv hinv) _ hmid
  rw [hdel.sameIn.draining, hview]
  exact hd

theorem Carried.process_it_ack (hP : Carried cf Q P) (hQ : Hands Q env ev) (p : ItPacket)
    (h : Settled e) (he : P e) : P (process_it_ack cf env p e).2 := by
  unfold IntruTol.process_it_ack
  split
  · exact he
  rcases check_advertised_aru_spec cf env p e h.1.1 with hnone | ⟨e1, hsome, hcase⟩
  · rw [hnone]
    exact he
  rw [hsome]
  dsimp only
  have he1 := hP.check_advertised_aru hQ.assigned h.1.1 he hsome
  have hinv1 : EndInv e1.view ∧ e1.view.draining = false := by
    rcases hcase with rfl | ⟨hacc, hrun⟩
    · exact ⟨h.1, h.2.1⟩
    · have hrel : EndInv (e.view.release p.tail.aru) :=
        ⟨h.1.1.release _ hacc.1 hacc.2.1, h.1.2.release _⟩
      exact ⟨(hrun.pRun (r := none)).endInv hrel, hrun.sameIn.draining.trans h.2.1⟩
  rcases check_nack_requests_spec cf env p e1 hinv1.1.1 with hnone | ⟨e2, hsome2, hrun2⟩
  · rw [hnone]
    exact he1
  rw [hsome2]
  exact hP.check_link_seq hQ.deliver p ((hrun2.pRun (r := none)).endInv hinv1.1)
    (hrun2.sameIn.draining.trans hinv1.2) (hP.check_nack_requests he1 hsome2)

theorem Carried.incarnation_change (hP : Carried cf Q P) (hQ : Hands Q env ev) (inc : ℕ)
    (h : Settled e) (he : P e) : P (incarnation_change cf env inc e) := by
  unfold IntruTol.incarnation_change
  split
  · exact he
  · exact hP.assign env hQ.assigned (renewed_inv cf env inc h.1 h.2.1)
      (hP.renewed env inc h he)

theorem Carried.handle (hP : Carried cf Q P) (hQ : Hands Q env ev) (h : Settled e) (he : P e) :
    P (handle cf env e ev) := by
  cases ev with
  | forward m => exact hP.forward env (hQ.forward m rfl) h.1.1 he
  | assign => exact hP.assign env hQ.assigned h.1.1 he
  | handle_it_retransm => exact hP.load (retransm_loop_load cf env _ _ _ _) he
  | reliable_it_timeout => exact hP.load (reliable_it_timeout_load cf env e) he
  | ack_it_timeout => exact hP.load (ack_it_timeout_load cf env e) he
  | data_packet p =>
    simp only [IntruTol.handle, process_intru_tol_data_packet]
    split
    · exact he
    split
    · exact he
    · exact hP.process_it_ack hQ p h he
  | ack_packet p =>
    simp only [IntruTol.handle, process_intru_tol_ack_packet]
    split
    · exact he
    split
    · exact he
    · exact hP.process_it_ack hQ p h he
  | ping fresh is_ping p =>
    simp only [IntruTol.handle, process_intru_tol_ping]
    split
    · exact he
    split
    · exact he
    split
    · exact he
    -- the answer leaves the outbound half alone
    obtain ⟨e1, he1⟩ : ∃ e1, e1 = (if e.ngbr_incarnation < p.incarnation then
        IntruTol.incarnation_change cf env p.incarnation e else e) := ⟨_, rfl⟩
    have hchanged : P e1 := by
      rw [he1]
      split
      · exact hP.incarnation_change hQ p.incarnation h he
      · exact he
    rw [← he1]
    split
    · exact hchanged
    split
    · exact hP.of_outb hchanged rfl
    · exact hchanged
  | dh verified p =>
    simp only [IntruTol.handle, process_dh_it]
    split
    · exact he
    split
    · exact he
    split
    · exact he
    split
    · exact he
    · exact hP.incarnation_change hQ p.incarnation h (hP.of_outb he rfl)
  | ping_it_timeout => exact hP.of_outb he rfl
  | restart sec => exact hP.restart sec env e

theorem Carried.run (hP : Carried cf Q P) {sec : ℕ} (hinit : P (LinkEnd.create cf sec))
    (hrun : Run (StepOf cf Q) (LinkEnd.create cf sec) e) : P e := by
  have h := hrun.invariant (fun e => Settled e ∧ P e) ⟨settled_create cf sec, hinit⟩ ?_
  · exact h.2
  · rintro t ev t' ⟨hset, ht⟩ hstep
    refine ⟨settled_step hstep.step hset, ?_⟩
    obtain ⟨-, env, hQ, rfl⟩ := hstep
    exact hP.handle hQ hset ht

end Handlers

/-! ## 5. The window is the end of a row of batches -/

/-- The fragments of `m` below `idx` are the last batch, or there are none. -/
def PackedTo (bs : List Batch) (m : SysScatter) (idx : ℕ) : Prop :=
  idx = 1 ∨ ∃ init b, bs = init ++ [b] ∧ b.msg = m ∧ idx = b.cuts.sum + 1

structure Halted (lhs : ℕ) (bs : List Batch) (m : SysScatter) (l : Load) : Prop where
  fits : Fits lhs m
  total : l.total = m.body.length
  pos : 1 ≤ l.idx
  le : l.idx ≤ m.body.length
  packed : PackedTo bs m l.idx

/-- The window, behind the packets `gone` that are acknowledged or given up, is
a row of batches. -/
structure Batched (lhs : ℕ) (gone : List (List Bytes)) (bs : List Batch) (l : Load) : Prop where
  window : gone ++ l.window = bs.flatMap Batch.packets
  message : ∀ m, l.message = some m → Halted lhs bs m l

theorem Batched.pack_one {cf : Conf} {m : SysScatter}
    (h : Batched cf.link_header_size gone bs e.load) (hm : e.outb.out_message = some m)
    (hle : e.outb.out_tail_seq ≤ e.outb.out_head_seq)
    (hroom : e.outb.out_head_seq - e.outb.out_tail_seq < MAX_SEND_ON_LINK) :
    ∃ bs', Batched cf.link_header_size gone bs' (pack_one cf env m e).load := by
  obtain ⟨hfits, htotal, h1, h2, hpacked⟩ := h.message m hm
  change e.outb.out_frag_total = m.body.length at htotal
  change 1 ≤ e.outb.out_frag_idx at h1
  change e.outb.out_frag_idx ≤ m.body.length at h2
  obtain ⟨c, hc1, hc2, hidx, helems⟩ := fill_packet_packet hfits e.outb.out_frag_idx h1 h2
  have hmax := hfits.le
  simp only [MAX_SCATTER_ELEMENTS] at hmax
  have hwindow := pack_one_window cf env m hle hroom
  rw [htotal, helems] at hwindow
  have hnext : (IntruTol.pack_one cf env m e).load.idx = e.outb.out_frag_idx + c := by
    show (fill_packet _ m e.outb.out_frag_idx e.outb.out_frag_total).out_frag_idx = _
    rw [htotal, hidx]
  -- whatever the row is now, a message that still waits has its next fragment
  have hrest : ∀ bs', PackedTo bs' m (e.outb.out_frag_idx + c) → ∀ m',
      (IntruTol.pack_one cf env m e).load.message = some m' →
        Halted cf.link_header_size bs' m' (IntruTol.pack_one cf env m e).load := by
    intro bs' hto m' hm'
    change (if e.outb.out_frag_total <
      (fill_packet _ m e.outb.out_frag_idx e.outb.out_frag_total).out_frag_idx then none
      else some m) = some m' at hm'
    rw [htotal, hidx] at hm'
    split at hm'
    · exact absurd hm' (some_ne_none m').symm
    · rename_i hmore
      obtain rfl := some.inj hm'
      refine ⟨hfits, htotal, ?_, ?_, ?_⟩
      · rw [hnext]
        omega
      · rw [hnext]
        exact not_lt.mp hmore
      · rw [hnext]
        exact hto
  have hbefore : gone ++ e.window = bs.flatMap Batch.packets := h.window
  have hafter : gone ++ (IntruTol.pack_one cf env m e).window
      = bs.flatMap Batch.packets ++ [packet m e.outb.out_frag_idx c] := by
    rw [hwindow, ← append_assoc, hbefore]
  rcases hpacked with hone | ⟨init, b, hbs, rfl, hb⟩
  · change e.outb.out_frag_idx = 1 at hone
    refine ⟨bs ++ [Batch.single m c hc1 (by omega) (by simp only [MAX_SCATTER_ELEMENTS]; omega)],
      ?_, hrest _ (.inr ⟨bs, _, rfl, rfl, ?_⟩)⟩
    · rw [flatMap_append, flatMap_singleton]
      rw [hone] at hafter
      exact hafter
    · rw [Batch.single, sum_singleton, hone, add_comm]
  · change e.outb.out_frag_idx = b.cuts.sum + 1 at hb
    refine ⟨init ++ [b.extend c hc1 (by omega)], ?_, hrest _ (.inr ⟨init, _, rfl, rfl, ?_⟩)⟩
    · rw [flatMap_append, flatMap_singleton, Batch.extend_packets, ← append_assoc]
      rw [hbs, flatMap_append, flatMap_singleton, hb] at hafter
      exact hafter
    · rw [Batch.extend, sum_append, sum_singleton, hb]
      omega

theorem Batched.pack_loop {cf : Conf} (fuel : ℕ) (h : Batched cf.link_header_size gone bs e.load)
    (ho : OutInv e.view) :
    ∃ bs', Batched cf.link_header_size gone bs' (pack_loop cf env fuel e).load := by
  refine pack_loop_keeps_inv (P := fun e => ∃ bs, Batched cf.link_header_size gone bs e.load)
    ?_ fuel ⟨bs, h⟩ ho
  rintro m e ⟨bs, h⟩ ho hm hroom
  exact h.pack_one env hm (ho.tail_le.trans ho.tcp_le) hroom

theorem Batched.pack_or_drop {cf : Conf} (h : Batched cf.link_header_size gone bs e.load)
    (ho : OutInv e.view) :
    ∃ bs', Batched cf.link_header_size gone bs' (pack_or_drop cf env e).load := by
  rcases pack_or_drop_cases cf env e with ⟨-, heq⟩ | ⟨-, heq⟩
  · rw [heq]
    exact ⟨bs, h.window, fun m hm => absurd hm (some_ne_none m).symm⟩
  · rw [heq]
    exact h.pack_loop env MAX_SEND_ON_LINK ho

theorem Batched.forward {cf : Conf} {m : SysScatter} (hm : Fits cf.link_header_size m)
    (h : Batched cf.link_header_size gone bs e.load) (ho : OutInv e.view) :
    ∃ bs', Batched cf.link_header_size gone bs' (forward_intru_tol_data cf env m e).2.load := by
  rcases forward_cases cf env m e with ⟨-, heq⟩ | ⟨-, heq⟩
  · rw [heq]
    exact ⟨bs, h⟩
  · rw [heq, send_new_load]
    have hmax := hm.le
    simp only [MAX_SCATTER_ELEMENTS] at hmax
    have htotal : (m.num_elements - 1) % 256 = m.body.length := by
      simp only [SysScatter.num_elements]
      omega
    have htaken : Batched cf.link_header_size gone bs (taken m e).load := by
      refine ⟨h.window, fun m' hm' => ?_⟩
      obtain rfl := some.inj hm'
      exact ⟨hm, htotal, le_refl 1, hm.pos, .inl rfl⟩
    exact htaken.pack_loop env MAX_SEND_ON_LINK ho

/-! ## 6. Acknowledgements and incarnation changes -/

theorem release_load (aru : ℕ) (h : OutInv e.view) (h1 : e.outb.out_tail_seq ≤ aru) :
    (release aru e).load =
      { e.load with
        tail := aru + 1, window := e.window.drop (aru + 1 - e.outb.out_tail_seq) } := by
  have hlen : e.outb.out_head_seq ≤ e.outb.out_tail_seq + MAX_SEND_ON_LINK := h.head_le
  unfold LinkEnd.load
  rw [release_window aru h1 hlen]
  rfl

theorem Batched.acknowledged {cf : Conf} (h : Batched cf.link_header_size gone bs e.load)
    (ho : OutInv e.view) (h1 : e.outb.out_tail_seq ≤ aru) (h2 : aru < e.outb.tcp_head_seq) :
    ∃ gone' bs', Batched cf.link_header_size gone' bs' (acknowledged cf env aru e).load := by
  have hreleased : Batched cf.link_header_size
      (gone ++ e.window.take (aru + 1 - e.outb.out_tail_seq)) bs (release aru e).load := by
    rw [release_load aru ho h1]
    refine ⟨?_, fun m hm => ?_⟩
    · rw [append_assoc, take_append_drop]
      exact h.window
    · obtain ⟨hfits, htotal, hpos, hle, hpacked⟩ := h.message m hm
      exact ⟨hfits, htotal, hpos, hle, hpacked⟩
  have hsent : Batched cf.link_header_size
      (gone ++ e.window.take (aru + 1 - e.outb.out_tail_seq)) bs
      (send_new cf env false (usable_window env (release aru e).outb) (release aru e)).load := by
    rw [send_new_load]
    exact hreleased
  obtain ⟨bs', h'⟩ := hsent.pack_or_drop env (acknowledged_inv cf env ho h1 h2).1
  exact ⟨_, bs', h'⟩

theorem reintroduce_loop_message (old : ℕ → ItBufferCell) (base cnt : ℕ) :
    ∀ (i : ℕ) (o : Outbound),
      (reintroduce_loop env old base cnt i o).out_message = o.out_message ∧
      (reintroduce_loop env old base cnt i o).out_frag_idx = o.out_frag_idx ∧
      (reintroduce_loop env old base cnt i o).out_frag_total = o.out_frag_total := by
  induction cnt with
  | zero => exact fun _ _ => ⟨rfl, rfl, rfl⟩
  | succ cnt ih =>
    intro i o
    rw [reintroduce_loop]
    exact ih (i + 1) _

/-- `skipped_pkts` of the window. -/
def LinkEnd.skipped (env : Env) (e : LinkEnd) : ℕ :=
  skipped_pkts env.garbage e.outb.outgoing (e.outb.out_head_seq - e.outb.out_tail_seq)
    e.outb.out_tail_seq

theorem reintroduced_places (cf : Conf) (env : Env) (inc : ℕ) (h : OutInv e.view) :
    Reintroduced env (cleanup_loop (e.skipped env) e.outb.out_tail_seq e.outb.outgoing)
      (e.outb.out_tail_seq + e.skipped env)
      (1 + (e.outb.out_head_seq - (e.outb.out_tail_seq + e.skipped env)))
      (reintroduced env (reset_inbound cf env inc e)).outb := by
  have hlen : e.outb.out_head_seq ≤ e.outb.out_tail_seq + MAX_SEND_ON_LINK := h.head_le
  have hloop := reintroduce_loop_spec env
    (cleanup_loop (e.skipped env) e.outb.out_tail_seq e.outb.outgoing)
    (e.outb.out_tail_seq + e.skipped env)
    (e.outb.out_head_seq - (e.outb.out_tail_seq + e.skipped env)) 1
    { (reset_inbound cf env inc e).outb with
      outgoing := cleanup_loop (e.skipped env) e.outb.out_tail_seq e.outb.outgoing }
    (le_refl 1) (by omega) ⟨?_, ?_, ?_⟩
  · exact ⟨hloop.pkt, hloop.nonce, hloop.digest⟩
  · intro s h1 h2
    omega
  · intro s h1 h2
    omega
  · intro s h1 _
    obtain rfl : s = 0 := by omega
    exact reset_base cf env inc e

theorem reintroduced_load (cf : Conf) (env : Env) (inc : ℕ) (h : OutInv e.view) :
    (reintroduced env (reset_inbound cf env inc e)).load =
      { e.load with
        tail := LINK_START_SEQ
        head := (e.window.drop (e.skipped env)).length + LINK_START_SEQ
        window := e.window.drop (e.skipped env) } := by
  have hlen : e.outb.out_head_seq ≤ e.outb.out_tail_seq + MAX_SEND_ON_LINK := h.head_le
  have hplaces := reintroduced_places cf env inc h
  have hkept := cleanup_window e.outb.outgoing e.outb.out_tail_seq (e.skipped env) hlen
  have hcount : (e.window.drop (e.skipped env)).length
      = e.outb.out_head_seq - (e.outb.out_tail_seq + e.skipped env) := by
    rw [length_drop, LinkEnd.window_length, Nat.sub_sub]
  have hwindow : (reintroduced env (reset_inbound cf env inc e)).window
      = e.window.drop (e.skipped env) := by
    refine Eq.trans ?_ hkept
    apply ringList_shift
    intro i hi
    change i < e.outb.out_head_seq - (e.outb.out_tail_seq + e.skipped env) at hi
    have hpkt := hplaces.pkt (1 + i) (by omega) (by omega)
    rw [Nat.add_sub_cancel_left] at hpkt
    exact congrArg (fun o => o.getD []) hpkt
  obtain ⟨hmessage, hidx, htotal⟩ := reintroduce_loop_message env
    (cleanup_loop (e.skipped env) e.outb.out_tail_seq e.outb.outgoing)
    (e.outb.out_tail_seq + e.skipped env)
    (e.outb.out_head_seq - (e.outb.out_tail_seq + e.skipped env)) 1
    { (reset_inbound cf env inc e).outb with
      outgoing := cleanup_loop (e.skipped env) e.outb.out_tail_seq e.outb.outgoing }
  rw [LinkEnd.load, hwindow, hcount]
  congr 1

/-! ## 7. Skipping to the start of a message -/

/-- The packet starts a message: its first fragment has number `1`. -/
def starts (p : List Bytes) : Bool := decide (first_frag_idx 0 (some p) = 1)

theorem first_frag_idx_packet (garbage : ℕ) (m : SysScatter) {a c : ℕ} (hc : 1 ≤ c)
    (ha : a < 256) : first_frag_idx garbage (some (packet m a c)) = a := by
  obtain ⟨c, rfl⟩ : ∃ d, c = d + 1 := ⟨c - 1, by omega⟩
  show ((((UInt8.ofNat a).toNat)) : ℕ) = a
  rw [UInt8.toNat_ofNat']
  exact Nat.mod_eq_of_lt ha

theorem starts_packet {a c : ℕ} (hc : 1 ≤ c) (ha : a < 256) :
    starts (packet m a c) = decide (a = 1) := by
  rw [starts, first_frag_idx_packet 0 m hc ha]

theorem Batch.packets_cons :
    ∃ p ps, b.packets = p :: ps ∧ starts p = true ∧ ∀ q ∈ ps, starts q = false := by
  obtain ⟨m, cuts, hsome, hpos, hle, hmax⟩ := b
  simp only [MAX_SCATTER_ELEMENTS] at hmax
  cases cuts with
  | nil => exact absurd rfl hsome
  | cons c cuts =>
    have hc := hpos c mem_cons_self
    rw [sum_cons] at hle
    refine ⟨packet m 1 c, cut_packets m (1 + c) cuts, rfl, ?_, ?_⟩
    · rw [starts_packet m hc (by omega)]
      rfl
    · intro q hq
      obtain ⟨a, d, h1, h2, h3, rfl⟩ :=
        cut_packets_mem (fun d hd => hpos d (mem_cons_of_mem c hd)) hq
      rw [starts_packet m h2 (by omega)]
      exact decide_eq_false (by omega)

theorem drop_to_start (bs : List Batch) : ∀ {gone window : List (List Bytes)},
    gone ++ window = bs.flatMap Batch.packets →
    ∃ bs', bs' <:+ bs ∧ window.dropWhile (fun p => !starts p) = bs'.flatMap Batch.packets := by
  induction bs with
  | nil =>
    intro gone window h
    have hnil := (append_eq_nil_iff.mp h).2
    exact ⟨[], suffix_refl [], by rw [hnil]; rfl⟩
  | cons b bs ih =>
    intro gone window h
    obtain ⟨p, ps, hb, hp, hps⟩ := b.packets_cons
    rw [flatMap_cons] at h
    rcases append_eq_append_iff.mp h with ⟨mid, hmid, hwindow⟩ | ⟨mid, hgone, hmid⟩
    · cases gone with
      | nil =>
        -- the window starts with this batch
        refine ⟨b :: bs, suffix_refl _, ?_⟩
        rw [nil_append] at h
        rw [h, hb, cons_append, dropWhile_cons_of_neg (by rw [hp]; decide),
          flatMap_cons, hb, cons_append]
      | cons q gone =>
        -- the start of this batch is gone, the rest of it is skipped
        obtain ⟨bs', hsuffix, hrest⟩ := @ih [] (bs.flatMap Batch.packets) rfl
        refine ⟨bs', hsuffix.trans (suffix_cons b bs), ?_⟩
        rw [hb, cons_append] at hmid
        have htail : ps = gone ++ mid := (List.cons.inj hmid).2
        rw [hwindow, dropWhile_append_of_pos, hrest]
        intro r hr
        rw [hps r (by rw [htail]; exact mem_append_right gone hr)]
        rfl
    · obtain ⟨bs', hsuffix, hrest⟩ := ih hmid.symm
      exact ⟨bs', hsuffix.trans (suffix_cons b bs), hrest⟩

/-- `skipped_pkts` counts the packets before the first start. A packet with a
fragment has a trailer, so what a read beyond a scatter yields plays no part. -/
theorem skipped_pkts_drop (garbage : ℕ) (outgoing : ℕ → ItBufferCell) (cnt : ℕ) : ∀ i,
    (∀ q, i ≤ q → q < i + cnt → ∃ m a c, 1 ≤ c ∧ a < 256 ∧
      (outgoing (q % MAX_SEND_ON_LINK)).pkt = some (packet m a c)) →
    (ringList MAX_SEND_ON_LINK (fun k => (outgoing k).pkt.getD []) i cnt).drop
        (skipped_pkts garbage outgoing cnt i)
      = (ringList MAX_SEND_ON_LINK (fun k => (outgoing k).pkt.getD []) i cnt).dropWhile
        (fun p => !starts p) := by
  induction cnt with
  | zero => exact fun _ _ => rfl
  | succ cnt ih =>
    intro i h
    obtain ⟨m, a, c, hc, ha, hpkt⟩ := h i (le_refl i) (by omega)
    rw [skipped_pkts, hpkt, first_frag_idx_packet garbage m hc ha, ringList_succ, hpkt,
      getD_some]
    by_cases hone : a = 1
    · rw [if_neg (not_not.mpr hone), dropWhile_cons_of_neg]
      · rfl
      · rw [starts_packet m hc ha, decide_eq_true hone]
        decide
    · rw [if_pos hone, drop_succ_cons, dropWhile_cons_of_pos]
      · exact ih (i + 1) (fun q h1 h2 => h q (by omega) (by omega))
      · rw [starts_packet m hc ha, decide_eq_false hone]
        rfl

theorem Batched.cell (h : Batched lhs gone bs e.load) (ho : OutInv e.view) {s : ℕ}
    (h1 : e.outb.out_tail_seq ≤ s) (h2 : s < e.outb.out_head_seq) :
    ∃ m a c, 1 ≤ a ∧ 1 ≤ c ∧ a + c ≤ m.body.length + 1 ∧ m.body.length < MAX_SCATTER_ELEMENTS ∧
      (e.outb.outgoing (s % MAX_SEND_ON_LINK)).pkt = some (packet m a c) := by
  obtain ⟨x, -, -, hcell, -⟩ := ho.cell s h1 h2
  change (e.outb.outgoing (s % MAX_SEND_ON_LINK)).pkt.map List.flatten = some x.data at hcell
  obtain ⟨elems, helems, -⟩ := map_eq_some_iff.mp hcell
  have hget := ringList_getElem? MAX_SEND_ON_LINK (fun k => (e.outb.outgoing k).pkt.getD [])
    e.outb.out_tail_seq (show s - e.outb.out_tail_seq
      < e.outb.out_head_seq - e.outb.out_tail_seq by omega)
  rw [show e.outb.out_tail_seq + (s - e.outb.out_tail_seq) = s by omega, helems] at hget
  have hmem : elems ∈ gone ++ e.load.window :=
    mem_append_right gone (mem_of_getElem? hget)
  rw [h.window] at hmem
  obtain ⟨b, -, hb⟩ := mem_flatMap.mp hmem
  obtain ⟨a, c, ha, hc, hle, rfl⟩ := b.mem_packets hb
  exact ⟨b.msg, a, c, ha, hc, hle, b.max, helems⟩

theorem Batched.skip (h : Batched lhs gone bs e.load) (ho : OutInv e.view) (env : Env) :
    e.window.drop (e.skipped env) = e.window.dropWhile (fun p => !starts p) := by
  apply skipped_pkts_drop
  intro q h1 h2
  have hle : e.outb.out_tail_seq ≤ e.outb.out_head_seq := ho.tail_le.trans ho.tcp_le
  obtain ⟨m, a, c, ha, hc, hle, hmax, hpkt⟩ := h.cell ho h1 (by omega)
  simp only [MAX_SCATTER_ELEMENTS] at hmax
  exact ⟨m, a, c, hc, by omega, hpkt⟩

theorem Batched.start_kept {init : List Batch} {b : Batch} {l : Load}
    (h : Batched lhs gone (init ++ [b]) l) (hfull : l.window.length = MAX_SEND_ON_LINK) :
    l.window.dropWhile (fun p => !starts p) ≠ [] := by
  have hsuffix : b.packets <:+ l.window := by
    have hrow : b.packets <:+ gone ++ l.window := by
      rw [h.window, flatMap_append, flatMap_singleton]
      exact suffix_append _ _
    apply suffix_of_suffix_length_le hrow (suffix_append gone l.window)
    rw [hfull]
    exact le_of_lt b.length_lt
  obtain ⟨p, ps, hb, hp, -⟩ := b.packets_cons
  intro hnil
  have hskip := dropWhile_eq_nil_iff.mp hnil p
    (hsuffix.subset (by rw [hb]; exact mem_cons_self))
  rw [hp] at hskip
  exact absurd hskip Bool.false_ne_true

def Whole (cf : Conf) (e : LinkEnd) : Prop :=
  Rested e ∧ ∃ gone bs, Batched cf.link_header_size gone bs e.load

/-- **Reintroducing.** The packets that stay are whole batches, and a message
that was waiting still waits where it stood. -/
theorem Whole.reintroduced {cf : Conf} (h : Whole cf e) (ho : OutInv e.view) (env : Env) (inc : ℕ) :
    ∃ bs, Batched cf.link_header_size [] bs
      (reintroduced env (reset_inbound cf env inc e)).load := by
  obtain ⟨hrested, gone, bs, hbatched⟩ := h
  obtain ⟨bs', hsuffix, hrow⟩ := drop_to_start bs hbatched.window
  refine ⟨bs', ?_⟩
  rw [reintroduced_load cf env inc ho]
  constructor
  · show [] ++ e.window.drop (e.skipped env) = bs'.flatMap Batch.packets
    rw [nil_append, hbatched.skip ho env]
    exact hrow
  · intro m hm
    obtain ⟨hfits, htotal, hpos, hle, hpacked⟩ := hbatched.message m hm
    refine ⟨hfits, htotal, hpos, hle, ?_⟩
    rcases hpacked with hone | ⟨init, b, rfl, hmsg, hidx⟩
    · exact .inl hone
    · have hfull : e.window.length = MAX_SEND_ON_LINK := by
        rw [LinkEnd.window_length]
        apply hrested
        rw [show e.outb.out_message = some m from hm]
        rfl
      have hkept := hbatched.start_kept hfull
      rw [hrow] at hkept
      -- a suffix of the row that is not empty ends with the same batch
      obtain ⟨front, hfront⟩ := hsuffix
      rcases eq_nil_or_concat bs' with rfl | ⟨init', b', rfl⟩
      · exact absurd rfl hkept
      · rw [concat_eq_append, ← append_assoc] at hfront
        obtain ⟨-, hlast⟩ := append_inj' hfront rfl
        obtain rfl := (List.cons.inj hlast).1
        right
        exact ⟨init', b', concat_eq_append, hmsg, hidx⟩

/-! ## 8. Runs -/

theorem rested_carried (cf : Conf) (Q : SysScatter → Prop) : Carried cf Q Rested where
  load := fun hl h => h.of_load hl
  forward := fun env m _ _ h hr => forward_rested cf env m h hr
  acknowledged := fun env _ _ h h1 h2 _ => acknowledged_rested cf env h h1 h2
  renewed := by
    intro env inc e h _
    unfold renewed
    by_cases hre : cf.reintroduce_messages = true
    · rw [if_pos hre, reintroduce_eq]
      obtain ⟨entries, hch⟩ := reintroduced_changed cf env inc e h.1.1 h.1.2 h.2.1
      exact pack_or_drop_rested cf env (OutInv.changed hch)
    · rw [if_neg hre]
      exact fun hsome => absurd hsome Bool.false_ne_true
  restart := fun _ _ _ hsome => absurd hsome Bool.false_ne_true

theorem batched_empty {l : Load} (hw : l.window = []) (hm : l.message = none) :
    Batched lhs [] [] l :=
  ⟨by rw [hw]; rfl, fun m h => absurd (hm.symm.trans h) (some_ne_none m).symm⟩

theorem whole_carried {cf : Conf}
    (hQ : ∀ m, Q m → Fits cf.link_header_size m) : Carried cf Q (Whole cf) where
  load := by
    rintro e e' hl ⟨hr, gone, bs, h⟩
    exact ⟨hr.of_load hl, gone, bs, by rwa [hl]⟩
  forward := by
    rintro env m e hm ho ⟨hr, gone, bs, h⟩
    exact ⟨forward_rested cf env m ho hr, gone, h.forward env (hQ m hm) ho⟩
  acknowledged := by
    rintro env aru e ho h1 h2 ⟨-, gone, bs, h⟩
    exact ⟨acknowledged_rested cf env ho h1 h2, h.acknowledged env ho h1 h2⟩
  renewed := by
    intro env inc e hset h
    refine ⟨(rested_carried cf Q).renewed env inc hset h.1, [], ?_⟩
    unfold renewed
    by_cases hre : cf.reintroduce_messages = true
    · rw [if_pos hre, reintroduce_eq]
      obtain ⟨entries, hch⟩ := reintroduced_changed cf env inc e hset.1.1 hset.1.2 hset.2.1
      obtain ⟨bs, hbs⟩ := h.reintroduced hset.1.1 env inc
      exact hbs.pack_or_drop env (OutInv.changed hch)
    · rw [if_neg hre]
      exact ⟨[], batched_empty rfl rfl⟩
  restart := fun _ _ _ =>
    ⟨fun hsome => absurd hsome Bool.false_ne_true, [], [], batched_empty rfl rfl⟩

/-- The ends at which a handler calls `Assign_Resources_IT`: on a request or
when the bucket has been filled, after an acknowledgement, and in a new
incarnation. The guards that only make a call rarer are left out. -/
inductive AssignsAt (cf : Conf) (env : Env) (e : LinkEnd) : Event → LinkEnd → Prop
  | assign : AssignsAt cf env e .assign e
  | data (p : ItPacket) (h1 : e.outb.out_tail_seq ≤ p.tail.aru)
      (h2 : p.tail.aru < e.outb.tcp_head_seq) :
      AssignsAt cf env e (.data_packet p) (acknowledged cf env p.tail.aru e)
  | ack (p : ItPacket) (h1 : e.outb.out_tail_seq ≤ p.tail.aru)
      (h2 : p.tail.aru < e.outb.tcp_head_seq) :
      AssignsAt cf env e (.ack_packet p) (acknowledged cf env p.tail.aru e)
  | ping (fresh is_ping : Bool) (p : ItPing) :
      AssignsAt cf env e (.ping fresh is_ping p) (renewed cf env p.incarnation e)
  | dh (verified : Bool) (p : ItPing) :
      AssignsAt cf env e (.dh verified p) (renewed cf env p.incarnation (send_it_ping e))

/-- The ends at which `Assign_Resources_IT` invokes the callback. -/
def callback_ends (cf : Conf) (env : Env) : List (List SysScatter) → LinkEnd → List LinkEnd
  | [], _ => []
  | ms :: rest, e =>
    if full_link_it env e = true then []
    else e :: callback_ends cf env rest (forward_all cf env ms e)

theorem Rested.message {env : Env} (h : Rested e) (hroom : full_link_it env e = false) :
    env.link_up = true ∧ e.outb.out_message = none := by
  simp only [full_link_it, Bool.or_eq_false_iff, Bool.not_eq_false', decide_eq_true_eq] at hroom
  refine ⟨hroom.1, ?_⟩
  cases hm : e.outb.out_message with
  | none => rfl
  | some m =>
    have hfull := h (by rw [hm]; rfl)
    omega

theorem callback_ends_message (cf : Conf) (env : Env) (rounds : List (List SysScatter)) :
    ∀ {e : LinkEnd}, OutInv e.view → Rested e → ∀ e1 ∈ callback_ends cf env rounds e,
      env.link_up = true ∧ e1.outb.out_message = none := by
  induction rounds with
  | nil => exact fun _ _ e1 h => absurd h not_mem_nil
  | cons ms rest ih =>
    intro e ho hr e1 h
    rw [callback_ends] at h
    by_cases hfull : full_link_it env e = true
    · rw [if_pos hfull] at h
      exact absurd h not_mem_nil
    · rw [if_neg hfull] at h
      rcases mem_cons.mp h with rfl | h
      · exact hr.message (Bool.eq_false_of_not_eq_true hfull)
      · refine ih ((forward_all_run cf env ms e ho).outInv ho) ?_ e1 h
        exact forward_all_keeps (fun {m _} _ => forward_rested cf env m) ms
          (fun _ _ => True.intro) ho hr

theorem AssignsAt.rested {cf : Conf} {env : Env} {e1 : LinkEnd} {ev : Event}
    (h : AssignsAt cf env e ev e1) (hset : Settled e) (hr : Rested e) :
    OutInv e1.view ∧ Rested e1 := by
  have hcarried := rested_carried cf (fun _ => True)
  cases h with
  | assign => exact ⟨hset.1.1, hr⟩
  | data p h1 h2 =>
    exact ⟨(acknowledged_inv cf env hset.1.1 h1 h2).2, acknowledged_rested cf env hset.1.1 h1 h2⟩
  | ack p h1 h2 =>
    exact ⟨(acknowledged_inv cf env hset.1.1 h1 h2).2, acknowledged_rested cf env hset.1.1 h1 h2⟩
  | ping fresh is_ping p =>
    exact ⟨renewed_inv cf env _ hset.1 hset.2.1, hcarried.renewed env _ hset hr⟩
  | dh verified p =>
    have hset' : Settled (send_it_ping e) := hset
    exact ⟨renewed_inv cf env _ hset'.1 hset'.2.1, hcarried.renewed env _ hset' hr⟩

theorem fits_of {cf : Conf} {Q : SysScatter → Prop} (hQ : ∀ m, Q m → m.body ≠ [] ∧
      m.body.length < MAX_SCATTER_ELEMENTS ∧ ∀ x ∈ m.body,
        x.length + cf.link_header_size + SIZEOF_FRAGMENT_HEADER ≤ MAX_PACKET_SIZE) :
    ∀ m, Q m → Fits cf.link_header_size m := by
  intro m hm
  obtain ⟨hsome, hmax, helems⟩ := hQ m hm
  exact ⟨length_pos_of_ne_nil hsome, Nat.le_sub_one_of_lt hmax, helems⟩

theorem whole_run {cf : Conf} {Q : SysScatter → Prop} (hfits : ∀ m, Q m → Fits cf.link_header_size m)
    {sec : ℕ} {e : LinkEnd} (hrun : Run (StepOf cf Q) (LinkEnd.create cf sec) e) : Whole cf e :=
  (whole_carried hfits).run (show Whole cf (LinkEnd.create cf sec) from
    ⟨fun hsome => absurd hsome Bool.false_ne_true, [], [], batched_empty rfl rfl⟩) hrun

/-- **A message waits only in front of a full window.** Between two handlers
`out_message` is set only with `MAX_SEND_ON_LINK` packets in the window, whatever
is forwarded. So wherever `Assign_Resources_IT` invokes a callback, no message is
half packed, and the message handed down is dropped for its size or its header
only. If every message forwarded has a body, and each of its elements fits into
a packet, then every packet in the window carries a fragment. -/
theorem waiting_message_full_window {cf : Conf} {Q : SysScatter → Prop} {sec : ℕ} {e : LinkEnd}
    (hrun : Run (StepOf cf Q) (LinkEnd.create cf sec) e) : (e.outb.out_message ≠ none →
      e.outb.out_head_seq - e.outb.out_tail_seq = MAX_SEND_ON_LINK) ∧
    (∀ (env : Env) (ev : Event) (e1 : LinkEnd), AssignsAt cf env e ev e1 →
      ∀ e2 ∈ callback_ends cf env env.assigned e1, e2.outb.out_message = none ∧
        ∀ m, (forward_intru_tol_data cf env m e2).1 = true ↔
          msg_too_big cf m = false ∧ m.hdr.length = SIZEOF_PACKET_HEADER) ∧
    ((∀ m, Q m → m.body ≠ [] ∧ m.body.length < MAX_SCATTER_ELEMENTS ∧ ∀ x ∈ m.body,
        x.length + cf.link_header_size + SIZEOF_FRAGMENT_HEADER ≤ MAX_PACKET_SIZE) →
      ∀ s, e.outb.out_tail_seq ≤ s → s < e.outb.out_head_seq → ∃ m a c, 1 ≤ c ∧
        (e.outb.outgoing (s % MAX_SEND_ON_LINK)).pkt = some (packet m a c)) := by
  have hset := settled_run_of hrun
  have hrested := (rested_carried cf Q).run (fun hsome => absurd hsome Bool.false_ne_true) hrun
  refine ⟨fun hsome => hrested (isSome_iff_ne_none.mpr hsome), ?_, ?_⟩
  · intro env ev e1 hat e2 he2
    obtain ⟨ho, hr⟩ := hat.rested hset hrested
    obtain ⟨hup, hnone⟩ := callback_ends_message cf env env.assigned ho hr e2 he2
    refine ⟨hnone, fun m => ?_⟩
    rcases forward_cases cf env m e2 with ⟨hbad, heq⟩ | ⟨hgood, heq⟩
    · rw [hup, hnone] at hbad
      rw [heq]
      constructor
      · exact fun h => absurd h Bool.false_ne_true
      · rintro ⟨hsize, hhdr⟩
        rw [hsize] at hbad
        simp [hhdr] at hbad
    · push Not at hgood
      exact iff_of_true (by rw [heq]) ⟨Bool.eq_false_of_not_eq_true hgood.2.2.1, hgood.2.2.2⟩
  · intro hQ s h1 h2
    obtain ⟨-, gone, bs, h⟩ := whole_run (fits_of hQ) hrun
    obtain ⟨m, a, c, -, hc, -, -, hpkt⟩ := h.cell hset.1.1 h1 h2
    exact ⟨m, a, c, hc, hpkt⟩

theorem one_forwarded_run (cf : Conf) :
    Run (StepOf cf (fun m => m = plain_msg [[1, 2, 3]])) (LinkEnd.create cf 7)
      (handle cf plain_env (LinkEnd.create cf 7) (.forward (plain_msg [[1, 2, 3]]))) := by
  refine (Run.refl _).tail ⟨.inl rfl, plain_env, ⟨?_, ?_, ?_⟩, rfl⟩
  · exact fun ms h => absurd h not_mem_nil
  · exact fun seq m h => absurd h not_mem_nil
  · exact fun m h => (Event.forward.inj h).symm

theorem waiting_message_full_window_busy : (busy_end.outb.out_message ≠ none →
      busy_end.outb.out_head_seq - busy_end.outb.out_tail_seq = MAX_SEND_ON_LINK) ∧
    ∃ m a c, 1 ≤ c ∧ (busy_end.outb.outgoing 1).pkt = some (packet m a c) := by
  have h := waiting_message_full_window (one_forwarded_run plain_conf)
  refine ⟨h.1, h.2.2 ?_ 1 (by decide) (by decide)⟩
  rintro m rfl
  decide

end Spines.IntruTol
