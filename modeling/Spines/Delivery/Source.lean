/-
From whom a client gets a message.

For priority flooding the address a client sees is that of the node whose key
verified the message, because the key is looked up by that address. Reliable
flooding looks at the header of its own and delivers by the other one, and nothing
compares the two: a node may sign a message under its own number and the address of
somebody else (`borrowed_address`).
-/
import Spines.Delivery.Node

set_option autoImplicit false

namespace Spines.Delivery

open Spines.Lib Spines.RelFlood Spines.Priority Spines.IntruTol List Option

/-! ## 1. What is to hold -/

section Properties

variable (nc : NodeConf) (sch : Scheme) (signs : ℕ → List UInt8 → Prop)

/-- The client sees the address of the node whose key verified the message, and that
node signed it. -/
def Authentic (x : Delivered) : Prop :=
  ∃ s, signer nc x.msg = some s ∧ nc.lookup x.hdr.source = some s ∧
    signs s (sch.wire x.msg.signed)

def Addressed (x : Delivered) : Prop := ∀ m, x.msg.body = .data m → m.dest = nc.rel.my_id

def Delivered.key (x : Delivered) : Option (ℕ × ℕ × ℕ) :=
  match x.msg.body with
  | .data m => some (m.src, m.src_epoch, m.seq_num)
  | _ => none

structure Faithful (N : Node) : Prop where
  authentic : ∀ x ∈ N.delivered, Authentic nc sch signs x
  addressed : ∀ x ∈ N.delivered, Addressed nc x
  once : (N.delivered.filterMap Delivered.key).Nodup

/-- The two headers agree: the `udp_header` has the address of the source, and the
unicast address of the destination, that the header of reliable flooding names. -/
def HeadersAgree (m : Message) : Prop :=
  ∀ r_hdr, m.body = .data r_hdr → nc.lookup m.hdr.source = some r_hdr.src ∧
    nc.lookup m.hdr.dest = some r_hdr.dest ∧ is_node_addr m.hdr.dest = true

/-- The condition on an event: the headers agree in every message that verifies, a
client of reliable flooding names a unicast address, and no ack that verifies makes
the daemon forget messages. -/
def Event.Plain (N : Node) : Event → Prop
  | receive _ env m =>
    (∀ r_hdr, m.body = .data r_hdr → reliable_flood_verify nc sch r_hdr.src m = true →
      HeadersAgree nc m) ∧
    ∀ ack, m.body = .e2e ack → reliable_flood_verify nc sch ack.dest m = true →
      ¬ e2e_forgets nc.rel env.sec ack N.rel
  | send_reliable _ dest _ _ _ _ _ _ => is_node_addr dest = true
  | _ => True

def PlainStep (N : Node) (e : Event) (N' : Node) : Prop :=
  Step nc sch N e N' ∧ e.Plain nc sch N

end Properties

/-! ## 2. One call of `Deliver_and_Forward_Data` -/

section Calls

variable {nc : NodeConf} {sch : Scheme} {signs : ℕ → List UInt8 → Prop} {N N' : Node}

structure NodeInv (nc : NodeConf) (sch : Scheme) (signs : ℕ → List UInt8 → Prop) (N : Node) :
    Prop where
  faithful : Faithful nc sch signs N
  terminal : Terminal nc.rel N.rel
  passed : ∀ x ∈ N.delivered.filterMap Delivered.key, Passed nc.rel N.rel x.1 x.2.1 x.2.2

theorem NodeInv.keep (h : NodeInv nc sch signs N) (hdel : N'.delivered = N.delivered)
    (ht : Terminal nc.rel N'.rel) (hon : Onward nc.rel N.rel N'.rel) : NodeInv nc sch signs N' := by
  refine ⟨⟨?_, ?_, ?_⟩, ht, ?_⟩
  · rw [hdel]
    exact h.faithful.authentic
  · rw [hdel]
    exact h.faithful.addressed
  · rw [hdel]
    exact h.faithful.once
  · rw [hdel]
    exact fun x hx => hon _ _ _ (h.passed x hx)

theorem site_multicast_source (nc : NodeConf) (hdr : UdpHeader) :
    (site_multicast nc hdr).source = hdr.source := by
  unfold site_multicast
  split <;> rfl

theorem deliver_cases (nc : NodeConf) (m : Message) (N : Node) :
    deliver nc m N = N ∨
      ∃ hdr : UdpHeader, hdr.source = m.hdr.source ∧
        deliver nc m N = { N with delivered := N.delivered ++ [⟨hdr, m⟩] } := by
  have hsrc := site_multicast_source nc m.hdr
  unfold deliver
  dsimp only
  split
  · split
    · exact .inr ⟨_, hsrc, rfl⟩
    · exact .inl rfl
  · split
    · exact .inr ⟨_, hsrc, rfl⟩
    · exact .inl rfl

theorem deliver_elsewhere {m : Message} (hnode : is_node_addr m.hdr.dest = true)
    (hdest : m.hdr.dest ≠ nc.my_address) (N : Node) : deliver nc m N = N := by
  have hsite : site_multicast nc m.hdr = m.hdr := if_neg (fun h => hdest h.1)
  unfold is_node_addr at hnode
  rw [Bool.and_eq_true, Bool.not_eq_true', Bool.not_eq_true'] at hnode
  unfold deliver
  rw [hsite, if_pos hnode, if_neg hdest]

theorem NodeInv.deliver (h : NodeInv nc sch signs N) {m : Message} {s : ℕ}
    (hsigner : signer nc m = some s) (hsource : nc.lookup m.hdr.source = some s)
    (hsigned : signs s (sch.wire m.signed))
    (hdest : ∀ r_hdr, m.body = .data r_hdr → m.hdr.dest = nc.my_address → r_hdr.dest = nc.rel.my_id)
    (hnode : ∀ r_hdr, m.body = .data r_hdr → is_node_addr m.hdr.dest = true)
    (hkey : ∀ r_hdr, m.body = .data r_hdr → r_hdr.dest = nc.rel.my_id →
      (r_hdr.src, r_hdr.src_epoch, r_hdr.seq_num) ∉ N.delivered.filterMap Delivered.key ∧
        Passed nc.rel N.rel r_hdr.src r_hdr.src_epoch r_hdr.seq_num) :
    NodeInv nc sch signs (deliver nc m N) := by
  rcases deliver_cases nc m N with heq | ⟨hdr, hsrc, heq⟩
  · rw [heq]
    exact h
  -- what is delivered of reliable flooding is for this daemon
  have hmine : ∀ r_hdr, m.body = .data r_hdr → r_hdr.dest = nc.rel.my_id := by
    intro r_hdr hb
    by_contra hne
    have helse := deliver_elsewhere (hnode r_hdr hb) (fun hd => hne (hdest r_hdr hb hd)) N
    rw [heq] at helse
    have hlen := congrArg (fun N : Node => N.delivered.length) helse
    simp at hlen
  have hmem : ∀ x ∈ N.delivered ++ [⟨hdr, m⟩], x ∈ N.delivered ∨ x = ⟨hdr, m⟩ := by
    intro x hx
    rwa [mem_append, mem_singleton] at hx
  have hold : ∀ r_hdr, m.body = .data r_hdr →
      Delivered.key ⟨hdr, m⟩ = some (r_hdr.src, r_hdr.src_epoch, r_hdr.seq_num) := by
    intro r_hdr hb
    unfold Delivered.key
    rw [hb]
  have hnone : (∀ r_hdr, m.body ≠ .data r_hdr) → Delivered.key ⟨hdr, m⟩ = none := by
    intro hb
    unfold Delivered.key
    split
    · rename_i r_hdr hb'
      exact absurd hb' (hb r_hdr)
    · rfl
  rw [heq]
  refine ⟨⟨fun x hx => ?_, fun x hx => ?_, ?_⟩, h.terminal, fun x hx => ?_⟩
  · rcases hmem x hx with hx | rfl
    · exact h.faithful.authentic x hx
    · exact ⟨s, hsigner, by rw [hsrc]; exact hsource, hsigned⟩
  · rcases hmem x hx with hx | rfl
    · exact h.faithful.addressed x hx
    · exact hmine
  · dsimp only
    rw [filterMap_append]
    by_cases hb : ∃ r_hdr, m.body = .data r_hdr
    · obtain ⟨r_hdr, hb⟩ := hb
      rw [filterMap_cons_some (hold r_hdr hb), filterMap_nil]
      apply List.Nodup.append h.faithful.once (nodup_singleton _)
      rw [disjoint_singleton]
      exact (hkey r_hdr hb (hmine r_hdr hb)).1
    · rw [filterMap_cons_none (hnone (fun r_hdr h => hb ⟨r_hdr, h⟩)), filterMap_nil,
        append_nil]
      exact h.faithful.once
  · dsimp only at hx
    rw [filterMap_append, mem_append] at hx
    rcases hx with hx | hx
    · exact h.passed x hx
    · by_cases hb : ∃ r_hdr, m.body = .data r_hdr
      · obtain ⟨r_hdr, hb⟩ := hb
        rw [filterMap_cons_some (hold r_hdr hb), filterMap_nil, mem_singleton] at hx
        rw [hx]
        exact (hkey r_hdr hb (hmine r_hdr hb)).2
      · rw [filterMap_cons_none (hnone (fun r_hdr h => hb ⟨r_hdr, h⟩))] at hx
        simp at hx

def Message.hop (m : Message) : Message := { m with hdr := { m.hdr with ttl := m.hdr.ttl - 1 } }

theorem hop_signed (m : Message) : m.hop.signed = m.signed := by
  obtain ⟨hdr, body, signature, acks⟩ := m
  cases body <;> rfl

theorem hop_reliable_verify (nc : NodeConf) (sch : Scheme) (s : ℕ) (m : Message) :
    reliable_flood_verify nc sch s m.hop = reliable_flood_verify nc sch s m := by
  unfold reliable_flood_verify
  rw [hop_signed]
  rfl

structure PlainMessage (nc : NodeConf) (sch : Scheme) (sec : ℕ) (m : Message) (N : Node) : Prop where
  agree : ∀ r_hdr, m.body = .data r_hdr → reliable_flood_verify nc sch r_hdr.src m = true →
    HeadersAgree nc m
  keep : ∀ ack, m.body = .e2e ack → reliable_flood_verify nc sch ack.dest m = true →
    ¬ e2e_forgets nc.rel sec ack N.rel

theorem PlainMessage.hop {sec : ℕ} {m : Message} (h : PlainMessage nc sch sec m N) :
    PlainMessage nc sch sec m.hop N := by
  refine ⟨fun r_hdr hb hv => ?_, fun ack hb hv => ?_⟩
  · rw [hop_reliable_verify] at hv
    exact h.agree r_hdr hb hv
  · rw [hop_reliable_verify] at hv
    exact h.keep ack hb hv

theorem NodeConf.my_id_range (nc : NodeConf) : 1 ≤ nc.rel.my_id ∧ nc.rel.my_id ≤ MAX_NODES :=
  nc.lookup_range _ _ nc.lookup_my_address

theorem signs_of_verified (hcrypto : nc.rel.crypto = true) (hunf : sch.Unforgeable signs) {s : ℕ}
    {m : Message} (h : reliable_flood_verify nc sch s m = true) : signs s (sch.wire m.signed) := by
  unfold reliable_flood_verify at h
  rw [if_neg (by simp [hcrypto])] at h
  split at h
  · exact absurd h (by simp)
  · exact hunf _ _ _ h

theorem NodeInv.control (h : NodeInv nc sch signs N) (hrun : N.rel.halt = .running) (m : Message)
    (sec hop : ℕ) (verified : Bool) (pkt : Packet) (hbody : ∀ m, pkt.body ≠ .data m)
    (hno : ∀ new, pkt.body = .e2e new → verified = true → ¬ e2e_forgets nc.rel sec new N.rel)
    {x : Node × Bool} (hx : x = ({ N with
        rel := (reliable_flood_disseminate nc.rel sec hop verified pkt N.rel).1 },
      decide ((reliable_flood_disseminate nc.rel sec hop verified pkt N.rel).2 ≠
        .no_route))) :
    NodeInv nc sch signs (if x.2 = true then Delivery.deliver nc m x.1 else x.1) := by
  obtain ⟨ht, hon, hok⟩ := disseminate_terminal h.terminal hrun nc.my_id_range sec hop
    verified pkt hno
  have hret : (reliable_flood_disseminate nc.rel sec hop verified pkt N.rel).2 =
      .no_route := by
    cases hret : (reliable_flood_disseminate nc.rel sec hop verified pkt N.rel).2 with
    | no_route => rfl
    | buff_ok =>
      obtain ⟨m, hb, -⟩ := hok hret
      exact absurd hb (hbody m)
  rw [hx, if_neg (by simp [hret])]
  exact h.keep rfl ht hon

theorem NodeInv.disseminate (hprio : nc.prio_crypto = true) (hcrypto : nc.rel.crypto = true)
    (hunf : sch.Unforgeable signs) (h : NodeInv nc sch signs N) (hrun : N.rel.halt = .running)
    (src_link : Option ℕ) (env : Env) {m : Message} (hm : PlainMessage nc sch env.sec m N) :
    NodeInv nc sch signs
      (if (Delivery.disseminate nc sch src_link env m N).2 = true then
        Delivery.deliver nc m (Delivery.disseminate nc sch src_link env m N).1
      else (Delivery.disseminate nc sch src_link env m N).1) := by
  obtain ⟨hdr, body, signature, acks⟩ := m
  set m : Message := ⟨hdr, body, signature, acks⟩ with hmdef
  cases body with
  | priority data f_hdr elements elements_length =>
    -- the key is that of the node with the address in the header
    cases hlook : nc.lookup hdr.source with
    | none =>
      have heq : Delivery.disseminate nc sch src_link env m N = (N, false) := by
        simp only [Delivery.disseminate, signer, hmdef, hlook]
      rw [heq]
      exact h
    | some s =>
      set r := priority_flood_disseminate nc.prio src_link
        ⟨env.now, priority_flood_verify nc sch s m, env.mode, env.sends⟩
        ⟨s, (nc.lookup hdr.dest).getD 0, f_hdr.key, f_hdr.priority, f_hdr.expire, f_hdr.mask,
          elements, elements_length⟩ N.prio with hr
      have heq : Delivery.disseminate nc sch src_link env m N =
          ({ N with prio := r.1 }, decide (r.2 ≠ .no_route)) := by
        simp only [Delivery.disseminate, signer, hmdef, hlook, hr]
      have h1 : NodeInv nc sch signs { N with prio := r.1 } :=
        h.keep rfl h.terminal (Onward.refl _)
      rw [heq]
      split
      · rename_i hret
        rw [decide_eq_true_eq] at hret
        have hver : priority_flood_verify nc sch s m = true := by
          by_contra hno
          apply hret
          rw [hr, priority_flood_disseminate, if_pos (by simpa using hno)]
        unfold priority_flood_verify at hver
        rw [if_pos hprio] at hver
        refine h1.deliver (by simp only [signer, hmdef, hlook]) hlook (hunf _ _ _ hver)
          ?_ ?_ ?_ <;> intro r_hdr hb <;> exact absurd hb (by simp [hmdef])
      · exact h1
  | data r_hdr =>
    obtain ⟨ht, hon, hok⟩ := disseminate_terminal h.terminal hrun nc.my_id_range env.sec
      (src_link.getD 0) (reliable_flood_verify nc sch r_hdr.src m) ⟨.data r_hdr, acks⟩
      (fun new hb => absurd hb (by simp))
    set r := reliable_flood_disseminate nc.rel env.sec (src_link.getD 0)
      (reliable_flood_verify nc sch r_hdr.src m) ⟨.data r_hdr, acks⟩ N.rel with hr
    have heq : Delivery.disseminate nc sch src_link env m N =
        ({ N with rel := r.1 }, decide (r.2 ≠ .no_route)) := by
      simp only [Delivery.disseminate, hmdef, hr]
    have h1 : NodeInv nc sch signs { N with rel := r.1 } := h.keep rfl ht hon
    rw [heq]
    split
    · rename_i hret
      rw [decide_eq_true_eq] at hret
      have hret' : r.2 = .buff_ok := by
        cases h' : r.2 with
        | buff_ok => rfl
        | no_route => exact absurd h' hret
      obtain ⟨r_hdr', hb, hver, hfresh⟩ := hok hret'
      obtain rfl : r_hdr = r_hdr' := by simpa using hb
      obtain ⟨hsrc, hdst, hnode⟩ := hm.agree r_hdr rfl hver r_hdr rfl
      refine h1.deliver rfl hsrc (signs_of_verified hcrypto hunf hver) ?_ ?_ ?_
      · intro r_hdr' hb' hmine
        obtain rfl : r_hdr = r_hdr' := by simpa [hmdef] using hb'
        have hdst' : nc.lookup m.hdr.dest = some r_hdr.dest := hdst
        rw [hmine, nc.lookup_my_address] at hdst'
        exact (some.inj hdst').symm
      · intro _ _
        exact hnode
      · intro r_hdr' hb' hmine
        obtain rfl : r_hdr = r_hdr' := by simpa [hmdef] using hb'
        obtain ⟨hnew, hpassed⟩ := hfresh hmine
        exact ⟨fun hin => hnew (h.passed _ hin), hpassed⟩
    · exact h1
  | e2e ack =>
    refine h.control hrun m env.sec (src_link.getD 0)
      (reliable_flood_verify nc sch ack.dest m) ⟨.e2e ack, acks⟩ (by simp) (fun new hb hv => ?_) rfl
    obtain rfl : ack = new := by simpa using hb
    exact hm.keep ack rfl hv
  | saa =>
    exact h.control hrun m env.sec (src_link.getD 0) false ⟨.saa, acks⟩ (by simp)
      (fun new hb => absurd hb (by simp)) rfl
  | status_change creator =>
    exact h.control hrun m env.sec (src_link.getD 0) (reliable_flood_verify nc sch creator m)
      ⟨.status_change, acks⟩ (by simp) (fun new hb => absurd hb (by simp)) rfl

theorem NodeInv.forward (hprio : nc.prio_crypto = true) (hcrypto : nc.rel.crypto = true)
    (hunf : sch.Unforgeable signs) (h : NodeInv nc sch signs N) (hrun : N.rel.halt = .running)
    (src_link : Option ℕ) (env : Env) {m : Message} (hm : PlainMessage nc sch env.sec m N) :
    NodeInv nc sch signs (deliver_and_forward_data nc sch src_link env m N) := by
  unfold deliver_and_forward_data
  split
  · exact h
  · exact h.disseminate hprio hcrypto hunf hrun src_link env hm.hop

/-! ## 3. Messages of this daemon's own clients -/

theorem sign_message_fields {crypto : Bool} {hdr : UdpHeader} {body : Body} {m : Message}
    (h : sign_message sch crypto hdr body = some m) : m.hdr = hdr ∧ m.body = body := by
  unfold sign_message at h
  dsimp only at h
  split at h
  · obtain ⟨signature, -, rfl⟩ := map_eq_some_iff.mp h
    exact ⟨rfl, rfl⟩
  · obtain rfl := some.inj h
    exact ⟨rfl, rfl⟩

theorem NodeInv.send_priority (hprio : nc.prio_crypto = true) (hcrypto : nc.rel.crypto = true)
    (hunf : sch.Unforgeable signs) (h : NodeInv nc sch signs N) (hrun : N.rel.halt = .running)
    (env : Env) (hdr : UdpHeader) (data : List UInt8) (f_hdr : PrioHeader) (elements : List ℕ)
    (elements_length : elements.length < MAX_SCATTER_ELEMENTS) (disjoint_paths : ℕ)
    (stamp : ℕ → Option ℕ) :
    NodeInv nc sch signs (session_send_priority nc sch env hdr data f_hdr elements elements_length
      disjoint_paths stamp N) := by
  unfold session_send_priority
  dsimp only
  split
  · exact h
  split
  · exact h
  rename_i m hsign
  have hbody := (sign_message_fields hsign).2
  refine h.forward hprio hcrypto hunf hrun none env ⟨fun r_hdr hb => ?_, fun ack hb => ?_⟩
  · rw [hbody] at hb
    exact absurd hb (by simp)
  · rw [hbody] at hb
    exact absurd hb (by simp)

theorem NodeInv.send_reliable (hprio : nc.prio_crypto = true) (hcrypto : nc.rel.crypto = true)
    (hunf : sch.Unforgeable signs) (h : NodeInv nc sch signs N) (hrun : N.rel.halt = .running)
    (env : Env) {hdr : UdpHeader} (hsource : hdr.source = nc.my_address)
    (hnode : is_node_addr hdr.dest = true) (data : List UInt8) (disjoint_paths : ℕ)
    (stamp : ℕ → Option ℕ) :
    NodeInv nc sch signs (session_send_reliable nc sch env hdr data disjoint_paths stamp N) := by
  unfold session_send_reliable
  split
  · exact h
  rename_i dst_id hdst
  dsimp only
  split
  · set filled := fill_packet_header_reliable_flood nc.rel dst_id disjoint_paths
      ((stamp dst_id).getD 0) data N.rel
    have hrests : Rests N.rel filled.1 := Rests.of_eq rfl
    have h1 : NodeInv nc sch signs { N with rel := filled.1 } :=
      h.keep rfl (h.terminal.rests hrun hrests (fun _ _ => rfl)) hrests.onward
    split
    · exact h1
    split
    · exact h1
    rename_i m hsign
    obtain ⟨hhdr, hbody⟩ := sign_message_fields hsign
    have hrun1 : filled.1.halt = .running := hrun
    refine h1.forward hprio hcrypto hunf hrun1 none env
      ⟨fun r_hdr hb _ r_hdr' hb' => ?_, fun ack hb => ?_⟩
    · rw [hbody] at hb'
      obtain rfl : filled.2 = r_hdr' := by simpa using hb'
      rw [hhdr, hsource]
      exact ⟨nc.lookup_my_address, hdst, hnode⟩
    · rw [hbody] at hb
      exact absurd hb (by simp)
  · exact h

end Calls

/-! ## 4. Runs -/

section Runs

variable {nc : NodeConf} {sch : Scheme} {signs : ℕ → List UInt8 → Prop}

theorem nodeInv_init (nc : NodeConf) (sch : Scheme) (signs : ℕ → List UInt8 → Prop) (sec : ℕ) :
    NodeInv nc sch signs (init_node nc sec) where
  faithful := ⟨fun _ hx => absurd hx not_mem_nil, fun _ hx => absurd hx not_mem_nil,
    nodup_nil⟩
  terminal := terminal_init nc.rel sec
  passed := fun _ hx => absurd hx not_mem_nil

theorem NodeInv.step {N N' : Node} {e : Event} (hprio : nc.prio_crypto = true)
    (hcrypto : nc.rel.crypto = true) (hunf : sch.Unforgeable signs)
    (h : NodeInv nc sch signs N) (hstep : PlainStep nc sch N e N') : NodeInv nc sch signs N' := by
  obtain ⟨⟨hrun, -, hok, rfl⟩, hplain⟩ := hstep
  cases e with
  | receive k env m =>
    exact h.forward hprio hcrypto hunf hrun (some k) env ⟨hplain.1, hplain.2⟩
  | send_priority env dest source_port dest_port ttl data f_hdr elements hel disjoint_paths stamp =>
    exact h.send_priority hprio hcrypto hunf hrun env _ data f_hdr elements hel disjoint_paths stamp
  | send_reliable env dest source_port dest_port ttl data disjoint_paths stamp =>
    apply h.send_reliable hprio hcrypto hunf hrun env rfl
    exact hplain
  | rel e =>
    obtain ⟨ht, hon⟩ := handle_terminal h.terminal hrun e hok.2.1 hok.2.2
    exact h.keep rfl ht hon
  | prio e => exact h.keep rfl h.terminal (Onward.refl _)
  | group g active => exact h.keep rfl h.terminal (Onward.refl _)

/-- **Source authenticity.** In every run in which the headers of reliable flooding
agree and no ack makes the daemon forget messages, whatever a client gets carries the
address of the node whose key verified it, and that node signed it; a message of
reliable flooding is for this daemon and comes once. -/
theorem delivered_from_source (hprio : nc.prio_crypto = true) (hcrypto : nc.rel.crypto = true)
    (hunf : sch.Unforgeable signs) {sec : ℕ} {N : Node}
    (hrun : Run (PlainStep nc sch) (init_node nc sec) N) : Faithful nc sch signs N := by
  have hinv := hrun.invariant (NodeInv nc sch signs) (nodeInv_init nc sch signs sec)
    (fun _ _ _ h hstep => h.step hprio hcrypto hunf hstep)
  exact hinv.faithful

/-- Node `1` with one neighbour, node `2`; the addresses end in the number. -/
def leaf : NodeConf where
  my_address := 0x0A000001
  lookup := fun a => if 0x0A000001 ≤ a ∧ a ≤ 0x0A000003 then some (a - 0x0A000000) else none
  rel :=
    { my_id := 1
      degree := 1
      neighbor_ids := fun _ => 2
      mp_neighbor_mask := fun _ => 1
      hbh_advance := false
      hbh_opt := false
      e2e_opt := true
      crypto := true
      e2e_ack_timeout := 10 }
  prio_crypto := true
  max_mess_stored := 100
  link_header_size := fun _ => 40
  ns_threshold := 10
  overwrite_ip := 0
  lookup_range := by
    intro a s h
    split at h
    · obtain rfl := some.inj h
      unfold MAX_NODES
      omega
    · exact absurd h (by simp)
  lookup_my_address := rfl

/-- A signature is the signer and what was signed; node `3` signs nothing. -/
def names : Scheme where
  wire := fun c => match c with
    | .message hdr (.data m) =>
      [hdr.source % 256, hdr.dest % 256, m.src, m.dest, m.src_epoch, m.seq_num].map UInt8.ofNat
        ++ m.body
    | .message hdr _ => [hdr.source % 256, hdr.dest % 256].map UInt8.ofNat
    | .e2e ack => [ack.dest, (ack.cell 1).dest_epoch, (ack.cell 1).src_epoch].map UInt8.ofNat
    | .status_change creator => [UInt8.ofNat creator]
  verify := fun s bytes signature => s ≠ 3 ∧ signature = UInt8.ofNat s :: bytes
  sign := fun bytes => some (1 :: bytes)

def from_two (hdr : UdpHeader) (body : Body) : Message where
  hdr := hdr
  body := body
  signature := 2 :: names.wire (Message.signed ⟨hdr, body, [], []⟩)
  acks := []

def hello_ack (aru : ℕ) (h : aru < 2 ^ 64) : Message :=
  from_two ⟨0x0A000002, 0, 0, 0, 1⟩
    (.e2e ⟨2, fun i => if i = 1 then ⟨5, 7, aru, h⟩ else ⟨5, 0, 0, zero_lt_word⟩⟩)

def first_msg (source : ℕ) : Message :=
  from_two ⟨source, 0x0A000001, 9000, 9000, 8⟩ (.data ⟨2, 1, 5, 1, 1, [42]⟩)

def arrive (m : Message) (N : Node) : Node :=
  deliver_and_forward_data leaf names (some 1) ⟨100, ⟨0, 0⟩, 0, fun _ => []⟩ m N

theorem arrive_step {m : Message} {N : Node} (h : N.rel.halt = .running)
    (h' : N.prio.halt = .running) :
    Step leaf names N (.receive 1 ⟨100, ⟨0, 0⟩, 0, fun _ => []⟩ m) (arrive m N) :=
  ⟨h, h', show leaf.rel.nbr 1 by decide, rfl⟩

theorem names_unforgeable : names.Unforgeable (fun s _ => s ≠ 3) := by
  intro s bytes signature h
  simp only [names, decide_eq_true_eq] at h
  exact h.1

theorem delivered_from_source_once :
    ∃ N, Run (PlainStep leaf names) (init_node leaf 7) N ∧ N.delivered.length = 1 ∧
      Faithful leaf names (fun s _ => s ≠ 3) N := by
  set N1 := arrive (hello_ack 0 (by decide)) (init_node leaf 7)
  have hhello : PlainStep leaf names (init_node leaf 7)
      (.receive 1 ⟨100, ⟨0, 0⟩, 0, fun _ => []⟩ (hello_ack 0 (by decide))) N1 := by
    refine ⟨arrive_step rfl rfl, fun r_hdr hb => absurd hb (by simp [hello_ack, from_two]),
      fun ack hb _ => ?_⟩
    obtain rfl := Body.e2e.inj hb
    decide +kernel
  have hmsg : PlainStep leaf names N1
      (.receive 1 ⟨100, ⟨0, 0⟩, 0, fun _ => []⟩ (first_msg 0x0A000002))
      (arrive (first_msg 0x0A000002) N1) := by
    refine ⟨arrive_step (by decide +kernel) (by decide +kernel), fun r_hdr _ _ m hb => ?_,
      fun ack hb => absurd hb (by simp [first_msg, from_two])⟩
    obtain rfl := Body.data.inj hb
    decide +kernel
  have hrun := ((Run.refl _).tail hhello).tail hmsg
  refine ⟨_, hrun, ?_, delivered_from_source rfl rfl names_unforgeable hrun⟩
  decide +kernel

/-- Node `2` signs a message under its own number and the address of node `3`. The
client of node `1` sees a message from node `3`, which signs nothing. -/
theorem borrowed_address :
    names.Unforgeable (fun s _ => s ≠ 3) ∧
      ∃ N, Run (Step leaf names) (init_node leaf 7) N ∧
        (∃ x ∈ N.delivered, signer leaf x.msg = some 2 ∧ leaf.lookup x.hdr.source = some 3) ∧
        ¬ Faithful leaf names (fun s _ => s ≠ 3) N := by
  set N1 := arrive (hello_ack 0 (by decide)) (init_node leaf 7)
  set N2 := arrive (first_msg 0x0A000003) N1
  have hrun : Run (Step leaf names) (init_node leaf 7) N2 := by
    refine ((Run.refl _).tail (arrive_step rfl rfl)).tail (arrive_step ?_ ?_)
    · decide +kernel
    · decide +kernel
  have hdel : ∃ x ∈ N2.delivered, signer leaf x.msg = some 2 ∧ leaf.lookup x.hdr.source = some 3 := by
    decide +kernel
  refine ⟨names_unforgeable, N2, hrun, hdel, fun h => ?_⟩
  obtain ⟨x, hx, -, hsource⟩ := hdel
  obtain ⟨s, -, hs, hsigned⟩ := h.authentic x hx
  rw [hsource] at hs
  exact hsigned (some.inj hs).symm

end Runs

end Spines.Delivery
