/-
`daemon/session.c`: the dissemination protocol a client's message gets.

`LINKS_TYPE_MSG` checks the choice of a session once. The data path does not look at
`routing_used` again: `Process_Session_Packet`, `Session_Send_Message` and
`Deliver_and_Forward_Data` take the protocol from the byte `routing` in the header of each
message, which is the client's, and in `Dissemination_Header_Size` a byte that names no
protocol ends the daemon. So the check counts for the messages whose byte says what the
session has chosen, and for no others.

The commands other than `LINKS_TYPE_MSG` close the session, make it a reliable one or leave
it; which, is part of the packet. The messages of a reliable session meet neither `switch` in
their own daemon: they wait in the session and go out by its window, at once, later or again.
But they keep the byte of the client. `Forward_UDP_Data` and `Forward_RT_UDP_Data` ask for the
size of its protocol's header, and the `switch` of the next daemon goes by it. Over UDP and
realtime links the packet has no room for a header and is dropped where it needs one; a
reliable link takes it.
-/
import Spines.Client.Read

set_option autoImplicit false

namespace Spines.Client.Chosen

open Spines.Lib

/-! ## 1. The daemon -/

def LINKS_TYPE_MSG : ℤ := 7
def INTRUSION_TOL_LINKS : ℤ := 8
def MAX_PKTS_PER_MESSAGE : ℕ := 45

structure Conf where
  endian : Endian
  Config_File_Found : Bool
  MultiPath_Bitmask_Size : ℕ
  Prio_Signature_Len : ℕ
  Rel_Signature_Len : ℕ
  Cipher_Blk_Len : ℕ
  HMAC_Key_Len : ℕ

/-- `ses->data`, and what a command other than `LINKS_TYPE_MSG` does: it closes the session,
or it leaves `r_data` in some way. -/
structure Packet where
  data : Mem
  read_len : ℕ
  other : Option Bool

structure Session where
  same_endian : Bool
  links_used : ℤ
  routing_used : ℤ
  /-- `r_data` is not `NULL`. -/
  r_data : Bool
  /-- After `Session_Close`. -/
  closed : Bool
  /-- The messages that `Process_Reliable_Session_Packet` has taken. Which of them wait in
  `msg_buff`, are in the window or are acknowledged is left open. -/
  held : List Packet

/-- A session as `Session_Accept` makes it, in memory with an old `links_used`. -/
def accepted (same_endian : Bool) (links_used : ℤ) : Session :=
  ⟨same_endian, links_used, MIN_WEIGHT_ROUTING, false, false, []⟩

/-- The functions that send the messages of a reliable session. -/
inductive Sender
  | Reliable_Ses_Send
  | Ses_Send_Much
  | Ses_Reliable_Timeout
  | Ses_Send_Nack_Retransm
  deriving DecidableEq

/-- One sending of a message of a reliable session. The next hop is never `This_Node`. -/
structure Sending where
  sender : Sender
  /-- The message, by its place in `held`. -/
  msg : ℕ
  /-- `u_hdr->dest == My_Address`. -/
  self : Bool
  /-- `Get_Best_Link` finds a link to the next hop. -/
  link : Bool
  /-- The packet is not lost on the way, and the next daemon has no reason to drop it but the
  header of its protocol. -/
  arrives : Bool

/-- A packet has come from the client, or the session sends. -/
inductive Event
  | reads (p : Packet)
  | sends (s : Sending)

/-- What becomes of a packet. The last three are the `Alarm(EXIT)` of `Link_Header_Size` and of
`Dissemination_Header_Size`, here and in the next daemon. -/
inductive Fate
  | command
  | reliable
  | dropped
  | sent
  | disseminated (routing : ℤ)
  | exit_link
  | exit_dissemination
  | exit_neighbor
  deriving DecidableEq

section Daemon

variable (cf : Conf)

/-- `Link_Header_Size(Get_Ses_Mode(links_used))`. -/
def Link_Header_Size (links_used : ℤ) : Option ℕ :=
  if links_used = 0 then some 20
  else if links_used = 1 then some (20 + 8 + 8)
  else if links_used = 2 then some (20 + 8)
  else if links_used = INTRUSION_TOL_LINKS then
    some (20 + 48 + 8 + 2 * cf.Cipher_Blk_Len + cf.HMAC_Key_Len)
  else none

def Dissemination_Header_Size (dissemination : ℤ) : Option ℕ :=
  if dissemination = MIN_WEIGHT_ROUTING then some 0
  else if dissemination = IT_PRIORITY_ROUTING then
    some (40 + cf.MultiPath_Bitmask_Size + cf.Prio_Signature_Len + 4)
  else if dissemination = IT_RELIABLE_ROUTING then
    some (24 + cf.MultiPath_Bitmask_Size + cf.Rel_Signature_Len + 4 + 4 + 24 + 4)
  else if dissemination = SOURCE_BASED_ROUTING then some (8 + cf.MultiPath_Bitmask_Size)
  else none

/-- The two conditions under which `LINKS_TYPE_MSG` closes the session. -/
def Refused (links_used routing_used : ℤ) : Prop :=
  (links_used ≠ INTRUSION_TOL_LINKS ∧
      (routing_used = IT_PRIORITY_ROUTING ∨ routing_used = IT_RELIABLE_ROUTING)) ∨
    (cf.Config_File_Found = false ∧
      (links_used = INTRUSION_TOL_LINKS ∨ routing_used = IT_PRIORITY_ROUTING ∨
        routing_used = IT_RELIABLE_ROUTING ∨ routing_used = SOURCE_BASED_ROUTING))

instance (links_used routing_used : ℤ) : Decidable (Refused cf links_used routing_used) :=
  inferInstanceAs (Decidable (_ ∨ _))

/-- An `int32` of a command, in the order of the client. -/
def int32_at (ses : Session) (data : Mem) (pos : ℕ) : ℤ :=
  of_word 4 (if ses.same_endian then data.load cf.endian pos 4
    else flip_word 4 (data.load cf.endian pos 4))

def Packet.command (p : Packet) : Bool :=
  p.data.load cf.endian 16 2 = 0 ∧ p.data.load cf.endian 0 4 = 0 ∧ p.data.load cf.endian 4 4 = 0

/-- `hdr->routing << ROUTING_BITS_SHIFT`. -/
def Packet.routing (p : Packet) : ℤ := (p.data 25).toNat * 256

/-- `Session_Close` with `Close_Reliable_Session`. -/
def Session.close (ses : Session) : Session := { ses with closed := true, r_data := false }

def Session.commanded (ses : Session) (p : Packet) : Session :=
  if int32_at cf ses p.data 28 = LINKS_TYPE_MSG then
    let links_used := int32_at cf ses p.data 32
    let routing_used := int32_at cf ses p.data 36
    let ses := { ses with links_used := links_used, routing_used := routing_used }
    if Refused cf links_used routing_used then ses.close else ses
  else
    match p.other with
    | none => ses.close
    | some r_data => { ses with r_data := r_data }

/-- A message, up to the `switch` in `Deliver_and_Forward_Data`. -/
def Session.message (ses : Session) (p : Packet) : Fate :=
  if ses.r_data then .reliable
  else if p.data.load cf.endian 16 2 + sizeof_udp_header ≠ p.read_len then .dropped
  else
    match Link_Header_Size cf ses.links_used, Dissemination_Header_Size cf p.routing with
    | none, _ => .exit_link
    | _, none => .exit_dissemination
    | some link_header, some size =>
      if (p.read_len : ℤ) > MAX_MESSAGE_SIZE - MAX_PKTS_PER_MESSAGE * link_header - size then
        .dropped
      else .disseminated p.routing

/-- `Process_Reliable_Session_Packet` up to `Reliable_Ses_Send`: the byte `routing` stays. -/
def Session.take (ses : Session) (p : Packet) : Session :=
  if ses.r_data then { ses with held := ses.held ++ [p] } else ses

def Process_Session_Packet (ses : Session) (p : Packet) : Session × Fate :=
  if p.command cf then (ses.commanded cf p, .command) else (ses.take p, ses.message cf p)

/-- Also `Forward_RT_UDP_Data`: the header of the packet gets a size that the packet does not
have, and unless it is 0, `Read_UDP` of the next daemon drops the packet. -/
def Forward_UDP_Data (p : Packet) (s : Sending) : Fate :=
  if s.link then
    match Dissemination_Header_Size cf p.routing with
    | none => .exit_dissemination
    | some size => if s.arrives ∧ size = 0 then .disseminated p.routing else .sent
  else .dropped

/-- Here it is `Process_rel_udp_data_packet` of the next daemon that asks for the size. -/
def Forward_Rel_UDP_Data (p : Packet) (s : Sending) : Fate :=
  if s.link then
    if s.arrives then
      match Dissemination_Header_Size cf p.routing with
      | none => .exit_neighbor
      | some _ => .disseminated p.routing
    else .sent
  else .dropped

/-- A message for the own daemon goes to `Deliver_UDP_Data` or, when sent again, nowhere. Only
`Ses_Send_Much` takes UDP for any other links. -/
def Session.forward (ses : Session) (s : Sending) (p : Packet) : Fate :=
  if s.self then .sent
  else if ses.links_used = 1 then Forward_Rel_UDP_Data cf p s
  else if ses.links_used = 0 ∨ ses.links_used = 2 ∨ s.sender = .Ses_Send_Much then
    Forward_UDP_Data cf p s
  else .dropped

def Session.send (ses : Session) (s : Sending) : Fate :=
  match ses.held[s.msg]? with
  | some p => if ses.r_data then ses.forward cf s p else .dropped
  | none => .dropped

/-- A session that is closed reads no more. -/
def Session.step (ses : Session) : Event → Session × Fate
  | .reads p => if ses.closed then (ses, .dropped) else Process_Session_Packet cf ses p
  | .sends s => (ses, ses.send cf s)

/-- The events, each with the session it meets. After an exit there is nothing. -/
def processed : List Event → Session → List (Session × Event)
  | [], _ => []
  | e :: es, ses =>
    (ses, e) ::
      match ses.step cf e with
      | (_, .exit_link) => []
      | (_, .exit_dissemination) => []
      | (ses', _) => processed es ses'

/-! ## 2. The choice and the protocol -/

def Session.Checked (ses : Session) : Prop :=
  (ses.routing_used = IT_PRIORITY_ROUTING ∨ ses.routing_used = IT_RELIABLE_ROUTING →
      ses.links_used = INTRUSION_TOL_LINKS) ∧
    (cf.Config_File_Found = false → ses.routing_used ≠ IT_PRIORITY_ROUTING ∧
      ses.routing_used ≠ IT_RELIABLE_ROUTING ∧ ses.routing_used ≠ SOURCE_BASED_ROUTING)

/-- What comes of the event is disseminated by the checked choice of the session, if at all,
and ends no daemon. -/
def Obeys (x : Session × Event) : Prop :=
  (∀ routing, (x.1.step cf x.2).2 = .disseminated routing →
      routing = x.1.routing_used ∧ x.1.Checked cf) ∧
    (x.1.step cf x.2).2 ≠ .exit_dissemination ∧ (x.1.step cf x.2).2 ≠ .exit_neighbor

/-- A message of a session that is not reliable names a protocol, and when it is short enough
to be sent, the one of the session. -/
def Packet.Names (p : Packet) (ses : Session) : Prop :=
  p.command cf = false → ses.r_data = false →
    p.data.load cf.endian 16 2 + sizeof_udp_header = p.read_len →
      ∀ link_header, Link_Header_Size cf ses.links_used = some link_header →
        ∃ size, Dissemination_Header_Size cf p.routing = some size ∧
          ((p.read_len : ℤ) ≤ MAX_MESSAGE_SIZE - MAX_PKTS_PER_MESSAGE * link_header - size →
            p.routing = ses.routing_used)

/-- A message that is sent by a UDP or realtime link names a protocol, and if that has no header
and the packet arrives, the one of the session. One that arrives by a reliable link names the
one of the session. -/
def Sending.Names (s : Sending) (p : Packet) (ses : Session) : Prop :=
  s.self = false → s.link = true →
    (ses.links_used = 1 → s.arrives = true →
      (Dissemination_Header_Size cf p.routing).isSome ∧ p.routing = ses.routing_used) ∧
    (ses.links_used ≠ 1 →
      (ses.links_used = 0 ∨ ses.links_used = 2 ∨ s.sender = .Ses_Send_Much) →
        ∃ size, Dissemination_Header_Size cf p.routing = some size ∧
          (s.arrives = true → size = 0 → p.routing = ses.routing_used))

def Names (x : Session × Event) : Prop :=
  match x.2 with
  | .reads p => x.1.closed = false → p.Names cf x.1
  | .sends s => x.1.r_data = true → ∀ p, x.1.held[s.msg]? = some p → s.Names cf p x.1

variable {cf}

theorem checked_of_not_refused {links_used routing_used : ℤ}
    (h : ¬Refused cf links_used routing_used) (same r_data closed : Bool) (held : List Packet) :
    Session.Checked cf ⟨same, links_used, routing_used, r_data, closed, held⟩ := by
  rw [Refused, not_or] at h
  refine ⟨fun hit => by_contra fun hne => h.1 ⟨hne, hit⟩, fun hfile => ⟨?_, ?_, ?_⟩⟩
  · exact fun heq => h.2 ⟨hfile, .inr (.inl heq)⟩
  · exact fun heq => h.2 ⟨hfile, .inr (.inr (.inl heq))⟩
  · exact fun heq => h.2 ⟨hfile, .inr (.inr (.inr heq))⟩

/-- A session that goes on has been checked, and a closed one neither reads nor sends. -/
def Session.Sound (cf : Conf) (ses : Session) : Prop :=
  ses.closed = true ∧ ses.r_data = false ∨ ses.Checked cf

theorem commanded_sound {ses : Session} (h : ses.Checked cf) (p : Packet) :
    (ses.commanded cf p).Sound cf := by
  rw [Session.commanded]
  split
  · by_cases href : Refused cf (int32_at cf ses p.data 32) (int32_at cf ses p.data 36)
    · dsimp only
      rw [if_pos href]
      exact .inl ⟨rfl, rfl⟩
    · dsimp only
      rw [if_neg href]
      exact .inr (checked_of_not_refused href ses.same_endian ses.r_data _ ses.held)
  · cases p.other with
    | none => exact .inl ⟨rfl, rfl⟩
    | some r_data => exact .inr h

theorem take_checked {ses : Session} (h : ses.Checked cf) (p : Packet) :
    (ses.take p).Checked cf := by
  rw [Session.take]
  split
  · exact h
  · exact h

theorem step_sound {ses : Session} (h : ses.Sound cf) (e : Event) :
    (ses.step cf e).1.Sound cf := by
  cases e with
  | sends s => exact h
  | reads p =>
    rw [Session.step]
    cases hclosed : ses.closed with
    | true =>
      rw [if_pos rfl]
      exact h
    | false =>
      have hses : ses.Checked cf := h.resolve_left (by simp [hclosed])
      rw [if_neg (by simp), Process_Session_Packet]
      by_cases hcommand : p.command cf = true
      · rw [if_pos hcommand]
        dsimp only
        exact commanded_sound hses p
      · rw [if_neg hcommand]
        dsimp only
        exact .inr (take_checked hses p)

theorem processed_cons {e : Event} {ses ses' : Session} {fate : Fate} (es : List Event)
    (h : ses.step cf e = (ses', fate)) (hlink : fate ≠ .exit_link)
    (hdissemination : fate ≠ .exit_dissemination) :
    processed cf (e :: es) ses = (ses, e) :: processed cf es ses' := by
  rw [processed, h]
  cases fate with
  | exit_link => exact absurd rfl hlink
  | exit_dissemination => exact absurd rfl hdissemination
  | _ => rfl

theorem processed_sound (es : List Event) (ses : Session) (h : ses.Sound cf) :
    ∀ x ∈ processed cf es ses, x.1.Sound cf := by
  induction es generalizing ses with
  | nil => simp [processed]
  | cons e es ih =>
    intro x hx
    rw [processed] at hx
    rcases List.mem_cons.mp hx with rfl | hx
    · exact h
    · have hnext := step_sound h e
      generalize ses.step cf e = r at hx hnext
      obtain ⟨ses', fate⟩ := r
      cases fate with
      | exit_link => simp at hx
      | exit_dissemination => simp at hx
      | _ => exact ih ses' hnext x hx

theorem reads_obeys_iff {ses : Session} (h : ses.Sound cf) (p : Packet) :
    Obeys cf (ses, .reads p) ↔ Names cf (ses, .reads p) := by
  simp only [Obeys, Names, Session.step]
  cases hclosed : ses.closed with
  | true => simp
  | false =>
    replace h := h.resolve_left (by simp [hclosed])
    simp only [Bool.false_eq_true, if_false, true_imp_iff, Packet.Names, Process_Session_Packet]
    cases hcommand : p.command cf with
    | true => simp
    | false =>
      simp only [Bool.false_eq_true, if_false, Session.message]
      cases hrel : ses.r_data with
      | true => simp
      | false =>
        by_cases hlen : p.data.load cf.endian 16 2 + sizeof_udp_header = p.read_len
        · cases hlink : Link_Header_Size cf ses.links_used with
          | none => simp [hlen]
          | some link_header =>
            cases hsize : Dissemination_Header_Size cf p.routing with
            | none => simp [hlen]
            | some size =>
              by_cases hlong :
                  (p.read_len : ℤ) > MAX_MESSAGE_SIZE - MAX_PKTS_PER_MESSAGE * link_header - size
              · simp [hlen, hlong]
              · simp [hlen, hlong, h]
                exact .inl (not_lt.mp hlong)
        · simp [hlen]

/-- By a reliable link the neighbor asks, by the others this daemon. -/
theorem forward_obeys_iff {ses : Session} (h : ses.Checked cf) (s : Sending) (p : Packet) :
    ((∀ routing, ses.forward cf s p = .disseminated routing →
        routing = ses.routing_used ∧ ses.Checked cf) ∧
      ses.forward cf s p ≠ .exit_dissemination ∧ ses.forward cf s p ≠ .exit_neighbor) ↔
    s.Names cf p ses := by
  simp only [Session.forward, Sending.Names, h, and_true]
  cases hself : s.self with
  | true => simp
  | false =>
    by_cases hrel : ses.links_used = 1
    · simp only [Bool.false_eq_true, if_false, hrel, if_true, Forward_Rel_UDP_Data]
      cases s.link <;> cases s.arrives <;> cases Dissemination_Header_Size cf p.routing <;> simp
    · by_cases hudp : ses.links_used = 0 ∨ ses.links_used = 2 ∨ s.sender = .Ses_Send_Much
      · simp only [Bool.false_eq_true, if_false, hrel, hudp, if_true, Forward_UDP_Data]
        cases s.link <;> cases Dissemination_Header_Size cf p.routing with
        | none => simp [hrel]
        | some size =>
          by_cases hsize : s.arrives = true ∧ size = 0
          · simp [hrel, hsize]
          · simp only [hsize]
            grind
      · simp [hrel, hudp]

theorem sends_obeys_iff {ses : Session} (h : ses.Sound cf) (s : Sending) :
    Obeys cf (ses, .sends s) ↔ Names cf (ses, .sends s) := by
  simp only [Obeys, Names, Session.step, Session.send]
  cases hheld : ses.held[s.msg]? with
  | none => simp
  | some p =>
    cases hrel : ses.r_data with
    | false => simp
    | true =>
      have hses : ses.Checked cf := h.resolve_left (by simp [hrel])
      simpa using forward_obeys_iff hses s p

theorem obeys_iff {ses : Session} (h : ses.Sound cf) (e : Event) :
    Obeys cf (ses, e) ↔ Names cf (ses, e) := by
  cases e with
  | reads p => exact reads_obeys_iff h p
  | sends s => exact sends_obeys_iff h s

/-- **In every run the checked choice is obeyed exactly when every message names it.** -/
theorem choice_obeyed_iff (es : List Event) (same_endian : Bool) (links_used : ℤ) :
    (∀ x ∈ processed cf es (accepted same_endian links_used), Obeys cf x) ↔
      ∀ x ∈ processed cf es (accepted same_endian links_used), Names cf x := by
  have hfirst : (accepted same_endian links_used).Checked cf := by
    simp [Session.Checked, accepted, MIN_WEIGHT_ROUTING, IT_PRIORITY_ROUTING, IT_RELIABLE_ROUTING,
      SOURCE_BASED_ROUTING]
  have hsound := processed_sound es _ (.inr hfirst)
  exact forall₂_congr fun x hx => obeys_iff (hsound x hx) x.2

end Daemon

/-! A daemon without configuration file, and a client that has chosen nothing: its message to
node 1 is for reliable flooding. Another client connects, and its message names no protocol. -/

def no_file : Conf := ⟨.little, false, 0, 0, 0, 16, 32⟩

def flooded : Packet :=
  ⟨fun i => if i = 4 then 1 else if i = 16 then 4 else if i = 25 then 2 else 0, 32, none⟩

def connect : Packet := ⟨fun i => if i = 28 then 2 else 0, 60, some true⟩

def unnamed : Packet :=
  ⟨fun i => if i = 4 then 1 else if i = 16 then 12 else if i = 25 then 9 else if i = 32 then 4
    else 0, 40, none⟩

def sent_at_once : Sending := ⟨.Reliable_Ses_Send, 0, false, true, false⟩

theorem unchecked_protocol :
    (¬∀ x ∈ processed no_file [.reads flooded] (accepted true 0), Obeys no_file x) ∧
      ¬∀ x ∈ processed no_file [.reads connect, .reads unnamed, .sends sent_at_once]
        (accepted true 0), Obeys no_file x := by
  constructor
  · intro h
    have hfirst := h (accepted true 0, .reads flooded) List.mem_cons_self
    have hfate : ((accepted true 0).step no_file (.reads flooded)).2 =
        .disseminated IT_RELIABLE_ROUTING := by decide +kernel
    exact absurd (hfirst.1 _ hfate).1 (by decide)
  · intro h
    have hconnect : (accepted true 0).step no_file (.reads connect) =
        ({ accepted true 0 with r_data := true }, .command) := by
      have hcommand : connect.command no_file = true := by decide +kernel
      have hother : int32_at no_file (accepted true 0) connect.data 28 ≠ LINKS_TYPE_MSG := by
        decide +kernel
      rw [Session.step, if_neg (by decide), Process_Session_Packet, if_pos hcommand,
        Session.commanded, if_neg hother]
      rfl
    have hunnamed : Session.step no_file { accepted true 0 with r_data := true } (.reads unnamed) =
        ({ accepted true 0 with r_data := true, held := [unnamed] }, .reliable) := by
      have hdata : ¬unnamed.command no_file = true := by decide +kernel
      rw [Session.step, if_neg (by decide), Process_Session_Packet, if_neg hdata]
      rfl
    rw [processed_cons _ hconnect (by decide) (by decide),
      processed_cons _ hunnamed (by decide) (by decide), processed] at h
    have hlast := h _ (.tail _ (.tail _ (.head _)))
    exact hlast.2.1 (by decide +kernel)

end Spines.Client.Chosen
