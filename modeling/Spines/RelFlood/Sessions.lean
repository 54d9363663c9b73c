/-
Client sessions of reliable flooding, with the back-pressure of `RELIABLE_STREAM` sessions
(`daemon/session.c`, `daemon/reliable_flood.c`).

A session hands its message to `Session_Send_Message` in `ses->scat`. When the flow to the
destination cannot send, the message stays there, the session waits in `Sess_List` of the
destination, and its socket is not read. `Reliable_Flood_Resume_Sessions` sends what waits.
A client with a UDP socket is read through a socket that all such clients share, which nobody
stops.

Sessions of this kind have `rel_blocked` 0. A client message is one whose destination is in
the configuration and which is not too large; others are dropped when they are read. What is
delivered at this daemon, and what that does to the sessions there, is left out.
-/
import Spines.RelFlood.Daemon

set_option autoImplicit false

namespace Spines.RelFlood

open Spines.Lib

/-! ## 1. State -/

structure ClientMsg where
  dst : ℕ
  num_paths : ℕ
  body : List UInt8
  dst_ok : 1 ≤ dst ∧ dst ≤ MAX_NODES
  deriving DecidableEq

/-- What `Session_Send_Message` finds out about a message: the time, its `ttl` and mask, and
whether signing works. -/
structure SignEnv where
  sec : ℕ
  stamp : Stamp
  sign_ok : Bool

structure Session where
  blocked : Bool
  scat : Option ClientMsg
  /-- `fd_flags & READ_DESC`: `READ_FD` is attached. -/
  read_desc : Bool
  deriving DecidableEq

/-- The daemon, its sessions (`Sessions_ID`) and `Sess_List`; and for every session the
messages that were read from its client, and those that the flow accepted. -/
structure Host where
  daemon : Daemon
  session : ℕ → Option Session
  sess_list : ℕ → List ℕ
  read : ℕ → List ClientMsg
  injected : ℕ → List ClientMsg

def Host.set_session (H : Host) (sid : ℕ) (ses : Session) : Host :=
  { H with session := Function.update H.session sid (some ses) }

/-! ## 2. Sending -/

def flow_space (cf : Conf) (dst : ℕ) (D : Daemon) : Prop :=
  (D.fb cf.my_id dst).head_seq < int64u ((D.fb cf.my_id dst).sow + MAX_MESS_PER_FLOW)

instance (cf : Conf) (dst : ℕ) (D : Daemon) : Decidable (flow_space cf dst D) :=
  inferInstanceAs (Decidable (_ < _))

def reliable_flood_block_session (cf : Conf) (sid dst : ℕ) (ses : Session) (H : Host) : Host :=
  if dst < 1 ∨ MAX_NODES < dst then H
  else if ses.blocked then H
  else if reliable_flood_can_flow_send cf dst H.daemon then H
  else
    { H.set_session sid { ses with blocked := true, read_desc := false } with
      sess_list := Function.update H.sess_list dst (H.sess_list dst ++ [sid]) }

/-- What `Reliable_Flood_Disseminate` returns for the message. -/
def client_ret (cf : Conf) (env : SignEnv) (m : ClientMsg) (D : Daemon) : Ret :=
  let filled :=
    fill_packet_header_reliable_flood cf m.dst m.num_paths env.stamp.mask m.body D
  (reliable_flood_disseminate cf env.sec 0 true ⟨.data filled.2, []⟩ filled.1).2

def client_accepted (cf : Conf) (env : SignEnv) (m : ClientMsg) (D : Daemon) : Prop :=
  ¬(env.stamp.ttl = 0 ∨ (cf.crypto ∧ env.sign_ok = false)) ∧ client_ret cf env m D = .buff_ok

instance (cf : Conf) (env : SignEnv) (m : ClientMsg) (D : Daemon) :
    Decidable (client_accepted cf env m D) :=
  inferInstanceAs (Decidable (_ ∧ _))

/-- `Session_Send_Message` of session `sid`. There is no value without a message. -/
def Host.send (cf : Conf) (env : SignEnv) (sid : ℕ) (H : Host) : Option Host := do
  let ses ← H.session sid
  let m ← ses.scat
  if ses.blocked = false ∧ reliable_flood_can_flow_send cf m.dst H.daemon then
    return { H.set_session sid { ses with scat := none } with
      daemon :=
        session_send_message cf env.sec m.dst m.num_paths env.stamp env.sign_ok m.body H.daemon
      injected :=
        if client_accepted cf env m H.daemon then
          Function.update H.injected sid (H.injected sid ++ [m])
        else H.injected }
  else return reliable_flood_block_session cf sid m.dst ses H

/-- `Process_Session_Packet`: the message takes the place of what is in `scat`. -/
def Host.process_session_packet (cf : Conf) (env : SignEnv) (sid : ℕ) (m : ClientMsg) (H : Host) :
    Option Host := do
  let ses ← H.session sid
  Host.send cf env sid
    { H.set_session sid { ses with scat := some m } with
      read := Function.update H.read sid (H.read sid ++ [m]) }

/-! ## 3. Blocking and resuming -/

/-- `Resume_Session`, when the session is still there. -/
def Host.resume_session (H : Host) (sid : ℕ) : Host :=
  { H with
    session := Function.update H.session sid
      ((H.session sid).map fun ses => { ses with read_desc := true }) }

def Host.resume_first (cf : Conf) (env : SignEnv) (sid : ℕ) (H : Host) : Option Host :=
  match H.session sid with
  | none => some H
  | some ses =>
    (Host.send cf env sid (H.set_session sid { ses with blocked := false })).map
      (·.resume_session sid)

/-- `so->next` is taken out of the list, which may have become longer. -/
def Host.drop_first (dst : ℕ) (H : Host) : Host :=
  { H with sess_list := Function.update H.sess_list dst (H.sess_list dst).tail }

/-- The loop of `Reliable_Flood_Resume_Sessions`, with what `Session_Send_Message` finds out
in each round; it has no value when it is not over after these rounds. -/
def reliable_flood_resume_sessions (cf : Conf) (dst : ℕ) : List SignEnv → Host → Option Host
  | envs, H =>
    match H.sess_list dst with
    | [] => some H
    | sid :: _ =>
      if flow_space cf dst H.daemon ∧ H.daemon.handshake_complete dst = true then
        match envs with
        | [] => none
        | env :: envs => do
            let H' ← H.resume_first cf env sid
            reliable_flood_resume_sessions cf dst envs (H'.drop_first dst)
      else some H

/-- `Block_All_Sessions` (`false`) and `Resume_All_Sessions` (`true`). -/
def Host.read_all (on : Bool) (H : Host) : Host :=
  { H with session := fun sid => (H.session sid).map fun ses => { ses with read_desc := on } }

/-! ## 4. Runs -/

inductive HostEvent
  | connect (sid : ℕ)
  /-- `Session_Close`. -/
  | close (sid : ℕ)
  /-- `Session_Read` has a message. -/
  | message (sid : ℕ) (m : ClientMsg) (env : SignEnv)
  /-- `Session_UDP_Read` has one (a long packet is several messages), or `Session_Read` was
  called for `EXCEPT_FD`, which stays attached. -/
  | datagram (sid : ℕ) (m : ClientMsg) (env : SignEnv)
  | block_all
  | resume_all
  | resume (dst : ℕ) (envs : List SignEnv)
  | flooding (e : Event)

def HostEvent.Enabled (cf : Conf) (H : Host) : HostEvent → Prop
  | .connect sid => H.session sid = none
  | .message sid _ _ => ∃ ses, H.session sid = some ses ∧ ses.read_desc = true
  | .flooding e => e.Ok cf ∧ ∀ sec dst np stamp ok body, e ≠ .client sec dst np stamp ok body
  | _ => True

def Host.handle (cf : Conf) (H : Host) : HostEvent → Option Host
  | .connect sid =>
    some { H.set_session sid ⟨false, none, true⟩ with
      read := Function.update H.read sid []
      injected := Function.update H.injected sid [] }
  | .close sid => some { H with session := Function.update H.session sid none }
  | .message sid m env => H.process_session_packet cf env sid m
  | .datagram sid m env => H.process_session_packet cf env sid m
  | .block_all => some (H.read_all false)
  | .resume_all => some (H.read_all true)
  | .resume dst envs =>
    if dst < 1 ∨ MAX_NODES < dst then some H else reliable_flood_resume_sessions cf dst envs H
  | .flooding e => some { H with daemon := RelFlood.handle cf H.daemon e }

def Host.Step (cf : Conf) (H : Host) (e : HostEvent) (H' : Host) : Prop :=
  H.daemon.halt = .running ∧ e.Enabled cf H ∧ H.handle cf e = some H'

def init_host (cf : Conf) (sec : ℕ) : Host where
  daemon := init_reliable_flooding cf sec
  session := fun _ => none
  sess_list := fun _ => []
  read := fun _ => []
  injected := fun _ => []

/-! ## 5. What back-pressure promises -/

/-- Session `sid` waits with message `m`: this is the one message that was read and not
injected, the session is in one list, and its socket is not read. -/
structure Pending (H : Host) (sid : ℕ) (ses : Session) (m : ClientMsg) : Prop where
  scat : ses.scat = some m
  once : (H.sess_list m.dst).count sid = 1
  only : ∀ d, d ≠ m.dst → sid ∉ H.sess_list d
  detached : ses.read_desc = false
  injected : H.read sid = H.injected sid ++ [m]

/-- Session `sid` does not wait: all that was read was injected, in order. -/
structure Idle (H : Host) (sid : ℕ) (ses : Session) : Prop where
  scat : ses.scat = none
  nowhere : ∀ d, sid ∉ H.sess_list d
  injected : H.read sid = H.injected sid

def Host.LosesNothing (H : Host) : Prop :=
  ∀ sid ses, H.session sid = some ses →
    (ses.blocked = true → ∃ m, Pending H sid ses m) ∧ (ses.blocked = false → Idle H sid ses)

end Spines.RelFlood
