/-
The sessions of a daemon and the tables that find them (`Session_Accept`,
`Session_Close`, `Process_Session_Packet` of `daemon/session.c`,
`Disconnect_Reliable_Session` of `daemon/reliable_session.c`).

A session is found by its number (`Sessions_ID`), by its virtual port (`Sessions_Port`)
and by the socket of its client (`Sessions_Sock`). Objects get a new name with every
allocation, so that a pointer to a disposed session is never taken for another session.
A descriptor is open from the `accept` that returns it until the daemon closes it;
`accept` returns one that is not open.

The handlers are cut at the calls that work on the tables: sending to a client, a reply
or a hello that ends in a close is that close as an event of its own. A command on a
session that was disposed is not modelled; it leaves everything as it is.
-/
import Spines.Lib.Hash
import Spines.Routing.Multicast

set_option autoImplicit false

namespace Spines.Sessions

open Spines.Lib

/-! ## 1. State -/

inductive SesType
  | UDP_SES_TYPE
  | LISTEN_SES_TYPE
  | RELIABLE_SES_TYPE
  deriving DecidableEq, Repr

inductive ClientStat
  | SES_CLIENT_ON
  | SES_CLIENT_OFF
  | SES_CLIENT_ORPHAN
  deriving DecidableEq, Repr

inductive Reason
  | SOCK_ERR
  | PORT_IN_USE
  | SES_BUFF_FULL
  | SES_DISCONNECT
  | SES_DELAY_CLOSE
  deriving DecidableEq, Repr

structure Session where
  sess_id : ℕ
  type : SesType
  sk : ℕ
  ctrl_sk : ℕ
  port : ℕ
  /-- `r_data` is not `NULL`: a reliable session -/
  r_data : Bool
  client_stat : ClientStat
  close_reason : Option Reason
  joined_groups : List ℕ

inductive Exit
  /-- "BIND: session does not have a port" -/
  | bind_no_port
  | no_more_ports
  | too_many_requests
  | invalid_id
  | corrupt_packet
  | close_channel
  deriving DecidableEq, Repr

structure Daemon where
  session_num : ℕ
  last_sess_port : ℕ
  sessions : ℕ → Option Session
  next : ℕ
  sessions_id : Hash ℕ ℕ
  sessions_port : Hash ℕ ℕ
  sessions_sock : Hash ℕ ℕ
  /-- Control channels no session has named yet; `0` is an empty place. -/
  ctrl_sk_requests : List ℕ
  open_fds : Finset ℕ
  /-- The queued calls of `Try_Close_Session`. -/
  try_close : List ℕ
  exit : Option Exit

def MAX_CTRL_SK_REQUESTS : ℕ := 10

/-- The ports `Session_Accept` gives: from `FIRST_PORT` on, below `END_PORT`. -/
def FIRST_PORT : ℕ := 40000
def END_PORT : ℕ := 60000

/-- `Init_Session`; `fds` are the descriptors that are open then. -/
def Daemon.init (fds : Finset ℕ) : Daemon where
  session_num := 0
  last_sess_port := FIRST_PORT
  sessions := fun _ => none
  next := 0
  sessions_id := Hash.empty
  sessions_port := Hash.empty
  sessions_sock := Hash.empty
  ctrl_sk_requests := List.replicate MAX_CTRL_SK_REQUESTS 0
  open_fds := fds
  try_close := []
  exit := none

def Daemon.set_session (d : Daemon) (s : ℕ) (ses : Session) : Daemon :=
  { d with sessions := Function.update d.sessions s (some ses) }

def Daemon.leave_with (d : Daemon) (e : Exit) : Daemon :=
  { d with exit := some (d.exit.getD e) }

def dl_close_channel (d : Daemon) (fd : ℕ) : Daemon :=
  if fd ∈ d.open_fds then { d with open_fds := d.open_fds.erase fd }
  else d.leave_with .close_channel

/-! ## 2. `Session_Accept` -/

def find_port (last_sess_port : ℕ) (sessions_port : Hash ℕ ℕ) : Option ℕ :=
  let unused (i : ℕ) : Bool := sessions_port.find i = none
  match (List.range' (last_sess_port + 1) (END_PORT - (last_sess_port + 1))).find? unused with
  | some i => some i
  | none => (List.range' FIRST_PORT (last_sess_port - FIRST_PORT)).find? unused

/-- A control channel: `port` is `SESS_CTRL`. -/
def session_accept_ctrl (d : Daemon) (sk : ℕ) : Daemon :=
  let d := { d with open_fds := insert sk d.open_fds }
  if 0 ∈ d.ctrl_sk_requests then { d with ctrl_sk_requests := d.ctrl_sk_requests.replace 0 sk }
  else d.leave_with .too_many_requests

/-- A data channel: `port` is `SESS_DATA`. -/
def session_accept (d : Daemon) (sk : ℕ) : Daemon :=
  let s := d.next
  let sess_id := d.session_num
  let d :=
    { d with
      open_fds := insert sk d.open_fds
      next := d.next + 1
      session_num := (d.session_num + 1) % 2 ^ 32 }
  match find_port d.last_sess_port d.sessions_port with
  | none => d.leave_with .no_more_ports
  | some i =>
    let ses : Session :=
      { sess_id := sess_id, type := .UDP_SES_TYPE, sk := sk, ctrl_sk := 0, port := i
        r_data := false, client_stat := .SES_CLIENT_ON, close_reason := none, joined_groups := [] }
    { d.set_session s ses with
      last_sess_port := i
      sessions_port := d.sessions_port.insert i s
      sessions_sock := d.sessions_sock.insert sk s
      sessions_id := d.sessions_id.insert sess_id s }

/-! ## 3. `Session_Close` and `Disconnect_Reliable_Session` -/

/-- More groups than this are not left at once. -/
def MAX_LEAVE : ℕ := 10

/-- The port is given back, except after `PORT_IN_USE`. -/
def release_port (d : Daemon) (ses : Session) (reason : Reason) : Daemon :=
  if reason ≠ .PORT_IN_USE ∧ ses.port ≠ 0 then
    { d with sessions_port := d.sessions_port.erase ses.port }
  else d

/-- "Close the socket (now we can, since we won't access the session by socket)". -/
def close_channels (d : Daemon) (ses : Session) : Daemon :=
  if ses.client_stat ≠ .SES_CLIENT_ORPHAN then
    let d := dl_close_channel d ses.sk
    if 0 < ses.ctrl_sk then dl_close_channel d ses.ctrl_sk else d
  else d

/-- The end of `Session_Close`, when all groups are left. -/
def dispose_session (d : Daemon) (s : ℕ) (ses : Session) (reason : Reason) : Daemon :=
  match d.sessions_id.find ses.sess_id with
  | none => d.leave_with .invalid_id
  | some _ =>
    let d := { d with sessions_id := d.sessions_id.erase ses.sess_id }
    let d := close_channels (release_port d ses reason) ses
    { d with sessions := Function.update d.sessions s none }

def detach_client (d : Daemon) (ses : Session) : Daemon :=
  if ses.client_stat = .SES_CLIENT_ON then
    { d with sessions_sock := d.sessions_sock.erase ses.sk }
  else d

def session_close (d : Daemon) (sesid : ℕ) (reason : Reason) : Daemon :=
  match d.sessions_id.find sesid with
  | none => d
  | some s =>
    match d.sessions s with
    | none => d
    | some ses =>
      let d := detach_client d ses
      let ses :=
        { ses with
          close_reason := some reason
          client_stat :=
            if ses.client_stat = ClientStat.SES_CLIENT_ON then .SES_CLIENT_OFF
            else ses.client_stat
          r_data := false }
      if MAX_LEAVE < ses.joined_groups.length then
        { d.set_session s { ses with joined_groups := ses.joined_groups.drop (MAX_LEAVE + 1) } with
          try_close := d.try_close ++ [ses.sess_id] }
      else dispose_session d s { ses with joined_groups := [] } reason

def try_close_session (d : Daemon) (sesid : ℕ) : Daemon :=
  match d.sessions_id.find sesid with
  | none => d
  | some s =>
    match (d.sessions s).bind fun ses => ses.close_reason with
    | none => d
    | some reason => session_close d sesid reason

def disconnect_reliable_session (d : Daemon) (s : ℕ) (ses : Session) : Daemon :=
  if ses.r_data = false then d
  else
    let d := { d with sessions_sock := d.sessions_sock.erase ses.sk }
    let d := dl_close_channel (dl_close_channel d ses.sk) ses.ctrl_sk
    d.set_session s { ses with client_stat := .SES_CLIENT_ORPHAN }

/-! ## 4. Commands of a client -/

/-- `READY_CTRL_SK` of `Session_Read`: the client names its control channel. -/
def read_ctrl_sk (d : Daemon) (s : ℕ) (ses : Session) (ctrl_sk : ℕ) : Daemon :=
  if ctrl_sk ∈ d.ctrl_sk_requests then
    { d.set_session s { ses with ctrl_sk := ctrl_sk } with
      ctrl_sk_requests := d.ctrl_sk_requests.replace ctrl_sk 0 }
  else session_close (d.set_session s { ses with ctrl_sk := 0 }) ses.sess_id .SOCK_ERR

/-- `BIND_TYPE_MSG`. -/
def bind (d : Daemon) (s : ℕ) (ses : Session) (dest_port : ℕ) : Daemon :=
  if dest_port = 0 then session_close d ses.sess_id .PORT_IN_USE
  else if ses.type = .LISTEN_SES_TYPE then session_close d ses.sess_id .SES_DISCONNECT
  else if ses.r_data then session_close d ses.sess_id .SES_DISCONNECT
  else if (d.sessions_port.find dest_port).isSome then session_close d ses.sess_id .PORT_IN_USE
  else if d.sessions_port.find ses.port = none then d.leave_with .bind_no_port
  else
    { d.set_session s { ses with port := dest_port } with
      sessions_port := (d.sessions_port.erase ses.port).insert dest_port s }

def init_reliable_session (d : Daemon) (s : ℕ) (ses : Session) : Daemon :=
  if ses.port = 0 then session_close d ses.sess_id .PORT_IN_USE
  else d.set_session s { ses with type := .RELIABLE_SES_TYPE, r_data := true }

/-- `CONNECT_TYPE_MSG`, with `Init_Reliable_Connect` up to its hello. -/
def connect (d : Daemon) (s : ℕ) (ses : Session) (dest : ℕ) : Daemon :=
  if ses.r_data then session_close d ses.sess_id .SES_DISCONNECT
  else if ses.type = .LISTEN_SES_TYPE then session_close d ses.sess_id .SES_DISCONNECT
  else if dest &&& 0xF0000000 = 0xE0000000 then d
  else
    let d := init_reliable_session d s ses
    if ses.port = 0 then session_close d ses.sess_id .SES_DISCONNECT else d

/-- `LISTEN_TYPE_MSG`. -/
def listen (d : Daemon) (s : ℕ) (ses : Session) : Daemon :=
  if ses.r_data then session_close d ses.sess_id .SES_DISCONNECT
  else if ses.type = .LISTEN_SES_TYPE then session_close d ses.sess_id .SES_DISCONNECT
  else d.set_session s { ses with type := .LISTEN_SES_TYPE }

inductive HelloCheck
  | ok
  | corrupt
  | wrong_seq_no
  deriving DecidableEq, Repr

/-- `ACCEPT_TYPE_MSG`, with `Accept_Rel_Session` up to its hello. -/
def accept_rel_session (d : Daemon) (s : ℕ) (ses : Session) (hello : HelloCheck) : Daemon :=
  if ses.r_data then session_close d ses.sess_id .SES_DISCONNECT
  else
    match hello with
    | .corrupt => d.leave_with .corrupt_packet
    | .wrong_seq_no => d
    | .ok => init_reliable_session d s ses

def Is_group_addr (x : ℕ) : Bool := Routing.Is_mcast_addr x || Routing.Is_acast_addr x

/-- `JOIN_TYPE_MSG`, with `Join_Group`. -/
def join (d : Daemon) (s : ℕ) (ses : Session) (mcast_address : ℕ) : Daemon :=
  if ses.r_data then session_close d ses.sess_id .SES_DISCONNECT
  else if ses.type = .LISTEN_SES_TYPE then session_close d ses.sess_id .SES_DISCONNECT
  else if Is_group_addr mcast_address = false ∨ ses.type ≠ .UDP_SES_TYPE then
    session_close d ses.sess_id .SES_DISCONNECT
  else if mcast_address ∈ ses.joined_groups then d
  else d.set_session s { ses with joined_groups := ses.joined_groups ++ [mcast_address] }

/-- `LEAVE_TYPE_MSG`, with `Leave_Group`. -/
def leave (d : Daemon) (s : ℕ) (ses : Session) (mcast_address : ℕ) : Daemon :=
  if ses.r_data then session_close d ses.sess_id .SES_DISCONNECT
  else if ses.type = .LISTEN_SES_TYPE then session_close d ses.sess_id .SES_DISCONNECT
  else if Is_group_addr mcast_address = false then session_close d ses.sess_id .SES_DISCONNECT
  else d.set_session s { ses with joined_groups := ses.joined_groups.erase mcast_address }

/-! ## 5. Runs -/

/-- What happens: the arguments that are called `s` name the session of the handler. -/
inductive Event
  | accept_ctrl (sk : ℕ)
  | accept (sk : ℕ)
  | read_ctrl_sk (s ctrl_sk : ℕ)
  | bind (s dest_port : ℕ)
  | connect (s dest : ℕ)
  | listen (s : ℕ)
  | accept_rel (s : ℕ) (hello : HelloCheck)
  | join (s mcast_address : ℕ)
  | leave (s mcast_address : ℕ)
  | close (sesid : ℕ) (reason : Reason)
  | try_close (sesid : ℕ)
  | disconnect (s : ℕ)
  deriving DecidableEq, Repr

def Daemon.on (d : Daemon) (s : ℕ) (f : Session → Daemon) : Daemon :=
  match d.sessions s with
  | none => d
  | some ses => f ses

def handle (d : Daemon) : Event → Daemon
  | .accept_ctrl sk => session_accept_ctrl d sk
  | .accept sk => session_accept d sk
  | .read_ctrl_sk s ctrl_sk => d.on s fun ses => read_ctrl_sk d s ses ctrl_sk
  | .bind s dest_port => d.on s fun ses => bind d s ses dest_port
  | .connect s dest => d.on s fun ses => connect d s ses dest
  | .listen s => d.on s fun ses => listen d s ses
  | .accept_rel s hello => d.on s fun ses => accept_rel_session d s ses hello
  | .join s g => d.on s fun ses => join d s ses g
  | .leave s g => d.on s fun ses => leave d s ses g
  | .close sesid reason => session_close d sesid reason
  | .try_close sesid => try_close_session { d with try_close := d.try_close.erase sesid } sesid
  | .disconnect s => d.on s fun ses => disconnect_reliable_session d s ses

/-- `accept` returns a descriptor that is not open, and a call is run that was queued. -/
def Enabled (d : Daemon) : Event → Prop
  | .accept_ctrl sk => sk ∉ d.open_fds
  | .accept sk => sk ∉ d.open_fds
  | .try_close sesid => sesid ∈ d.try_close
  | _ => True

def Step (d : Daemon) (ev : Event) (d' : Daemon) : Prop :=
  d.exit = none ∧ Enabled d ev ∧ d' = handle d ev

end Spines.Sessions
