/-
The handshake of reliable sessions (`Init_Reliable_Connect`, `Accept_Rel_Session`,
`Ses_Send_Rel_Hello`, `Check_Double_Connect`, `Process_Rel_Ses_Hello` of
`daemon/reliable_session.c`, with what calls them in `daemon/session.c`).

A session is named by its node and its number. Sessions that are closed stay in the table
with the values they last had, so that the theorems can speak of them; no handler looks at
a closed session. A hello can be delivered any number of times, at any time and to any
session that has its port then, or never. A hello to a session of the same daemon is
delivered inside the call that sends it; here that is one of the orders in which the
network may deliver, since the sender's fields are set before.

What a session does with data is left out, but for the hello counter, and so are the
sockets: how a write to the client ends is part of the event. Hosts have one byte order.
The flags are those that `Init_Reliable_Connect` and `Accept_Rel_Session` set, which leave
none of their sessions `UNAVAILABLE_LINK`.
-/
import Spines.Reliable.Receive

set_option autoImplicit false

namespace Spines.Reliable.Handshake

open Spines.Lib Function

/-! ## 1. State -/

abbrev Sid := ℕ × ℕ

/-- `ses_hello_packet` in its packet. `peer` is not sent: it is the other side of the
session that sent the hello, once it has one. -/
structure Hello where
  source : ℕ
  source_port : ℕ
  dest : ℕ
  dest_port : ℕ
  type : Kind
  seq_no : ℕ
  my_sess_id : ℕ
  my_port : ℕ
  orig_port : ℕ
  peer : Option Sid
  deriving DecidableEq, Repr

def Hello.sender (p : Hello) : Sid := (p.source, p.my_sess_id)

inductive SesType
  | UDP_SES_TYPE
  | LISTEN_SES_TYPE
  | RELIABLE_SES_TYPE
  deriving DecidableEq, Repr

structure Session where
  type : SesType
  port : ℕ
  client_stat : Client_Stat
  /-- `Ses_Send_Rel_Hello` supports `links_used`. -/
  links_supported : Bool
  /-- `r_data->flags`; `none` while there is no `r_data`. -/
  flags : Option Link_Flags
  /-- `r_data->connect_state == DISCONNECT_LINK`. -/
  connect_state : Bool
  rel_otherside_addr : ℕ
  rel_otherside_port : ℕ
  rel_otherside_id : ℕ
  rel_orig_port : ℕ
  rel_hello_cnt : ℤ
  closed : Bool
  /-- History: the listening session and the hello that this session was accepted for. -/
  request : Option (Sid × Hello)
  deriving DecidableEq, Repr

def Session.peer (ses : Session) : Option Sid :=
  match ses.flags with
  | none | some .connect_wait => none
  | some _ => some (ses.rel_otherside_addr, ses.rel_otherside_id)

/-- A session that is, or has been, `CONNECTED_LINK`. -/
def Session.reached (ses : Session) : Prop :=
  ses.flags = some .connected ∨ ses.flags = some .disconnect

structure World where
  sessions : Sid → Option Session
  /-- `Rel_Sessions_Port` of each node: original ports and session numbers. -/
  Rel_Sessions_Port : ℕ → List (ℕ × ℕ)
  sent : List Hello
  delivered : List (Sid × Hello)

def World.empty : World := ⟨fun _ => none, fun _ => [], [], []⟩

def World.live (w : World) (s : Sid) : Option Session :=
  (w.sessions s).filter fun ses => !ses.closed

def World.set (w : World) (s : Sid) (ses : Session) : World :=
  { w with sessions := update w.sessions s (some ses) }

/-- `stdhash_insert(&Rel_Sessions_Port, …)`. -/
def World.register (w : World) (s : Sid) (orig_port : ℕ) : World :=
  { w with
    Rel_Sessions_Port :=
      update w.Rel_Sessions_Port s.1 ((orig_port, s.2) :: w.Rel_Sessions_Port s.1) }

/-- The search of `Close_Reliable_Session` through `Rel_Sessions_Port`. -/
def World.unregister (w : World) (s : Sid) (orig_port : ℕ) : World :=
  { w with
    Rel_Sessions_Port :=
      update w.Rel_Sessions_Port s.1 ((w.Rel_Sessions_Port s.1).erase (orig_port, s.2)) }

/-! ## 2. Hellos -/

def World.Session_Close (w : World) (s : Sid) : World :=
  match w.live s with
  | none => w
  | some ses =>
    let w := w.set s { ses with closed := true }
    -- without `r_data` the table is not searched
    if ses.flags.isSome then w.unregister s ses.rel_orig_port else w

/-- The type and the sequence number of the hello that a session sends; `seq` is
`r_data->seq_no`. -/
def Session.hello_type (ses : Session) (flags : Link_Flags) (seq : ℕ) : Kind × ℕ :=
  match flags with
  | .connect_wait => (.hello, 0)
  | .accept_wait => (.hello, 1)
  | .connected => if ses.client_stat = .on then (.hello, 2) else (.hello_discnct, seq)
  | .disconnect => (.hello_close, 0)

/-- The packet that `Ses_Send_Rel_Hello` builds. -/
def Session.hello (ses : Session) (s : Sid) (flags : Link_Flags) (seq : ℕ) : Hello where
  source := s.1
  source_port := ses.port
  dest := ses.rel_otherside_addr
  dest_port := ses.rel_otherside_port
  type := (ses.hello_type flags seq).1
  seq_no := (ses.hello_type flags seq).2
  my_sess_id := s.2
  my_port := ses.port
  orig_port := if flags = .connect_wait then ses.rel_otherside_port else ses.rel_orig_port
  peer := ses.peer

structure Env where
  route : Bool
  /-- `r_data->seq_no`. -/
  seq_no : ℕ
  complete : Bool
  broken : Bool
  /-- What a new `Reliable_Data` has for `connect_state`, which nothing initialises. -/
  old_memory : Bool
  deriving DecidableEq, Repr

/-- `Ses_Send_Rel_Hello`; its timer may run at any time. -/
def World.Ses_Send_Rel_Hello (w : World) (env : Env) (s : Sid) : World :=
  match w.live s with
  | none => w
  | some ses =>
    match ses.flags with
    | none => w
    | some flags =>
      if 5 < ses.rel_hello_cnt then
        if flags = .connected then w else w.Session_Close s
      else if env.route = false ∧ ses.rel_otherside_addr ≠ s.1 then w
      else
        let w := w.set s { ses with rel_hello_cnt := ses.rel_hello_cnt + 1 }
        if ses.rel_otherside_addr = s.1 ∨ ses.links_supported then
          { w with sent := ses.hello s flags env.seq_no :: w.sent }
        else w.Session_Close s

def World.Disconnect_Reliable_Session (w : World) (env : Env) (s : Sid) : World :=
  match w.live s with
  | none => w
  | some ses =>
    if ses.flags = none then w
    else (w.set s { ses with client_stat := .orphan }).Ses_Send_Rel_Hello env s

/-- `Net_Rel_Sess_Send` on a hello: the client gets it, or it is disconnected. -/
def World.Net_Rel_Sess_Send (w : World) (env : Env) (s : Sid) : World :=
  if env.broken then w.Disconnect_Reliable_Session env s else w

/-! ## 3. Commands of the client -/

/-- `Session_Accept`, with the number and the port that the new session gets. -/
def Session.new (port : ℕ) (links_supported : Bool) : Session :=
  ⟨.UDP_SES_TYPE, port, .on, links_supported, none, false, 0, 0, 0, 0, 0, false, none⟩

/-- `BIND_TYPE_MSG`; `used` says that `Sessions_Port` has the port already. -/
def World.bind (w : World) (s : Sid) (port : ℕ) (used : Bool) : World :=
  match w.live s with
  | none => w
  | some ses =>
    if port = 0 ∨ ses.type = .LISTEN_SES_TYPE ∨ ses.flags ≠ none ∨ used = true then
      w.Session_Close s
    else w.set s { ses with port := port }

/-- `LISTEN_TYPE_MSG`. -/
def World.listen (w : World) (s : Sid) : World :=
  match w.live s with
  | none => w
  | some ses =>
    if ses.flags ≠ none ∨ ses.type = .LISTEN_SES_TYPE then w.Session_Close s
    else w.set s { ses with type := .LISTEN_SES_TYPE }

/-- `Init_Reliable_Session` on a session that has a port. -/
def Session.Init_Reliable_Session (ses : Session) (env : Env) (address port : ℕ)
    (flags : Link_Flags) : Session :=
  { ses with
    type := .RELIABLE_SES_TYPE
    rel_otherside_addr := address
    rel_otherside_port := port
    rel_hello_cnt := 0
    flags := some flags
    connect_state := env.old_memory }

/-- `CONNECT_TYPE_MSG` with an address that is not a multicast address. -/
def World.connect (w : World) (env : Env) (s : Sid) (dest dest_port : ℕ) : World :=
  match w.live s with
  | none => w
  | some ses =>
    if ses.flags ≠ none ∨ ses.type = .LISTEN_SES_TYPE then w.Session_Close s
    else if ses.port = 0 then w.Session_Close s
    else
      (w.set s { ses.Init_Reliable_Session env dest dest_port .connect_wait with
        rel_orig_port := dest_port }).Ses_Send_Rel_Hello env s

/-- What `Accept_Rel_Session` makes of a session that has a port. -/
def Session.accepted (ses : Session) (env : Env) (l : Sid) (p : Hello) : Session :=
  { ses.Init_Reliable_Session env p.source p.source_port .accept_wait with
    rel_orig_port := p.orig_port
    rel_otherside_id := p.my_sess_id
    rel_otherside_port := p.my_port
    request := some (l, p) }

/-- `ACCEPT_TYPE_MSG` with a hello that the client has from the listening session `l`. -/
def World.accept (w : World) (env : Env) (s l : Sid) (p : Hello) : World :=
  match w.live s with
  | none => w
  | some ses =>
    if ses.flags ≠ none then w.Session_Close s
    else if p.seq_no ≠ 0 then w
    else if ses.port = 0 then
      -- the session is gone, but it is registered all the same
      (w.Session_Close s).register s p.orig_port
    else ((w.register s p.orig_port).set s (ses.accepted env l p)).Ses_Send_Rel_Hello env s

/-! ## 4. Packets -/

/-- `Check_Double_Connect` on a hello that arrives at node `n`. -/
def World.Check_Double_Connect (w : World) (n : ℕ) (p : Hello) : Bool :=
  (w.Rel_Sessions_Port n).any fun r =>
    r.1 = p.orig_port && (match w.sessions (n, r.2) with
      | none => false
      | some ses => ses.rel_otherside_addr = p.source && ses.rel_otherside_id = p.my_sess_id)

def World.Process_Rel_Ses_Hello (w : World) (env : Env) (s : Sid) (ses : Session) (p : Hello) :
    World :=
  if ses.rel_orig_port ≠ p.orig_port then w
  else match p.type with
    | .hello =>
      let ses := { ses with rel_hello_cnt := 0 }
      if ses.flags = some .connect_wait then
        let w := w.set s { ses with
          rel_otherside_port := p.my_port
          rel_otherside_id := p.my_sess_id
          flags := some .connected }
        (w.Ses_Send_Rel_Hello env s).Net_Rel_Sess_Send env s
      else if ses.flags = some .accept_wait then
        (w.set s { ses with flags := some .connected }).Net_Rel_Sess_Send env s
      else w.set s ses
    | .hello_discnct =>
      if ses.connect_state = true then w
      else if ses.client_stat = .on then
        let w := w.set s { ses with connect_state := true }
        if env.complete then w.Disconnect_Reliable_Session env s else w
      else
        ((w.set s { ses with flags := some .disconnect }).Ses_Send_Rel_Hello env s).Session_Close s
    | .hello_close => if ses.connect_state = true then w.Session_Close s else w
    | _ => w

/-- `Deliver_Rel_UDP_Data` on a hello. -/
def World.Deliver_Rel_UDP_Data (w : World) (env : Env) (s : Sid) (ses : Session) (p : Hello) :
    World :=
  match p.type with
  | .hello =>
    if ses.flags = some .connect_wait ∨ ses.flags = some .accept_wait then
      w.Process_Rel_Ses_Hello env s ses p
    else w
  | .hello_discnct | .hello_close =>
    if ses.flags = some .connected then w.Process_Rel_Ses_Hello env s ses p else w
  | _ => w

/-- `Deliver_UDP_Data` on a hello for session `s`; the client of a listening session may
have no room for it. -/
def World.Deliver_UDP_Data (w : World) (env : Env) (s : Sid) (p : Hello) : World :=
  match w.live s with
  | none => w
  | some ses =>
    match ses.type with
    | .RELIABLE_SES_TYPE => w.Deliver_Rel_UDP_Data env s ses p
    | .LISTEN_SES_TYPE =>
      if w.Check_Double_Connect s.1 p then w
      else if ses.client_stat = .off ∨ env.broken then w
      else { w with delivered := (s, p) :: w.delivered }
    | .UDP_SES_TYPE => w

/-! ## 5. Runs -/

inductive Event
  | session_accept (port : ℕ) (links_supported : Bool)
  | bind (port : ℕ) (used : Bool)
  | listen
  | connect (env : Env) (dest dest_port : ℕ)
  /-- The client accepts a request that the listening session `l` has handed to it. -/
  | accept (env : Env) (l : Sid) (p : Hello)
  | timer (env : Env)
  | deliver (env : Env) (p : Hello)
  | data
  | disconnect (env : Env)
  | close

def World.handle (w : World) (s : Sid) : Event → World
  | .session_accept port links => w.set s (Session.new port links)
  | .bind port used => w.bind s port used
  | .listen => w.listen s
  | .connect env dest dest_port => w.connect env s dest dest_port
  | .accept env l p => w.accept env s l p
  | .timer env => w.Ses_Send_Rel_Hello env s
  | .deliver env p => w.Deliver_UDP_Data env s p
  | .data => match w.live s with
      | none => w
      | some ses =>
        if ses.flags = some .connected ∧ ses.client_stat = .on then
          w.set s { ses with rel_hello_cnt := -1 }
        else w
  | .disconnect env => w.Disconnect_Reliable_Session env s
  | .close => w.Session_Close s

/-- When an event can happen. New sessions get new numbers and a port; a client accepts the
connect requests that it was handed, on its own node; a hello arrives at the node it was
sent to and at a session that has its port. -/
def World.enabled (w : World) (s : Sid) : Event → Prop
  | .session_accept port _ => w.sessions s = none ∧ port ≠ 0
  | .accept _ l p => l.1 = s.1 ∧ (l, p) ∈ w.delivered ∧ p.type = .hello
  | .deliver _ p => p ∈ w.sent ∧ p.dest = s.1 ∧ ∀ ses, w.live s = some ses → ses.port = p.dest_port
  | _ => True

def Step (w : World) (e : Sid × Event) (w' : World) : Prop :=
  w.enabled e.1 e.2 ∧ w' = w.handle e.1 e.2

/-- A session that waits and acts on a hello acts on one from a session whose other side
it is. -/
def Sound (w : World) (s : Sid) : Event → Prop
  | .deliver _ p => ∀ ses, w.live s = some ses →
      ses.flags = some .connect_wait ∨ ses.flags = some .accept_wait →
        p.type = .hello → ses.rel_orig_port = p.orig_port → p.peer = some s
  | _ => True

end Spines.Reliable.Handshake
