/-
`libspines/spines_lib.c`: the table of a client's Spines sockets.

A Spines socket is made of two or three descriptors: the control channel `ctrl_sk`, the
stream `sk` to the daemon, and with `UDP_CONNECT` a datagram socket. The number that the
application gets is the datagram socket's if there is one and the stream's otherwise; it
stands in `udp_sk` of an entry of `all_clients`. The control channel is kept in
`Control_sk` under that number modulo 51.

Which numbers the operating system hands out, and at which step a call fails, are the
`Answers` of a call. `Meets` says which calls keep the table right; the ones it leaves
out are those that leave descriptors or an entry behind (`connect_leaks`), that meet
another socket modulo 51, or that close -1.
-/
import Mathlib.Data.Int.ModEq
import Spines.Lib.Run

set_option autoImplicit false

namespace Spines.Client.Sockets

open Spines.Lib Function List

/-! ## 1. The table -/

def MAX_APP_CLIENTS : ℕ := 1024
def MAX_CTRL_SOCKETS : ℤ := 51

def SOCK_STREAM : ℤ := 1
def SOCK_DGRAM : ℤ := 2
def AF_UNIX : ℤ := 1
def AF_INET : ℤ := 2

def UDP_LINKS : BitVec 32 := 0x0
def SOFT_REALTIME_LINKS : BitVec 32 := 0x2
def INTRUSION_TOL_LINKS : BitVec 32 := 0x8
def RESERVED_LINKS_BITS : BitVec 32 := 0xf
def UDP_CONNECT : BitVec 32 := 0x10
def IT_PRIORITY_ROUTING : BitVec 32 := 0x100
def IT_RELIABLE_ROUTING : BitVec 32 := 0x200
def SOURCE_BASED_ROUTING : BitVec 32 := 0x300
def RESERVED_ROUTING_BITS : BitVec 32 := 0xf00
def ROUTING_BITS_SHIFT : ℕ := 8
def RELIABLE_DGRAM_SESSION_WITH_BACKPRESSURE : BitVec 32 := 0x2000
def RESERVED_SESSION_BITS : BitVec 32 := 0xf000

def SPINES_TTL_MAX : ℤ := 255

/-- The sizes of `sun_path` and of `struct sockaddr_in`, and the length of
`SPINES_UNIX_DATA_SUFFIX`. -/
def sizeof_sun_path : ℕ := 108
def sizeof_sockaddr_in : ℕ := 16
def suffix_len : ℕ := 4

/-- An address, as far as it is looked at: its family and, for `AF_UNIX`, how long the
path is. -/
structure Sockaddr where
  family : ℤ
  path_len : ℕ

structure Lib_Client where
  tcp_sk : ℤ
  udp_sk : ℤ
  type : ℤ
  endianess_type : ℤ
  sess_id : ℤ
  rnd_num : ℤ
  addr_storage : Sockaddr
  protocol : BitVec 32
  my_addr : ℤ
  my_port : ℤ
  connect_addr : ℤ
  connect_port : ℤ
  connect_flag : BitVec 32
  session_semantics : BitVec 32
  virtual_local_port : ℤ
  virtual_addr : ℤ
  ip_ttl : ℤ
  mcast_ttl : ℤ
  routing : BitVec 32

structure Proc where
  all_clients : ℕ → Lib_Client
  Max_Client : ℕ
  Control_sk : ℕ → ℤ
  Spines_Addr : Sockaddr
  Local_Address : ℤ
  live : Finset ℤ

/-- Why a call does not come back: it ends the process, or indexes outside an array. -/
inductive Halt
  | exit
  | index
  deriving DecidableEq, Repr

/-- Entry `i` belongs to no socket. -/
def Proc.Free (p : Proc) (i : ℕ) : Prop := (p.all_clients i).udp_sk = -1

instance (p : Proc) (i : ℕ) : Decidable (p.Free i) := inferInstanceAs (Decidable (_ = _))

def Proc.opens (p : Proc) (fd : ℤ) : Proc :=
  if fd < 0 then p else { p with live := insert fd p.live }

/-- `close`, which does nothing with a number that is no open descriptor. -/
def Proc.closes (p : Proc) (fd : ℤ) : Proc :=
  if fd < 0 then p else { p with live := p.live.erase fd }

def spines_get_client (p : Proc) (sk : ℤ) : Option ℕ :=
  (range p.Max_Client).find? (fun i => decide ((p.all_clients i).udp_sk = sk))

/-- The loop of `spines_socket` that looks for an entry. -/
def free_client (p : Proc) : Option ℕ :=
  (range MAX_APP_CLIENTS).find? (fun i => decide (p.Free i))

/-- `s % MAX_CTRL_SOCKETS` as an index of `Control_sk`. -/
def ctrl_index (s : ℤ) : Except Halt ℕ :=
  if 0 ≤ s.tmod MAX_CTRL_SOCKETS then .ok (s.tmod MAX_CTRL_SOCKETS).toNat else .error .index

/-! ## 2. The calls -/

/-- The steps of `spines_socket` that can fail, other than `socket` itself, in their
order. -/
inductive Stage
  | setsockopt
  | connect_ctrl
  | recv_ctrl
  | connect
  | send_endianess
  | send_ctrl
  | send_first
  | recv_endianess
  | session_id
  deriving DecidableEq, Repr

/-- What the operating system and the daemon answer to one call of `spines_socket`: the
numbers that `socket` returns, the step at which the call fails if one does, and the
values received. -/
structure Answers where
  ctrl_sk : ℤ
  sk : ℤ
  u_sk : ℤ
  fails : Option Stage
  rnd_num : ℤ
  endianess_type : ℤ
  sess_id : ℤ
  v_local_port : ℤ
  v_addr : ℤ

def udp_connect (type : ℤ) (protocol : BitVec 32) : Bool :=
  type = SOCK_DGRAM ∧ protocol &&& UDP_CONNECT = UDP_CONNECT

def Answers.socket (a : Answers) (udp : Bool) : ℤ := if udp then a.u_sk else a.sk

/-- Both addresses of the daemon fit, `sun_path` with the suffix included. -/
def path_fits (sp_addr : Sockaddr) : Bool :=
  let s_len := sizeof_sun_path - suffix_len - 1
  sp_addr.path_len ≤ s_len ∧ min sp_addr.path_len (s_len - 1) + suffix_len ≤ sizeof_sun_path - 1

/-- The options and the address that `spines_socket` refuses before it opens anything. -/
def refused (type : ℤ) (protocol : BitVec 32) (sp_addr : Sockaddr) : Bool :=
  let link_prot := protocol &&& RESERVED_LINKS_BITS
  let route_prot := protocol &&& RESERVED_ROUTING_BITS
  let connect_flag := protocol &&& UDP_CONNECT
  let session_prot := protocol &&& RESERVED_SESSION_BITS
  (type ≠ SOCK_DGRAM ∧ type ≠ SOCK_STREAM) ∨
  (type ≠ SOCK_DGRAM ∧ connect_flag = UDP_CONNECT) ∨
  ((route_prot = IT_PRIORITY_ROUTING ∨ route_prot = IT_RELIABLE_ROUTING) ∧
    link_prot ≠ INTRUSION_TOL_LINKS) ∨
  (route_prot = SOURCE_BASED_ROUTING ∧ link_prot ≠ UDP_LINKS ∧ link_prot ≠ SOFT_REALTIME_LINKS) ∨
  session_prot = RELIABLE_DGRAM_SESSION_WITH_BACKPRESSURE ∨
  (sp_addr.family ≠ AF_UNIX ∧ sp_addr.family ≠ AF_INET) ∨
  (sp_addr.family = AF_UNIX ∧ connect_flag = UDP_CONNECT) ∨
  (sp_addr.family = AF_UNIX ∧ ¬ path_fits sp_addr)

def abandon (p : Proc) (udp : Bool) (a : Answers) : Proc :=
  let p := (p.closes a.sk).closes a.ctrl_sk
  if udp then p.closes a.u_sk else p

/-- Entry `client` as it is while the session id is received. -/
def register (p : Proc) (client : ℕ) (a : Answers) : Proc :=
  { p with
    Max_Client := if client = p.Max_Client then p.Max_Client + 1 else p.Max_Client
    all_clients := Function.update p.all_clients client
      { p.all_clients client with
        type := 0, connect_flag := 0, endianess_type := a.endianess_type,
        tcp_sk := a.sk, udp_sk := a.sk } }

def Lib_Client.filled (c : Lib_Client) (p : Proc) (type : ℤ) (protocol : BitVec 32)
    (sp_addr : Sockaddr) (a : Answers) : Lib_Client :=
  let c := if udp_connect type protocol then
      { c with udp_sk := a.u_sk, my_addr := p.Local_Address, my_port := -1,
               connect_flag := protocol &&& UDP_CONNECT }
    else { c with udp_sk := a.sk, connect_flag := 0 }
  { c with
    type, protocol, rnd_num := a.rnd_num, sess_id := a.sess_id, addr_storage := sp_addr,
    connect_addr := -1, connect_port := -1, virtual_local_port := a.v_local_port,
    virtual_addr := a.v_addr, ip_ttl := SPINES_TTL_MAX, mcast_ttl := SPINES_TTL_MAX,
    routing := (protocol &&& RESERVED_ROUTING_BITS) >>> ROUTING_BITS_SHIFT,
    session_semantics := protocol &&& RESERVED_SESSION_BITS }

def complete (p : Proc) (client : ℕ) (type : ℤ) (protocol : BitVec 32) (sp_addr : Sockaddr)
    (a : Answers) : Except Halt (Proc × ℤ) := do
  let p := { p with
    all_clients := Function.update p.all_clients client
      ((p.all_clients client).filled p type protocol sp_addr a) }
  let s := if udp_connect type protocol ∧ sp_addr.family = AF_INET then a.u_sk else a.sk
  let k ← ctrl_index s
  -- `spines_socket(): not enough control sockets`
  if p.Control_sk k ≠ 0 then .error .exit
  else .ok ({ p with Control_sk := Function.update p.Control_sk k a.ctrl_sk }, s)

def spines_socket (p : Proc) (type : ℤ) (protocol : BitVec 32) (serv_addr : Option Sockaddr)
    (a : Answers) : Except Halt (Proc × ℤ) :=
  let sp_addr := serv_addr.getD p.Spines_Addr
  if refused type protocol sp_addr then .ok (p, -1)
  else
    let udp := udp_connect type protocol
    let p := (p.opens a.ctrl_sk).opens a.sk
    if a.sk < 0 ∨ a.ctrl_sk < 0 then .ok (abandon p false a, -1)
    else if sp_addr.family = AF_INET ∧ a.fails = some .setsockopt then .ok (abandon p false a, -1)
    else if a.fails = some .connect_ctrl then .ok (abandon p false a, -1)
    else if a.fails = some .recv_ctrl then .ok (abandon p false a, -1)
    -- the one way out that closes nothing
    else if a.fails = some .connect then .ok (p, -1)
    else
      let p := if udp then p.opens a.u_sk else p
      if udp ∧ a.u_sk < 0 then .ok (abandon p udp a, -1)
      else if a.fails = some .send_endianess then .ok (abandon p udp a, -1)
      else if a.fails = some .send_ctrl then .ok (abandon p udp a, -1)
      else if a.fails = some .send_first then .ok (abandon p udp a, -1)
      else if a.fails = some .recv_endianess then .ok (abandon p udp a, -1)
      else match free_client p with
        | none => .ok (abandon p udp a, -1)
        | some client =>
          let p := register p client a
          if a.fails = some .session_id then .ok (abandon p udp a, -1)
          else complete p client type protocol sp_addr a

/-- What `spines_close` does to the table first. -/
def release (p : Proc) (client : ℕ) : Proc :=
  { p with
    all_clients := Function.update p.all_clients client { p.all_clients client with udp_sk := -1 }
    Max_Client := if client + 1 = p.Max_Client then p.Max_Client - 1 else p.Max_Client }

/-- And then to the descriptors, those of entry `c` with number `s` and place `k` in
`Control_sk`. -/
def hang_up (p : Proc) (s : ℤ) (k : ℕ) (c : Lib_Client) : Proc :=
  let p := (p.closes s).closes (p.Control_sk k)
  let p := { p with Control_sk := Function.update p.Control_sk k 0 }
  if c.type = SOCK_DGRAM ∧ c.connect_flag = UDP_CONNECT then p.closes c.tcp_sk else p

def spines_close (p : Proc) (s : ℤ) : Except Halt Proc :=
  match spines_get_client p s with
  | none => .ok p
  | some client => do
      let k ← ctrl_index s
      .ok (hang_up (release p client) s k (p.all_clients client))

/-- An entry's address read as a `struct sockaddr`: `srv_addr` points to the whole
`addr_storage`, and what follows its family is padding, which is zero. -/
def Sockaddr.of_storage (sp_addr : Sockaddr) : Sockaddr := { family := sp_addr.family, path_len := 0 }

/-- How the part of `spines_accept` that talks to the daemon ends. -/
structure Talk where
  request : Bool
  send : Bool
  hello : Bool

/-- `addrlen` is what `*addrlen` says when there is an `addr` to fill in. -/
def spines_accept (p : Proc) (s : ℤ) (addrlen : Option ℕ) (a : Answers) (t : Talk) :
    Except Halt (Proc × ℤ) :=
  match spines_get_client p s with
  | none => .ok (p, -1)
  | some client => do
      let c := p.all_clients client
      if c.type = SOCK_DGRAM then .ok (p, -1)
      -- nothing is received on a number that is no open descriptor
      else if ¬ (t.request ∧ s ∈ p.live) then .ok (p, -1)
      else
        let (p, new_sk) ← spines_socket p c.type c.protocol (some c.addr_storage.of_storage) a
        if new_sk < 0 then .ok (p, -1)
        else if ¬ t.send then
          let p ← spines_close p new_sk
          .ok (p, -1)
        -- these two ways out leave the new socket open
        else if ¬ t.hello then .ok (p, -1)
        else if addrlen.any (fun n => decide (n < sizeof_sockaddr_in)) then .ok (p, -1)
        else .ok (p, new_sk)

/-! ## 3. Runs -/

/-- The operating system hands out numbers that are not in use, and a step that is not
made does not fail: `setsockopt` is for `AF_INET` only. -/
structure Answers.Possible (a : Answers) (p : Proc) (sp_addr : Sockaddr) : Prop where
  ctrl_sk : a.ctrl_sk ∉ p.live
  sk : a.sk ∉ p.live
  u_sk : a.u_sk ∉ p.live
  sk_ctrl : 0 ≤ a.sk → a.sk ≠ a.ctrl_sk
  u_sk_ctrl : 0 ≤ a.u_sk → a.u_sk ≠ a.ctrl_sk
  u_sk_sk : 0 ≤ a.u_sk → a.u_sk ≠ a.sk
  inet : a.fails = some .setsockopt → sp_addr.family = AF_INET

/-- A Spines socket that the application has and did not close yet, with the descriptors
and the entry of the call that made it. -/
structure Opened where
  s : ℤ
  sk : ℤ
  ctrl_sk : ℤ
  client : ℕ
  deriving DecidableEq

/-- The process, and which of its sockets are open: kept for the theorems only. -/
structure World where
  p : Proc
  opened : List Opened

inductive Event
  | socket (type : ℤ) (protocol : BitVec 32) (serv_addr : Option Sockaddr) (a : Answers)
  | accept (s : ℤ) (addrlen : Option ℕ) (a : Answers) (t : Talk)
  | close (s : ℤ)

def World.returned (w : World) (a : Answers) (r : Proc × ℤ) : World :=
  if r.2 = -1 then { w with p := r.1 }
  else { p := r.1, opened := ⟨r.2, a.sk, a.ctrl_sk, (free_client w.p).getD 0⟩ :: w.opened }

/-- One call, and what it returns; `spines_close` returns nothing. -/
def World.call (w : World) : Event → Except Halt (World × ℤ)
  | .socket type protocol serv_addr a => do
      let r ← spines_socket w.p type protocol serv_addr a
      .ok (w.returned a r, r.2)
  | .accept s addrlen a t => do
      let r ← spines_accept w.p s addrlen a t
      .ok (w.returned a r, r.2)
  | .close s => do
      let p ← spines_close w.p s
      .ok ({ p, opened := w.opened.filter (fun o => decide (o.s ≠ s)) }, 0)

def Event.Possible (w : World) : Event → Prop
  | .socket _ _ serv_addr a => a.Possible w.p (serv_addr.getD w.p.Spines_Addr)
  | .accept s _ a _ =>
    ∀ client, spines_get_client w.p s = some client →
      a.Possible w.p (w.p.all_clients client).addr_storage.of_storage
  | .close _ => True

/-- The new socket's number is not that of an open one modulo 51. -/
def Answers.Apart (a : Answers) (w : World) (udp : Bool) : Prop :=
  ∀ o ∈ w.opened, ¬ o.s ≡ a.socket udp [ZMOD MAX_CTRL_SOCKETS]

/-- A call of `spines_socket` that leaves nothing behind: it does not fail when it
connects the data socket or when it waits for the session id, and if it does not fail
at all, no open socket has the same place in `Control_sk`. -/
def Answers.Tidy (a : Answers) (w : World) (udp : Bool) : Prop :=
  a.fails ≠ some .connect ∧ a.fails ≠ some .session_id ∧ (a.fails = none → a.Apart w udp)

def Event.Meets (w : World) : Event → Prop
  | .socket type protocol _ a => a.Tidy w (udp_connect type protocol)
  | .accept s addrlen a t =>
    t.request = true →
      (∀ client, spines_get_client w.p s = some client →
        a.Tidy w (udp_connect (w.p.all_clients client).type (w.p.all_clients client).protocol)) ∧
      -- once there is a new socket, nothing fails any more
      (a.fails = none → t.send = true ∧ t.hello = true ∧ ∀ n ∈ addrlen, sizeof_sockaddr_in ≤ n)
  | .close s => s = -1 → ∀ i < w.p.Max_Client, ¬ w.p.Free i

def step (w : World) (e : Event) (w' : World) : Prop :=
  e.Possible w ∧ e.Meets w ∧ ∃ ret, w.call e = .ok (w', ret)

/-- What `spines_init` leaves: no entry is in use. -/
def World.Initial (w : World) : Prop :=
  (∀ i, w.p.Free i) ∧ w.p.Max_Client = 0 ∧ (∀ k, w.p.Control_sk k = 0) ∧
    w.opened = [] ∧ ∀ fd ∈ w.p.live, 0 ≤ fd

/-! ## 4. The invariant -/

def Opened.fds (o : Opened) : List ℤ := [o.s, o.sk, o.ctrl_sk]

def Opened.Apart (o o' : Opened) : Prop :=
  (∀ fd ∈ o.fds, fd ∉ o'.fds) ∧ o.client ≠ o'.client ∧ ¬ o.s ≡ o'.s [ZMOD MAX_CTRL_SOCKETS]

structure Opened.Kept (o : Opened) (p : Proc) : Prop where
  live : ∀ fd ∈ o.fds, 0 ≤ fd ∧ fd ∈ p.live
  udp_sk : (p.all_clients o.client).udp_sk = o.s
  tcp_sk : (p.all_clients o.client).tcp_sk = o.sk
  below : o.client < p.Max_Client
  ctrl : p.Control_sk (o.s.tmod MAX_CTRL_SOCKETS).toNat = o.ctrl_sk

structure Table (w : World) : Prop where
  above : ∀ i, w.p.Max_Client ≤ i → w.p.Free i
  max_le : w.p.Max_Client ≤ MAX_APP_CLIENTS
  kept : ∀ o ∈ w.opened, o.Kept w.p
  owner : ∀ i, ¬ w.p.Free i → ∃ o ∈ w.opened, o.client = i
  apart : ∀ o ∈ w.opened, ∀ o' ∈ w.opened, o ≠ o' → o.Apart o'
  ctrl : ∀ k, w.p.Control_sk k ≠ 0 → ∃ o ∈ w.opened, (o.s.tmod MAX_CTRL_SOCKETS).toNat = k

/-! ## 5. Descriptors and lookups -/

section Descriptors

variable {p : Proc} {fd fd' : ℤ}

@[simp] theorem opens_all_clients : (p.opens fd).all_clients = p.all_clients := by
  rw [Proc.opens]; split <;> rfl

@[simp] theorem opens_Max_Client : (p.opens fd).Max_Client = p.Max_Client := by
  rw [Proc.opens]; split <;> rfl

@[simp] theorem opens_Control_sk : (p.opens fd).Control_sk = p.Control_sk := by
  rw [Proc.opens]; split <;> rfl

@[simp] theorem closes_all_clients : (p.closes fd).all_clients = p.all_clients := by
  rw [Proc.closes]; split <;> rfl

@[simp] theorem closes_Max_Client : (p.closes fd).Max_Client = p.Max_Client := by
  rw [Proc.closes]; split <;> rfl

@[simp] theorem closes_Control_sk : (p.closes fd).Control_sk = p.Control_sk := by
  rw [Proc.closes]; split <;> rfl

theorem mem_opens (h : 0 ≤ fd) : fd' ∈ (p.opens fd).live ↔ fd' = fd ∨ fd' ∈ p.live := by
  rw [Proc.opens, if_neg (by omega)]
  exact Finset.mem_insert

theorem mem_of_opens (h : fd' ∈ (p.opens fd).live) : 0 ≤ fd ∧ fd' = fd ∨ fd' ∈ p.live := by
  by_cases h0 : 0 ≤ fd
  · rcases (mem_opens h0).mp h with h | h
    · exact .inl ⟨h0, h⟩
    · exact .inr h
  · rw [Proc.opens, if_pos (by omega)] at h
    exact .inr h

theorem mem_closes (h : fd' ∈ p.live) (hne : fd' ≠ fd) : fd' ∈ (p.closes fd).live := by
  rw [Proc.closes]
  split
  · exact h
  · exact Finset.mem_erase.mpr ⟨hne, h⟩

theorem closes_opens (h : fd ∉ p.live) : (p.opens fd).closes fd = p := by
  by_cases h0 : fd < 0
  · rw [Proc.opens, if_pos h0, Proc.closes, if_pos h0]
  · rw [Proc.opens, if_neg h0, Proc.closes, if_neg h0]
    simp only [Finset.erase_insert h]

theorem closes_comm : (p.closes fd).closes fd' = (p.closes fd').closes fd := by
  unfold Proc.closes
  split <;> split <;> try rfl
  simp only [Finset.erase_right_comm]

end Descriptors

section Lookups

variable {p : Proc} {i : ℕ} {sk : ℤ}

theorem spines_get_client_some (h : spines_get_client p sk = some i) :
    i < p.Max_Client ∧ (p.all_clients i).udp_sk = sk := by
  obtain ⟨hi, hlt, -⟩ := List.find?_range_eq_some.mp h
  exact ⟨mem_range.mp hlt, of_decide_eq_true hi⟩

theorem spines_get_client_eq (hlt : i < p.Max_Client) (hi : (p.all_clients i).udp_sk = sk)
    (hone : ∀ j, (p.all_clients j).udp_sk = sk → j = i) : spines_get_client p sk = some i := by
  refine List.find?_range_eq_some.mpr ⟨decide_eq_true hi, mem_range.mpr hlt, ?_⟩
  intro j hj
  have hne : (p.all_clients j).udp_sk ≠ sk := fun h => ne_of_lt hj (hone j h)
  simp [hne]

theorem free_client_some (h : free_client p = some i) : i < MAX_APP_CLIENTS ∧ p.Free i := by
  obtain ⟨hi, hlt, -⟩ := List.find?_range_eq_some.mp h
  exact ⟨mem_range.mp hlt, of_decide_eq_true hi⟩

theorem free_client_congr {p' : Proc} (h : p'.all_clients = p.all_clients) :
    free_client p' = free_client p := by
  have hfree : ∀ i, p'.Free i ↔ p.Free i := by
    intro i
    rw [Proc.Free, Proc.Free, h]
  unfold free_client
  congr 1
  funext i
  exact decide_eq_decide.mpr (hfree i)

theorem free_client_first (h : free_client p = some i) {j : ℕ} (hj : p.Free j) : i ≤ j := by
  obtain ⟨-, -, hbefore⟩ := List.find?_range_eq_some.mp h
  by_contra hlt
  have hnot := hbefore j (by omega)
  simp [hj] at hnot

theorem ctrl_index_of_nonneg {s : ℤ} (h : 0 ≤ s) :
    ctrl_index s = .ok (s.tmod MAX_CTRL_SOCKETS).toNat := by
  rw [ctrl_index, if_pos (Int.tmod_nonneg _ h)]

theorem modEq_of_index {s s' : ℤ} (h : 0 ≤ s) (h' : 0 ≤ s')
    (heq : (s.tmod MAX_CTRL_SOCKETS).toNat = (s'.tmod MAX_CTRL_SOCKETS).toNat) :
    s ≡ s' [ZMOD MAX_CTRL_SOCKETS] := by
  rw [Int.tmod_eq_emod_of_nonneg h, Int.tmod_eq_emod_of_nonneg h'] at heq
  have hs : 0 ≤ s % MAX_CTRL_SOCKETS := Int.emod_nonneg _ (by decide)
  have hs' : 0 ≤ s' % MAX_CTRL_SOCKETS := Int.emod_nonneg _ (by decide)
  rw [Int.ModEq]
  omega

end Lookups

/-! ## 6. `spines_socket` -/

def opened_fds (p : Proc) (udp : Bool) (a : Answers) : Proc :=
  let p := (p.opens a.ctrl_sk).opens a.sk
  if udp then p.opens a.u_sk else p

section Socket

variable {p : Proc} {sp_addr : Sockaddr} {a : Answers} {udp : Bool}

@[simp] theorem opened_fds_all_clients : (opened_fds p udp a).all_clients = p.all_clients := by
  cases udp <;> simp [opened_fds]

@[simp] theorem opened_fds_Max_Client : (opened_fds p udp a).Max_Client = p.Max_Client := by
  cases udp <;> simp [opened_fds]

@[simp] theorem opened_fds_Control_sk : (opened_fds p udp a).Control_sk = p.Control_sk := by
  cases udp <;> simp [opened_fds]

theorem abandon_opened (ha : a.Possible p sp_addr) : abandon (opened_fds p udp a) udp a = p := by
  have hsk : a.sk ∉ (p.opens a.ctrl_sk).live := by
    intro h
    rcases mem_of_opens h with ⟨h0, h⟩ | h
    · exact ha.sk_ctrl (by omega) h
    · exact ha.sk h
  cases udp with
  | false =>
    simp only [abandon, opened_fds, Bool.false_eq_true, if_false]
    rw [closes_opens hsk, closes_opens ha.ctrl_sk]
  | true =>
    have hu : a.u_sk ∉ ((p.opens a.ctrl_sk).opens a.sk).live := by
      intro h
      rcases mem_of_opens h with ⟨h0, h⟩ | h
      · exact ha.u_sk_sk (by omega) h
      · rcases mem_of_opens h with ⟨h0, h⟩ | h
        · exact ha.u_sk_ctrl (by omega) h
        · exact ha.u_sk h
    simp only [abandon, opened_fds, if_true]
    -- the datagram socket was opened last and is closed last
    rw [closes_comm, closes_comm (p := ((p.opens a.ctrl_sk).opens a.sk).opens a.u_sk),
      closes_opens hu, closes_opens hsk, closes_opens ha.ctrl_sk]

structure Succeeds (p : Proc) (type : ℤ) (protocol : BitVec 32) (sp_addr : Sockaddr)
    (a : Answers) (client : ℕ) : Prop where
  fails : a.fails = none
  free : free_client p = some client
  ctrl_sk : 0 ≤ a.ctrl_sk
  sk : 0 ≤ a.sk
  u_sk : udp_connect type protocol = true → 0 ≤ a.u_sk
  inet : udp_connect type protocol = true → sp_addr.family = AF_INET

theorem inet_of_accepted {type : ℤ} {protocol : BitVec 32}
    (h : ¬ refused type protocol sp_addr = true) (hudp : udp_connect type protocol = true) :
    sp_addr.family = AF_INET := by
  have hflag := (of_decide_eq_true hudp).2
  by_contra hne
  apply h
  by_cases hunix : sp_addr.family = AF_UNIX
  · exact decide_eq_true
      (.inr (.inr (.inr (.inr (.inr (.inr (.inl ⟨hunix, hflag⟩)))))))
  · exact decide_eq_true (.inr (.inr (.inr (.inr (.inr (.inl ⟨hunix, hne⟩))))))

theorem passed {α : Type*} {c : Prop} [Decidable c] {x y r : α} (h : (if c then x else y) = r) :
    r = x ∨ ¬ c ∧ y = r := by
  by_cases hc : c
  · exact .inl (by rw [← h, if_pos hc])
  · exact .inr ⟨hc, by rw [← h, if_neg hc]⟩

theorem spines_socket_cases {type : ℤ} {protocol : BitVec 32} {serv_addr : Option Sockaddr}
    {r : Except Halt (Proc × ℤ)} (ha : a.Possible p (serv_addr.getD p.Spines_Addr))
    (hconnect : a.fails ≠ some .connect) (hid : a.fails ≠ some .session_id)
    (h : spines_socket p type protocol serv_addr a = r) :
    r = .ok (p, -1) ∨
    ∃ client, Succeeds p type protocol (serv_addr.getD p.Spines_Addr) a client ∧
      r = complete (register (opened_fds p (udp_connect type protocol) a) client a) client type
        protocol (serv_addr.getD p.Spines_Addr) a := by
  have hgive : abandon ((p.opens a.ctrl_sk).opens a.sk) false a = p := by
    change abandon (opened_fds p false a) false a = p
    exact abandon_opened ha
  have hopen : (if udp_connect type protocol = true then ((p.opens a.ctrl_sk).opens a.sk).opens a.u_sk
      else (p.opens a.ctrl_sk).opens a.sk) = opened_fds p (udp_connect type protocol) a := rfl
  unfold spines_socket at h
  dsimp only at h
  rw [hgive, hopen, abandon_opened ha] at h
  apply passed at h
  obtain h | ⟨hok, h⟩ := h
  · exact .inl h
  apply passed at h
  obtain h | ⟨hsk, h⟩ := h
  · exact .inl h
  apply passed at h
  obtain h | ⟨hopt, h⟩ := h
  · exact .inl h
  apply passed at h
  obtain h | ⟨hctrl, h⟩ := h
  · exact .inl h
  apply passed at h
  obtain h | ⟨hrecv, h⟩ := h
  · exact .inl h
  rw [if_neg hconnect] at h
  apply passed at h
  obtain h | ⟨hu, h⟩ := h
  · exact .inl h
  apply passed at h
  obtain h | ⟨hs1, h⟩ := h
  · exact .inl h
  apply passed at h
  obtain h | ⟨hs2, h⟩ := h
  · exact .inl h
  apply passed at h
  obtain h | ⟨hs3, h⟩ := h
  · exact .inl h
  apply passed at h
  obtain h | ⟨hs4, h⟩ := h
  · exact .inl h
  rw [free_client_congr opened_fds_all_clients] at h
  cases hfree : free_client p with
  | none =>
    rw [hfree] at h
    exact .inl h.symm
  | some client =>
    rw [hfree] at h
    dsimp only at h
    rw [if_neg hid] at h
    have hset : a.fails ≠ some .setsockopt := fun hs => hopt ⟨ha.inet hs, hs⟩
    have hnone : a.fails = none := by
      clear h hopen hgive
      generalize a.fails = f at *
      cases f with
      | none => rfl
      | some st => cases st <;> simp at *
    have hudp : udp_connect type protocol = true → 0 ≤ a.u_sk := by
      intro hudp
      by_contra hlt
      exact hu ⟨hudp, by omega⟩
    exact .inr ⟨client, ⟨hnone, hfree, by omega, by omega, hudp, inet_of_accepted hok⟩, h.symm⟩

end Socket

/-! ## 7. A new socket -/

structure Adds (p : Proc) (o : Opened) (p' : Proc) : Prop where
  all_clients : ∃ c : Lib_Client, c.udp_sk = o.s ∧ c.tcp_sk = o.sk ∧
    p'.all_clients = Function.update p.all_clients o.client c
  Max_Client : p'.Max_Client = if o.client = p.Max_Client then p.Max_Client + 1 else p.Max_Client
  Control_sk : p'.Control_sk =
    Function.update p.Control_sk (o.s.tmod MAX_CTRL_SOCKETS).toNat o.ctrl_sk
  live : ∀ fd ∈ p.live, fd ∈ p'.live
  new : ∀ fd ∈ o.fds, 0 ≤ fd ∧ fd ∉ p.live ∧ fd ∈ p'.live

section Adding

variable {w : World} {o : Opened} {p' : Proc}

theorem Table.new_apart (h : Table w) (hadd : Adds w.p o p') (hfree : free_client w.p = some o.client)
    (hmod : ∀ o' ∈ w.opened, ¬ o'.s ≡ o.s [ZMOD MAX_CTRL_SOCKETS]) {o' : Opened}
    (ho' : o' ∈ w.opened) : o.Apart o' ∧ o'.Apart o := by
  have hkept := h.kept o' ho'
  have hfd : ∀ fd ∈ o.fds, fd ∉ o'.fds := fun fd hfd hfd' =>
    (hadd.new fd hfd).2.1 (hkept.live fd hfd').2
  have hclient : o.client ≠ o'.client := by
    intro heq
    have hused : (w.p.all_clients o'.client).udp_sk = -1 := heq ▸ (free_client_some hfree).2
    have h0 : 0 ≤ o'.s := (hkept.live o'.s (by simp [Opened.fds])).1
    have hs := hkept.udp_sk
    omega
  exact ⟨⟨hfd, hclient, fun hm => hmod o' ho' hm.symm⟩,
    ⟨fun fd hfd' hfd'' => hfd fd hfd'' hfd', hclient.symm, hmod o' ho'⟩⟩

theorem Table.add (h : Table w) (hadd : Adds w.p o p') (hfree : free_client w.p = some o.client)
    (hmod : ∀ o' ∈ w.opened, ¬ o'.s ≡ o.s [ZMOD MAX_CTRL_SOCKETS]) :
    Table { p := p', opened := o :: w.opened } := by
  obtain ⟨c, hudp, htcp, hclients⟩ := hadd.all_clients
  have happ : ∀ o' ∈ w.opened, o.Apart o' ∧ o'.Apart o := fun _ => h.new_apart hadd hfree hmod
  have hlt := (free_client_some hfree).1
  have hs : 0 ≤ o.s := (hadd.new o.s (by simp [Opened.fds])).1
  -- the entry at `Max_Client` is free, so the first free one is not behind it
  have hle : o.client ≤ w.p.Max_Client := free_client_first hfree (h.above _ (le_refl _))
  have hmax : w.p.Max_Client ≤ p'.Max_Client ∧ o.client < p'.Max_Client ∧
      p'.Max_Client ≤ MAX_APP_CLIENTS := by
    have hmle := h.max_le
    rw [hadd.Max_Client]
    split <;> omega
  have hother : ∀ i, i ≠ o.client → p'.all_clients i = w.p.all_clients i := by
    intro i hi
    rw [hclients, update_of_ne hi]
  have hnew : p'.all_clients o.client = c := by rw [hclients, update_self]
  refine ⟨?_, hmax.2.2, ?_, ?_, ?_, ?_⟩
  · intro i hi
    have hne : i ≠ o.client := by
      have := hmax.2.1
      dsimp only at hi
      omega
    have hfree' : w.p.Free i := h.above i (by have := hmax.1; dsimp only at hi; omega)
    change (p'.all_clients i).udp_sk = -1
    rw [hother i hne]
    exact hfree'
  · rintro o' ho'
    rcases mem_cons.mp ho' with rfl | ho'
    · refine ⟨fun fd hfd => ⟨(hadd.new fd hfd).1, (hadd.new fd hfd).2.2⟩, ?_, ?_, hmax.2.1, ?_⟩
      · rw [hnew]
        exact hudp
      · rw [hnew]
        exact htcp
      · change p'.Control_sk _ = _
        rw [hadd.Control_sk, update_self]
    · have hkept := h.kept o' ho'
      obtain ⟨-, happ'⟩ := happ o' ho'
      refine ⟨fun fd hfd => ⟨(hkept.live fd hfd).1, hadd.live fd (hkept.live fd hfd).2⟩, ?_, ?_,
        lt_of_lt_of_le hkept.below hmax.1, ?_⟩
      · rw [hother _ happ'.2.1]
        exact hkept.udp_sk
      · rw [hother _ happ'.2.1]
        exact hkept.tcp_sk
      · change p'.Control_sk _ = _
        have hs' : 0 ≤ o'.s := (hkept.live o'.s (by simp [Opened.fds])).1
        have hk : (o'.s.tmod MAX_CTRL_SOCKETS).toNat ≠ (o.s.tmod MAX_CTRL_SOCKETS).toNat :=
          fun heq => happ'.2.2 (modEq_of_index hs' hs heq)
        rw [hadd.Control_sk, update_of_ne hk]
        exact hkept.ctrl
  · intro i hi
    by_cases heq : i = o.client
    · exact ⟨o, mem_cons_self, heq.symm⟩
    · have hi' : ¬ w.p.Free i := by
        intro hf
        apply hi
        change (p'.all_clients i).udp_sk = -1
        rw [hother i heq]
        exact hf
      obtain ⟨o', ho', hcl⟩ := h.owner i hi'
      exact ⟨o', mem_cons_of_mem _ ho', hcl⟩
  · intro o1 h1 o2 h2 hne
    rcases mem_cons.mp h1 with heq1 | h1'
    · rcases mem_cons.mp h2 with heq2 | h2'
      · exact absurd (heq1.trans heq2.symm) hne
      · rw [heq1]
        exact (happ o2 h2').1
    · rcases mem_cons.mp h2 with heq2 | h2'
      · rw [heq2]
        exact (happ o1 h1').2
      · exact h.apart o1 h1' o2 h2' hne
  · intro k hk
    by_cases heq : k = (o.s.tmod MAX_CTRL_SOCKETS).toNat
    · exact ⟨o, mem_cons_self, heq.symm⟩
    · have hk' : w.p.Control_sk k ≠ 0 := by
        have hsame : p'.Control_sk k = w.p.Control_sk k := by
          rw [hadd.Control_sk, update_of_ne heq]
        rw [← hsame]
        exact hk
      obtain ⟨o', ho', hidx⟩ := h.ctrl k hk'
      exact ⟨o', mem_cons_of_mem _ ho', hidx⟩

end Adding

section Completing

variable {p : Proc} {type : ℤ} {protocol : BitVec 32} {sp_addr : Sockaddr} {a : Answers}
variable {client : ℕ}

def Answers.makes (a : Answers) (udp : Bool) (client : ℕ) : Opened :=
  ⟨a.socket udp, a.sk, a.ctrl_sk, client⟩

theorem Succeeds.fds_nonneg (hok : Succeeds p type protocol sp_addr a client) :
    ∀ fd ∈ (a.makes (udp_connect type protocol) client).fds, 0 ≤ fd := by
  have hs : 0 ≤ a.socket (udp_connect type protocol) := by
    rw [Answers.socket]
    split
    · rename_i hudp
      exact hok.u_sk hudp
    · exact hok.sk
  intro fd hfd
  simp only [Opened.fds, Answers.makes, mem_cons, not_mem_nil, or_false] at hfd
  rcases hfd with rfl | rfl | rfl
  · exact hs
  · exact hok.sk
  · exact hok.ctrl_sk

theorem Succeeds.fds_new (hok : Succeeds p type protocol sp_addr a client)
    (ha : a.Possible p sp_addr) :
    ∀ fd ∈ (a.makes (udp_connect type protocol) client).fds,
      fd ∉ p.live ∧ fd ∈ (opened_fds p (udp_connect type protocol) a).live := by
  have hsk : ∀ fd, fd = a.sk ∨ fd = a.ctrl_sk →
      fd ∈ (opened_fds p (udp_connect type protocol) a).live := by
    intro fd hfd
    have hmem : fd ∈ ((p.opens a.ctrl_sk).opens a.sk).live := by
      rw [mem_opens hok.sk, mem_opens hok.ctrl_sk]
      tauto
    rw [opened_fds]
    split
    · rename_i hudp
      exact (mem_opens (hok.u_sk hudp)).mpr (.inr hmem)
    · exact hmem
  intro fd hfd
  simp only [Opened.fds, Answers.makes, mem_cons, not_mem_nil, or_false] at hfd
  rcases hfd with rfl | rfl | rfl
  · by_cases hudp : udp_connect type protocol = true
    · have hsock : a.socket (udp_connect type protocol) = a.u_sk := by
        rw [Answers.socket, if_pos hudp]
      rw [hsock, opened_fds, if_pos hudp]
      exact ⟨ha.u_sk, (mem_opens (hok.u_sk hudp)).mpr (.inl rfl)⟩
    · have hsock : a.socket (udp_connect type protocol) = a.sk := by
        rw [Answers.socket, if_neg hudp]
      rw [hsock]
      exact ⟨ha.sk, hsk _ (.inl rfl)⟩
  · exact ⟨ha.sk, hsk _ (.inl rfl)⟩
  · exact ⟨ha.ctrl_sk, hsk _ (.inr rfl)⟩

theorem mem_opened_fds {udp : Bool} {fd : ℤ} (h : fd ∈ p.live) : fd ∈ (opened_fds p udp a).live := by
  have hmem : ∀ (q : Proc) (n : ℤ), fd ∈ q.live → fd ∈ (q.opens n).live := by
    intro q n hq
    rw [Proc.opens]
    split
    · exact hq
    · exact Finset.mem_insert_of_mem hq
  cases udp with
  | false => exact hmem _ _ (hmem _ _ h)
  | true => exact hmem _ _ (hmem _ _ (hmem _ _ h))

theorem register_tcp_sk : ((register p client a).all_clients client).tcp_sk = a.sk := by
  change (update p.all_clients client _ client).tcp_sk = a.sk
  rw [update_self]

theorem filled_udp_sk {c : Lib_Client} :
    (c.filled p type protocol sp_addr a).udp_sk = a.socket (udp_connect type protocol) := by
  rw [Lib_Client.filled, Answers.socket]
  split <;> rfl

theorem filled_tcp_sk {c : Lib_Client} :
    (c.filled p type protocol sp_addr a).tcp_sk = c.tcp_sk := by
  rw [Lib_Client.filled]
  split <;> rfl

theorem complete_spec {w : World} (h : Table w)
    (hok : Succeeds w.p type protocol sp_addr a client) (ha : a.Possible w.p sp_addr)
    (hmod : a.Apart w (udp_connect type protocol)) :
    ∃ p', complete (register (opened_fds w.p (udp_connect type protocol) a) client a) client type
        protocol sp_addr a = .ok (p', a.socket (udp_connect type protocol)) ∧
      Adds w.p (a.makes (udp_connect type protocol) client) p' := by
  have hs : 0 ≤ a.socket (udp_connect type protocol) := hok.fds_nonneg _ mem_cons_self
  have hret : (if udp_connect type protocol = true ∧ sp_addr.family = AF_INET then a.u_sk else a.sk) =
      a.socket (udp_connect type protocol) := by
    rw [Answers.socket]
    by_cases hudp : udp_connect type protocol = true
    · rw [if_pos ⟨hudp, hok.inet hudp⟩, if_pos hudp]
    · rw [if_neg (fun h => hudp h.1), if_neg hudp]
  have hzero : w.p.Control_sk ((a.socket (udp_connect type protocol)).tmod MAX_CTRL_SOCKETS).toNat
      = 0 := by
    by_contra hne
    obtain ⟨o, ho, hidx⟩ := h.ctrl _ hne
    have ho0 : 0 ≤ o.s := ((h.kept o ho).live o.s (by simp [Opened.fds])).1
    exact hmod o ho (modEq_of_index ho0 hs hidx)
  unfold complete
  dsimp only
  rw [hret, ctrl_index_of_nonneg hs]
  change ∃ p', ite ((register (opened_fds w.p (udp_connect type protocol) a) client a).Control_sk
    ((a.socket (udp_connect type protocol)).tmod MAX_CTRL_SOCKETS).toNat ≠ 0) _ _ = _ ∧ _
  rw [if_neg (by simpa [register] using hzero)]
  have hmax : (register (opened_fds w.p (udp_connect type protocol) a) client a).Max_Client =
      if client = w.p.Max_Client then w.p.Max_Client + 1 else w.p.Max_Client := by
    change (if client = (opened_fds w.p _ a).Max_Client then (opened_fds w.p _ a).Max_Client + 1
      else (opened_fds w.p _ a).Max_Client) = _
    rw [opened_fds_Max_Client]
  refine ⟨_, rfl, ⟨((register (opened_fds w.p (udp_connect type protocol) a) client a).all_clients
    client).filled (register (opened_fds w.p (udp_connect type protocol) a) client a) type protocol
    sp_addr a, filled_udp_sk, filled_tcp_sk.trans register_tcp_sk, ?_⟩, hmax, ?_, ?_, ?_⟩
  · change update (update (opened_fds w.p _ a).all_clients client _) client _ = _
    rw [update_idem, opened_fds_all_clients]
    rfl
  · change update (opened_fds w.p _ a).Control_sk _ _ = _
    rw [opened_fds_Control_sk]
    rfl
  · intro fd hfd
    exact mem_opened_fds hfd
  · intro fd hfd
    exact ⟨hok.fds_nonneg fd hfd, (hok.fds_new ha fd hfd).1, (hok.fds_new ha fd hfd).2⟩

end Completing

/-! ## 8. A closed socket -/

structure Removes (p : Proc) (o : Opened) (p' : Proc) : Prop where
  all_clients : p'.all_clients = Function.update p.all_clients o.client
    { p.all_clients o.client with udp_sk := -1 }
  Max_Client : p'.Max_Client = if o.client + 1 = p.Max_Client then p.Max_Client - 1 else p.Max_Client
  Control_sk : p'.Control_sk = Function.update p.Control_sk (o.s.tmod MAX_CTRL_SOCKETS).toNat 0
  live : ∀ fd ∈ p.live, fd ∉ o.fds → fd ∈ p'.live

section Removing

variable {w : World} {o : Opened} {p' : Proc} {s : ℤ}

theorem Table.nonneg (h : Table w) (ho : o ∈ w.opened) : 0 ≤ o.s :=
  ((h.kept o ho).live o.s (by simp [Opened.fds])).1

theorem Table.entry_unique (h : Table w) (ho : o ∈ w.opened) {i : ℕ}
    (hi : (w.p.all_clients i).udp_sk = o.s) : i = o.client := by
  have hused : ¬ w.p.Free i := by
    intro hf
    have h0 := h.nonneg ho
    rw [Proc.Free, hi] at hf
    omega
  obtain ⟨o', ho', rfl⟩ := h.owner i hused
  by_contra hne
  have hoo : o' ≠ o := fun heq => hne (by rw [heq])
  have hs : o'.s = o.s := by rw [← (h.kept o' ho').udp_sk, hi]
  exact (h.apart o' ho' o ho hoo).1 o'.s (by simp [Opened.fds]) (by simp [Opened.fds, hs])

theorem Table.get_client (h : Table w) (ho : o ∈ w.opened) :
    spines_get_client w.p o.s = some o.client :=
  spines_get_client_eq (h.kept o ho).below (h.kept o ho).udp_sk (fun _ hj => h.entry_unique ho hj)

theorem Table.found (h : Table w) {client : ℕ} (hget : spines_get_client w.p s = some client)
    (hs : s = -1 → ∀ i < w.p.Max_Client, ¬ w.p.Free i) :
    ∃ o ∈ w.opened, o.client = client ∧ o.s = s := by
  obtain ⟨hlt, hudp⟩ := spines_get_client_some hget
  have hused : ¬ w.p.Free client := by
    intro hf
    have hneg : s = -1 := by rw [← hudp]; exact hf
    exact hs hneg client hlt hf
  obtain ⟨o, ho, rfl⟩ := h.owner client hused
  exact ⟨o, ho, rfl, by rw [← (h.kept o ho).udp_sk, hudp]⟩

theorem Table.remove (h : Table w) (ho : o ∈ w.opened) (hrem : Removes w.p o p') :
    Table { p := p', opened := w.opened.filter (fun o' => decide (o'.s ≠ o.s)) } := by
  have hmem : ∀ o', o' ∈ w.opened.filter (fun o' => decide (o'.s ≠ o.s)) →
      o' ∈ w.opened ∧ o'.Apart o := by
    intro o' ho'
    obtain ⟨hin, hne⟩ := mem_filter.mp ho'
    refine ⟨hin, h.apart o' hin o ho ?_⟩
    rintro rfl
    exact of_decide_eq_true hne rfl
  have hother : ∀ i, i ≠ o.client → p'.all_clients i = w.p.all_clients i := by
    intro i hi
    rw [hrem.all_clients, update_of_ne hi]
  have hfreed : p'.Free o.client := by
    rw [Proc.Free, hrem.all_clients, update_self]
  -- an entry that is used now was used before, and by another socket
  have hused : ∀ i, ¬ p'.Free i → i ≠ o.client ∧ ¬ w.p.Free i := by
    intro i hi
    have hne : i ≠ o.client := by
      rintro rfl
      exact hi hfreed
    refine ⟨hne, ?_⟩
    rw [Proc.Free, ← hother i hne]
    exact hi
  have hstays : ∀ o' ∈ w.opened, o'.client ≠ o.client →
      o' ∈ w.opened.filter (fun o' => decide (o'.s ≠ o.s)) := by
    intro o' ho' hne
    refine mem_filter.mpr ⟨ho', decide_eq_true ?_⟩
    intro hs
    exact hne (h.entry_unique ho (by rw [(h.kept o' ho').udp_sk, hs]))
  have hmle := h.max_le
  refine ⟨?_, ?_, ?_, ?_, ?_, ?_⟩
  · intro i hi
    dsimp only at hi
    by_contra hnot
    obtain ⟨hne, hnot'⟩ := hused i hnot
    apply hnot'
    refine h.above i ?_
    rw [hrem.Max_Client] at hi
    split at hi <;> omega
  · dsimp only
    rw [hrem.Max_Client]
    split <;> omega
  · intro o' ho'
    obtain ⟨hin, hap⟩ := hmem o' ho'
    have hkept := h.kept o' hin
    refine ⟨fun fd hfd => ⟨(hkept.live fd hfd).1, hrem.live fd (hkept.live fd hfd).2 (hap.1 fd hfd)⟩,
      ?_, ?_, ?_, ?_⟩
    · rw [hother _ hap.2.1]
      exact hkept.udp_sk
    · rw [hother _ hap.2.1]
      exact hkept.tcp_sk
    · have hbelow := hkept.below
      have hne := hap.2.1
      change o'.client < p'.Max_Client
      rw [hrem.Max_Client]
      split <;> omega
    · have hk : (o'.s.tmod MAX_CTRL_SOCKETS).toNat ≠ (o.s.tmod MAX_CTRL_SOCKETS).toNat :=
        fun heq => hap.2.2 (modEq_of_index (h.nonneg hin) (h.nonneg ho) heq)
      change p'.Control_sk _ = _
      rw [hrem.Control_sk, update_of_ne hk]
      exact hkept.ctrl
  · intro i hi
    obtain ⟨hne, hi'⟩ := hused i hi
    obtain ⟨o', ho', rfl⟩ := h.owner i hi'
    exact ⟨o', hstays o' ho' hne, rfl⟩
  · intro o1 h1 o2 h2 hne
    exact h.apart o1 (hmem o1 h1).1 o2 (hmem o2 h2).1 hne
  · intro k hk
    have hk' : k ≠ (o.s.tmod MAX_CTRL_SOCKETS).toNat := by
      rintro rfl
      apply hk
      change p'.Control_sk _ = 0
      rw [hrem.Control_sk, update_self]
    have hold : w.p.Control_sk k ≠ 0 := by
      have hsame : p'.Control_sk k = w.p.Control_sk k := by
        rw [hrem.Control_sk, update_of_ne hk']
      rw [← hsame]
      exact hk
    obtain ⟨o', ho', hidx⟩ := h.ctrl k hold
    refine ⟨o', mem_filter.mpr ⟨ho', decide_eq_true ?_⟩, hidx⟩
    intro hs
    exact hk' (by rw [← hidx, hs])

theorem spines_close_spec (h : Table w) (ho : o ∈ w.opened) :
    ∃ p', spines_close w.p o.s = .ok p' ∧ Removes w.p o p' := by
  have hkept := h.kept o ho
  have hmem : ∀ (q : Proc) (fd n : ℤ), fd ∈ q.live → n ∈ o.fds → fd ∉ o.fds →
      fd ∈ (q.closes n).live := fun q fd n hq hn hfd =>
    mem_closes hq (fun heq => hfd (heq ▸ hn))
  have hclose : spines_close w.p o.s = .ok (hang_up (release w.p o.client) o.s
      (o.s.tmod MAX_CTRL_SOCKETS).toNat (w.p.all_clients o.client)) := by
    unfold spines_close
    rw [h.get_client ho]
    rw [ctrl_index_of_nonneg (h.nonneg ho)]
    rfl
  have hctrl : (release w.p o.client).Control_sk (o.s.tmod MAX_CTRL_SOCKETS).toNat ∈ o.fds := by
    change w.p.Control_sk _ ∈ o.fds
    rw [hkept.ctrl]
    simp [Opened.fds]
  have htcp : (w.p.all_clients o.client).tcp_sk ∈ o.fds := by
    rw [hkept.tcp_sk]
    simp [Opened.fds]
  have hs : o.s ∈ o.fds := by simp [Opened.fds]
  refine ⟨_, hclose, ?_, ?_, ?_, ?_⟩
  · rw [hang_up]
    split <;> simp only [closes_all_clients] <;> rfl
  · rw [hang_up]
    split <;> simp only [closes_Max_Client] <;> rfl
  · rw [hang_up]
    split <;> simp only [closes_Control_sk] <;> rfl
  · intro fd hfd hnot
    have hrest := hmem _ fd _ (hmem (release w.p o.client) fd o.s hfd hs hnot) hctrl hnot
    rw [hang_up]
    split
    · exact hmem _ fd _ hrest htcp hnot
    · exact hrest

theorem spines_close_table (h : Table w) (hs : s = -1 → ∀ i < w.p.Max_Client, ¬ w.p.Free i) :
    ∃ p', spines_close w.p s = .ok p' ∧
      Table { p := p', opened := w.opened.filter (fun o => decide (o.s ≠ s)) } := by
  cases hget : spines_get_client w.p s with
  | some client =>
    obtain ⟨o, ho, -, rfl⟩ := h.found hget hs
    obtain ⟨p', hclose, hrem⟩ := spines_close_spec h ho
    exact ⟨p', hclose, h.remove ho hrem⟩
  | none =>
    have hall : w.opened.filter (fun o => decide (o.s ≠ s)) = w.opened := by
      refine filter_eq_self.mpr ?_
      intro o ho
      refine decide_eq_true ?_
      rintro rfl
      rw [h.get_client ho] at hget
      cases hget
    refine ⟨w.p, ?_, ?_⟩
    · rw [spines_close, hget]
    · rw [hall]
      exact h

end Removing

/-! ## 9. Whole runs -/

section Runs

variable {w w' : World}

theorem World.returned_fail {a : Answers} : w.returned a (w.p, -1) = w := by
  rw [World.returned, if_pos rfl]

theorem spines_socket_table (h : Table w) {type : ℤ} {protocol : BitVec 32}
    (serv_addr : Option Sockaddr) {a : Answers}
    (ha : a.Possible w.p (serv_addr.getD w.p.Spines_Addr))
    (ht : a.Tidy w (udp_connect type protocol)) :
    spines_socket w.p type protocol serv_addr a = .ok (w.p, -1) ∨
    ∃ p' s, spines_socket w.p type protocol serv_addr a = .ok (p', s) ∧ 0 ≤ s ∧
      a.fails = none ∧ Table (w.returned a (p', s)) := by
  obtain ⟨hconnect, hid, hmod⟩ := ht
  obtain hr | ⟨client, hok, hr⟩ := spines_socket_cases ha hconnect hid rfl
  · exact .inl hr
  · obtain ⟨p', hdone, hadd⟩ := complete_spec h hok ha (hmod hok.fails)
    have hs : 0 ≤ a.socket (udp_connect type protocol) := hok.fds_nonneg _ mem_cons_self
    refine .inr ⟨p', _, hr.trans hdone, hs, hok.fails, ?_⟩
    have hnew : w.returned a (p', a.socket (udp_connect type protocol)) =
        { p := p', opened := a.makes (udp_connect type protocol) client :: w.opened } := by
      rw [World.returned, if_neg (by dsimp only; omega), hok.free]
      rfl
    rw [hnew]
    exact h.add hadd hok.free (hmod hok.fails)

theorem spines_accept_table (h : Table w) {s : ℤ} {addrlen : Option ℕ} {a : Answers} {t : Talk}
    (ha : (Event.accept s addrlen a t).Possible w) (hm : (Event.accept s addrlen a t).Meets w) :
    spines_accept w.p s addrlen a t = .ok (w.p, -1) ∨
    ∃ p' s', spines_accept w.p s addrlen a t = .ok (p', s') ∧ 0 ≤ s' ∧
      Table (w.returned a (p', s')) := by
  unfold spines_accept
  cases hget : spines_get_client w.p s with
  | none => exact .inl rfl
  | some client =>
    dsimp only
    by_cases htype : (w.p.all_clients client).type = SOCK_DGRAM
    · rw [if_pos htype]
      exact .inl rfl
    rw [if_neg htype]
    by_cases hreq : ¬ (t.request = true ∧ s ∈ w.p.live)
    · rw [if_pos hreq]
      exact .inl rfl
    rw [if_neg hreq]
    have hreq' : t.request = true := by tauto
    obtain ⟨htidy, hlate⟩ := hm hreq'
    obtain hr | ⟨p', new_sk, hr, hpos, hnone, htable⟩ := spines_socket_table h
      (some (w.p.all_clients client).addr_storage.of_storage)
      (ha client hget) (htidy client hget)
    · rw [hr]
      exact .inl rfl
    · obtain ⟨hsend, hhello, hlen⟩ := hlate hnone
      have hroom : addrlen.any (fun n => decide (n < sizeof_sockaddr_in)) = false := by
        cases addrlen with
        | none => rfl
        | some n => exact decide_eq_false (not_lt.mpr (hlen n rfl))
      refine .inr ⟨p', new_sk, ?_, hpos, htable⟩
      rw [hr]
      change ite (new_sk < 0) _ _ = _
      rw [if_neg (by omega), if_neg (by simp [hsend]), if_neg (by simp [hhello]), hroom]
      rfl

theorem call_table (h : Table w) {e : Event} (hp : e.Possible w) (hm : e.Meets w) :
    ∃ w' ret, w.call e = .ok (w', ret) ∧ Table w' ∧ (ret = -1 → w' = w) := by
  cases e with
  | socket type protocol serv_addr a =>
    obtain hr | ⟨p', s, hr, hs, -, htable⟩ := spines_socket_table h serv_addr hp hm
    · refine ⟨w, -1, ?_, h, fun _ => rfl⟩
      rw [World.call, hr]
      exact congrArg (fun x => Except.ok (x, -1)) World.returned_fail
    · refine ⟨_, s, ?_, htable, fun heq => by omega⟩
      rw [World.call, hr]
      rfl
  | accept s addrlen a t =>
    obtain hr | ⟨p', s', hr, hs, htable⟩ := spines_accept_table h hp hm
    · refine ⟨w, -1, ?_, h, fun _ => rfl⟩
      rw [World.call, hr]
      exact congrArg (fun x => Except.ok (x, -1)) World.returned_fail
    · refine ⟨_, s', ?_, htable, fun heq => by omega⟩
      rw [World.call, hr]
      rfl
  | close s =>
    obtain ⟨p', hclose, htable⟩ := spines_close_table h hm
    refine ⟨_, 0, ?_, htable, fun heq => absurd heq (by decide)⟩
    rw [World.call, hclose]
    rfl

theorem Table.init (h : w.Initial) : Table w := by
  obtain ⟨hfree, hmax, hctrl, hopen, -⟩ := h
  refine ⟨fun i _ => hfree i, by omega, ?_, ?_, ?_, ?_⟩
  · rw [hopen]
    intro o ho
    cases ho
  · intro i hi
    exact absurd (hfree i) hi
  · rw [hopen]
    intro o ho
    cases ho
  · intro k hk
    exact absurd (hctrl k) hk

theorem Table.run {w0 : World} (h0 : w0.Initial) (h : Run step w0 w) : Table w := by
  refine Run.invariant Table (Table.init h0) ?_ h
  rintro w e w' htable ⟨hp, hm, ret, hcall⟩
  obtain ⟨w'', ret', hcall', htable', -⟩ := call_table htable hp hm
  rw [hcall] at hcall'
  obtain ⟨rfl, -⟩ := Prod.mk.inj (Except.ok.inj hcall')
  exact htable'

/-- The descriptors that entry `i` holds. -/
def Proc.holds (p : Proc) (i : ℕ) : List ℤ := [(p.all_clients i).udp_sk, (p.all_clients i).tcp_sk]

/-- In a run of calls none of which leaves something behind, the table is right in every
state: no descriptor is in two entries, the entries from `Max_Client` on are free, every
open socket is found in its own entry and has its own control channel; and the next such
call comes back, with nothing changed if it returns -1. -/
theorem socket_table {w₀ : World} (h0 : w₀.Initial) (h : Run step w₀ w) :
    (∀ i j, i ≠ j → ¬ w.p.Free i → ¬ w.p.Free j →
      ∀ fd ∈ w.p.holds i, fd ∈ w.p.live ∧ fd ∉ w.p.holds j) ∧
    (∀ i, w.p.Max_Client ≤ i → w.p.Free i) ∧
    (∀ o ∈ w.opened, spines_get_client w.p o.s = some o.client ∧
      w.p.holds o.client = [o.s, o.sk] ∧
      ∃ k, ctrl_index o.s = .ok k ∧ w.p.Control_sk k = o.ctrl_sk) ∧ ∀ e, e.Possible w → e.Meets w →
      ∃ w' ret, w.call e = .ok (w', ret) ∧ (ret = -1 → w' = w) := by
  have htable := Table.run h0 h
  have hholds : ∀ o ∈ w.opened, w.p.holds o.client = [o.s, o.sk] := by
    intro o ho
    rw [Proc.holds, (htable.kept o ho).udp_sk, (htable.kept o ho).tcp_sk]
  have hfds : ∀ o : Opened, ∀ fd ∈ [o.s, o.sk], fd ∈ o.fds := by
    intro o fd hfd
    simp only [mem_cons, not_mem_nil, or_false] at hfd
    rcases hfd with rfl | rfl <;> simp [Opened.fds]
  refine ⟨?_, htable.above, ?_, ?_⟩
  · intro i j hij hi hj fd hfd
    obtain ⟨o, ho, rfl⟩ := htable.owner i hi
    obtain ⟨o', ho', rfl⟩ := htable.owner j hj
    rw [hholds o ho] at hfd
    have hne : o ≠ o' := fun heq => hij (by rw [heq])
    refine ⟨((htable.kept o ho).live fd (hfds o fd hfd)).2, ?_⟩
    rw [hholds o' ho']
    intro hfd'
    exact (htable.apart o ho o' ho' hne).1 fd (hfds o fd hfd) (hfds o' fd hfd')
  · intro o ho
    exact ⟨htable.get_client ho, hholds o ho, _, ctrl_index_of_nonneg (htable.nonneg ho),
      (htable.kept o ho).ctrl⟩
  · intro e hp hm
    obtain ⟨w', ret, hcall, -, hsame⟩ := call_table htable hp hm
    exact ⟨w', ret, hcall, hsame⟩

/-! ### The calls that are left out -/

/-- The library after `spines_init`, in a process that has no descriptor open. -/
def World.start : World where
  p := {
    all_clients := fun _ =>
      { tcp_sk := 0, udp_sk := -1, type := 0, endianess_type := 0, sess_id := 0, rnd_num := 0,
        addr_storage := ⟨0, 0⟩, protocol := 0, my_addr := 0, my_port := 0, connect_addr := 0,
        connect_port := 0, connect_flag := 0, session_semantics := 0, virtual_local_port := 0,
        virtual_addr := 0, ip_ttl := 0, mcast_ttl := 0, routing := 0 }
    Max_Client := 0
    Control_sk := fun _ => 0
    Spines_Addr := ⟨AF_INET, 0⟩
    Local_Address := 0
    live := ∅ }
  opened := []

def streamSocket (fd : ℤ) (fails : Option Stage) : Event :=
  .socket SOCK_STREAM 0 none
    { ctrl_sk := fd, sk := fd + 1, u_sk := -1, fails, rnd_num := 0, endianess_type := 0,
      sess_id := 1, v_local_port := 0, v_addr := 0 }

theorem World.start_initial : World.start.Initial :=
  ⟨fun _ => rfl, rfl, fun _ => rfl, rfl, fun fd hfd => absurd hfd (Finset.notMem_empty fd)⟩

theorem streamSocket_possible (fd : ℤ) (f : Option Stage)
    (h : fd ∉ w.p.live ∧ fd + 1 ∉ w.p.live) (hneg : -1 ∉ w.p.live)
    (hinet : w.p.Spines_Addr.family = AF_INET) : (streamSocket fd f).Possible w :=
  have hu : ¬ (0 : ℤ) ≤ -1 := by decide
  ⟨h.1, h.2, hneg, fun _ => by dsimp only; omega, fun h => absurd h hu, fun h => absurd h hu,
    fun _ => hinet⟩

theorem called {w : World} {e : Event} {α : Type} {f : World × ℤ → α} {x : α}
    (h : (w.call e).toOption.map f = some x) : ∃ r, w.call e = .ok r ∧ f r = x := by
  cases hcall : w.call e with
  | error halt =>
    rw [hcall] at h
    cases h
  | ok r =>
    rw [hcall] at h
    exact ⟨r, rfl, Option.some.inj h⟩

theorem socket_table_one : ∃ w, Run step World.start w ∧ w.opened = [⟨4, 4, 3, 0⟩] ∧
    spines_get_client w.p 4 = some 0 := by
  obtain ⟨⟨w', ret⟩, hcall, hopen⟩ := called (w := World.start) (e := streamSocket 3 none)
    (f := fun r => r.1.opened) (x := [⟨4, 4, 3, 0⟩]) (by decide +kernel)
  have hp : (streamSocket 3 none).Possible World.start :=
    streamSocket_possible 3 none (by decide) (by decide) rfl
  have hm : (streamSocket 3 none).Meets World.start :=
    ⟨by decide, by decide, fun _ o ho => absurd ho not_mem_nil⟩
  have hrun : Run step World.start w' := (Run.refl _).tail ⟨hp, hm, ret, hcall⟩
  have hown := (socket_table World.start_initial hrun).2.2.1 ⟨4, 4, 3, 0⟩
    (by rw [hopen]; exact mem_cons_self)
  exact ⟨w', hrun, hopen, hown.1⟩

/-- A call that cannot connect the data socket returns -1 and leaves two descriptors
open. -/
theorem connect_leaks : ∃ e w', e.Possible World.start ∧ World.start.call e = .ok (w', -1) ∧
    World.start.p.live = ∅ ∧ w'.p.live = {3, 4} := by
  obtain ⟨⟨w', ret⟩, hcall, hleft⟩ := called (w := World.start)
    (e := streamSocket 3 (some .connect)) (f := fun r => (r.2, r.1.p.live)) (x := (-1, {3, 4}))
    (by decide +kernel)
  obtain ⟨rfl, hlive⟩ := Prod.mk.inj hleft
  exact ⟨_, w', streamSocket_possible 3 _ (by decide) (by decide) rfl, hcall, rfl, hlive⟩

end Runs

end Spines.Client.Sockets
