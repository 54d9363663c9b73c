/-
Who has joined which group (`Create_Group`, `Join_Group`, `Leave_Group` and
`Groups_Process_state_cell` of `daemon/multicast.c`, `Session_Close` of
`daemon/session.c`, `Resend_States` and the loop of `Process_state_packet` of
`daemon/state_flood.c`).

A membership is stored four times: in `joined_groups` of the session, in
`joined_sessions` of the local entry of the group, in the status of that entry, and
by the entry's place in two hashes of hashes. Objects are named, so that one object
found on two ways is one name. The neighbors may claim anything of any node, also of
this one; of this one only the stamp is taken over, and is counted up once more.

The stamps are `int32`. Counting up is guarded by nothing: `bump` goes back at the end
of their range (`bump_greater`), and a claim may bring a stamp there. Signed overflow
is taken to wrap around.

A session whose groups are not all left yet stays as it is, `Try_Close_Session` closes
it again: `close` is both.
-/
import Mathlib.Data.Prod.Lex
import Spines.Sessions.Index

set_option autoImplicit false

namespace Spines.Sessions.Membership

open Spines.Lib Function Option List

/-! ## 1. The state -/

def ACTIVE_GROUP : BitVec 16 := 1

structure Stamp where
  timestamp_sec : Int32
  timestamp_usec : Int32
  deriving DecidableEq

structure Group_State where
  node_nid : ℕ
  mcast_gid : ℕ
  stamp : Stamp
  status : BitVec 16
  age : BitVec 16
  joined_sessions : List (ℕ × ℕ)
  deriving DecidableEq

structure Session where
  sess_id : ℕ
  type : SesType
  joined_groups : List (ℕ × ℕ)
  deriving DecidableEq

structure Daemon where
  My_Address : ℕ
  groups : ℕ → Option Group_State
  next_group : ℕ
  All_Groups_by_Node : ℕ → ℕ → Option ℕ
  All_Groups_by_Name : ℕ → ℕ → Option ℕ
  Changed_Group_States : List ℕ
  sessions : ℕ → Option Session
  next_session : ℕ
  Session_Num : ℕ
  Sessions_ID : Hash ℕ ℕ
  /-- the queued calls of `Try_Close_Session` -/
  try_close : List ℕ

def Daemon.init (My_Address : ℕ) : Daemon :=
  { My_Address := My_Address
    groups := fun _ => none
    next_group := 0
    All_Groups_by_Node := fun _ _ => none
    All_Groups_by_Name := fun _ _ => none
    Changed_Group_States := []
    sessions := fun _ => none
    next_session := 0
    Session_Num := 0
    Sessions_ID := Hash.empty
    try_close := [] }

def Daemon.set_group (d : Daemon) (o : ℕ) (g_state : Group_State) : Daemon :=
  { d with groups := Function.update d.groups o (some g_state) }

def Daemon.set_session (d : Daemon) (s : ℕ) (ses : Session) : Daemon :=
  { d with sessions := Function.update d.sessions s (some ses) }

/-- `Add_to_changed_states`. -/
def add_to_changed (d : Daemon) (o : ℕ) : Daemon :=
  { d with
    Changed_Group_States :=
      if o ∈ d.Changed_Group_States then d.Changed_Group_States
      else d.Changed_Group_States ++ [o] }

/-- `++timestamp_usec`, with the carry. -/
def Stamp.bump (t : Stamp) : Stamp :=
  if t.timestamp_usec + 1 ≥ 1000000 then ⟨t.timestamp_sec + 1, 0⟩
  else { t with timestamp_usec := t.timestamp_usec + 1 }

/-! ## 2. Groups -/

def set2 {α : Type} (f : ℕ → ℕ → Option α) (a b : ℕ) (x : α) : ℕ → ℕ → Option α :=
  Function.update f a (Function.update (f a) b (some x))

/-- `none` is "Create_Group(): Group already exists". -/
def Create_Group (now : Stamp) (nid mcast_address : ℕ) (d : Daemon) : Option (ℕ × Daemon) :=
  if (d.All_Groups_by_Node nid mcast_address).isSome then none
  else
    let o := d.next_group
    let g_state : Group_State :=
      { node_nid := nid
        mcast_gid := mcast_address
        stamp := if d.My_Address = nid then now else ⟨0, 0⟩
        status := 0
        age := 0
        joined_sessions := [] }
    some (o, { d.set_group o g_state with
      next_group := d.next_group + 1
      All_Groups_by_Node := set2 d.All_Groups_by_Node nid mcast_address o
      All_Groups_by_Name := set2 d.All_Groups_by_Name mcast_address nid o })

def find_or_create (now : Stamp) (nid mcast_address : ℕ) (d : Daemon) : Option (ℕ × Daemon) :=
  match d.All_Groups_by_Node nid mcast_address with
  | some o => some (o, d)
  | none => Create_Group now nid mcast_address d

def activate (o : ℕ) (g_state : Group_State) (d : Daemon) : Group_State × Daemon :=
  if g_state.status &&& ACTIVE_GROUP = 0 then
    let g_state :=
      { g_state with status := g_state.status ||| ACTIVE_GROUP, stamp := g_state.stamp.bump }
    (g_state, add_to_changed (d.set_group o g_state) o)
  else (g_state, d)

/-- `Join_Group` by the session object `s`. -/
def Join_Group (now : Stamp) (mcast_address s : ℕ) (d : Daemon) : Option Daemon := do
  let ses ← d.sessions s
  if Is_group_addr mcast_address = false then some d
  else if ses.type ≠ .UDP_SES_TYPE then some d
  else if mcast_address ∈ ses.joined_groups.map Prod.fst then some d
  else
    let (o, d) ← find_or_create now d.My_Address mcast_address d
    let g_state ← d.groups o
    let (g_state, d) := activate o g_state d
    let d := d.set_session s
      { ses with joined_groups := ses.joined_groups ++ [(mcast_address, o)] }
    some (d.set_group o
      { g_state with joined_sessions := g_state.joined_sessions ++ [(ses.sess_id, s)] })

def erase_key (l : List (ℕ × ℕ)) (k : ℕ) : List (ℕ × ℕ) := l.eraseP fun p => p.1 = k

def deactivate (o : ℕ) (g_state : Group_State) (d : Daemon) : Daemon :=
  if g_state.joined_sessions = [] then
    add_to_changed (d.set_group o { g_state with
      status := g_state.status &&& ~~~ACTIVE_GROUP, stamp := g_state.stamp.bump }) o
  else d

/-- `Leave_Group` by the session object `s`; `none` is "BUG Leave_Group(): Session not in
the group array?!". -/
def Leave_Group (mcast_address s : ℕ) (d : Daemon) : Option Daemon := do
  let ses ← d.sessions s
  if Is_group_addr mcast_address = false then some d
  else
    match ses.joined_groups.find? fun p => p.1 = mcast_address with
    | none => some d
    | some (_, o) =>
      let d := d.set_session s
        { ses with joined_groups := erase_key ses.joined_groups mcast_address }
      let g_state ← d.groups o
      if ses.sess_id ∉ g_state.joined_sessions.map Prod.fst then none
      else
        let g_state :=
          { g_state with joined_sessions := erase_key g_state.joined_sessions ses.sess_id }
        some (deactivate o g_state (d.set_group o g_state))

/-! ## 3. Sessions -/

/-- `Session_Accept`. -/
def accept (d : Daemon) : Daemon :=
  let s := d.next_session
  { d.set_session s { sess_id := d.Session_Num, type := .UDP_SES_TYPE, joined_groups := [] } with
    next_session := d.next_session + 1
    Session_Num := (d.Session_Num + 1) % 2 ^ 32
    Sessions_ID := d.Sessions_ID.insert d.Session_Num s }

/-- "Leave all the groups": `n` more may be left after the next one. The flag tells that
all are left. -/
def leave_groups (s : ℕ) : ℕ → Daemon → Option (Daemon × Bool)
  | n, d => do
    let ses ← d.sessions s
    match ses.joined_groups with
    | [] => some (d, true)
    | (_, o) :: _ =>
      let g_state ← d.groups o
      let d ← Leave_Group g_state.mcast_gid s d
      match n with
      | 0 => some (d, false)
      | n + 1 => leave_groups s n d

/-- `Session_Close`; `none` is "Session_Close(): invalid ID", or comes from `Leave_Group`. -/
def Session_Close (sesid : ℕ) (d : Daemon) : Option Daemon :=
  match d.Sessions_ID.find sesid with
  | none => some d
  | some s => do
    let (d, left) ← leave_groups s MAX_LEAVE d
    if left = false then some { d with try_close := d.try_close ++ [sesid] }
    else
      match d.Sessions_ID.find sesid with
      | none => none
      | some _ =>
        some { d with
          Sessions_ID := d.Sessions_ID.erase sesid
          sessions := Function.update d.sessions s none }

/-! ## 4. Cells -/

structure Group_Cell where
  source : ℕ
  dest : ℕ
  stamp : Stamp
  flags : BitVec 16
  age : BitVec 16

def Stamp.older (t t' : Stamp) : Prop :=
  t.timestamp_sec < t'.timestamp_sec ∨
    (t.timestamp_sec = t'.timestamp_sec ∧ t.timestamp_usec < t'.timestamp_usec)

instance (t t' : Stamp) : Decidable (t.older t') := inferInstanceAs (Decidable (_ ∨ _))

/-- `Groups_Process_state_cell`, and the caller's `Add_to_changed_states` for an update
that goes on. -/
def Groups_Process_state_cell (now : Stamp) (group_cell : Group_Cell) (d : Daemon) :
    Option Daemon := do
  let (o, d) ← find_or_create now group_cell.source group_cell.dest d
  let g_state ← d.groups o
  if group_cell.source ≠ d.My_Address then
    some (add_to_changed (d.set_group o { g_state with
      stamp := group_cell.stamp, age := group_cell.age, status := group_cell.flags }) o)
  -- only this daemon publishes its own memberships
  else some (add_to_changed (d.set_group o { g_state with stamp := group_cell.stamp.bump }) o)

def newer (group_cell : Group_Cell) (d : Daemon) : Bool :=
  ((d.All_Groups_by_Node group_cell.source group_cell.dest).bind d.groups).all
    fun g_state => g_state.stamp.older group_cell.stamp

/-- One cell of `Process_state_packet`. -/
def process_cell (now : Stamp) (group_cell : Group_Cell) (d : Daemon) : Option Daemon :=
  if newer group_cell d then Groups_Process_state_cell now group_cell d else some d

/-- `Resend_States` for one entry of this daemon. -/
def resend_state (mcast_address : ℕ) (d : Daemon) : Option Daemon :=
  match d.All_Groups_by_Node d.My_Address mcast_address with
  | none => some d
  | some o => do
    let g_state ← d.groups o
    if g_state.status &&& ACTIVE_GROUP ≠ 0 then
      some (add_to_changed (d.set_group o { g_state with stamp := g_state.stamp.bump }) o)
    else some d

/-! ## 5. Runs -/

inductive Event
  | accept
  | set_type (s : ℕ) (type : SesType)
  | join (now : Stamp) (mcast_address s : ℕ)
  | leave (mcast_address s : ℕ)
  /-- `Session_Close` for any reason, and `Try_Close_Session` -/
  | close (sesid : ℕ)
  | cell (now : Stamp) (group_cell : Group_Cell)
  | resend (mcast_address : ℕ)
  /-- `Empty_Changed_States`, after all has been sent -/
  | sent

/-- What an event does; `none` is an `Alarm(EXIT, ...)`. A command comes from a session
that is there. -/
def Daemon.next (d : Daemon) : Event → Option Daemon
  | .accept => some (Membership.accept d)
  | .set_type s type =>
    match d.sessions s with
    | none => some d
    | some ses => some (d.set_session s { ses with type := type })
  | .join now mcast_address s =>
    if (d.sessions s).isNone then some d else Join_Group now mcast_address s d
  | .leave mcast_address s =>
    if (d.sessions s).isNone then some d else Leave_Group mcast_address s d
  | .close sesid => Session_Close sesid d
  | .cell now group_cell => process_cell now group_cell d
  | .resend mcast_address => resend_state mcast_address d
  | .sent => some { d with Changed_Group_States := [] }

def Stamp.Room (t : Stamp) : Prop :=
  t.timestamp_usec.toInt < 2 ^ 31 - 1 ∧
    (999999 ≤ t.timestamp_usec.toInt → t.timestamp_sec.toInt < 2 ^ 31 - 1)

/-- Leaving its group `o` would make the session the last to leave, and the stamp has room. -/
def Leave_Room (d : Daemon) (s : ℕ) (ses : Session) (o : ℕ) : Prop :=
  ∀ g_state, d.groups o = some g_state → g_state.joined_sessions = [(ses.sess_id, s)] →
    g_state.stamp.Room

/-- The condition on an event: a stamp that is counted up has room, and a new session gets
a number that no session has. -/
def Allowed (d : Daemon) : Event → Prop
  | .accept => ∀ s ses, d.sessions s = some ses → ses.sess_id ≠ d.Session_Num
  | .join _ mcast_address s =>
    ∀ ses o g_state, d.sessions s = some ses → mcast_address ∉ ses.joined_groups.map Prod.fst →
      ses.type = .UDP_SES_TYPE → d.All_Groups_by_Node d.My_Address mcast_address = some o →
      d.groups o = some g_state → g_state.status &&& ACTIVE_GROUP = 0 → g_state.stamp.Room
  | .leave mcast_address s =>
    ∀ ses o, d.sessions s = some ses → (mcast_address, o) ∈ ses.joined_groups →
      Leave_Room d s ses o
  | .close sesid =>
    ∀ s ses, d.Sessions_ID.find sesid = some s → d.sessions s = some ses →
      ∀ p ∈ ses.joined_groups.take (MAX_LEAVE + 1), Leave_Room d s ses p.2
  | .cell _ group_cell =>
    group_cell.source = d.My_Address → newer group_cell d →
      d.All_Groups_by_Node d.My_Address group_cell.dest ≠ none → group_cell.stamp.Room
  | .resend mcast_address =>
    ∀ o g_state, d.All_Groups_by_Node d.My_Address mcast_address = some o →
      d.groups o = some g_state → g_state.status &&& ACTIVE_GROUP ≠ 0 → g_state.stamp.Room
  | _ => True

def Step (d : Daemon) (e : Event) (d' : Daemon) : Prop := Allowed d e ∧ d.next e = some d'

/-! ## 6. Stamps and lists of pairs -/

theorem Stamp.older_iff (t t' : Stamp) : t.older t' ↔
    t.timestamp_sec.toInt < t'.timestamp_sec.toInt ∨
      (t.timestamp_sec.toInt = t'.timestamp_sec.toInt ∧
        t.timestamp_usec.toInt < t'.timestamp_usec.toInt) := by
  unfold older
  rw [Int32.lt_iff_toInt_lt, Int32.lt_iff_toInt_lt, Int32.toInt_inj]

theorem Stamp.older.trans {t t' t'' : Stamp} (h : t.older t') (h' : t'.older t'') :
    t.older t'' := by
  rw [older_iff] at *
  omega

theorem toInt_succ (x : Int32) :
    (x + 1).toInt = if x.toInt = 2 ^ 31 - 1 then -2 ^ 31 else x.toInt + 1 := by
  have hlow := Int32.le_toInt x
  have hhigh := Int32.toInt_lt x
  have h1 : (1 : Int32).toInt = 1 := by decide
  rw [Int32.toInt_add, h1]
  split
  · rename_i h
    rw [h]
    decide
  · apply Int.bmod_eq_of_le <;> omega

theorem Stamp.bump_greater (t : Stamp) : t.older t.bump ↔ t.Room := by
  have hsec := toInt_succ t.timestamp_sec
  have husec := toInt_succ t.timestamp_usec
  have hs := Int32.toInt_lt t.timestamp_sec
  have hs' := Int32.le_toInt t.timestamp_sec
  have hu := Int32.toInt_lt t.timestamp_usec
  have hu' := Int32.le_toInt t.timestamp_usec
  have hlimit : (1000000 : Int32).toInt = 1000000 := by decide
  have hzero : (0 : Int32).toInt = 0 := by decide
  rw [older_iff]
  unfold bump Room
  by_cases hcarry : t.timestamp_usec + 1 ≥ 1000000
  · rw [if_pos hcarry]
    rw [ge_iff_le, Int32.le_iff_toInt_le, hlimit, husec] at hcarry
    dsimp only
    rw [hsec, hzero]
    split at hcarry
    · omega
    · split <;> omega
  · rw [if_neg hcarry]
    rw [ge_iff_le, Int32.le_iff_toInt_le, hlimit] at hcarry
    dsimp only
    by_cases hmax : t.timestamp_usec.toInt = 2 ^ 31 - 1
    · rw [if_pos hmax] at husec
      omega
    · rw [if_neg hmax] at husec
      omega

theorem update_some {α : Type} {f : ℕ → Option α} {a k : ℕ} {v x : α}
    (h : update f a (some v) k = some x) : (k = a ∧ x = v) ∨ (k ≠ a ∧ f k = some x) := by
  by_cases hk : k = a
  · subst hk
    rw [update_self] at h
    exact .inl ⟨rfl, (some.inj h).symm⟩
  · rw [update_of_ne hk] at h
    exact .inr ⟨hk, h⟩

section Pairs

variable {l : List (ℕ × ℕ)} {k k' v v' : ℕ}

theorem mem_erase_key (hnd : (l.map Prod.fst).Nodup) :
    (k', v) ∈ erase_key l k ↔ k' ≠ k ∧ (k', v) ∈ l := by
  unfold erase_key
  induction l with
  | nil => simp
  | cons p l ih =>
    rw [map_cons, nodup_cons] at hnd
    by_cases hp : p.1 = k
    · rw [eraseP_cons_of_pos (by simpa using hp)]
      constructor
      · intro hmem
        refine ⟨?_, mem_cons_of_mem _ hmem⟩
        rintro rfl
        exact hnd.1 (List.mem_map.mpr ⟨(k', v), hmem, hp.symm⟩)
      · rintro ⟨hne, hmem⟩
        obtain rfl | hmem := mem_cons.mp hmem
        · exact absurd hp hne
        · exact hmem
    · rw [eraseP_cons_of_neg (by simpa using hp), mem_cons, ih hnd.2, mem_cons]
      constructor
      · rintro (rfl | ⟨hne, hmem⟩)
        · exact ⟨hp, .inl rfl⟩
        · exact ⟨hne, .inr hmem⟩
      · rintro ⟨hne, rfl | hmem⟩
        · exact .inl rfl
        · exact .inr ⟨hne, hmem⟩

theorem nodup_erase_key (hnd : (l.map Prod.fst).Nodup) : ((erase_key l k).map Prod.fst).Nodup :=
  hnd.sublist ((eraseP_sublist).map Prod.fst)

theorem erase_key_eq_nil (h : (k, v) ∈ l) (hnil : erase_key l k = []) : l = [(k, v)] := by
  have hlen : (erase_key l k).length = l.length - 1 :=
    length_eraseP_of_mem h (by simp)
  rw [hnil, length_nil] at hlen
  have hpos := length_pos_of_mem h
  obtain ⟨p, rfl⟩ := length_eq_one_iff.mp (show l.length = 1 by omega)
  rw [mem_singleton.mp h]

theorem pair_unique (hnd : (l.map Prod.fst).Nodup) (h : (k, v) ∈ l) (h' : (k, v') ∈ l) :
    v = v' := by
  have hinj := inj_on_of_nodup_map hnd h h' rfl
  exact (Prod.mk.inj hinj).2

theorem find_key (hnd : (l.map Prod.fst).Nodup) (h : (k, v) ∈ l) :
    l.find? (fun p => p.1 = k) = some (k, v) := by
  cases hfind : l.find? (fun p => p.1 = k) with
  | none =>
    have hno := List.find?_eq_none.mp hfind (k, v) h
    simp at hno
  | some p =>
    have hkey : p.1 = k := by simpa using List.find?_some hfind
    have hmem : (k, p.2) ∈ l := by
      rw [← hkey]
      exact mem_of_find?_eq_some hfind
    rw [pair_unique hnd h hmem, ← hkey]

end Pairs

/-! ## 7. The four places agree -/

structure Sound (d : Daemon) : Prop where
  tables : ∀ n g, d.All_Groups_by_Node n g = d.All_Groups_by_Name g n
  entry : ∀ n g o, d.All_Groups_by_Node n g = some o ↔
    ∃ g_state, d.groups o = some g_state ∧ g_state.node_nid = n ∧ g_state.mcast_gid = g
  new_group : ∀ o, d.next_group ≤ o → d.groups o = none
  new_session : ∀ s, d.next_session ≤ s → d.sessions s = none
  ids : d.Sessions_ID.Indexes fun id s => ∃ ses, d.sessions s = some ses ∧ ses.sess_id = id
  joined : ∀ s ses g o, d.sessions s = some ses → (g, o) ∈ ses.joined_groups →
    Is_group_addr g = true ∧ d.All_Groups_by_Node d.My_Address g = some o
  members : ∀ o g_state, d.groups o = some g_state → g_state.node_nid = d.My_Address →
    ∀ id s, (id, s) ∈ g_state.joined_sessions ↔
      ∃ ses, d.sessions s = some ses ∧ ses.sess_id = id ∧
        (g_state.mcast_gid, o) ∈ ses.joined_groups
  once_group : ∀ s ses, d.sessions s = some ses → (ses.joined_groups.map Prod.fst).Nodup
  once_session : ∀ o g_state, d.groups o = some g_state → g_state.node_nid = d.My_Address →
    (g_state.joined_sessions.map Prod.fst).Nodup
  active : ∀ o g_state, d.groups o = some g_state → g_state.node_nid = d.My_Address →
    g_state.status = if g_state.joined_sessions = [] then 0 else ACTIVE_GROUP

section Soundness

variable {d d' : Daemon} {s o : ℕ} {ses ses' : Session} {gs gs' : Group_State} {now : Stamp}

theorem Sound.init (My_Address : ℕ) : Sound (Daemon.init My_Address) where
  tables := fun _ _ => rfl
  entry := fun n g o => ⟨fun h => (by cases h), fun ⟨_, h, _⟩ => (by cases h)⟩
  new_group := fun _ _ => rfl
  new_session := fun _ _ => rfl
  ids := Hash.indexes_empty.congr fun _ _ => ⟨False.elim, fun ⟨_, h, _⟩ => (by cases h)⟩
  joined := fun _ _ _ _ h => (by cases h)
  members := fun _ _ h => (by cases h)
  once_group := fun _ _ h => (by cases h)
  once_session := fun _ _ h => (by cases h)
  active := fun _ _ h => (by cases h)

theorem Sound.add_to_changed (h : Sound d) (o : ℕ) : Sound (add_to_changed d o) :=
  ⟨h.tables, h.entry, h.new_group, h.new_session, h.ids, h.joined, h.members, h.once_group,
    h.once_session, h.active⟩

theorem Sound.group_lt (h : Sound d) (hgs : d.groups o = some gs) : o < d.next_group := by
  by_contra hle
  rw [h.new_group o (Nat.le_of_not_lt hle)] at hgs
  cases hgs

theorem Sound.set_group (h : Sound d) (hgs : d.groups o = some gs)
    (hnid : gs'.node_nid = gs.node_nid) (hgid : gs'.mcast_gid = gs.mcast_gid)
    (hjoined : gs'.joined_sessions = gs.joined_sessions)
    (hstatus : gs.node_nid = d.My_Address → gs'.status = gs.status) :
    Sound (d.set_group o gs') := by
  -- every entry comes from one with the same members
  have hback : ∀ o' x, (d.set_group o gs').groups o' = some x → ∃ y, d.groups o' = some y ∧
      x.node_nid = y.node_nid ∧ x.mcast_gid = y.mcast_gid ∧
      x.joined_sessions = y.joined_sessions ∧ (y.node_nid = d.My_Address → x.status = y.status) := by
    intro o' x hx
    obtain ⟨rfl, rfl⟩ | ⟨-, hx⟩ := update_some hx
    · exact ⟨gs, hgs, hnid, hgid, hjoined, hstatus⟩
    · exact ⟨x, hx, rfl, rfl, rfl, fun _ => rfl⟩
  constructor
  · exact h.tables
  · intro n g o'
    change d.All_Groups_by_Node n g = some o' ↔ _
    rw [h.entry]
    constructor
    · rintro ⟨y, hy, hn, hg⟩
      by_cases ho : o' = o
      · subst ho
        rw [hgs] at hy
        obtain rfl := some.inj hy
        exact ⟨gs', update_self .., hnid.trans hn, hgid.trans hg⟩
      · exact ⟨y, (update_of_ne ho ..).trans hy, hn, hg⟩
    · rintro ⟨x, hx, hn, hg⟩
      obtain ⟨y, hy, hn', hg', -⟩ := hback o' x hx
      exact ⟨y, hy, hn'.symm.trans hn, hg'.symm.trans hg⟩
  · intro o' ho'
    have hlt := h.group_lt hgs
    exact (update_of_ne (by change d.next_group ≤ o' at ho'; omega) ..).trans
      (h.new_group o' ho')
  · exact h.new_session
  · exact h.ids
  · exact h.joined
  · intro o' x hx hown id s
    obtain ⟨y, hy, hn', hg', hj', -⟩ := hback o' x hx
    rw [hj', hg']
    exact h.members o' y hy (hn'.symm.trans hown) id s
  · exact h.once_group
  · intro o' x hx hown
    obtain ⟨y, hy, hn', -, hj', -⟩ := hback o' x hx
    rw [hj']
    exact h.once_session o' y hy (hn'.symm.trans hown)
  · intro o' x hx hown
    obtain ⟨y, hy, hn', -, hj', hs'⟩ := hback o' x hx
    have hown' := hn'.symm.trans hown
    rw [hj', hs' hown']
    exact h.active o' y hy hown'

theorem Sound.relink {b : Prop} (h : Sound d) (hses : d.sessions s = some ses)
    (hgs : d.groups o = some gs) (hown : gs.node_nid = d.My_Address)
    (haddr : Is_group_addr gs.mcast_gid = true) (hid : ses'.sess_id = ses.sess_id)
    (hnid : gs'.node_nid = gs.node_nid) (hgid : gs'.mcast_gid = gs.mcast_gid)
    (hgroups : ∀ g' o', (g', o') ∈ ses'.joined_groups ↔
      (g' = gs.mcast_gid ∧ b ∧ o' = o) ∨ (g' ≠ gs.mcast_gid ∧ (g', o') ∈ ses.joined_groups))
    (hsessions : ∀ id t, (id, t) ∈ gs'.joined_sessions ↔
      (t = s ∧ b ∧ id = ses.sess_id) ∨ (t ≠ s ∧ (id, t) ∈ gs.joined_sessions))
    (hnd : (ses'.joined_groups.map Prod.fst).Nodup)
    (hnd' : (gs'.joined_sessions.map Prod.fst).Nodup)
    (hactive : gs'.status = if gs'.joined_sessions = [] then 0 else ACTIVE_GROUP) :
    Sound ((d.set_session s ses').set_group o gs') := by
  have hentry : d.All_Groups_by_Node d.My_Address gs.mcast_gid = some o :=
    (h.entry _ _ _).mpr ⟨gs, hgs, hown, rfl⟩
  constructor
  · exact h.tables
  · intro n g o'
    change d.All_Groups_by_Node n g = some o' ↔
      ∃ x, update d.groups o (some gs') o' = some x ∧ _
    rw [h.entry]
    constructor
    · rintro ⟨y, hy, hn, hg⟩
      by_cases ho : o' = o
      · subst ho
        rw [hgs] at hy
        obtain rfl := some.inj hy
        exact ⟨gs', update_self .., hnid.trans hn, hgid.trans hg⟩
      · exact ⟨y, (update_of_ne ho ..).trans hy, hn, hg⟩
    · rintro ⟨x, hx, hn, hg⟩
      obtain ⟨rfl, rfl⟩ | ⟨-, hx⟩ := update_some hx
      · exact ⟨gs, hgs, hnid.symm.trans hn, hgid.symm.trans hg⟩
      · exact ⟨x, hx, hn, hg⟩
  · intro o' ho'
    have hlt := h.group_lt hgs
    exact (update_of_ne (by change d.next_group ≤ o' at ho'; omega) ..).trans
      (h.new_group o' ho')
  · intro t ht
    have hne : t ≠ s := by
      rintro rfl
      rw [h.new_session t ht] at hses
      cases hses
    exact (update_of_ne hne ..).trans (h.new_session t ht)
  · apply h.ids.congr
    intro id t
    change _ ↔ ∃ x, update d.sessions s (some ses') t = some x ∧ _
    constructor
    · rintro ⟨x, hx, hxid⟩
      by_cases ht : t = s
      · subst ht
        rw [hses] at hx
        obtain rfl := some.inj hx
        exact ⟨ses', update_self .., hid.trans hxid⟩
      · exact ⟨x, (update_of_ne ht ..).trans hx, hxid⟩
    · rintro ⟨x, hx, hxid⟩
      obtain ⟨rfl, rfl⟩ | ⟨-, hx⟩ := update_some hx
      · exact ⟨ses, hses, hid.symm.trans hxid⟩
      · exact ⟨x, hx, hxid⟩
  · intro t x g' o' hx hmem
    obtain ⟨rfl, rfl⟩ | ⟨-, hx⟩ := update_some hx
    · obtain ⟨rfl, -, rfl⟩ | ⟨-, hmem⟩ := (hgroups g' o').mp hmem
      · exact ⟨haddr, hentry⟩
      · exact h.joined t ses g' o' hses hmem
    · exact h.joined t x g' o' hx hmem
  · intro o' x hx hxown id t
    change _ ↔ ∃ y, update d.sessions s (some ses') t = some y ∧ _
    obtain ⟨rfl, rfl⟩ | ⟨ho, hx⟩ := update_some hx
    · rw [hsessions, hgid]
      by_cases ht : t = s
      · subst ht
        rw [update_self]
        constructor
        · rintro (⟨-, hb, rfl⟩ | ⟨hne, -⟩)
          · exact ⟨ses', rfl, hid, (hgroups _ _).mpr (.inl ⟨rfl, hb, rfl⟩)⟩
          · exact absurd rfl hne
        · rintro ⟨y, hy, hyid, hmem⟩
          obtain rfl := some.inj hy
          obtain ⟨-, hb, -⟩ | ⟨hne, -⟩ := (hgroups _ _).mp hmem
          · exact .inl ⟨rfl, hb, hyid.symm.trans hid⟩
          · exact absurd rfl hne
      · rw [update_of_ne ht, ← h.members o' gs hgs hown id t]
        constructor
        · rintro (⟨ht', -⟩ | ⟨-, hmem⟩)
          · exact absurd ht' ht
          · exact hmem
        · exact fun hmem => .inr ⟨ht, hmem⟩
    · have hgne : x.mcast_gid ≠ gs.mcast_gid := by
        intro heq
        have hx' : d.All_Groups_by_Node d.My_Address gs.mcast_gid = some o' :=
          (h.entry _ _ _).mpr ⟨x, hx, hxown, heq⟩
        rw [hentry] at hx'
        exact ho (some.inj hx').symm
      rw [h.members o' x hx hxown id t]
      by_cases ht : t = s
      · subst ht
        rw [update_self, hses]
        constructor
        · rintro ⟨y, hy, hyid, hmem⟩
          obtain rfl := some.inj hy
          exact ⟨ses', rfl, hid.trans hyid, (hgroups _ _).mpr (.inr ⟨hgne, hmem⟩)⟩
        · rintro ⟨y, hy, hyid, hmem⟩
          obtain rfl := some.inj hy
          obtain ⟨heq, -⟩ | ⟨-, hmem⟩ := (hgroups _ _).mp hmem
          · exact absurd heq hgne
          · exact ⟨ses, rfl, hid.symm.trans hyid, hmem⟩
      · rw [update_of_ne ht]
  · intro t x hx
    obtain ⟨rfl, rfl⟩ | ⟨-, hx⟩ := update_some hx
    · exact hnd
    · exact h.once_group t x hx
  · intro o' x hx hxown
    obtain ⟨rfl, rfl⟩ | ⟨-, hx⟩ := update_some hx
    · exact hnd'
    · exact h.once_session o' x hx hxown
  · intro o' x hx hxown
    obtain ⟨rfl, rfl⟩ | ⟨-, hx⟩ := update_some hx
    · exact hactive
    · exact h.active o' x hx hxown

end Soundness

/-! ## 8. Changes are published -/

/-- An entry keeps its status and its stamp, or gets a greater stamp and waits to be sent;
a new entry waits to be sent. -/
structure Published (d d' : Daemon) : Prop where
  kept : ∀ o gs, d.groups o = some gs → ∃ gs', d'.groups o = some gs' ∧
    gs'.node_nid = gs.node_nid ∧ gs'.mcast_gid = gs.mcast_gid ∧
    ((gs'.status = gs.status ∧ gs'.stamp = gs.stamp) ∨
      (gs.stamp.older gs'.stamp ∧ o ∈ d'.Changed_Group_States))
  made : ∀ o gs', d.groups o = none → d'.groups o = some gs' → o ∈ d'.Changed_Group_States

structure Advanced (d d' : Daemon) : Prop extends Published d d' where
  queue : ∀ o ∈ d.Changed_Group_States, o ∈ d'.Changed_Group_States

section Publishing

variable {d d' d'' : Daemon} {s o nid g : ℕ} {ses ses' : Session} {gs gs' : Group_State}
  {now : Stamp}

theorem mem_add_to_changed {o' : ℕ} :
    o' ∈ (add_to_changed d o).Changed_Group_States ↔ o' ∈ d.Changed_Group_States ∨ o' = o := by
  unfold add_to_changed
  split
  · rename_i hmem
    constructor
    · exact .inl
    · rintro (h | rfl)
      · exact h
      · exact hmem
  · rw [mem_append, mem_singleton]

theorem Published.of_groups (h : d'.groups = d.groups) : Published d d' where
  kept := fun o gs hgs => ⟨gs, by rw [h, hgs], rfl, rfl, .inl ⟨rfl, rfl⟩⟩
  made := fun o gs' hnone hsome => by
    rw [h, hnone] at hsome
    cases hsome

theorem Advanced.of_groups (h : d'.groups = d.groups)
    (hqueue : d'.Changed_Group_States = d.Changed_Group_States) : Advanced d d' :=
  ⟨Published.of_groups h, fun _ ho => hqueue ▸ ho⟩

theorem Advanced.trans (h : Advanced d d') (h' : Advanced d' d'') : Advanced d d'' where
  kept := by
    intro o gs hgs
    obtain ⟨gs1, hgs1, hnid1, hgid1, hsame1⟩ := h.kept o gs hgs
    obtain ⟨gs2, hgs2, hnid2, hgid2, hsame2⟩ := h'.kept o gs1 hgs1
    refine ⟨gs2, hgs2, hnid2.trans hnid1, hgid2.trans hgid1, ?_⟩
    obtain ⟨hst1, hts1⟩ | ⟨hold1, hin1⟩ := hsame1
    · rw [← hst1, ← hts1]
      exact hsame2
    · obtain ⟨-, hts2⟩ | ⟨hold2, hin2⟩ := hsame2
      · rw [hts2]
        exact .inr ⟨hold1, h'.queue o hin1⟩
      · exact .inr ⟨hold1.trans hold2, hin2⟩
  made := by
    intro o gs'' hnone hsome
    cases hmid : d'.groups o with
    | none => exact h'.made o gs'' hmid hsome
    | some gs' => exact h'.queue o (h.made o gs' hnone hmid)
  queue := fun o ho => h'.queue o (h.queue o ho)

theorem Advanced.touch (o : ℕ) (hother : ∀ o', o' ≠ o → d'.groups o' = d.groups o')
    (hqueue : ∀ o' ∈ d.Changed_Group_States, o' ∈ d'.Changed_Group_States)
    (hsome : d'.groups o = some gs')
    (hold : ∀ gs, d.groups o = some gs → gs'.node_nid = gs.node_nid ∧ gs'.mcast_gid = gs.mcast_gid ∧
      ((gs'.status = gs.status ∧ gs'.stamp = gs.stamp) ∨
        (gs.stamp.older gs'.stamp ∧ o ∈ d'.Changed_Group_States)))
    (hnew : d.groups o = none → o ∈ d'.Changed_Group_States) : Advanced d d' where
  kept := by
    intro o' gs hgs
    by_cases ho : o' = o
    · subst ho
      exact ⟨gs', hsome, hold gs hgs⟩
    · exact ⟨gs, (hother o' ho).trans hgs, rfl, rfl, .inl ⟨rfl, rfl⟩⟩
  made := by
    intro o' x hnone hx
    by_cases ho : o' = o
    · subst ho
      exact hnew hnone
    · rw [hother o' ho, hnone] at hx
      cases hx
  queue := hqueue

theorem set_group_again :
    ((add_to_changed (d.set_group o gs) o).set_session s ses).set_group o gs' =
      add_to_changed ((d.set_session s ses).set_group o gs') o := by
  unfold Daemon.set_group Daemon.set_session add_to_changed
  rw [update_idem]

/-! ## 9. Each function keeps the places in agreement -/

structure Entered (nid g o : ℕ) (gs : Group_State) (d d' : Daemon) : Prop where
  sound : Sound d'
  group : d'.groups o = some gs
  of_node : gs.node_nid = nid
  of_group : gs.mcast_gid = g
  found : d.All_Groups_by_Node nid g = some o ∧ d' = d ∨
    d.All_Groups_by_Node nid g = none ∧ d.groups o = none
  other : ∀ o', o' ≠ o → d'.groups o' = d.groups o'
  my_address : d'.My_Address = d.My_Address
  sessions : d'.sessions = d.sessions
  changed : d'.Changed_Group_States = d.Changed_Group_States

theorem Create_Group_spec (h : Sound d) (now : Stamp) (hnone : d.All_Groups_by_Node nid g = none) :
    ∃ o d' gs, Create_Group now nid g d = some (o, d') ∧ Entered nid g o gs d d' := by
  have hfree : d.groups d.next_group = none := h.new_group _ (le_refl _)
  have hname : d.All_Groups_by_Name g nid = none := (h.tables nid g).symm.trans hnone
  unfold Create_Group
  rw [hnone, if_neg (by simp)]
  refine ⟨_, _, _, rfl, ?_, update_self .., rfl, rfl, .inr ⟨hnone, hfree⟩,
    fun o' ho => update_of_ne ho .., rfl, rfl, rfl⟩
  constructor
  · intro n g'
    change set2 _ _ _ _ n g' = set2 _ _ _ _ g' n
    unfold set2
    by_cases hn : n = nid
    · by_cases hg : g' = g
      · rw [hn, hg, update_self, update_self, update_self,
          update_self]
      · rw [hn, update_self, update_of_ne hg, update_of_ne hg, h.tables]
    · by_cases hg : g' = g
      · rw [hg, update_self, update_of_ne hn, update_of_ne hn, h.tables]
      · rw [update_of_ne hn, update_of_ne hg, h.tables]
  · intro n g' o'
    change set2 d.All_Groups_by_Node nid g d.next_group n g' = some o' ↔
      ∃ x, update d.groups d.next_group _ o' = some x ∧ _
    by_cases hkey : n = nid ∧ g' = g
    · obtain ⟨rfl, rfl⟩ := hkey
      rw [set2, update_self, update_self, Option.some.injEq]
      constructor
      · rintro rfl
        exact ⟨_, update_self .., rfl, rfl⟩
      · rintro ⟨x, hx, hn, hg⟩
        obtain ⟨rfl, -⟩ | ⟨-, hx⟩ := update_some hx
        · rfl
        · have hentry : d.All_Groups_by_Node n g' = some o' := (h.entry _ _ _).mpr ⟨x, hx, hn, hg⟩
          rw [hnone] at hentry
          cases hentry
    · have hset : set2 d.All_Groups_by_Node nid g d.next_group n g' =
          d.All_Groups_by_Node n g' := by
        unfold set2
        by_cases hn : n = nid
        · subst hn
          rw [update_self, update_of_ne (fun hg => hkey ⟨rfl, hg⟩)]
        · rw [update_of_ne hn]
      rw [hset, h.entry]
      constructor
      · rintro ⟨x, hx, hn, hg⟩
        have hne : o' ≠ d.next_group := ne_of_lt (h.group_lt hx)
        exact ⟨x, (update_of_ne hne ..).trans hx, hn, hg⟩
      · rintro ⟨x, hx, hn, hg⟩
        obtain ⟨-, rfl⟩ | ⟨-, hx⟩ := update_some hx
        · exact absurd ⟨hn.symm, hg.symm⟩ hkey
        · exact ⟨x, hx, hn, hg⟩
  · intro o' ho'
    change d.next_group + 1 ≤ o' at ho'
    exact (update_of_ne (by omega) ..).trans (h.new_group o' (by omega))
  · exact h.new_session
  · exact h.ids
  · intro t x g' o' hx hmem
    obtain ⟨haddr, hentry⟩ := h.joined t x g' o' hx hmem
    refine ⟨haddr, ?_⟩
    change set2 d.All_Groups_by_Node nid g d.next_group d.My_Address g' = some o'
    unfold set2
    by_cases hn : d.My_Address = nid
    · have hg : g' ≠ g := by
        rintro rfl
        rw [hn, hnone] at hentry
        cases hentry
      rw [hn, update_self, update_of_ne hg, ← hn]
      exact hentry
    · rw [update_of_ne hn]
      exact hentry
  · intro o' x hx hown id t
    obtain ⟨rfl, rfl⟩ | ⟨-, hx⟩ := update_some hx
    · constructor
      · intro hmem
        cases hmem
      · rintro ⟨y, hy, -, hmem⟩
        obtain ⟨-, hentry⟩ := h.joined t y g _ hy hmem
        change nid = d.My_Address at hown
        rw [← hown, hnone] at hentry
        cases hentry
    · exact h.members o' x hx hown id t
  · exact h.once_group
  · intro o' x hx hown
    obtain ⟨rfl, rfl⟩ | ⟨-, hx⟩ := update_some hx
    · exact nodup_nil
    · exact h.once_session o' x hx hown
  · intro o' x hx hown
    obtain ⟨rfl, rfl⟩ | ⟨-, hx⟩ := update_some hx
    · rfl
    · exact h.active o' x hx hown

theorem find_or_create_spec (h : Sound d) (now : Stamp) (nid g : ℕ) :
    ∃ o d' gs, find_or_create now nid g d = some (o, d') ∧ Entered nid g o gs d d' := by
  unfold find_or_create
  cases hfind : d.All_Groups_by_Node nid g with
  | none => exact Create_Group_spec h now hfind
  | some o =>
    obtain ⟨gs, hgs, hnid, hgid⟩ := (h.entry nid g o).mp hfind
    exact ⟨o, d, gs, rfl, h, hgs, hnid, hgid, .inl ⟨hfind, rfl⟩, fun _ _ => rfl, rfl, rfl, rfl⟩

theorem Sound.same_session (h : Sound d) (hses : d.sessions s = some ses)
    (hgs : d.groups o = some gs) (hown : gs.node_nid = d.My_Address) {id t : ℕ}
    (hmem : (id, t) ∈ gs.joined_sessions) : id = ses.sess_id ↔ t = s := by
  obtain ⟨ses', hses', hid, -⟩ := (h.members o gs hgs hown id t).mp hmem
  constructor
  · rintro rfl
    exact h.ids.unique ⟨ses', hses', hid⟩ ⟨ses, hses, rfl⟩
  · rintro rfl
    rw [hses] at hses'
    rw [← hid, some.inj hses']

theorem Join_Group_spec (h : Sound d) (hses : d.sessions s = some ses)
    (hroom : ∀ o gs, g ∉ ses.joined_groups.map Prod.fst → ses.type = .UDP_SES_TYPE →
      d.All_Groups_by_Node d.My_Address g = some o → d.groups o = some gs →
      gs.status &&& ACTIVE_GROUP = 0 → gs.stamp.Room) :
    ∃ d', Join_Group now g s d = some d' ∧ Sound d' ∧ Advanced d d' := by
  have hstay : ∃ d', some d = some d' ∧ Sound d' ∧ Advanced d d' :=
    ⟨d, rfl, h, Advanced.of_groups rfl rfl⟩
  unfold Join_Group
  rw [hses, bind_eq_bind, bind_some]
  split
  · exact hstay
  split
  · exact hstay
  split
  · exact hstay
  rename_i haddr htype hnot
  rw [ne_eq, not_not] at htype
  have haddr : Is_group_addr g = true := by simpa using haddr
  obtain ⟨o, d1, gs, hcreate, he⟩ := find_or_create_spec h now d.My_Address g
  rw [hcreate, bind_eq_bind, bind_some]
  dsimp only
  rw [he.group, bind_eq_bind, bind_some]
  have hown : gs.node_nid = d1.My_Address := he.of_node.trans he.my_address.symm
  have hses1 : d1.sessions s = some ses := by rw [he.sessions, hses]
  have hgid := he.of_group
  have hstatus := he.sound.active o gs he.group hown
  have hnew : ∀ o', (g, o') ∉ ses.joined_groups :=
    fun o' hmem => hnot (List.mem_map.mpr ⟨(g, o'), hmem, rfl⟩)
  -- the session is not in the array of the group
  have hapart : ∀ id t, (id, t) ∈ gs.joined_sessions → id ≠ ses.sess_id ∧ t ≠ s := by
    intro id t hmem
    have ht : t ≠ s := by
      rintro rfl
      obtain ⟨x, hx, -, hmem'⟩ := (he.sound.members o gs he.group hown id t).mp hmem
      rw [hses1] at hx
      obtain rfl := some.inj hx
      rw [hgid] at hmem'
      exact hnew o hmem'
    exact ⟨fun hid => ht ((he.sound.same_session hses1 he.group hown hmem).mp hid), ht⟩
  have hrelink : ∀ gs1 : Group_State, gs1.node_nid = gs.node_nid → gs1.mcast_gid = gs.mcast_gid →
      gs1.joined_sessions = gs.joined_sessions → gs1.status = ACTIVE_GROUP →
      Sound ((d1.set_session s { ses with joined_groups := ses.joined_groups ++ [(g, o)] }).set_group
        o { gs1 with joined_sessions := gs1.joined_sessions ++ [(ses.sess_id, s)] }) := by
    intro gs1 hn1 hg1 hj1 hs1
    refine Sound.relink (b := True) he.sound hses1 he.group hown (hgid ▸ haddr) ?_ ?_ ?_ ?_ ?_ ?_ ?_ ?_
    · rfl
    · exact hn1
    · exact hg1
    · intro g' o'
      rw [mem_append, mem_singleton, Prod.mk.injEq, hgid]
      constructor
      · rintro (hmem | ⟨rfl, rfl⟩)
        · by_cases hg' : g' = g
          · subst hg'
            exact absurd hmem (hnew o')
          · exact .inr ⟨hg', hmem⟩
        · exact .inl ⟨rfl, trivial, rfl⟩
      · rintro (⟨rfl, -, rfl⟩ | ⟨-, hmem⟩)
        · exact .inr ⟨rfl, rfl⟩
        · exact .inl hmem
    · intro id t
      rw [hj1, mem_append, mem_singleton, Prod.mk.injEq]
      constructor
      · rintro (hmem | ⟨rfl, rfl⟩)
        · exact .inr ⟨(hapart id t hmem).2, hmem⟩
        · exact .inl ⟨rfl, trivial, rfl⟩
      · rintro (⟨rfl, -, rfl⟩ | ⟨-, hmem⟩)
        · exact .inr ⟨rfl, rfl⟩
        · exact .inl hmem
    · rw [map_append]
      apply List.Nodup.append (h.once_group s ses hses) (nodup_singleton _)
      exact disjoint_singleton.mpr hnot
    · rw [hj1, map_append]
      apply List.Nodup.append (he.sound.once_session o gs he.group hown) (nodup_singleton _)
      apply disjoint_singleton.mpr
      intro hkey
      obtain ⟨⟨id, t⟩, hmem, hid⟩ := List.mem_map.mp hkey
      exact (hapart id t hmem).1 hid
    · rw [if_neg (by simp)]
      exact hs1
  unfold activate
  by_cases hempty : gs.joined_sessions = []
  · -- the first member
    rw [if_pos hempty] at hstatus
    rw [if_pos (by rw [hstatus]; rfl)]
    have hsound := hrelink
      { gs with status := gs.status ||| ACTIVE_GROUP, stamp := gs.stamp.bump }
      rfl rfl rfl (by rw [hstatus]; rfl)
    refine ⟨_, rfl, ?_, ?_⟩
    · rw [set_group_again]
      exact hsound.add_to_changed o
    · refine Advanced.touch o ?_ ?_ (update_self ..) ?_ ?_
      · intro o' ho
        simp only [Daemon.set_group, Daemon.set_session, Membership.add_to_changed,
          update_of_ne ho, he.other o' ho]
      · intro o' ho'
        exact mem_add_to_changed.mpr (.inl (he.changed ▸ ho'))
      · intro gs0 hgs0
        obtain ⟨hfound, rfl⟩ | ⟨-, hnone⟩ := he.found
        · have heq := he.group.symm.trans hgs0
          obtain rfl := some.inj heq
          refine ⟨rfl, rfl, .inr ⟨?_, mem_add_to_changed.mpr (.inr rfl)⟩⟩
          exact gs.stamp.bump_greater.mpr
            (hroom o gs hnot htype hfound hgs0 (by rw [hstatus]; rfl))
        · rw [hnone] at hgs0
          cases hgs0
      · intro _
        exact mem_add_to_changed.mpr (.inr rfl)
  · rw [if_neg hempty] at hstatus
    rw [if_neg (by rw [hstatus]; decide)]
    refine ⟨_, rfl, hrelink gs rfl rfl rfl hstatus, ?_⟩
    -- an entry that has members is not a new one
    have hold : d.All_Groups_by_Node d.My_Address g = some o ∧ d1 = d := by
      obtain hfound | ⟨hnone, -⟩ := he.found
      · exact hfound
      · exfalso
        obtain ⟨⟨id, t⟩, hmem⟩ := exists_mem_of_ne_nil _ hempty
        obtain ⟨x, hx, -, hmem'⟩ := (he.sound.members o gs he.group hown id t).mp hmem
        rw [he.sessions] at hx
        obtain ⟨-, hentry⟩ := h.joined t x _ o hx hmem'
        rw [hgid, hnone] at hentry
        cases hentry
    obtain ⟨-, rfl⟩ := hold
    refine Advanced.touch o ?_ (fun _ ho => ho) (update_self ..) ?_ ?_
    · intro o' ho
      exact update_of_ne ho ..
    · intro gs0 hgs0
      have heq := he.group.symm.trans hgs0
      obtain rfl := some.inj heq
      exact ⟨rfl, rfl, .inl ⟨rfl, rfl⟩⟩
    · intro hnone
      rw [he.group] at hnone
      cases hnone

theorem Leave_Group_spec (h : Sound d) (hses : d.sessions s = some ses)
    (hmem : (g, o) ∈ ses.joined_groups) (hroom : Leave_Room d s ses o) :
    ∃ d', Leave_Group g s d = some d' ∧ Sound d' ∧ Advanced d d' ∧
      d'.sessions s = some { ses with joined_groups := erase_key ses.joined_groups g } ∧
      (∀ o', o' ≠ o → d'.groups o' = d.groups o') ∧ d'.Sessions_ID = d.Sessions_ID := by
  obtain ⟨haddr, hentry⟩ := h.joined s ses g o hses hmem
  obtain ⟨gs, hgs, hown, rfl⟩ := (h.entry _ _ _).mp hentry
  have hnd := h.once_group s ses hses
  have hnd' := h.once_session o gs hgs hown
  have hin : (ses.sess_id, s) ∈ gs.joined_sessions :=
    (h.members o gs hgs hown _ _).mpr ⟨ses, hses, rfl, hmem⟩
  have hstatus := h.active o gs hgs hown
  rw [if_neg (ne_nil_of_mem hin)] at hstatus
  have hrelink : ∀ gs1 : Group_State, gs1.node_nid = gs.node_nid → gs1.mcast_gid = gs.mcast_gid →
      gs1.joined_sessions = erase_key gs.joined_sessions ses.sess_id →
      (gs1.status = if gs1.joined_sessions = [] then 0 else ACTIVE_GROUP) →
      Sound ((d.set_session s
        { ses with joined_groups := erase_key ses.joined_groups gs.mcast_gid }).set_group o gs1) := by
    intro gs1 hn1 hg1 hj1 hs1
    refine Sound.relink (b := False) h hses hgs hown haddr ?_ ?_ ?_ ?_ ?_ ?_ ?_ ?_
    · rfl
    · exact hn1
    · exact hg1
    · intro g' o'
      rw [mem_erase_key hnd]
      constructor
      · exact .inr
      · rintro (⟨-, hfalse, -⟩ | hmem')
        · exact hfalse.elim
        · exact hmem'
    · intro id t
      rw [hj1, mem_erase_key hnd']
      constructor
      · rintro ⟨hid, hmem'⟩
        exact .inr ⟨fun ht => hid ((h.same_session hses hgs hown hmem').mpr ht), hmem'⟩
      · rintro (⟨-, hfalse, -⟩ | ⟨ht, hmem'⟩)
        · exact hfalse.elim
        · exact ⟨fun hid => ht ((h.same_session hses hgs hown hmem').mp hid), hmem'⟩
    · exact nodup_erase_key hnd
    · rw [hj1]
      exact nodup_erase_key hnd'
    · exact hs1
  unfold Leave_Group
  rw [hses, bind_eq_bind, bind_some, if_neg (by rw [haddr]; decide),
    find_key hnd hmem]
  dsimp only
  rw [show (d.set_session s { ses with
    joined_groups := erase_key ses.joined_groups gs.mcast_gid }).groups o = some gs from hgs,
    bind_eq_bind, bind_some, if_neg (not_not.mpr (List.mem_map.mpr ⟨_, hin, rfl⟩))]
  unfold deactivate
  by_cases hempty : erase_key gs.joined_sessions ses.sess_id = []
  · -- the last member
    rw [if_pos hempty]
    have hsound := (hrelink
      { gs with
        joined_sessions := erase_key gs.joined_sessions ses.sess_id
        status := gs.status &&& ~~~ACTIVE_GROUP
        stamp := gs.stamp.bump }
      rfl rfl rfl (by rw [if_pos hempty, hstatus]; rfl)).add_to_changed o
    refine ⟨_, rfl, ?_, ?_, update_self .., ?_, rfl⟩
    · unfold Daemon.set_group Membership.add_to_changed at hsound ⊢
      dsimp only at hsound ⊢
      rw [update_idem]
      exact hsound
    · refine Advanced.touch o ?_ ?_ (update_self ..) ?_ ?_
      · intro o' ho
        exact (update_of_ne ho ..).trans (update_of_ne ho ..)
      · intro o' ho'
        exact mem_add_to_changed.mpr (.inl ho')
      · intro gs0 hgs0
        obtain rfl := some.inj (hgs.symm.trans hgs0)
        refine ⟨rfl, rfl, .inr ⟨?_, mem_add_to_changed.mpr (.inr rfl)⟩⟩
        exact gs.stamp.bump_greater.mpr (hroom gs hgs (erase_key_eq_nil hin hempty))
      · intro _
        exact mem_add_to_changed.mpr (.inr rfl)
    · intro o' ho
      exact (update_of_ne ho ..).trans (update_of_ne ho ..)
  · rw [if_neg hempty]
    refine ⟨_, rfl, ?_, ?_, update_self .., ?_, rfl⟩
    · exact hrelink _ rfl rfl rfl (by rw [if_neg hempty]; exact hstatus)
    · refine Advanced.touch o ?_ (fun _ ho => ho) (update_self ..) ?_ ?_
      · intro o' ho
        exact update_of_ne ho ..
      · intro gs0 hgs0
        obtain rfl := some.inj (hgs.symm.trans hgs0)
        exact ⟨rfl, rfl, .inl ⟨rfl, rfl⟩⟩
      · intro hnone
        rw [hgs] at hnone
        cases hnone
    · intro o' ho
      exact update_of_ne ho ..

theorem leave_first {rest : List (ℕ × ℕ)} (h : Sound d) (hses : d.sessions s = some ses)
    (hl : ses.joined_groups = (g, o) :: rest) (hroom : Leave_Room d s ses o) :
    ∃ gs d', d.groups o = some gs ∧ Leave_Group gs.mcast_gid s d = some d' ∧ Sound d' ∧
      Advanced d d' ∧ d'.Sessions_ID = d.Sessions_ID ∧
      d'.sessions s = some { ses with joined_groups := rest } ∧
      ∀ p ∈ rest, Leave_Room d s ses p.2 →
        Leave_Room d' s { ses with joined_groups := rest } p.2 := by
  have hmem : (g, o) ∈ ses.joined_groups := by
    rw [hl]
    exact mem_cons_self
  obtain ⟨-, hentry⟩ := h.joined s ses g o hses hmem
  obtain ⟨gs, hgs, -, rfl⟩ := (h.entry _ _ _).mp hentry
  obtain ⟨d', hleave, hsound, hadv, hses', hother, hids⟩ := Leave_Group_spec h hses hmem hroom
  have herase : erase_key ses.joined_groups gs.mcast_gid = rest := by
    rw [hl]
    exact eraseP_cons_of_pos (by simp)
  rw [herase] at hses'
  refine ⟨gs, d', hgs, hleave, hsound, hadv, hids, hses', ?_⟩
  rintro ⟨g', o'⟩ hp hroom' gs' hgs' hj'
  have hp' : (g', o') ∈ ses.joined_groups := by
    rw [hl]
    exact mem_cons_of_mem _ hp
  -- another group has another entry
  have hne : o' ≠ o := by
    rintro rfl
    have hkey : g' ≠ gs.mcast_gid := by
      rintro rfl
      have hnd := h.once_group s ses hses
      rw [hl, map_cons, nodup_cons] at hnd
      exact hnd.1 (List.mem_map.mpr ⟨_, hp, rfl⟩)
    obtain ⟨-, hentry'⟩ := h.joined s ses g' o' hses hp'
    obtain ⟨x, hx, -, hxg⟩ := (h.entry _ _ _).mp hentry'
    rw [hgs] at hx
    obtain rfl := some.inj hx
    exact hkey hxg.symm
  rw [hother o' hne] at hgs'
  exact hroom' gs' hgs' hj'

theorem leave_groups_spec (n : ℕ) (h : Sound d) (hses : d.sessions s = some ses)
    (hroom : ∀ p ∈ ses.joined_groups.take (n + 1), Leave_Room d s ses p.2) :
    ∃ d' left, leave_groups s n d = some (d', left) ∧ Sound d' ∧ Advanced d d' ∧
      d'.Sessions_ID = d.Sessions_ID ∧
      ∃ ses', d'.sessions s = some ses' ∧ (left = true → ses'.joined_groups = []) := by
  induction n generalizing d ses with
  | zero =>
    unfold leave_groups
    rw [hses, bind_eq_bind, bind_some]
    cases hl : ses.joined_groups with
    | nil => exact ⟨d, true, rfl, h, Advanced.of_groups rfl rfl, rfl, ses, hses, fun _ => hl⟩
    | cons p rest =>
      obtain ⟨gs, d1, hgs, hleave, hsound, hadv, hids, hses1, -⟩ :=
        leave_first h hses hl (hroom p (by rw [hl]; exact mem_cons_self))
      dsimp only
      rw [hgs, bind_eq_bind, bind_some, hleave]
      exact ⟨d1, false, rfl, hsound, hadv, hids, _, hses1, fun hf => (by cases hf)⟩
  | succ n ih =>
    unfold leave_groups
    rw [hses, bind_eq_bind, bind_some]
    cases hl : ses.joined_groups with
    | nil => exact ⟨d, true, rfl, h, Advanced.of_groups rfl rfl, rfl, ses, hses, fun _ => hl⟩
    | cons p rest =>
      obtain ⟨gs, d1, hgs, hleave, hsound, hadv, hids, hses1, hkeep⟩ :=
        leave_first h hses hl (hroom p (by rw [hl]; exact mem_cons_self))
      dsimp only
      rw [hgs, bind_eq_bind, bind_some, hleave, bind_eq_bind,
        bind_some]
      have hrest : ∀ p ∈ rest.take (n + 1),
          Leave_Room d1 s { ses with joined_groups := rest } p.2 := by
        intro p hp
        apply hkeep p (mem_of_mem_take hp)
        apply hroom
        rw [hl]
        exact mem_cons_of_mem _ hp
      obtain ⟨d', left, hloop, hsound', hadv', hids', hlast⟩ := ih hsound hses1 hrest
      exact ⟨d', left, hloop, hsound', hadv.trans hadv', hids'.trans hids, hlast⟩

theorem Sound.dispose (h : Sound d) (hses : d.sessions s = some ses)
    (hleft : ses.joined_groups = []) :
    Sound { d with
      Sessions_ID := d.Sessions_ID.erase ses.sess_id
      sessions := update d.sessions s none } := by
  have hback : ∀ t x, update d.sessions s none t = some x → t ≠ s ∧ d.sessions t = some x := by
    intro t x hx
    by_cases ht : t = s
    · subst ht
      rw [update_self] at hx
      cases hx
    · rw [update_of_ne ht] at hx
      exact ⟨ht, hx⟩
  constructor
  · exact h.tables
  · exact h.entry
  · exact h.new_group
  · intro t ht
    change update d.sessions s none t = none
    by_cases hts : t = s
    · rw [hts, update_self]
    · rw [update_of_ne hts]
      exact h.new_session t ht
  · apply (h.ids.erase ses.sess_id).congr
    intro id t
    constructor
    · rintro ⟨⟨x, hx, hxid⟩, hid⟩
      refine ⟨x, (update_of_ne ?_ ..).trans hx, hxid⟩
      rintro rfl
      rw [hses] at hx
      exact hid (hxid.symm.trans (by rw [some.inj hx]))
    · rintro ⟨x, hx, hxid⟩
      obtain ⟨ht, hx⟩ := hback t x hx
      refine ⟨⟨x, hx, hxid⟩, ?_⟩
      rintro rfl
      exact ht (h.ids.unique ⟨x, hx, hxid⟩ ⟨ses, hses, rfl⟩)
  · intro t x g' o' hx hmem
    exact h.joined t x g' o' (hback t x hx).2 hmem
  · intro o' x hx hown id t
    rw [h.members o' x hx hown id t]
    constructor
    · rintro ⟨y, hy, hyid, hmem⟩
      refine ⟨y, (update_of_ne ?_ ..).trans hy, hyid, hmem⟩
      rintro rfl
      rw [hses] at hy
      obtain rfl := some.inj hy
      rw [hleft] at hmem
      cases hmem
    · rintro ⟨y, hy, hyid, hmem⟩
      exact ⟨y, (hback t y hy).2, hyid, hmem⟩
  · intro t x hx
    exact h.once_group t x (hback t x hx).2
  · exact h.once_session
  · exact h.active

theorem Session_Close_spec {sesid : ℕ} (h : Sound d)
    (hroom : ∀ s ses, d.Sessions_ID.find sesid = some s → d.sessions s = some ses →
      ∀ p ∈ ses.joined_groups.take (MAX_LEAVE + 1), Leave_Room d s ses p.2) :
    ∃ d', Session_Close sesid d = some d' ∧ Sound d' ∧ Advanced d d' := by
  unfold Session_Close
  cases hfind : d.Sessions_ID.find sesid with
  | none => exact ⟨d, rfl, h, Advanced.of_groups rfl rfl⟩
  | some s =>
    obtain ⟨ses, hses, hid⟩ := h.ids.find_iff.mp hfind
    obtain ⟨d1, left, hloop, hsound, hadv, hids, ses', hses', hleft⟩ :=
      leave_groups_spec MAX_LEAVE h hses (hroom s ses hfind hses)
    dsimp only
    rw [hloop, bind_eq_bind, bind_some]
    dsimp only
    cases left with
    | false =>
      refine ⟨_, rfl, ?_, hadv.trans (Advanced.of_groups rfl rfl)⟩
      exact ⟨hsound.tables, hsound.entry, hsound.new_group, hsound.new_session, hsound.ids,
        hsound.joined, hsound.members, hsound.once_group, hsound.once_session, hsound.active⟩
    | true =>
      have hfind1 : d1.Sessions_ID.find sesid = some s := by rw [hids, hfind]
      obtain ⟨x, hx, hxid⟩ := hsound.ids.find_iff.mp hfind1
      rw [hses'] at hx
      obtain rfl := some.inj hx
      rw [if_neg (by decide), hfind1]
      refine ⟨_, rfl, ?_, hadv.trans (Advanced.of_groups rfl rfl)⟩
      rw [← hxid]
      exact hsound.dispose hses' (hleft rfl)

theorem Sound.accept (h : Sound d)
    (hnew : ∀ s ses, d.sessions s = some ses → ses.sess_id ≠ d.Session_Num) : Sound (accept d) := by
  have hfree : d.sessions d.next_session = none := h.new_session _ (le_refl _)
  constructor
  · exact h.tables
  · exact h.entry
  · exact h.new_group
  · intro t ht
    change d.next_session + 1 ≤ t at ht
    exact (update_of_ne (by omega) ..).trans (h.new_session t (by omega))
  · apply (h.ids.insert (fun b ⟨x, hx, hid⟩ => hnew b x hx hid)).congr
    intro id t
    change _ ↔ ∃ x, update d.sessions d.next_session _ t = some x ∧ _
    constructor
    · rintro (⟨x, hx, hxid⟩ | ⟨rfl, rfl⟩)
      · have hne : t ≠ d.next_session := by
          rintro rfl
          rw [hfree] at hx
          cases hx
        exact ⟨x, (update_of_ne hne ..).trans hx, hxid⟩
      · exact ⟨_, update_self .., rfl⟩
    · rintro ⟨x, hx, hxid⟩
      obtain ⟨rfl, rfl⟩ | ⟨-, hx⟩ := update_some hx
      · exact .inr ⟨hxid.symm, rfl⟩
      · exact .inl ⟨x, hx, hxid⟩
  · intro t x g' o' hx hmem
    obtain ⟨rfl, rfl⟩ | ⟨-, hx⟩ := update_some hx
    · cases hmem
    · exact h.joined t x g' o' hx hmem
  · intro o' x hx hown id t
    change _ ↔ ∃ y, update d.sessions d.next_session _ t = some y ∧ _
    rw [h.members o' x hx hown id t]
    constructor
    · rintro ⟨y, hy, hyid, hmem⟩
      have hne : t ≠ d.next_session := by
        rintro rfl
        rw [hfree] at hy
        cases hy
      exact ⟨y, (update_of_ne hne ..).trans hy, hyid, hmem⟩
    · rintro ⟨y, hy, hyid, hmem⟩
      obtain ⟨rfl, rfl⟩ | ⟨-, hy⟩ := update_some hy
      · cases hmem
      · exact ⟨y, hy, hyid, hmem⟩
  · intro t x hx
    obtain ⟨rfl, rfl⟩ | ⟨-, hx⟩ := update_some hx
    · exact nodup_nil
    · exact h.once_group t x hx
  · exact h.once_session
  · exact h.active

theorem Entered.publish {d1 : Daemon} (he : Entered nid g o gs d d1)
    (hnid : gs'.node_nid = gs.node_nid) (hgid : gs'.mcast_gid = gs.mcast_gid)
    (hjoined : gs'.joined_sessions = gs.joined_sessions)
    (hstatus : gs.node_nid = d.My_Address → gs'.status = gs.status)
    (hstamp : d.All_Groups_by_Node nid g = some o → gs.stamp.older gs'.stamp) :
    Sound (Membership.add_to_changed (d1.set_group o gs') o) ∧
      Advanced d (Membership.add_to_changed (d1.set_group o gs') o) := by
  constructor
  · apply Sound.add_to_changed
    apply he.sound.set_group he.group hnid hgid hjoined
    intro hown
    exact hstatus (hown.trans he.my_address)
  · refine Advanced.touch o ?_ ?_ (update_self ..) ?_ ?_
    · intro o' ho
      exact (update_of_ne ho ..).trans (he.other o' ho)
    · intro o' ho'
      apply mem_add_to_changed.mpr
      rw [← he.changed] at ho'
      exact .inl ho'
    · intro gs0 hgs0
      obtain ⟨hfound, rfl⟩ | ⟨-, hnone⟩ := he.found
      · obtain rfl := some.inj (he.group.symm.trans hgs0)
        exact ⟨hnid, hgid, .inr ⟨hstamp hfound, mem_add_to_changed.mpr (.inr rfl)⟩⟩
      · rw [hnone] at hgs0
        cases hgs0
    · intro _
      exact mem_add_to_changed.mpr (.inr rfl)

def Taken_Over (c : Group_Cell) (d d' : Daemon) : Prop :=
  ∃ o gs', d'.All_Groups_by_Node c.source c.dest = some o ∧ d'.groups o = some gs' ∧
    o ∈ d'.Changed_Group_States ∧ ∀ gs, d.groups o = some gs → gs.stamp.older gs'.stamp

theorem process_cell_spec {c : Group_Cell} (now : Stamp) (h : Sound d)
    (hroom : c.source = d.My_Address → newer c d →
      d.All_Groups_by_Node d.My_Address c.dest ≠ none → c.stamp.Room) :
    ∃ d', process_cell now c d = some d' ∧ Sound d' ∧ Advanced d d' ∧
      (newer c d → Taken_Over c d d') := by
  unfold process_cell
  by_cases hnewer : newer c d = true
  swap
  · rw [if_neg hnewer]
    exact ⟨d, rfl, h, Advanced.of_groups rfl rfl, fun hn => absurd hn hnewer⟩
  rw [if_pos hnewer]
  obtain ⟨o, d1, gs, hcreate, he⟩ := find_or_create_spec h now c.source c.dest
  have holder : ∀ gs0, d.groups o = some gs0 → d.All_Groups_by_Node c.source c.dest = some o →
      gs0.stamp.older c.stamp := by
    intro gs0 hgs0 hfound
    unfold newer at hnewer
    rw [hfound, bind_some, hgs0] at hnewer
    simpa using hnewer
  -- both branches give the entry a stamp that is greater than the stored one
  have hfinish : ∀ gs' : Group_State, gs'.node_nid = gs.node_nid → gs'.mcast_gid = gs.mcast_gid →
      gs'.joined_sessions = gs.joined_sessions →
      (gs.node_nid = d.My_Address → gs'.status = gs.status) →
      (d.All_Groups_by_Node c.source c.dest = some o → c.stamp = gs'.stamp ∨
        c.stamp.older gs'.stamp) →
      ∃ d', some (Membership.add_to_changed (d1.set_group o gs') o) = some d' ∧ Sound d' ∧
        Advanced d d' ∧ (newer c d → Taken_Over c d d') := by
    intro gs' hn hg hj hs hstamp
    have hold : ∀ gs0, d.groups o = some gs0 → gs0.stamp.older gs'.stamp := by
      intro gs0 hgs0
      obtain ⟨hfound, -⟩ | ⟨-, hnone⟩ := he.found
      · obtain heq | holder' := hstamp hfound
        · rw [← heq]
          exact holder gs0 hgs0 hfound
        · exact (holder gs0 hgs0 hfound).trans holder'
      · rw [hnone] at hgs0
        cases hgs0
    have hstamp' : d.All_Groups_by_Node c.source c.dest = some o → gs.stamp.older gs'.stamp := by
      intro hfound
      obtain ⟨-, rfl⟩ | ⟨hnone, -⟩ := he.found
      · exact hold gs he.group
      · rw [hnone] at hfound
        cases hfound
    obtain ⟨hsound, hadv⟩ := he.publish hn hg hj hs hstamp'
    refine ⟨_, rfl, hsound, hadv, fun _ => ?_⟩
    refine ⟨o, gs', ?_, update_self .., mem_add_to_changed.mpr (.inr rfl), hold⟩
    exact (he.sound.entry _ _ _).mpr ⟨gs, he.group, he.of_node, he.of_group⟩
  unfold Groups_Process_state_cell
  rw [hcreate, bind_eq_bind, bind_some]
  dsimp only
  rw [he.group, bind_eq_bind, bind_some, he.my_address]
  by_cases hown : c.source = d.My_Address
  · rw [if_neg (not_not.mpr hown)]
    apply hfinish { gs with stamp := c.stamp.bump } rfl rfl rfl (fun _ => rfl)
    intro hfound
    refine .inr (c.stamp.bump_greater.mpr (hroom hown hnewer ?_))
    rw [← hown, hfound]
    exact some_ne_none o
  · rw [if_pos hown]
    apply hfinish { gs with stamp := c.stamp, age := c.age, status := c.flags } rfl rfl rfl
    · intro hnode
      exact absurd (he.of_node.symm.trans hnode) hown
    · exact fun _ => .inl rfl

theorem resend_state_spec (h : Sound d)
    (hroom : ∀ o gs, d.All_Groups_by_Node d.My_Address g = some o → d.groups o = some gs →
      gs.status &&& ACTIVE_GROUP ≠ 0 → gs.stamp.Room) :
    ∃ d', resend_state g d = some d' ∧ Sound d' ∧ Advanced d d' := by
  unfold resend_state
  cases hfound : d.All_Groups_by_Node d.My_Address g with
  | none => exact ⟨d, rfl, h, Advanced.of_groups rfl rfl⟩
  | some o =>
    obtain ⟨gs, hgs, hnid, hgid⟩ := (h.entry _ _ _).mp hfound
    dsimp only
    rw [hgs, bind_eq_bind, bind_some]
    split
    · rename_i hactive
      have he : Entered d.My_Address g o gs d d :=
        ⟨h, hgs, hnid, hgid, .inl ⟨hfound, rfl⟩, fun _ _ => rfl, rfl, rfl, rfl⟩
      refine ⟨_, rfl, he.publish rfl rfl rfl (fun _ => rfl) ?_⟩
      intro _
      exact gs.stamp.bump_greater.mpr (hroom o gs hfound hgs hactive)
    · exact ⟨d, rfl, h, Advanced.of_groups rfl rfl⟩

theorem Sound.set_type (h : Sound d) (hses : d.sessions s = some ses) (type : SesType) :
    Sound (d.set_session s { ses with type := type }) := by
  have hback : ∀ t x, update d.sessions s (some { ses with type := type }) t = some x →
      ∃ y, d.sessions t = some y ∧ x.sess_id = y.sess_id ∧ x.joined_groups = y.joined_groups := by
    intro t x hx
    obtain ⟨rfl, rfl⟩ | ⟨-, hx⟩ := update_some hx
    · exact ⟨ses, hses, rfl, rfl⟩
    · exact ⟨x, hx, rfl, rfl⟩
  have hforth : ∀ t y, d.sessions t = some y →
      ∃ x, update d.sessions s (some { ses with type := type }) t = some x ∧
        x.sess_id = y.sess_id ∧ x.joined_groups = y.joined_groups := by
    intro t y hy
    by_cases ht : t = s
    · subst ht
      rw [hses] at hy
      obtain rfl := some.inj hy
      exact ⟨_, update_self .., rfl, rfl⟩
    · exact ⟨y, (update_of_ne ht ..).trans hy, rfl, rfl⟩
  constructor
  · exact h.tables
  · exact h.entry
  · exact h.new_group
  · intro t ht
    have hne : t ≠ s := by
      rintro rfl
      rw [h.new_session t ht] at hses
      cases hses
    exact (update_of_ne hne ..).trans (h.new_session t ht)
  · apply h.ids.congr
    intro id t
    constructor
    · rintro ⟨y, hy, hyid⟩
      obtain ⟨x, hx, hxid, -⟩ := hforth t y hy
      exact ⟨x, hx, hxid.trans hyid⟩
    · rintro ⟨x, hx, hxid⟩
      obtain ⟨y, hy, hyid, -⟩ := hback t x hx
      exact ⟨y, hy, hyid.symm.trans hxid⟩
  · intro t x g' o' hx hmem
    obtain ⟨y, hy, -, hj⟩ := hback t x hx
    exact h.joined t y g' o' hy (hj ▸ hmem)
  · intro o' x hx hown id t
    rw [h.members o' x hx hown id t]
    constructor
    · rintro ⟨y, hy, hyid, hmem⟩
      obtain ⟨z, hz, hzid, hj⟩ := hforth t y hy
      exact ⟨z, hz, hzid.trans hyid, hj ▸ hmem⟩
    · rintro ⟨z, hz, hzid, hmem⟩
      obtain ⟨y, hy, hyid, hj⟩ := hback t z hz
      exact ⟨y, hy, hyid.symm.trans hzid, hj ▸ hmem⟩
  · intro t x hx
    obtain ⟨y, hy, -, hj⟩ := hback t x hx
    rw [hj]
    exact h.once_group t y hy
  · exact h.once_session
  · exact h.active

theorem Sound.next {e : Event} (h : Sound d) (he : Allowed d e) :
    ∃ d', d.next e = some d' ∧ Sound d' ∧ Published d d' ∧
      ∀ now c, e = .cell now c → newer c d → Taken_Over c d d' := by
  cases e with
  | accept =>
    exact ⟨_, rfl, h.accept he, Published.of_groups rfl, fun _ _ hc => (by cases hc)⟩
  | set_type s type =>
    change ∃ d', (match d.sessions s with
      | none => some d
      | some ses => some (d.set_session s { ses with type := type })) = some d' ∧ _
    cases hses : d.sessions s with
    | none => exact ⟨d, rfl, h, Published.of_groups rfl, fun _ _ hc => (by cases hc)⟩
    | some ses =>
      exact ⟨_, rfl, h.set_type hses type, Published.of_groups rfl, fun _ _ hc => (by cases hc)⟩
  | join now g s =>
    change ∃ d', (if (d.sessions s).isNone then some d else Join_Group now g s d) = some d' ∧ _
    cases hses : d.sessions s with
    | none => exact ⟨d, rfl, h, Published.of_groups rfl, fun _ _ hc => (by cases hc)⟩
    | some ses =>
      obtain ⟨d', hjoin, hsound, hadv⟩ := Join_Group_spec h hses (fun o gs => he ses o gs hses)
      exact ⟨d', hjoin, hsound, hadv.toPublished, fun _ _ hc => (by cases hc)⟩
  | leave g s =>
    change ∃ d', (if (d.sessions s).isNone then some d else Leave_Group g s d) = some d' ∧ _
    cases hses : d.sessions s with
    | none => exact ⟨d, rfl, h, Published.of_groups rfl, fun _ _ hc => (by cases hc)⟩
    | some ses =>
      by_cases hmem : ∃ o, (g, o) ∈ ses.joined_groups
      · obtain ⟨o, hmem⟩ := hmem
        obtain ⟨d', hleave, hsound, hadv, -⟩ := Leave_Group_spec h hses hmem (he ses o hses hmem)
        exact ⟨d', hleave, hsound, hadv.toPublished, fun _ _ hc => (by cases hc)⟩
      · refine ⟨d, ?_, h, Published.of_groups rfl, fun _ _ hc => (by cases hc)⟩
        have hfind : (ses.joined_groups.find? fun p => p.1 = g) = none := by
          apply List.find?_eq_none.mpr
          rintro ⟨g', o⟩ hp hkey
          obtain rfl : g' = g := by simpa using hkey
          exact hmem ⟨o, hp⟩
        unfold Leave_Group
        rw [if_neg (by simp), hses, bind_eq_bind, bind_some, hfind]
        split <;> rfl
  | close sesid =>
    obtain ⟨d', hclose, hsound, hadv⟩ := Session_Close_spec h he
    exact ⟨d', hclose, hsound, hadv.toPublished, fun _ _ hc => (by cases hc)⟩
  | cell now c =>
    obtain ⟨d', hcell, hsound, hadv, htaken⟩ := process_cell_spec now h he
    refine ⟨d', hcell, hsound, hadv.toPublished, ?_⟩
    rintro _ _ ⟨⟩
    exact htaken
  | resend g =>
    obtain ⟨d', hresend, hsound, hadv⟩ := resend_state_spec h he
    exact ⟨d', hresend, hsound, hadv.toPublished, fun _ _ hc => (by cases hc)⟩
  | sent =>
    refine ⟨_, rfl, ?_, Published.of_groups rfl, fun _ _ hc => (by cases hc)⟩
    exact ⟨h.tables, h.entry, h.new_group, h.new_session, h.ids, h.joined, h.members,
      h.once_group, h.once_session, h.active⟩

end Publishing

/-! ## 10. Every run -/

/-- In every run whose events meet the condition, the places a membership is stored in
agree in every state reached, and no further such event ends the program: it publishes
every change, and every newer claim, with a greater stamp. -/
theorem group_membership (My_Address : ℕ) (d : Daemon)
    (hrun : Run Step (Daemon.init My_Address) d) : (∀ s ses g, d.sessions s = some ses →
      (g ∈ ses.joined_groups.map Prod.fst ↔
        ∃ o gs, d.All_Groups_by_Node d.My_Address g = some o ∧ d.groups o = some gs ∧
          (ses.sess_id, s) ∈ gs.joined_sessions)) ∧
    (∀ g o gs, d.All_Groups_by_Node d.My_Address g = some o → d.groups o = some gs →
      (gs.status &&& ACTIVE_GROUP ≠ 0 ↔ gs.joined_sessions ≠ []) ∧
      ∀ id s, (id, s) ∈ gs.joined_sessions → ∃ ses, d.sessions s = some ses ∧ ses.sess_id = id) ∧
    (∀ n g, d.All_Groups_by_Node n g = d.All_Groups_by_Name g n) ∧
    ∀ e, Allowed d e → ∃ d', d.next e = some d' ∧ Published d d' ∧
      ∀ now c, e = .cell now c → newer c d → Taken_Over c d d' := by
  have h : Sound d := by
    refine hrun.invariant Sound (Sound.init My_Address) ?_
    rintro t e t' ht ⟨hallowed, hnext⟩
    obtain ⟨t'', hnext', hsound, -⟩ := ht.next hallowed
    rw [hnext] at hnext'
    obtain rfl := some.inj hnext'
    exact hsound
  refine ⟨?_, ?_, h.tables, ?_⟩
  · intro s ses g hses
    rw [List.mem_map]
    constructor
    · rintro ⟨⟨g', o⟩, hmem, rfl⟩
      obtain ⟨-, hentry⟩ := h.joined s ses g' o hses hmem
      obtain ⟨gs, hgs, hown, hgid⟩ := (h.entry _ _ _).mp hentry
      refine ⟨o, gs, hentry, hgs, (h.members o gs hgs hown _ _).mpr ⟨ses, hses, rfl, ?_⟩⟩
      rw [hgid]
      exact hmem
    · rintro ⟨o, gs, hentry, hgs, hmem⟩
      obtain ⟨x, hx, hown, hgid⟩ := (h.entry _ _ _).mp hentry
      rw [hgs] at hx
      obtain rfl := some.inj hx
      obtain ⟨ses', hses', -, hmem'⟩ := (h.members o gs hgs hown _ _).mp hmem
      rw [hses] at hses'
      obtain rfl := some.inj hses'
      exact ⟨(gs.mcast_gid, o), hmem', hgid⟩
  · intro g o gs hentry hgs
    obtain ⟨x, hx, hown, -⟩ := (h.entry _ _ _).mp hentry
    rw [hgs] at hx
    obtain rfl := some.inj hx
    have hstatus := h.active o gs hgs hown
    constructor
    · by_cases hempty : gs.joined_sessions = []
      · rw [hstatus, if_pos hempty]
        simp [hempty]
      · rw [hstatus, if_neg hempty]
        exact ⟨fun _ => hempty, fun _ => by decide⟩
    · intro id s hmem
      obtain ⟨ses, hses, hid, -⟩ := (h.members o gs hgs hown id s).mp hmem
      exact ⟨ses, hses, hid⟩
  · intro e he
    obtain ⟨d', hnext, -, hpub, hcell⟩ := h.next he
    exact ⟨d', hnext, hpub, hcell⟩

/-! ### One session in one group -/

def one_group : ℕ := 0xE0000001

def one_join : Event := .join ⟨1000, 0⟩ one_group 0

theorem one_member :
    ∃ d, Run Step (Daemon.init 1) d ∧ d.My_Address = 1 ∧
      d.All_Groups_by_Node 1 one_group = some 0 ∧
      d.sessions 0 = some ⟨0, .UDP_SES_TYPE, [(one_group, 0)]⟩ ∧
      d.groups 0 = some ⟨1, one_group, ⟨1000, 1⟩, ACTIVE_GROUP, 0, [(0, 0)]⟩ := by
  have haccept : Step (Daemon.init 1) .accept (accept (Daemon.init 1)) :=
    ⟨fun s ses h => (by cases h), rfl⟩
  have hplay : (((accept (Daemon.init 1)).next one_join).any fun d =>
      d.My_Address = 1 ∧ d.All_Groups_by_Node 1 one_group = some 0 ∧
      d.sessions 0 = some ⟨0, .UDP_SES_TYPE, [(one_group, 0)]⟩ ∧
      d.groups 0 = some ⟨1, one_group, ⟨1000, 1⟩, ACTIVE_GROUP, 0, [(0, 0)]⟩) = true := by
    decide +kernel
  obtain ⟨d, hd, hfacts⟩ := (Option.any_eq_true _ _).mp hplay
  have hjoin : Step (accept (Daemon.init 1)) one_join d := by
    refine ⟨?_, hd⟩
    intro ses o gs _ _ _ hentry
    cases hentry
  exact ⟨d, Run.tail (Run.tail (Run.refl _) haccept) hjoin, of_decide_eq_true hfacts⟩

theorem group_membership_one :
    ∃ d, Run Step (Daemon.init 1) d ∧ one_group ∈ [(one_group, 0)].map Prod.fst ∧
      ∃ o gs, d.All_Groups_by_Node 1 one_group = some o ∧ d.groups o = some gs ∧
        (0, 0) ∈ gs.joined_sessions := by
  obtain ⟨d, hrun, haddr, -, hses, -⟩ := one_member
  have hmem : one_group ∈ [(one_group, 0)].map Prod.fst := mem_singleton.mpr rfl
  have hfound := ((group_membership 1 d hrun).1 0 _ one_group hses).mp hmem
  rw [haddr] at hfound
  exact ⟨d, hrun, hmem, hfound⟩

/-- A claim of a membership of this node, with the greatest `timestamp_usec`. -/
def last_stamp : Group_Cell := ⟨1, one_group, ⟨1000, 2147483647⟩, ACTIVE_GROUP, 0⟩

/-- The newer claim leaves the entry with a smaller stamp than it had. -/
theorem echo_turns_back :
    ∃ d d', Run Step (Daemon.init 1) d ∧ d.next (.cell ⟨1001, 0⟩ last_stamp) = some d' ∧
      newer last_stamp d = true ∧ ∃ gs gs', d.groups 0 = some gs ∧ d'.groups 0 = some gs' ∧
        gs'.stamp.older gs.stamp ∧ ¬gs.stamp.older gs'.stamp := by
  obtain ⟨d, hrun, haddr, hentry, -, hgs⟩ := one_member
  have hnewer : newer last_stamp d = true := by
    unfold newer
    rw [show d.All_Groups_by_Node last_stamp.source last_stamp.dest = some 0 from hentry,
      bind_some, hgs]
    decide
  let gs' : Group_State := ⟨1, one_group, last_stamp.stamp.bump, ACTIVE_GROUP, 0, [(0, 0)]⟩
  have hset : update d.groups 0 (some gs') 0 = some gs' := by
    rw [update_self]
  refine ⟨d, add_to_changed (d.set_group 0 gs') 0, hrun, ?_, hnewer, _, gs', hgs, hset, ?_, ?_⟩
  · change process_cell _ _ d = _
    unfold process_cell Groups_Process_state_cell find_or_create
    rw [if_pos hnewer,
      show d.All_Groups_by_Node last_stamp.source last_stamp.dest = some 0 from hentry]
    dsimp only
    rw [bind_eq_bind, bind_some, hgs, bind_eq_bind, bind_some,
      if_neg (not_not.mpr (show last_stamp.source = d.My_Address from haddr.symm))]
  · decide
  · decide

end Spines.Sessions.Membership
