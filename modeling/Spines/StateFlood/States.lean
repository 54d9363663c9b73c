/-
`daemon/state_flood.c`: the replicated tables of link states and group states.

A state is known by its source and its destination; its source stamps every change.
Cells come from the neighbors in packets and in any order. A cell with a greater
stamp than the stored one replaces it, is put among the changed states and so goes on
to the other neighbors; a cell with the stored stamp only tells that its sender knows
the state already.

The same code serves both protocols. `Prot_Def.Lts` is what the cells of a protocol
carry besides the common fields: a link state its logical time stamp. Stored states
are last-writer-wins registers (`Lib.LastWriter`): `process_cell_stored` is the one
lemma about a cell.
-/
import Spines.Lib.LastWriter
import Spines.Lib.Run
import Mathlib.Data.Prod.Lex

set_option autoImplicit false

namespace Spines.StateFlood

open Spines.Lib Option List

/-! ## 1. States, cells and tables -/

abbrev Spines_ID := Nat
abbrev Node_ID := Nat

inductive Prot_Def
  | Edge_Prot_Def
  | Groups_Prot_Def
  deriving DecidableEq, Repr

abbrev Prot_Def.Lts : Prot_Def → Type
  | .Edge_Prot_Def => BitVec 16
  | .Groups_Prot_Def => Unit

structure sp_time where
  sec : Int
  usec : Int
  deriving DecidableEq, Repr

def int32 (x : Int) : Int := Int.bmod x (2 ^ 32)

structure State_Cell (p : Prot_Def) where
  dest : Spines_ID
  timestamp_sec : Int
  timestamp_usec : Int
  /-- `cost` of an edge, `flags` of a group -/
  value : Int
  age : Int
  lts : p.Lts

structure State_Data (p : Prot_Def) where
  timestamp_sec : Int
  timestamp_usec : Int
  my_timestamp_sec : Int
  my_timestamp_usec : Int
  /-- `cost` of an edge, `status` of a group -/
  value : Int
  age : Int
  lts : p.Lts

abbrev Table (p : Prot_Def) := Spines_ID → Option (Spines_ID → Option (State_Data p))

/-- A protocol state; `none` if there is no such state. -/
def Find_State {p : Prot_Def} (h : Table p) (prim scnd : Spines_ID) : Option (State_Data p) :=
  match h prim with
  | none => none
  | some s_chain => s_chain scnd

/-- Insertion into the chain of `prim`, which is made when it is not there yet. -/
def Table.put {p : Prot_Def} (h : Table p) (prim scnd : Spines_ID) (s_data : State_Data p) :
    Table p :=
  fun a =>
    if a = prim then
      match h prim with
      | none => some fun b => if b = scnd then some s_data else none
      | some s_chain => some fun b => if b = scnd then some s_data else s_chain b
    else h a

/-- A state that is to be sent to the neighbors; `mask` tells which slots of
`Neighbor_Nodes` need not hear of it any more. -/
structure Changed_State where
  source_addr : Spines_ID
  dest_addr : Spines_ID
  mask : Nat → Bool

structure Daemon (p : Prot_Def) where
  My_Address : Node_ID
  All_Nodes : Node_ID → Bool
  All_States : Table p
  Link_State_Update_LTS : BitVec 16
  Changed_States : List Changed_State
  /-- `Send_State_Updates` is in the event queue -/
  queued : Bool
  /-- the slots up to `Num_Neighbors` -/
  Neighbor_Nodes : List (Option Node_ID)
  /-- cost of the leg, and of the edge, to a node; -1 when it is not connected -/
  leg_cost : Node_ID → Int

/-! ## 2. Changed states -/

section Model

variable {p : Prot_Def}

/-- `Is_Connected_Neighbor2`. -/
def Daemon.connected (d : Daemon p) (nid : Node_ID) : Bool := d.leg_cost nid ≠ -1

def Daemon.neighbor_id (d : Daemon p) (nid : Node_ID) : Option Nat :=
  d.Neighbor_Nodes.idxOf? (some nid)

def Changed_State.is (c : Changed_State) (src_id dst_id : Spines_ID) : Bool :=
  c.source_addr = src_id ∧ c.dest_addr = dst_id

def Find_Changed_State (h : List Changed_State) (src_id dst_id : Spines_ID) :
    Option Changed_State :=
  h.find? fun c => c.is src_id dst_id

def set_mask (h : List Changed_State) (src_id dst_id : Spines_ID)
    (f : (Nat → Bool) → Nat → Bool) : List Changed_State :=
  h.map fun c => if c.is src_id dst_id then { c with mask := f c.mask } else c

/-- The neighbors that need not hear of a change: the one that has told us. The daemon
exits when the sender is not a connected neighbor. -/
def first_mask (d : Daemon p) (sender : Node_ID) : Option (Nat → Bool) :=
  if sender = d.My_Address then some fun _ => false
  else if d.connected sender then (d.neighbor_id sender).map fun id i => i == id
  else none

def Add_to_changed_states (now : sp_time) (sender : Node_ID) (src_id dst_id : Spines_ID)
    (d : Daemon p) : Option (Daemon p) := do
  let s_data ← Find_State d.All_States src_id dst_id
  let mask ← first_mask d sender
  some { d with
    All_States := d.All_States.put src_id dst_id
      { s_data with my_timestamp_sec := int32 now.sec, my_timestamp_usec := int32 now.usec }
    queued := d.queued || d.Changed_States.isEmpty
    Changed_States :=
      match Find_Changed_State d.Changed_States src_id dst_id with
      | none => d.Changed_States ++ [⟨src_id, dst_id, mask⟩]
      | some _ => set_mask d.Changed_States src_id dst_id fun _ => mask }

/-! ## 3. Cells -/

def Link_State_LTS_cmp (left right : BitVec 16) : Int :=
  let quarter := 2 ^ 14
  if left.toNat < right.toNat then
    if left.toNat < quarter ∧ right.toNat ≥ 3 * quarter then 1 else -1
  else if left ≠ right then
    if right.toNat < quarter ∧ left.toNat ≥ 3 * quarter then -1 else 1
  else 0

/-- `++timestamp_usec`, with the carry. -/
def State_Data.bump (s : State_Data p) : State_Data p :=
  if s.timestamp_usec + 1 ≥ 1000000 then
    { s with timestamp_sec := s.timestamp_sec + 1, timestamp_usec := 0 }
  else { s with timestamp_usec := s.timestamp_usec + 1 }

/-- The state that `Create_Edge` and `Create_Group` put into the table. -/
def fresh_state (now : sp_time) (own : Bool) (value : Int) (lts : p.Lts) : State_Data p :=
  { timestamp_sec := if own then int32 now.sec else 0
    timestamp_usec := if own then int32 now.usec else 0
    my_timestamp_sec := int32 now.sec
    my_timestamp_usec := int32 now.usec
    value := value
    age := 0
    lts := lts }

/-- Returns `false` for an update that must not be propagated. -/
def Edge_Process_state_cell (now : sp_time) (d : Daemon .Edge_Prot_Def) (source : Node_ID)
    (edge_cell : State_Cell .Edge_Prot_Def) : Option (Daemon .Edge_Prot_Def × Bool) :=
  let d := { d with All_Nodes := fun n => d.All_Nodes n || n == source || n == edge_cell.dest }
  -- an edge that is not known yet has cost -1
  let (edge, lts) :=
    match Find_State d.All_States source edge_cell.dest with
    | some edge => (edge, d.Link_State_Update_LTS)
    | none =>
      if source = d.My_Address then
        (fresh_state now true (-1) (d.Link_State_Update_LTS + 1), d.Link_State_Update_LTS + 1)
      else (fresh_state now false (-1) 0, d.Link_State_Update_LTS)
  let lts := if Link_State_LTS_cmp edge_cell.lts lts > 0 then edge_cell.lts else lts
  let edge := { edge with
    timestamp_sec := edge_cell.timestamp_sec
    timestamp_usec := edge_cell.timestamp_usec }
  if source ≠ d.My_Address then
    let edge := { edge with age := edge_cell.age, value := edge_cell.value, lts := edge_cell.lts }
    some ({ d with
      All_States := d.All_States.put source edge_cell.dest edge
      Link_State_Update_LTS := lts }, true)
  else do
    -- only this daemon publishes its own edges
    let edge := { edge.bump with lts := lts + 1 }
    let d ← Add_to_changed_states now d.My_Address source edge_cell.dest { d with
      All_States := d.All_States.put source edge_cell.dest edge
      Link_State_Update_LTS := lts + 1 }
    some (d, false)

def Groups_Process_state_cell (now : sp_time) (d : Daemon .Groups_Prot_Def) (source : Node_ID)
    (group_cell : State_Cell .Groups_Prot_Def) : Option (Daemon .Groups_Prot_Def × Bool) :=
  let g_state :=
    match Find_State d.All_States source group_cell.dest with
    | some g_state => g_state
    | none => fresh_state now (source = d.My_Address) 0 ()
  let g_state := { g_state with
    timestamp_sec := group_cell.timestamp_sec
    timestamp_usec := group_cell.timestamp_usec }
  if source ≠ d.My_Address then
    let g_state := { g_state with age := group_cell.age, value := group_cell.value }
    some ({ d with All_States := d.All_States.put source group_cell.dest g_state }, true)
  else do
    let d ← Add_to_changed_states now d.My_Address source group_cell.dest { d with
      All_States := d.All_States.put source group_cell.dest g_state.bump }
    some (d, false)

def Process_state_cell (now : sp_time) (d : Daemon p) (source : Node_ID) (cell : State_Cell p) :
    Option (Daemon p × Bool) :=
  match p with
  | .Edge_Prot_Def => Edge_Process_state_cell now d source cell
  | .Groups_Prot_Def => Groups_Process_state_cell now d source cell

def State_Data.older (s_data : State_Data p) (cell : State_Cell p) : Bool :=
  s_data.timestamp_sec < cell.timestamp_sec ∨
    (s_data.timestamp_sec = cell.timestamp_sec ∧ s_data.timestamp_usec < cell.timestamp_usec)

/-- Body of the loop over the cells of a packet. The flag is `changed_route_flag`. -/
def process_cell (now : sp_time) (sender source : Node_ID) (st : Daemon p × Bool)
    (cell : State_Cell p) : Option (Daemon p × Bool) :=
  let (d, changed_route_flag) := st
  let s_data := Find_State d.All_States source cell.dest
  if s_data.all (·.older cell) then do
    let (d, propagate) ← Process_state_cell now d source cell
    if propagate then
      let d ← Add_to_changed_states now sender source cell.dest d
      some (d, true)
    else some (d, changed_route_flag)
  else if s_data.any fun s =>
      s.timestamp_sec = cell.timestamp_sec ∧ s.timestamp_usec = cell.timestamp_usec then
    -- the sender is already aware of a change that waits to go out
    match Find_Changed_State d.Changed_States source cell.dest with
    | none => some (d, changed_route_flag)
    | some _ => do
      let id ← d.neighbor_id sender
      some ({ d with
        Changed_States := set_mask d.Changed_States source cell.dest fun m i => m i || i == id },
        changed_route_flag)
  else some (d, changed_route_flag)

structure Received (p : Prot_Def) where
  now : sp_time
  sender : Node_ID
  parts : List (Node_ID × List (State_Cell p))

/-- `Process_state_packet` after the acknowledgements. The flag asks for new routes. -/
def Process_state_packet (d : Daemon p) (r : Received p) : Option (Daemon p × Bool) := do
  let (d, changed_route_flag) ← r.parts.foldlM (fun st part =>
    part.2.foldlM (process_cell r.now r.sender part.1) st) (d, false)
  some (d, changed_route_flag && (p == .Edge_Prot_Def))

def receive_all (d : Daemon p) (rs : List (Received p)) : Option (Daemon p) :=
  rs.foldlM (fun d r => (Process_state_packet d r).map Prod.fst) d

end Model

/-! ## 4. One cell -/

structure Version (p : Prot_Def) where
  timestamp_sec : Int
  timestamp_usec : Int
  value : Int
  lts : p.Lts

section Cell

variable {p : Prot_Def} {d d' : Daemon p} {h : Table p} {now : sp_time} {sender source : Node_ID}
  {cell : State_Cell p} {s_data : State_Data p} {a b x y : Spines_ID} {flag flag' : Bool}

def Version.stamp (v : Version p) : Int ×ₗ Int := toLex (v.timestamp_sec, v.timestamp_usec)

def State_Data.version (s : State_Data p) : Version p :=
  { timestamp_sec := s.timestamp_sec, timestamp_usec := s.timestamp_usec, value := s.value,
    lts := s.lts }

def State_Cell.version (c : State_Cell p) : Version p :=
  { timestamp_sec := c.timestamp_sec, timestamp_usec := c.timestamp_usec, value := c.value,
    lts := c.lts }

def Daemon.stored (d : Daemon p) (src dst : Spines_ID) : Option (Version p) :=
  (Find_State d.All_States src dst).map State_Data.version

def Daemon.Is_Neighbor (d : Daemon p) (n : Node_ID) : Prop :=
  d.connected n ∧ some n ∈ d.Neighbor_Nodes

@[simp] theorem find_put : Find_State (h.put a b s_data) x y =
    if x = a ∧ y = b then some s_data else Find_State h x y := by
  unfold Find_State Table.put
  by_cases hx : x = a
  · subst hx
    cases h x with
    | none => simp
    | some s_chain => simp
  · simp [hx]

theorem older_iff : s_data.older cell ↔ s_data.version.stamp < cell.version.stamp := by
  simp [State_Data.older, Version.stamp, State_Data.version, State_Cell.version, Prod.Lex.toLex_lt_toLex]

structure Same_Neighbors (d d' : Daemon p) : Prop where
  address : d'.My_Address = d.My_Address
  neighbors : d'.Neighbor_Nodes = d.Neighbor_Nodes
  leg_cost : d'.leg_cost = d.leg_cost

theorem Same_Neighbors.refl (d : Daemon p) : Same_Neighbors d d := ⟨rfl, rfl, rfl⟩

theorem Same_Neighbors.trans {d'' : Daemon p} (h : Same_Neighbors d d')
    (h' : Same_Neighbors d' d'') : Same_Neighbors d d'' :=
  ⟨h'.address.trans h.address, h'.neighbors.trans h.neighbors, h'.leg_cost.trans h.leg_cost⟩

theorem Daemon.Is_Neighbor.same (h : Same_Neighbors d d') (hn : d.Is_Neighbor sender) :
    d'.Is_Neighbor sender := by
  unfold Daemon.Is_Neighbor Daemon.connected at hn ⊢
  rw [h.leg_cost, h.neighbors]
  exact hn

theorem Daemon.Is_Neighbor.neighbor_id (hn : d.Is_Neighbor sender) :
    ∃ id, d.neighbor_id sender = some id := by
  apply ne_none_iff_exists'.mp
  rw [Daemon.neighbor_id, Ne, List.idxOf?_eq_none_iff, not_not]
  exact hn.2

theorem process_state_cell_spec (now : sp_time) (hsrc : source ≠ d.My_Address)
    (cell : State_Cell p) :
    ∃ d' s_data, Process_state_cell now d source cell = some (d', true) ∧ Same_Neighbors d d' ∧
      d'.All_States = d.All_States.put source cell.dest s_data ∧
      s_data.version = cell.version ∧ d'.Changed_States = d.Changed_States ∧
      d'.queued = d.queued := by
  cases p with
  | Edge_Prot_Def =>
    simp only [Process_state_cell, Edge_Process_state_cell, hsrc, ne_eq, not_false_iff, if_true]
    cases Find_State d.All_States source cell.dest with
    | none => exact ⟨_, _, rfl, ⟨rfl, rfl, rfl⟩, rfl, rfl, rfl, rfl⟩
    | some edge => exact ⟨_, _, rfl, ⟨rfl, rfl, rfl⟩, rfl, rfl, rfl, rfl⟩
  | Groups_Prot_Def =>
    simp only [Process_state_cell, Groups_Process_state_cell, hsrc, ne_eq, not_false_iff,
      if_true]
    exact ⟨_, _, rfl, ⟨rfl, rfl, rfl⟩, rfl, rfl, rfl, rfl⟩

theorem add_to_changed_states_stored (hadd : Add_to_changed_states now sender a b d = some d') :
    (∀ x y, d'.stored x y = d.stored x y) ∧ Same_Neighbors d d' := by
  unfold Add_to_changed_states at hadd
  obtain ⟨s_data, hfind, hadd⟩ := bind_eq_some_iff.mp hadd
  obtain ⟨mask, -, hadd⟩ := bind_eq_some_iff.mp hadd
  obtain rfl := some.inj hadd
  refine ⟨?_, rfl, rfl, rfl⟩
  intro x y
  rw [Daemon.stored, Daemon.stored, find_put]
  split
  · rename_i hkey
    rw [hkey.1, hkey.2, hfind]
    rfl
  · rfl

theorem add_to_changed_states_isSome (now : sp_time) (hn : d.Is_Neighbor sender)
    (hfind : (Find_State d.All_States a b).isSome) :
    (Add_to_changed_states now sender a b d).isSome := by
  obtain ⟨s_data, hs⟩ := isSome_iff_exists.mp hfind
  obtain ⟨id, hid⟩ := hn.neighbor_id
  have hmask : (first_mask d sender).isSome := by
    unfold first_mask
    by_cases hown : sender = d.My_Address
    · simp [hown]
    · simp [hown, hn.1, hid]
  obtain ⟨mask, hmask⟩ := isSome_iff_exists.mp hmask
  unfold Add_to_changed_states
  rw [hs, bind_eq_bind, bind_some, hmask]
  rfl

theorem process_cell_stored (hsrc : source ≠ d.My_Address)
    (hrun : process_cell now sender source (d, flag) cell = some (d', flag')) :
    (∀ x y, d'.stored x y =
      if x = source ∧ y = cell.dest then
        keep_newer Version.stamp (d.stored source cell.dest) cell.version
      else d.stored x y) ∧ Same_Neighbors d d' := by
  unfold process_cell at hrun
  dsimp only at hrun
  split at hrun
  · -- newer than what is stored
    rename_i hnewer
    obtain ⟨d1, s1, hcell, hsame, htable, hversion, -⟩ :=
      process_state_cell_spec now hsrc cell
    rw [hcell, bind_eq_bind, bind_some] at hrun
    simp only [if_true] at hrun
    obtain ⟨d2, hadd, hrun⟩ := bind_eq_some_iff.mp hrun
    obtain ⟨rfl, -⟩ := Prod.mk.inj (some.inj hrun)
    obtain ⟨hstored, hsame'⟩ := add_to_changed_states_stored hadd
    refine ⟨?_, hsame.trans hsame'⟩
    intro x y
    rw [hstored, Daemon.stored, htable, find_put]
    split
    · unfold keep_newer Daemon.stored
      cases hfind : Find_State d.All_States source cell.dest with
      | none => simp [hversion]
      | some s =>
        rw [hfind, all_some, older_iff] at hnewer
        simp [hnewer, hversion]
    · rfl
  · rename_i hold
    have hkeep : ∀ x y, d.stored x y =
        if x = source ∧ y = cell.dest then
          keep_newer Version.stamp (d.stored source cell.dest) cell.version
        else d.stored x y := by
      intro x y
      split
      · rename_i hkey
        rw [hkey.1, hkey.2]
        unfold keep_newer Daemon.stored
        cases hfind : Find_State d.All_States source cell.dest with
        | none => simp [hfind] at hold
        | some s =>
          rw [hfind, all_some, older_iff] at hold
          simp [hold]
      · rfl
    split at hrun
    · split at hrun
      · obtain ⟨rfl, -⟩ := Prod.mk.inj (some.inj hrun)
        exact ⟨hkeep, .refl _⟩
      · obtain ⟨id, -, hrun⟩ := bind_eq_some_iff.mp hrun
        obtain ⟨rfl, -⟩ := Prod.mk.inj (some.inj hrun)
        exact ⟨hkeep, rfl, rfl, rfl⟩
    · obtain ⟨rfl, -⟩ := Prod.mk.inj (some.inj hrun)
      exact ⟨hkeep, .refl _⟩

theorem process_cell_isSome (now : sp_time) (hsrc : source ≠ d.My_Address)
    (hn : d.Is_Neighbor sender) (cell : State_Cell p) (flag : Bool) :
    (process_cell now sender source (d, flag) cell).isSome := by
  unfold process_cell
  dsimp only
  split
  · obtain ⟨d1, s1, hcell, hsame, htable, -⟩ :=
      process_state_cell_spec now hsrc cell
    rw [hcell, bind_eq_bind, bind_some]
    simp only [if_true]
    have hadd := add_to_changed_states_isSome (a := source) (b := cell.dest) now
      (hn.same hsame) (by rw [htable]; simp)
    obtain ⟨d2, hadd⟩ := isSome_iff_exists.mp hadd
    rw [hadd]
    rfl
  · split
    · split
      · rfl
      · obtain ⟨id, hid⟩ := hn.neighbor_id
        rw [hid]
        rfl
    · rfl

end Cell

/-! ## 5. Packets -/

structure Update (p : Prot_Def) where
  now : sp_time
  sender : Node_ID
  source : Node_ID
  cell : State_Cell p

section Packets

variable {p : Prot_Def} {d d' : Daemon p} {src dst : Spines_ID}

def Update.apply (d : Daemon p) (u : Update p) : Option (Daemon p) :=
  (process_cell u.now u.sender u.source (d, false) u.cell).map Prod.fst

def Received.updates (r : Received p) : List (Update p) :=
  r.parts.flatMap fun part => part.2.map fun c => ⟨r.now, r.sender, part.1, c⟩

def updates (rs : List (Received p)) : List (Update p) := rs.flatMap Received.updates

def versions (us : List (Update p)) (src dst : Spines_ID) : List (Version p) :=
  (us.filter fun u => u.source = src ∧ u.cell.dest = dst).map fun u => u.cell.version

theorem process_cell_flag (now : sp_time) (sender source : Node_ID) (d : Daemon p)
    (flag : Bool) (cell : State_Cell p) :
    (process_cell now sender source (d, flag) cell).map Prod.fst =
      Update.apply d ⟨now, sender, source, cell⟩ := by
  unfold Update.apply process_cell
  dsimp only
  split
  · cases Process_state_cell now d source cell with
    | none => rfl
    | some r =>
      simp only [bind_eq_bind, bind_some]
      split
      · cases Add_to_changed_states now sender source cell.dest r.1 with
        | none => rfl
        | some d' => rfl
      · rfl
  · split
    · split
      · rfl
      · cases d.neighbor_id sender with
        | none => rfl
        | some id => rfl
    · rfl

theorem packet_updates (d : Daemon p) (r : Received p) :
    (Process_state_packet d r).map Prod.fst = r.updates.foldlM Update.apply d := by
  have hparts : (r.parts.foldlM (fun st (part : Node_ID × List (State_Cell p)) =>
      part.2.foldlM (process_cell r.now r.sender part.1) st) (d, false)).map Prod.fst =
      r.parts.foldlM (fun d part => (part.2.map fun c =>
        (⟨r.now, r.sender, part.1, c⟩ : Update p)).foldlM Update.apply d) d := by
    apply foldlM_map_fst
    intro d flag part
    rw [foldlM_map]
    apply foldlM_map_fst
    intro d flag cell
    exact process_cell_flag r.now r.sender part.1 d flag cell
  rw [Received.updates, foldlM_flatMap, ← hparts, Process_state_packet, bind_eq_bind]
  cases r.parts.foldlM (fun st part =>
    part.2.foldlM (process_cell r.now r.sender part.1) st) (d, false) with
  | none => rfl
  | some st => rfl

theorem receive_all_eq (d : Daemon p) (rs : List (Received p)) :
    receive_all d rs = (updates rs).foldlM Update.apply d := by
  rw [updates, foldlM_flatMap, receive_all]
  congr 1
  funext d r
  exact packet_updates d r

theorem updates_stored (us : List (Update p)) (d : Daemon p)
    (hus : ∀ u ∈ us, u.source ≠ d.My_Address ∧ d.Is_Neighbor u.sender) :
    ∃ d', us.foldlM Update.apply d = some d' ∧ Same_Neighbors d d' ∧ ∀ src dst, d'.stored src dst =
        (versions us src dst).foldl (keep_newer Version.stamp) (d.stored src dst) := by
  induction us generalizing d with
  | nil => exact ⟨d, rfl, .refl d, fun _ _ => rfl⟩
  | cons u us ih =>
    obtain ⟨hsrc, hnbr⟩ := hus u mem_cons_self
    obtain ⟨⟨d1, flag⟩, hcell⟩ :=
      isSome_iff_exists.mp (process_cell_isSome u.now hsrc hnbr u.cell false)
    obtain ⟨hstored, hsame⟩ := process_cell_stored hsrc hcell
    obtain ⟨d', hrun, hsame', hstored'⟩ := ih d1 (by
      intro u' hu'
      obtain ⟨hsrc', hnbr'⟩ := hus u' (mem_cons_of_mem _ hu')
      exact ⟨hsame.address ▸ hsrc', hnbr'.same hsame⟩)
    refine ⟨d', ?_, hsame.trans hsame', ?_⟩
    · rw [foldlM_cons, Update.apply, hcell]
      exact hrun
    · intro src dst
      rw [hstored', hstored, versions, versions, filter_cons]
      by_cases hkey : src = u.source ∧ dst = u.cell.dest
      · obtain ⟨rfl, rfl⟩ := hkey
        simp
      · have hkey' : ¬(u.source = src ∧ u.cell.dest = dst) := by
          rintro ⟨rfl, rfl⟩
          exact hkey ⟨rfl, rfl⟩
        rw [if_neg hkey, if_neg (by simpa using hkey')]

def Latest (d : Daemon p) (us : List (Update p)) (src dst : Spines_ID) (v : Version p) : Prop :=
  (v ∈ d.stored src dst ∨ v ∈ versions us src dst) ∧
    ∀ v', v' ∈ d.stored src dst ∨ v' ∈ versions us src dst →
      v'.stamp ≤ v.stamp ∧ (v'.stamp = v.stamp → v' = v)

/-- Whatever the order, the packets and the neighbors are, the latest version of a key
is what is stored in the end; and no stored stamp decreases on the way. -/
theorem states_converge (d : Daemon p) (rs : List (Received p))
    (hnbr : ∀ r ∈ rs, d.Is_Neighbor r.sender)
    (hsrc : ∀ r ∈ rs, ∀ part ∈ r.parts, part.1 ≠ d.My_Address) :
    ∃ d', receive_all d rs = some d' ∧
      (∀ src dst v, Latest d (updates rs) src dst v → d'.stored src dst = some v) ∧
      (∀ src dst, versions (updates rs) src dst = [] → d'.stored src dst = d.stored src dst) ∧
      ∀ pre post, updates rs = pre ++ post →
        ∃ d₁, pre.foldlM Update.apply d = some d₁ ∧ post.foldlM Update.apply d₁ = some d' ∧
          ∀ src dst, ∀ v ∈ d₁.stored src dst, ∃ v' ∈ d'.stored src dst, v.stamp ≤ v'.stamp := by
  have hus : ∀ u ∈ updates rs, u.source ≠ d.My_Address ∧ d.Is_Neighbor u.sender := by
    intro u hu
    obtain ⟨r, hr, hu⟩ := mem_flatMap.mp hu
    obtain ⟨part, hpart, hu⟩ := mem_flatMap.mp hu
    obtain ⟨c, -, rfl⟩ := List.mem_map.mp hu
    exact ⟨hsrc r hr part hpart, hnbr r hr⟩
  obtain ⟨d', hrun, -, hstored⟩ := updates_stored (updates rs) d hus
  refine ⟨d', by rw [receive_all_eq, hrun], ?_, ?_, ?_⟩
  · rintro src dst v ⟨hv, hmax⟩
    rw [hstored]
    exact (Newest.foldl Version.stamp _ _).unique hv (fun y hy => (hmax y hy).1)
      (fun y hy => (hmax y hy).2)
  · intro src dst hnone
    rw [hstored, hnone, foldl_nil]
  · intro pre post hcut
    rw [hcut] at hrun hus
    obtain ⟨d₁, hpre, hsame, -⟩ := updates_stored pre d
      (fun u hu => hus u (mem_append_left _ hu))
    obtain ⟨d2, hpost, -, hstored'⟩ := updates_stored post d₁ (by
      intro u hu
      obtain ⟨hsrc', hnbr'⟩ := hus u (mem_append_right _ hu)
      exact ⟨hsame.address ▸ hsrc', hnbr'.same hsame⟩)
    rw [foldlM_append, hpre, bind_eq_bind, bind_some, hpost] at hrun
    obtain rfl := some.inj hrun
    refine ⟨d₁, hpre, hpost, ?_⟩
    intro src dst v hv
    obtain ⟨v', hv', hle⟩ := stamp_le_foldl Version.stamp v (versions post src dst)
    refine ⟨v', ?_, hle⟩
    rw [hstored', hv]
    exact hv'

end Packets

/-! ## 6. A stored state competes with the updates -/

section Stale

def Last_Writer_Wins {p : Prot_Def} (d : Daemon p) (rs : List (Received p)) : Prop :=
  ∃ d', receive_all d rs = some d' ∧ ∀ src dst, ∀ v ∈ versions (updates rs) src dst,
    (∀ v' ∈ versions (updates rs) src dst, v'.stamp ≤ v.stamp ∧ (v'.stamp = v.stamp → v' = v)) →
      d'.stored src dst = some v

/-- A daemon that knows one edge, from 3 to 4 with cost 10 and stamp 5, and has the
neighbor 2. -/
def one_edge : Daemon .Edge_Prot_Def where
  My_Address := 1
  All_Nodes := fun _ => true
  All_States := Table.put (fun _ => none) 3 4
    { timestamp_sec := 5, timestamp_usec := 0, my_timestamp_sec := 5, my_timestamp_usec := 0,
      value := 10, age := 0, lts := 0 }
  Link_State_Update_LTS := 0
  Changed_States := []
  queued := false
  Neighbor_Nodes := [some 2]
  leg_cost := fun n => if n = 2 then 1 else -1

def edge_packet (sec : Int) (cost : Int) : Received .Edge_Prot_Def where
  now := ⟨9, 0⟩
  sender := 2
  parts := [(3, [⟨4, sec, 0, cost, 0, 1⟩])]

theorem states_converge_swapped :
    ∃ d', receive_all one_edge [edge_packet 8 30, edge_packet 7 20] = some d' ∧
      d'.stored 3 4 = some ⟨8, 0, 30, 1⟩ := by
  obtain ⟨d', hrun, hlatest, -⟩ := states_converge one_edge
    [edge_packet 8 30, edge_packet 7 20] (by simp [Daemon.Is_Neighbor, Daemon.connected, one_edge, edge_packet])
    (by simp [one_edge, edge_packet])
  refine ⟨d', hrun, hlatest 3 4 ⟨8, 0, 30, 1⟩ ⟨.inr mem_cons_self, ?_⟩⟩
  rintro v' (hv' | hv')
  · obtain rfl : (⟨5, 0, 10, 0⟩ : Version .Edge_Prot_Def) = v' := some.inj hv'
    exact ⟨by decide, fun h => absurd h (by decide)⟩
  · have hmem : v' ∈ [(⟨8, 0, 30, 1⟩ : Version .Edge_Prot_Def), ⟨7, 0, 20, 1⟩] := hv'
    rcases mem_cons.mp hmem with rfl | hmem
    · exact ⟨le_rfl, fun _ => rfl⟩
    · obtain rfl := mem_singleton.mp hmem
      exact ⟨by decide, fun h => absurd h (by decide)⟩

/-- An update older than the stored state does not replace it. -/
theorem stored_state_wins : ¬Last_Writer_Wins one_edge [edge_packet 4 30] := by
  rintro ⟨d', hrun, hall⟩
  have hkeep : (receive_all one_edge [edge_packet 4 30]).bind (fun d => d.stored 3 4) =
      some ⟨5, 0, 10, 0⟩ := rfl
  have hlast := hall 3 4 ⟨4, 0, 30, 1⟩ mem_cons_self (by
    intro v' hv'
    have hmem : v' ∈ [(⟨4, 0, 30, 1⟩ : Version .Edge_Prot_Def)] := hv'
    obtain rfl := mem_singleton.mp hmem
    exact ⟨le_rfl, fun _ => rfl⟩)
  rw [hrun, bind_some, hlast] at hkeep
  exact absurd hkeep (by simp)

end Stale

end Spines.StateFlood
