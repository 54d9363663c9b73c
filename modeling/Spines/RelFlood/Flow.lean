/-
The flow buffer of reliable flooding (`Flow_Buffer` of `daemon/reliable_flood.h`)
and the loops of `daemon/reliable_flood.c` that work on a single buffer.

A flow is an ordered pair (source, destination). A daemon that is not the
destination keeps the messages `sow, …, head_seq - 1` of the flow in a ring of
`MAX_MESS_PER_FLOW` slots; toward every neighbour `k` it remembers, for each
slot, whether the message went out already, and in `next_seq[k]` the first
message that did not. Each loop has one definition here, and the handlers of
`Daemon.lean` call it where the source repeats it.

An array is a function on `ℕ`. Counters are 64 bits wide in the source; they
are natural numbers here, and every operation that can leave the range of
`int64u` reduces its result explicitly.
-/
import Spines.Lib.Ring
import Mathlib.Data.Nat.Bitwise

set_option autoImplicit false

namespace Spines.RelFlood

open Spines.Lib Function

/-! ## Constants, machine integers, tables -/

def MAX_NODES : ℕ := 50

def MAX_MESS_PER_FLOW : ℕ := 1000

def ULLONG_MAX : ℕ := 2 ^ 64 - 1

/-- The value an `int64u` holds after `n` was assigned to it. -/
@[irreducible] def int64u (n : ℕ) : ℕ := n % 2 ^ 64

/-- `n - 1` on an `int64u`. -/
@[irreducible] def int64u_pred (n : ℕ) : ℕ := (n + ULLONG_MAX) % 2 ^ 64

/-- An `int64u` that went through an `int` variable, as a later comparison with
an `int64u` sees it: the low 32 bits, sign-extended. -/
@[irreducible] def int64u_of_int (n : ℕ) : ℕ :=
  if n % 2 ^ 32 < 2 ^ 31 then n % 2 ^ 32 else n % 2 ^ 32 + (2 ^ 64 - 2 ^ 32)

theorem int64u_pred_lt (n : ℕ) : int64u_pred n < 2 ^ 64 := by
  unfold int64u_pred
  exact Nat.mod_lt _ (by decide)

def set2 {α : Type*} (t : ℕ → ℕ → α) (i j : ℕ) (x : α) : ℕ → ℕ → α :=
  fun a b => if a = i ∧ b = j then x else t a b

@[simp] theorem set2_self {α : Type*} (t : ℕ → ℕ → α) (i j : ℕ) (x : α) : set2 t i j x i j = x := by
  simp [set2]

theorem set2_of_ne {α : Type*} (t : ℕ → ℕ → α) {i j a b : ℕ} (x : α) (h : ¬ (a = i ∧ b = j)) :
    set2 t i j x a b = t a b := by
  rw [set2, if_neg h]

/-! ## Configuration -/

/-- The entries of `Conf_Rel` and of the topology that reliable flooding reads.
The neighbours of this daemon are numbered `1, …, degree`. -/
structure Conf where
  my_id : ℕ
  degree : ℕ
  /-- `Neighbor_IDs[My_ID][k]`. -/
  neighbor_ids : ℕ → ℕ
  /-- `MP_Neighbor_Mask[k]`. -/
  mp_neighbor_mask : ℕ → ℕ
  hbh_advance : Bool
  hbh_opt : Bool
  e2e_opt : Bool
  crypto : Bool
  e2e_ack_timeout : ℕ

/-- `k` is the index of a neighbour. -/
def Conf.nbr (cf : Conf) (k : ℕ) : Prop := 1 ≤ k ∧ k ≤ cf.degree

instance (cf : Conf) (k : ℕ) : Decidable (cf.nbr k) := inferInstanceAs (Decidable (_ ∧ _))

/-- The loop `for (k = 1; k <= Degree[My_ID]; k++) a[k] = f(k)`, whose rounds do
not depend on each other. -/
def Conf.each {α : Type*} (cf : Conf) (f a : ℕ → α) : ℕ → α :=
  fun k => if cf.nbr k then f k else a k

theorem Conf.each_nbr {α : Type*} {cf : Conf} {k : ℕ} (f a : ℕ → α) (h : cf.nbr k) :
    cf.each f a k = f k := by
  rw [Conf.each, if_pos h]

theorem Conf.each_other {α : Type*} {cf : Conf} {k : ℕ} (f a : ℕ → α) (h : ¬ cf.nbr k) :
    cf.each f a k = a k := by
  rw [Conf.each, if_neg h]

/-! ## Bit masks of links (`daemon/multipath.c`)

A mask is an array of 64-bit words in the source and one natural number here;
all four functions work bit by bit. -/

def multipath_neighbor_on_path (cf : Conf) (mask k : ℕ) : Bool :=
  (mask &&& cf.mp_neighbor_mask k) ≠ 0

/-- `MultiPath_Is_Superset`: the new mask has every bit of the old one, and more. -/
def multipath_is_superset (old_mask new_mask : ℕ) : Bool :=
  let tmp1 := old_mask ^^^ new_mask
  let tmp2 := old_mask &&& tmp1
  tmp1 ≠ 0 ∧ tmp2 = 0

/-- `MultiPath_Create_Superset`: what `old_mask` holds afterwards. -/
def multipath_create_superset (old_mask new_mask : ℕ) : ℕ := old_mask ||| new_mask

def multipath_is_equal (old_mask new_mask : ℕ) : Bool := old_mask = new_mask

/-! ## Messages and buffers -/

inductive Status
  | empty
  | new_unsent
  | new_sent
  | restamped_unsent
  | restamped_sent
  deriving DecidableEq, Repr

/-- `NEW_SENT` or `RESTAMPED_SENT`: the loops pass over the message. -/
def Status.sent : Status → Bool
  | new_sent => true
  | restamped_sent => true
  | _ => false

/-- `NEW_UNSENT` or `RESTAMPED_UNSENT`. -/
def Status.unsent : Status → Bool
  | new_unsent => true
  | restamped_unsent => true
  | _ => false

/-- A stored data message sent to the neighbour: the status afterwards
(`Reliable_Flood_Send_Data` and the duplicate branch of `Process_Data`). -/
def Status.mark_sent : Status → Status
  | new_unsent => new_sent
  | restamped_unsent => restamped_sent
  | st => st

/-- What `Reliable_Flood_Neighbor_Transfer` makes of a status. -/
def Status.mark_unsent : Status → Status
  | new_sent => new_unsent
  | restamped_sent => restamped_unsent
  | st => st

/-- A `REL_FLOOD_DATA` message: the fields of `rel_flood_header`, the routing
mask that follows it, and the client's data. -/
structure Msg where
  src : ℕ
  dest : ℕ
  src_epoch : ℕ
  seq_num : ℕ
  mask : ℕ
  body : List UInt8
  deriving DecidableEq, Repr

/-- `Flow_Buffer`. Slots are indexed by `seq % MAX_MESS_PER_FLOW`, neighbours by
their number; `none` is the `NULL` pointer. -/
structure FlowBuffer where
  msg : ℕ → Option Msg
  status : ℕ → ℕ → Status
  num_paths : ℕ → ℕ
  sow : ℕ
  next_seq : ℕ → ℕ
  head_seq : ℕ
  src_epoch : ℕ

def FlowBuffer.init : FlowBuffer where
  msg := fun _ => none
  status := fun _ _ => .empty
  num_paths := fun _ => 0
  sow := 1
  next_seq := fun _ => 1
  head_seq := 1
  src_epoch := 0

def slot (q : ℕ) : ℕ := q % MAX_MESS_PER_FLOW

/-- The neighbour is on the path of the message at `next_seq[k]`. The handlers
ask only when `next_seq[k] < head_seq`, where the slot is never `NULL`
(`FlowInv.stored`). -/
def FlowBuffer.next_on_path (cf : Conf) (fb : FlowBuffer) (k : ℕ) : Bool :=
  match fb.msg (slot (fb.next_seq k)) with
  | some m => multipath_neighbor_on_path cf m.mask k
  | none => false

/-! ## The loops of the handlers -/

/-- `while (n < head && status[n] is SENT) n++`, with `fuel` rounds to go. -/
def skip_loop (status : ℕ → ℕ → Status) (head k : ℕ) : ℕ → ℕ → ℕ
  | 0, n => n
  | fuel + 1, n =>
    if n < head ∧ (status (slot n) k).sent then skip_loop status head k fuel (n + 1) else n

/-- Where `next_seq[k]` comes to rest when it starts at `n`. -/
def FlowBuffer.skip_sent (fb : FlowBuffer) (k n : ℕ) : ℕ :=
  skip_loop fb.status fb.head_seq k (fb.head_seq - n) n

/-- Free one slot: `msg`, the status toward every neighbour, `num_paths`. -/
def FlowBuffer.clear_slot (cf : Conf) (fb : FlowBuffer) (idx : ℕ) : FlowBuffer :=
  { fb with
    msg := update fb.msg idx none
    status := fun i k => if i = idx ∧ cf.nbr k then .empty else fb.status i k
    num_paths := update fb.num_paths idx 0 }

/-- `cnt` rounds of the loop that frees the slot of `sow` and increments `sow`.
Three of its four copies look whether the slot is `NULL` first (`guarded`); the
one in `Reliable_Flood_Process_Data` does not. -/
def advance_loop (cf : Conf) (guarded : Bool) : ℕ → FlowBuffer → FlowBuffer
  | 0, fb => fb
  | cnt + 1, fb =>
    let idx := slot fb.sow
    let fb := if guarded && (fb.msg idx).isNone then fb else fb.clear_slot cf idx
    advance_loop cf guarded cnt { fb with sow := fb.sow + 1 }

/-- `while (sow <= min) { …; sow++ }`. For `min = ULLONG_MAX` the loop of the
source does not end; every caller excludes that. -/
def FlowBuffer.advance_sow (cf : Conf) (guarded : Bool) (fb : FlowBuffer) (min : ℕ) : FlowBuffer :=
  advance_loop cf guarded (min + 1 - fb.sow) fb

/-- Move every `next_seq` that fell behind `sow` up to it, and over what was sent. -/
def FlowBuffer.raise_next (cf : Conf) (fb : FlowBuffer) : FlowBuffer :=
  { fb with
    next_seq := cf.each (fun k => fb.skip_sent k (max (fb.next_seq k) fb.sow)) fb.next_seq }

/-- One round of the loop that looks for the smallest of the neighbours' arus and,
without `HBH_Opt`, of `next_seq[j] - 1`. `conv` is what an assignment to the
variable `min` does to the value: nothing where `min` is an `int64u`,
`int64u_of_int` in `Reliable_Flood_Send_Data`, where it is an `int`. -/
def hbh_min_step (conv : ℕ → ℕ) (cf : Conf) (fb : FlowBuffer) (aru : ℕ → ℕ) (min j : ℕ) : ℕ :=
  let min := if aru j < min then conv (aru j) else min
  if cf.hbh_opt = false ∧ int64u_pred (fb.next_seq j) < min then
    conv (int64u_pred (fb.next_seq j))
  else min

/-- What every neighbour acknowledged hop by hop, `head_seq - 1` at most. -/
def hbh_min (conv : ℕ → ℕ) (cf : Conf) (fb : FlowBuffer) (aru : ℕ → ℕ) : ℕ :=
  (List.range' 1 cf.degree).foldl (hbh_min_step conv cf fb aru) (conv (int64u_pred fb.head_seq))

def FlowBuffer.hbh_move_up (cf : Conf) (conv : ℕ → ℕ) (guarded : Bool) (aru : ℕ → ℕ)
    (fb : FlowBuffer) : FlowBuffer :=
  (fb.advance_sow cf guarded (hbh_min conv cf fb aru)).raise_next cf

/-! ## Data messages -/

/-- The status toward neighbour `k` of a message just stored. With `HBH_Opt` it
counts as sent toward the last hop and toward the source of the flow. -/
def data_status (cf : Conf) (last_hop_index src_id : ℕ) (restamped : Bool) (k : ℕ) : Status :=
  if cf.hbh_opt ∧ (k = last_hop_index ∨ cf.neighbor_ids k = src_id) then
    if restamped then .restamped_sent else .new_sent
  else
    if restamped then .restamped_unsent else .new_unsent

/-- `Reliable_Flood_Process_Data` on a flow to another daemon: the message goes
into its slot, is marked toward every neighbour, and `next_seq` passes over it
where it counts as sent. -/
def FlowBuffer.store_data (cf : Conf) (last_hop_index : ℕ) (m : Msg) (restamped : Bool)
    (num_paths_snapshot : ℕ) (fb : FlowBuffer) : FlowBuffer :=
  let idx := slot m.seq_num
  let fb := { fb with
    msg := update fb.msg idx (some m)
    status := fun i k =>
      if i = idx ∧ cf.nbr k then data_status cf last_hop_index m.src restamped k
      else fb.status i k }
  let fb := { fb with
    next_seq := cf.each (fun k => fb.skip_sent k (fb.next_seq k)) fb.next_seq }
  if last_hop_index = 0 ∧ restamped = false then
    { fb with num_paths := update fb.num_paths idx num_paths_snapshot }
  else fb

/-- After a restamped copy of `seq` was stored: fall back to it, then over what
was sent. -/
def FlowBuffer.rewind_next (cf : Conf) (seq : ℕ) (fb : FlowBuffer) : FlowBuffer :=
  { fb with
    next_seq := cf.each (fun k => fb.skip_sent k (min (fb.next_seq k) seq)) fb.next_seq }

/-- Mark the message in slot `idx` as sent to neighbour `k`, and move
`next_seq[k]` over what was sent. -/
def FlowBuffer.mark_sent (k idx : ℕ) (fb : FlowBuffer) : FlowBuffer :=
  let fb := { fb with status := set2 fb.status idx k (fb.status idx k).mark_sent }
  { fb with next_seq := update fb.next_seq k (fb.skip_sent k (fb.next_seq k)) }

/-- The loop of `Reliable_Flood_Process_Acks` that moves `next_seq[k]` over what
was sent and over new messages the neighbour says it has. -/
def ack_loop (k aru : ℕ) : ℕ → FlowBuffer → FlowBuffer
  | 0, fb => fb
  | fuel + 1, fb =>
    let n := fb.next_seq k
    let st := fb.status (slot n) k
    if n < fb.head_seq ∧ (st.sent ∨ st = .new_unsent ∧ n ≤ aru) then
      let status := if st = .new_unsent then set2 fb.status (slot n) k .new_sent else fb.status
      ack_loop k aru fuel
        { fb with status := status, next_seq := update fb.next_seq k (n + 1) }
    else fb

/-- `Reliable_Flood_Neighbor_Transfer` on one buffer: everything in the window is
to be sent to neighbour `k` again. -/
def FlowBuffer.unsend (k : ℕ) (fb : FlowBuffer) : FlowBuffer :=
  { fb with
    status := unsend_loop fb.sow (fb.head_seq - fb.sow) fb.status
    next_seq := update fb.next_seq k fb.sow }
where
  /-- `for (i = lo; i < lo + cnt; i++)` over the statuses toward `k`. -/
  unsend_loop : ℕ → ℕ → (ℕ → ℕ → Status) → ℕ → ℕ → Status
    | _, 0, status => status
    | lo, cnt + 1, status =>
      unsend_loop (lo + 1) cnt (set2 status (slot lo) k (status (slot lo) k).mark_unsent)

/-! ## End-to-end acknowledgements -/

/-- `e2e_cell`. -/
structure Cell where
  dest_epoch : ℕ
  src_epoch : ℕ
  aru : ℕ
  aru_lt : aru < 2 ^ 64 := by decide
  deriving DecidableEq

theorem zero_lt_word : 0 < 2 ^ 64 := by decide

/-- The order in which `Reliable_Flood_Process_E2E` compares cells. -/
def Cell.older (a b : Cell) : Prop :=
  a.dest_epoch < b.dest_epoch ∨
    a.dest_epoch = b.dest_epoch ∧
      (a.src_epoch < b.src_epoch ∨ a.src_epoch = b.src_epoch ∧ a.aru < b.aru)

instance (a b : Cell) : Decidable (a.older b) := inferInstanceAs (Decidable (_ ∨ _))

/-- `rel_flood_e2e_ack`. -/
structure E2eAck where
  dest : ℕ
  cell : ℕ → Cell

/-- Free the slots of `lo, …, lo + cnt - 1`, without a look at what they hold. -/
def clear_range (cf : Conf) : ℕ → ℕ → FlowBuffer → FlowBuffer
  | _, 0, fb => fb
  | lo, cnt + 1, fb => clear_range cf (lo + 1) cnt (fb.clear_slot cf (slot lo))

/-- The window restarts, empty, after the aru of the cell. The loop over sent
messages that follows in the source has nothing to do, because `next_seq` is
`head_seq` already. -/
def FlowBuffer.e2e_reset (cf : Conf) (c : Cell) (fb : FlowBuffer) : FlowBuffer :=
  { fb with
    sow := int64u (c.aru + 1)
    head_seq := int64u (c.aru + 1)
    next_seq := cf.each (fun _ => int64u (c.aru + 1)) fb.next_seq
    src_epoch := c.src_epoch }

def FlowBuffer.e2e_advance (cf : Conf) (aru : ℕ) (fb : FlowBuffer) : FlowBuffer :=
  let fb := fb.advance_sow cf true aru
  let fb := { fb with head_seq := max fb.head_seq fb.sow }
  fb.raise_next cf

/-- One cell of `Reliable_Flood_Process_E2E` on the buffer of its flow. The
branch for a new epoch of the source does not free the slots. -/
def FlowBuffer.e2e_cell (cf : Conf) (new old : Cell) (fb : FlowBuffer) : FlowBuffer :=
  if old.dest_epoch < new.dest_epoch then
    (clear_range cf fb.sow (fb.head_seq - fb.sow) fb).e2e_reset cf new
  else if old.src_epoch < new.src_epoch then
    fb.e2e_reset cf new
  else if old.aru < new.aru then
    fb.e2e_advance cf new.aru
  else fb

/-! ## Restamping -/

/-- What `Reliable_Flood_Restamp` finds in its surroundings, for one flow. -/
structure StampEnv where
  /-- `MultiPath_Stamp_Bitmask(dest, num_paths)`, `none` when it returns `0`. -/
  stamp : ℕ → Option ℕ
  /-- Whether the signature over message `seq` succeeds. -/
  sign_ok : ℕ → Bool

/-- The loop over the unacknowledged messages of a flow: the buffer, whether a
mask changed (`restamp_flow_flag`) and whether the loop gave up (`error`). The
mask is written before the message is signed again, so a failing signature
leaves the new mask and the old status. A slot inside the window is never `NULL`
(`FlowInv.stored`), so the last case is the failing `MultiPath_Stamp_Bitmask`. -/
def restamp_loop (cf : Conf) (env : StampEnv) : ℕ → ℕ → FlowBuffer → Bool →
    FlowBuffer × Bool × Bool
  | 0, _, fb, flag => (fb, flag, false)
  | cnt + 1, j, fb, flag =>
    let idx := slot j
    match env.stamp (fb.num_paths idx), fb.msg idx with
    | some stamp, some m =>
      let temp_bitmask := multipath_create_superset stamp m.mask
      if multipath_is_equal m.mask temp_bitmask then
        restamp_loop cf env cnt (j + 1) fb flag
      else
        let fb := { fb with
          msg := update fb.msg idx (some { m with mask := temp_bitmask }) }
        if cf.crypto ∧ ¬ env.sign_ok j then (fb, true, true)
        else
          let fb := { fb with
            status := fun i k => if i = idx ∧ cf.nbr k then .restamped_unsent else fb.status i k }
          restamp_loop cf env cnt (j + 1) fb true
    | _, _ => (fb, flag, true)

/-- The mask of message `q` is to be extended. -/
def restamp_changes (env : StampEnv) (fb : FlowBuffer) (q : ℕ) : Bool :=
  match env.stamp (fb.num_paths (slot q)), fb.msg (slot q) with
  | some stamp, some m => !multipath_is_equal m.mask (multipath_create_superset stamp m.mask)
  | _, _ => false

/-- The loop gives up at message `q`, if it gets there. -/
def restamp_fails (cf : Conf) (env : StampEnv) (fb : FlowBuffer) (q : ℕ) : Bool :=
  match env.stamp (fb.num_paths (slot q)) with
  | some _ => restamp_changes env fb q && cf.crypto && !env.sign_ok q
  | none => true

def restamp_msg (env : StampEnv) (fb : FlowBuffer) (q : ℕ) : Option Msg :=
  match env.stamp (fb.num_paths (slot q)), fb.msg (slot q) with
  | some stamp, some m => some { m with mask := multipath_create_superset stamp m.mask }
  | _, o => o

end Spines.RelFlood
