/-
`daemon/state_flood.c`: state packets as bytes.

A packet is a sequence of parts; a part is a header with a source and a number of
cells, and the cells. The sizes come from two notions: the writer goes on by
`sizeof(State_Packet)` and `sizeof(State_Cell)` and by what the protocol says it has
added, the reader by the sizes of the protocol's own structs. A writer appends cells
at `pack_bytes` and counts them in the header at `pkt`; what the protocol does not
set keeps what the buffer held before.

`Buffer.parts` is what the bytes of a buffer stand for (`Holds`).
-/
import Spines.StateFlood.States
import Spines.Lib.Bytes

set_option autoImplicit false

namespace Spines.StateFlood

open Spines.Lib List

/-! ## 1. Sizes -/

def MAX_PACKET_SIZE : ℕ := 1472
def sizeof_packet_header : ℕ := 20
def sizeof_packet_body : ℕ := MAX_PACKET_SIZE - sizeof_packet_header
def sizeof_reliable_tail : ℕ := 8
def sizeof_State_Packet : ℕ := 8
def sizeof_State_Cell : ℕ := 16

/-- `sizeof(link_state_packet)` and `sizeof(group_state_packet)`. -/
def State_header_size : Prot_Def → ℕ
  | .Edge_Prot_Def => 8
  | .Groups_Prot_Def => 8

/-- `sizeof(edge_cell_packet)`, with its padding, and `sizeof(group_cell_packet)`. -/
def Cell_packet_size : Prot_Def → ℕ
  | .Edge_Prot_Def => 20
  | .Groups_Prot_Def => 16

def Set_state_header : Prot_Def → ℕ
  | .Edge_Prot_Def => 0
  | .Groups_Prot_Def => 0

def Set_state_cell (p : Prot_Def) (e : Endian) (m : Mem) (pos : ℕ) (lts : p.Lts) : Mem × ℕ :=
  match p, lts with
  | .Edge_Prot_Def, lts => (m.store e pos 2 lts.toNat, Cell_packet_size .Edge_Prot_Def - sizeof_State_Cell)
  | .Groups_Prot_Def, _ => (m, 0)

def packet_limit : ℕ := sizeof_packet_body - sizeof_reliable_tail

def int16 (x : Int) : Int := Int.bmod x (2 ^ 16)

def State_Data.cell {p : Prot_Def} (s_data : State_Data p) (now : sp_time) (dest : Spines_ID) :
    State_Cell p :=
  { dest := dest
    timestamp_sec := s_data.timestamp_sec
    timestamp_usec := s_data.timestamp_usec
    value := s_data.value
    age := int16 (s_data.age + (now.sec - s_data.my_timestamp_sec).tdiv 10)
    lts := s_data.lts }

/-! ## 2. Writing -/

abbrev Parts (p : Prot_Def) := List (Node_ID × List (State_Cell p))

structure Packet (p : Prot_Def) where
  buff : Mem
  len : ℕ
  parts : Parts p

structure Buffer (p : Prot_Def) where
  buff : Mem
  pack_bytes : ℕ
  pkt : ℕ
  parts : Parts p
  sent : List (Packet p)

section Writing

variable {p : Prot_Def}

def append_last : Parts p → State_Cell p → Parts p
  | [], _ => []
  | [part], c => [(part.1, part.2 ++ [c])]
  | part :: parts, c => part :: append_last parts c

/-- `new_ref_cnt` gives buffers with arbitrary contents. -/
def Buffer.first (new_ref_cnt : ℕ → Mem) : Buffer p :=
  { buff := new_ref_cnt 0, pack_bytes := 0, pkt := 0, parts := [], sent := [] }

def Buffer.send_packet (new_ref_cnt : ℕ → Mem) (b : Buffer p) : Buffer p :=
  { buff := new_ref_cnt (b.sent.length + 1)
    pack_bytes := 0
    pkt := 0
    parts := []
    sent := b.sent ++ [{ buff := b.buff, len := b.pack_bytes, parts := b.parts }] }

def Buffer.put_header (e : Endian) (b : Buffer p) (source : Node_ID) (num_cells : ℕ) : Buffer p :=
  { b with
    pkt := b.pack_bytes
    buff := (b.buff.store e b.pack_bytes 4 source).store e (b.pack_bytes + 4) 2 num_cells
    pack_bytes := b.pack_bytes + sizeof_State_Packet + Set_state_header p
    parts := b.parts ++ [(source, [])] }

def write_fields (e : Endian) (m : Mem) (pos : ℕ) (c : State_Cell p) : Mem :=
  ((((m.store e pos 4 c.dest).store e (pos + 4) 4 (to_word 4 c.timestamp_sec)).store e (pos + 8) 4
    (to_word 4 c.timestamp_usec)).store e (pos + 14) 2 (to_word 2 c.age)).store e (pos + 12) 2
    (to_word 2 c.value)

def Buffer.write_cell (e : Endian) (b : Buffer p) (c : State_Cell p) : Buffer p :=
  let pos := b.pack_bytes + sizeof_State_Cell
  let (m, added) := Set_state_cell p e (write_fields e b.buff b.pack_bytes c) pos c.lts
  { b with buff := m, pack_bytes := pos + added, parts := append_last b.parts c }

def Buffer.put_part (e : Endian) (b : Buffer p) (source : Node_ID) (c : State_Cell p) : Buffer p :=
  (b.put_header e source 1).write_cell e c

/-- `++pkt->num_cells`, and one more cell. -/
def Buffer.put_cell (e : Endian) (b : Buffer p) (c : State_Cell p) : Buffer p :=
  Buffer.write_cell e { b with
    buff := b.buff.store e (b.pkt + 4) 2 ((b.buff.load e (b.pkt + 4) 2 + 1) % 2 ^ 16) } c

def Buffer.full_for_part (b : Buffer p) : Bool :=
  b.pack_bytes > packet_limit - State_header_size p - Cell_packet_size p

def Buffer.full_for_cell (b : Buffer p) : Bool :=
  b.pack_bytes > packet_limit - Cell_packet_size p

abbrev Chain (p : Prot_Def) := Node_ID × List (Spines_ID × State_Data p)

def put_next_state (new_ref_cnt : ℕ → Mem) (e : Endian) (now : sp_time) (source : Node_ID)
    (b : Buffer p) (s : Spines_ID × State_Data p) : Buffer p :=
  let b := if b.full_for_cell then (b.send_packet new_ref_cnt).put_header e source 0 else b
  b.put_cell e (s.2.cell now s.1)

def put_chain (new_ref_cnt : ℕ → Mem) (e : Endian) (now : sp_time) (b : Buffer p)
    (s_chain : Chain p) : Buffer p :=
  match s_chain.2 with
  | [] => b
  | s :: states =>
    let b := if b.full_for_part then b.send_packet new_ref_cnt else b
    let b := b.put_part e s_chain.1 (s.2.cell now s.1)
    states.foldl (put_next_state new_ref_cnt e now s_chain.1) b

/-- The packets that `Net_Send_State_All` sends for a table, given as its hashes
enumerate it. -/
def Net_Send_State_All (new_ref_cnt : ℕ → Mem) (e : Endian) (now : sp_time)
    (states : List (Chain p)) : List (Packet p) :=
  let b := states.foldl (put_chain new_ref_cnt e now) (Buffer.first new_ref_cnt)
  if b.pack_bytes ≠ 0 then (b.send_packet new_ref_cnt).sent else b.sent

end Writing

/-! ## 3. Reading -/

section Reading

variable {p : Prot_Def}

/-- A field as a daemon of byte order `e` reads it; the type of the packet tells
whether the sender has the same one. -/
def read_field (e : Endian) (same_endian : Bool) (m : Mem) (pos w : ℕ) : ℕ :=
  if same_endian then m.load e pos w else flip_word w (m.load e pos w)

def read_lts (p : Prot_Def) (field : ℕ → ℕ → ℕ) (pos : ℕ) : p.Lts :=
  match p with
  | .Edge_Prot_Def => BitVec.ofNat 16 (field pos 2)
  | .Groups_Prot_Def => ()

def read_cell (field : ℕ → ℕ → ℕ) (pos : ℕ) : State_Cell p :=
  { dest := field pos 4
    timestamp_sec := of_word 4 (field (pos + 4) 4)
    timestamp_usec := of_word 4 (field (pos + 8) 4)
    value := of_word 2 (field (pos + 12) 2)
    age := of_word 2 (field (pos + 14) 2)
    lts := read_lts p field (pos + 16) }

def read_cells (field : ℕ → ℕ → ℕ) : ℕ → ℕ → List (State_Cell p)
  | _, 0 => []
  | pos, n + 1 => read_cell field pos :: read_cells field (pos + Cell_packet_size p) n

/-- The loop of `Process_state_packet` over the bytes of a packet: its parts, and
`processed_bytes` at the end. Every round goes on by a header at least, so that
`data_len` rounds are enough. -/
def parse_loop (field : ℕ → ℕ → ℕ) (data_len : ℕ) : ℕ → ℕ → Option (Parts p × ℕ)
  | 0, _ => none
  | fuel + 1, processed_bytes =>
    if processed_bytes < data_len then
      let source := field processed_bytes 4
      let num_cells := field (processed_bytes + 4) 2
      let pos := processed_bytes + State_header_size p
      (parse_loop field data_len fuel (pos + num_cells * Cell_packet_size p)).map fun r =>
        ((source, read_cells field pos num_cells) :: r.1, r.2)
    else some ([], processed_bytes)

/-- The loop from the beginning, for the definition `p`. A packet of the other byte order is sent
through it only where the type has a definition (`p_def`). -/
def parse (e : Endian) (same_endian : Bool) (m : Mem) (data_len : ℕ) : Option (Parts p × ℕ) :=
  parse_loop (read_field e same_endian m) data_len (data_len + 1) 0

end Reading

/-! ## 4. What the bytes of a packet stand for -/

structure State_Cell.Typed {p : Prot_Def} (c : State_Cell p) : Prop where
  dest : c.dest < 2 ^ 32
  timestamp_sec : -2 ^ 31 ≤ c.timestamp_sec ∧ c.timestamp_sec < 2 ^ 31
  timestamp_usec : -2 ^ 31 ≤ c.timestamp_usec ∧ c.timestamp_usec < 2 ^ 31
  value : -2 ^ 15 ≤ c.value ∧ c.value < 2 ^ 15
  age : -2 ^ 15 ≤ c.age ∧ c.age < 2 ^ 15

section Holds

variable {p : Prot_Def} {e e' : Endian} {m m' : Mem} {pos n : ℕ} {c : State_Cell p}
  {cs : List (State_Cell p)} {parts parts' : Parts p} {source : Node_ID}

def size (parts : Parts p) : ℕ :=
  (parts.map fun part => State_header_size p + part.2.length * Cell_packet_size p).sum

/-- The bytes from `pos` on are those of `parts`. -/
def Holds (e : Endian) (m : Mem) : ℕ → Parts p → Prop
  | _, [] => True
  | pos, part :: parts =>
    m.load e pos 4 = part.1 ∧ m.load e (pos + 4) 2 = part.2.length ∧
      read_cells (m.load e) (pos + State_header_size p) part.2.length = part.2 ∧
      Holds e m (pos + State_header_size p + part.2.length * Cell_packet_size p) parts

@[simp] theorem size_nil : size ([] : Parts p) = 0 := rfl

theorem size_cons (part : Node_ID × List (State_Cell p)) : size (part :: parts) =
    State_header_size p + part.2.length * Cell_packet_size p + size parts := rfl

theorem size_append : size (parts ++ parts') = size parts + size parts' := by
  simp [size]

theorem read_field_eq : read_field e' (e' = e) m = m.load e := by
  funext pos w
  unfold read_field
  by_cases h : e' = e
  · simp [h]
  · simp [h, Mem.flip_load h]

theorem header_size_pos : 0 < State_header_size p := by
  cases p <;> decide

theorem read_cell_congr (h : ∀ i, pos ≤ i → i < pos + Cell_packet_size p → m i = m' i) :
    (read_cell (m.load e) pos : State_Cell p) = read_cell (m'.load e) pos := by
  have hfield : ∀ q w, q + w ≤ 16 → m.load e (pos + q) w = m'.load e (pos + q) w := by
    intro q w hq
    apply Mem.load_congr
    intro i hlo hhi
    refine h i (by omega) (lt_of_lt_of_le hhi ?_)
    cases p <;> simp [Cell_packet_size] <;> omega
  have hlts : read_lts p (m.load e) (pos + 16) = read_lts p (m'.load e) (pos + 16) := by
    cases p with
    | Edge_Prot_Def =>
      apply congrArg (BitVec.ofNat 16)
      apply Mem.load_congr
      intro i hlo hhi
      exact h i (by omega) (by simp only [Cell_packet_size]; omega)
    | Groups_Prot_Def => rfl
  have hdest := hfield 0 4 (by omega)
  rw [add_zero] at hdest
  unfold read_cell
  rw [hdest, hfield 4 4 (by omega), hfield 8 4 (by omega), hfield 12 2 (by omega),
    hfield 14 2 (by omega), hlts]

theorem read_cells_congr (h : ∀ i, pos ≤ i → i < pos + n * Cell_packet_size p → m i = m' i) :
    (read_cells (m.load e) pos n : List (State_Cell p)) = read_cells (m'.load e) pos n := by
  induction n generalizing pos with
  | zero => rfl
  | succ n ih =>
    rw [Nat.succ_mul] at h
    rw [read_cells, read_cells, read_cell_congr fun i hlo hhi => h i hlo (by omega),
      ih fun i hlo hhi => h i (by omega) (by omega)]

theorem read_cells_succ (field : ℕ → ℕ → ℕ) (pos n : ℕ) :
    (read_cells field pos (n + 1) : List (State_Cell p)) =
      read_cells field pos n ++ [read_cell field (pos + n * Cell_packet_size p)] := by
  induction n generalizing pos with
  | zero => simp [read_cells]
  | succ n ih =>
    rw [read_cells, ih, read_cells, cons_append, Nat.succ_mul, Nat.add_right_comm,
      add_assoc]

theorem Holds.congr (h : Holds e m pos parts)
    (hm : ∀ i, pos ≤ i → i < pos + size parts → m i = m' i) : Holds e m' pos parts := by
  induction parts generalizing pos with
  | nil => trivial
  | cons part parts ih =>
    obtain ⟨hsource, hnum, hcells, hrest⟩ := h
    rw [size_cons] at hm
    have hhead : 8 ≤ State_header_size p := by cases p <;> decide
    refine ⟨?_, ?_, ?_, ih hrest fun i hlo hhi => hm i (by omega) (by omega)⟩
    · rw [← hsource]
      exact (Mem.load_congr fun i hlo hhi => hm i (by omega) (by omega)).symm
    · rw [← hnum]
      exact (Mem.load_congr fun i hlo hhi => hm i (by omega) (by omega)).symm
    · exact (read_cells_congr fun i hlo hhi => hm i (by omega) (by omega)).symm.trans hcells

theorem Holds.append : Holds e m pos (parts ++ parts') ↔
    Holds e m pos parts ∧ Holds e m (pos + size parts) parts' := by
  induction parts generalizing pos with
  | nil => simp [Holds]
  | cons part parts ih =>
    rw [cons_append, Holds, Holds, ih, size_cons]
    simp only [and_assoc, add_assoc]

theorem parse_loop_holds {data_len fuel : ℕ} (h : Holds e m pos parts)
    (hlen : pos + size parts = data_len) (hfuel : parts.length < fuel) :
    parse_loop (m.load e) data_len fuel pos = some (parts, data_len) := by
  induction parts generalizing pos fuel with
  | nil =>
    obtain ⟨fuel, rfl⟩ := Nat.exists_eq_succ_of_ne_zero (ne_of_gt hfuel)
    rw [size_nil, add_zero] at hlen
    rw [parse_loop, if_neg (by omega), hlen]
  | cons part parts ih =>
    obtain ⟨fuel, rfl⟩ := Nat.exists_eq_succ_of_ne_zero (ne_of_gt (Nat.zero_lt_of_lt hfuel))
    obtain ⟨hsource, hnum, hcells, hrest⟩ := h
    have hpos := header_size_pos (p := p)
    rw [size_cons] at hlen
    rw [parse_loop, if_pos (by omega)]
    dsimp only
    rw [hsource, hnum, hcells, ih hrest (by omega) (by rw [length_cons] at hfuel; omega)]
    rfl

theorem length_le_size (parts : Parts p) : parts.length ≤ size parts := by
  induction parts with
  | nil => simp
  | cons part parts ih =>
    have hpos := header_size_pos (p := p)
    rw [length_cons, size_cons]
    omega

theorem parse_holds (h : Holds e m 0 parts) :
    parse e' (e' = e) m (size parts) = some (parts, size parts) := by
  rw [parse, read_field_eq]
  exact parse_loop_holds h (zero_add _) (Nat.lt_succ_of_le (length_le_size parts))

end Holds

/-! ## 5. The writers keep it true -/

section Writers

variable {p : Prot_Def} {e : Endian} {m : Mem} {pos : ℕ} {c : State_Cell p}
  {cs : List (State_Cell p)} {parts init : Parts p} {source : Node_ID} {b : Buffer p}
  {refs : ℕ → Mem} {now : sp_time}

/-- The memory after a whole cell has been written at `pos`. -/
def written (e : Endian) (m : Mem) (pos : ℕ) (c : State_Cell p) : Mem :=
  (Set_state_cell p e (write_fields e m pos c) (pos + sizeof_State_Cell) c.lts).1

theorem write_cell_eq (b : Buffer p) (c : State_Cell p) : b.write_cell e c =
    { b with
      buff := written e b.buff b.pack_bytes c
      pack_bytes := b.pack_bytes + Cell_packet_size p
      parts := append_last b.parts c } := by
  cases p <;> rfl

theorem written_other {i : ℕ} (h : i < pos ∨ pos + Cell_packet_size p ≤ i) :
    written e m pos c i = m i := by
  have hfields : i < pos ∨ pos + 16 ≤ i → write_fields e m pos c i = m i := by
    intro h
    unfold write_fields
    rw [Mem.store_other (by omega), Mem.store_other (by omega), Mem.store_other (by omega),
      Mem.store_other (by omega), Mem.store_other (by omega)]
  cases p with
  | Edge_Prot_Def =>
    simp only [Cell_packet_size] at h
    unfold written Set_state_cell sizeof_State_Cell
    dsimp only
    rw [Mem.store_other (by omega), hfields (by omega)]
  | Groups_Prot_Def => exact hfields h

theorem read_written (hc : c.Typed) : read_cell ((written e m pos c).load e) pos = c := by
  -- the protocol's own bytes lie behind the common fields
  have hfront : ∀ q w, q + w ≤ 16 →
      (written e m pos c).load e (pos + q) w = (write_fields e m pos c).load e (pos + q) w := by
    intro q w hq
    cases p with
    | Edge_Prot_Def =>
      unfold written Set_state_cell sizeof_State_Cell
      rw [Mem.load_store_other (by omega)]
    | Groups_Prot_Def => rfl
  have hlts : read_lts p ((written e m pos c).load e) (pos + 16) = c.lts := by
    cases p with
    | Edge_Prot_Def =>
      unfold read_lts written Set_state_cell sizeof_State_Cell
      rw [Mem.load_store c.lts.isLt]
      simp
    | Groups_Prot_Def => rfl
  have hdest : (written e m pos c).load e pos 4 = c.dest := by
    have hzero := hfront 0 4 (by omega)
    rw [add_zero] at hzero
    rw [hzero]
    unfold write_fields
    rw [Mem.load_store_other (by omega), Mem.load_store_other (by omega),
      Mem.load_store_other (by omega), Mem.load_store_other (by omega), Mem.load_store hc.dest]
  have hsec : (written e m pos c).load e (pos + 4) 4 = to_word 4 c.timestamp_sec := by
    rw [hfront 4 4 (by omega)]
    unfold write_fields
    rw [Mem.load_store_other (by omega), Mem.load_store_other (by omega),
      Mem.load_store_other (by omega), Mem.load_store (to_word_lt 4 _)]
  have husec : (written e m pos c).load e (pos + 8) 4 = to_word 4 c.timestamp_usec := by
    rw [hfront 8 4 (by omega)]
    unfold write_fields
    rw [Mem.load_store_other (by omega), Mem.load_store_other (by omega),
      Mem.load_store (to_word_lt 4 _)]
  have hage : (written e m pos c).load e (pos + 14) 2 = to_word 2 c.age := by
    rw [hfront 14 2 (by omega)]
    unfold write_fields
    rw [Mem.load_store_other (by omega), Mem.load_store (to_word_lt 2 _)]
  have hvalue : (written e m pos c).load e (pos + 12) 2 = to_word 2 c.value := by
    rw [hfront 12 2 (by omega)]
    unfold write_fields
    rw [Mem.load_store (to_word_lt 2 _)]
  obtain ⟨-, hs, hu, hv, ha⟩ := hc
  unfold read_cell
  rw [hdest, hsec, husec, hage, hvalue, hlts, of_to_word (by omega) (by omega),
    of_to_word (by omega) (by omega), of_to_word (by omega) (by omega),
    of_to_word (by omega) (by omega)]

@[simp] theorem append_last_concat (init : Parts p) (source : Node_ID)
    (cs : List (State_Cell p)) (c : State_Cell p) :
    append_last (init ++ [(source, cs)]) c = init ++ [(source, cs ++ [c])] := by
  induction init with
  | nil => rfl
  | cons part init ih =>
    rw [cons_append, append_last, ih, cons_append]
    simp

def cells (parts : Parts p) : List (Node_ID × State_Cell p) :=
  parts.flatMap fun part => part.2.map fun c => (part.1, c)

def Buffer.content (b : Buffer p) : List (Node_ID × State_Cell p) :=
  (b.sent.flatMap fun pk => cells pk.parts) ++ cells b.parts

theorem put_header_content (b : Buffer p) (source : Node_ID) (num_cells : ℕ) :
    (b.put_header e source num_cells).content = b.content := by
  simp [Buffer.content, Buffer.put_header, cells]

theorem send_packet_content (b : Buffer p) (refs : ℕ → Mem) :
    (b.send_packet refs).content = b.content := by
  simp [Buffer.content, Buffer.send_packet, cells]

theorem put_cell_parts (hparts : b.parts = init ++ [(source, cs)]) :
    (b.put_cell e c).parts = init ++ [(source, cs ++ [c])] := by
  rw [Buffer.put_cell, write_cell_eq]
  rw [hparts, append_last_concat]

theorem put_cell_sent (b : Buffer p) (c : State_Cell p) : (b.put_cell e c).sent = b.sent := by
  rw [Buffer.put_cell, write_cell_eq]

theorem put_cell_content (hparts : b.parts = init ++ [(source, cs)]) :
    (b.put_cell e c).content = b.content ++ [(source, c)] := by
  rw [Buffer.content, put_cell_parts hparts, put_cell_sent, Buffer.content, hparts]
  simp [cells]

theorem put_part_eq (b : Buffer p) (source : Node_ID) (c : State_Cell p) :
    b.put_part e source c = (b.put_header e source 0).put_cell e c := by
  have hone : (0 + 1) % 2 ^ 16 = 1 := rfl
  unfold Buffer.put_part Buffer.put_cell Buffer.put_header
  rw [Mem.load_store (by decide), Mem.store_store, hone]

theorem put_part_parts (b : Buffer p) (source : Node_ID) (c : State_Cell p) :
    (b.put_part e source c).parts = b.parts ++ [(source, [c])] := by
  have hparts : (b.put_header e source 0).parts = b.parts ++ [(source, [])] := rfl
  rw [put_part_eq, put_cell_parts hparts, nil_append]

theorem put_part_content (b : Buffer p) (source : Node_ID) (c : State_Cell p) :
    (b.put_part e source c).content = b.content ++ [(source, c)] := by
  have hparts : (b.put_header e source 0).parts = b.parts ++ [(source, [])] := rfl
  rw [put_part_eq, put_cell_content hparts, put_header_content]

structure Buffer.Good (e : Endian) (b : Buffer p) : Prop where
  holds : Holds e b.buff 0 b.parts
  bytes : b.pack_bytes = size b.parts
  fits : b.pack_bytes ≤ packet_limit
  last : ∀ init part, b.parts = init ++ [part] → b.pkt = size init
  sent : ∀ pk ∈ b.sent, pk.len ≤ packet_limit ∧ pk.len = size pk.parts ∧ Holds e pk.buff 0 pk.parts

theorem Buffer.Good.first : (Buffer.first refs : Buffer p).Good e where
  holds := trivial
  bytes := rfl
  fits := Nat.zero_le _
  last := by simp [Buffer.first]
  sent := by simp [Buffer.first]

theorem Buffer.Good.send_packet (h : b.Good e) (refs : ℕ → Mem) : (b.send_packet refs).Good e where
  holds := trivial
  bytes := rfl
  fits := Nat.zero_le _
  last := by simp [Buffer.send_packet]
  sent := by
    intro pk hpk
    rcases mem_append.mp hpk with hpk | hpk
    · exact h.sent pk hpk
    · obtain rfl := mem_singleton.mp hpk
      exact ⟨h.fits, h.bytes, h.holds⟩

theorem state_header_size : sizeof_State_Packet + Set_state_header p = State_header_size p := by
  cases p <;> rfl

theorem Buffer.Good.put_header (h : b.Good e) (hsource : source < 2 ^ 32)
    (hroom : b.pack_bytes + State_header_size p ≤ packet_limit) :
    (b.put_header e source 0).Good e := by
  have hbytes := h.bytes
  have hsize : size [(source, ([] : List (State_Cell p)))] = State_header_size p := by
    simp [size]
  constructor
  · refine Holds.append.mpr ⟨h.holds.congr ?_, ?_⟩
    · intro i _ hi
      unfold Buffer.put_header
      dsimp only
      rw [Mem.store_other (by omega), Mem.store_other (by omega)]
    · unfold Buffer.put_header
      dsimp only
      rw [zero_add, ← hbytes]
      refine ⟨?_, ?_, rfl, trivial⟩
      · rw [Mem.load_store_other (by omega), Mem.load_store hsource]
      · rw [Mem.load_store (by decide)]
        rfl
  · unfold Buffer.put_header
    rw [size_append, hsize, ← hbytes, ← state_header_size, add_assoc]
  · unfold Buffer.put_header
    dsimp only
    rw [add_assoc, state_header_size]
    exact hroom
  · intro init part hparts
    obtain ⟨rfl, -⟩ := append_inj' hparts rfl
    exact hbytes
  · exact h.sent

theorem Buffer.Good.put_cell (h : b.Good e) (hparts : b.parts = init ++ [(source, cs)])
    (hc : c.Typed) (hroom : b.pack_bytes + Cell_packet_size p ≤ packet_limit) :
    (b.put_cell e c).Good e := by
  have hbytes := h.bytes
  have hpkt := h.last init _ hparts
  have hsize : size b.parts =
      size init + (State_header_size p + cs.length * Cell_packet_size p) := by
    rw [hparts, size_append, size_cons, size_nil, add_zero]
  have hhead : State_header_size p = 8 := by cases p <;> rfl
  have hcell : 16 ≤ Cell_packet_size p := by cases p <;> decide
  obtain ⟨hinit, hsource, hnum, hcells, -⟩ := Holds.append.mp (hparts ▸ h.holds)
  rw [zero_add] at hsource hnum hcells
  dsimp only at hsource hnum hcells
  have hcount : cs.length + 1 < 2 ^ 16 := by
    have hmul : cs.length * 16 ≤ cs.length * Cell_packet_size p := Nat.mul_le_mul_left _ hcell
    have hlimit : packet_limit = 1444 := rfl
    omega
  -- the bytes of the cells that were there are not touched
  have hkeep : ∀ i, i < b.pack_bytes → i < size init + 4 ∨ size init + 6 ≤ i →
      written e (b.buff.store e (b.pkt + 4) 2 ((b.buff.load e (b.pkt + 4) 2 + 1) % 2 ^ 16))
        b.pack_bytes c i = b.buff i := by
    intro i hi hother
    rw [written_other (.inl hi), Mem.store_other (by omega)]
  have hnew : (b.put_cell e c).parts = init ++ [(source, cs ++ [c])] := put_cell_parts hparts
  have hnewsize : size (init ++ [(source, cs ++ [c])]) = b.pack_bytes + Cell_packet_size p := by
    rw [hbytes, hsize, size_append, size_cons, size_nil, length_append, length_singleton,
      Nat.succ_mul]
    omega
  constructor
  · rw [hnew, Buffer.put_cell, write_cell_eq]
    refine Holds.append.mpr ⟨hinit.congr ?_, ?_, ?_, ?_, trivial⟩
    · intro i _ hi
      exact (hkeep i (by omega) (by omega)).symm
    · rw [zero_add, ← hsource]
      apply Mem.load_congr
      intro i hlo hhi
      exact hkeep i (by omega) (by omega)
    · rw [zero_add, length_append, length_singleton]
      have hload : (written e (b.buff.store e (b.pkt + 4) 2
          ((b.buff.load e (b.pkt + 4) 2 + 1) % 2 ^ 16)) b.pack_bytes c).load e
            (size init + 4) 2 = (b.buff.store e (b.pkt + 4) 2
          ((b.buff.load e (b.pkt + 4) 2 + 1) % 2 ^ 16)).load e (size init + 4) 2 := by
        apply Mem.load_congr
        intro i hlo hhi
        exact written_other (.inl (by omega))
      rw [hload, hpkt, hnum, Nat.mod_eq_of_lt hcount, Mem.load_store (by omega)]
    · rw [zero_add, length_append, length_singleton, read_cells_succ]
      have hend : size init + State_header_size p + cs.length * Cell_packet_size p =
          b.pack_bytes := by omega
      rw [hend, read_written hc]
      congr 1
      refine (read_cells_congr ?_).trans hcells
      intro i hlo hhi
      exact hkeep i (by omega) (by omega)
  · rw [hnew, hnewsize, Buffer.put_cell, write_cell_eq]
  · rw [Buffer.put_cell, write_cell_eq]
    exact hroom
  · intro init' part' hparts'
    rw [hnew] at hparts'
    obtain ⟨rfl, -⟩ := append_inj' hparts' rfl
    rw [Buffer.put_cell, write_cell_eq]
    exact hpkt
  · rw [Buffer.put_cell, write_cell_eq]
    exact h.sent

theorem Buffer.Good.put_part (h : b.Good e) (hsource : source < 2 ^ 32) (hc : c.Typed)
    (hroom : b.pack_bytes + State_header_size p + Cell_packet_size p ≤ packet_limit) :
    (b.put_part e source c).Good e := by
  have hhead := h.put_header hsource (by omega)
  have hbytes : (b.put_header e source 0).pack_bytes = b.pack_bytes + State_header_size p := by
    unfold Buffer.put_header
    rw [add_assoc, state_header_size]
  have hparts : (b.put_header e source 0).parts = b.parts ++ [(source, [])] := rfl
  rw [put_part_eq]
  exact hhead.put_cell hparts hc (by rw [hbytes]; exact hroom)

end Writers

/-! ## 6. A whole table -/

structure State_Data.Typed {p : Prot_Def} (s : State_Data p) : Prop where
  timestamp_sec : -2 ^ 31 ≤ s.timestamp_sec ∧ s.timestamp_sec < 2 ^ 31
  timestamp_usec : -2 ^ 31 ≤ s.timestamp_usec ∧ s.timestamp_usec < 2 ^ 31
  value : -2 ^ 15 ≤ s.value ∧ s.value < 2 ^ 15

def Chain.Typed {p : Prot_Def} (s_chain : Chain p) : Prop :=
  s_chain.1 < 2 ^ 32 ∧ ∀ s ∈ s_chain.2, s.1 < 2 ^ 32 ∧ s.2.Typed

section Tables

variable {p : Prot_Def} {e e' : Endian} {b : Buffer p} {refs : ℕ → Mem} {now : sp_time}
  {source dest : Node_ID} {s_data : State_Data p} {parts parts' : Parts p} {states : List (Chain p)}

def Chain.cells (now : sp_time) (s_chain : Chain p) : List (Node_ID × State_Cell p) :=
  s_chain.2.map fun s => (s_chain.1, s.2.cell now s.1)

theorem State_Data.Typed.cell (h : s_data.Typed) (hdest : dest < 2 ^ 32) (now : sp_time) :
    (s_data.cell now dest).Typed where
  dest := hdest
  timestamp_sec := h.timestamp_sec
  timestamp_usec := h.timestamp_usec
  value := h.value
  age := by
    have hlo : -(2 ^ 16 / 2) ≤ int16 (s_data.age + (now.sec - s_data.my_timestamp_sec).tdiv 10) :=
      Int.le_bmod (by decide)
    have hhi : int16 (s_data.age + (now.sec - s_data.my_timestamp_sec).tdiv 10) < (2 ^ 16 + 1) / 2 :=
      Int.bmod_lt (by decide)
    unfold State_Data.cell
    dsimp only
    omega

structure Buffer.Extends (e : Endian) (source : Node_ID) (b b' : Buffer p)
    (added : List (Node_ID × State_Cell p)) : Prop where
  good : b'.Good e
  content : b'.content = b.content ++ added
  last : ∃ init cs, b'.parts = init ++ [(source, cs)]

theorem put_next_state_extends (refs : ℕ → Mem) (now : sp_time) (h : b.Good e)
    (hlast : ∃ init cs, b.parts = init ++ [(source, cs)]) (hsource : source < 2 ^ 32) (hdest : dest < 2 ^ 32) (htyped : s_data.Typed) :
    Buffer.Extends e source b (put_next_state refs e now source b (dest, s_data))
      [(source, s_data.cell now dest)] := by
  have hcell : Cell_packet_size p ≤ 20 := by cases p <;> decide
  have hhead : State_header_size p = 8 := by cases p <;> rfl
  have hlimit : packet_limit = 1444 := rfl
  unfold put_next_state
  dsimp only
  by_cases hfull : b.full_for_cell
  · -- the cell goes into a new packet, under a header of its own
    rw [if_pos hfull]
    have hsent := h.send_packet refs
    have hnew := hsent.put_header hsource (by
      rw [Buffer.send_packet]
      dsimp only
      omega)
    have hparts : ((b.send_packet refs).put_header e source 0).parts =
        [] ++ [(source, ([] : List (State_Cell p)))] := rfl
    refine ⟨hnew.put_cell hparts (htyped.cell hdest now) ?_, ?_, _, _, put_cell_parts hparts⟩
    · have hsum := state_header_size (p := p)
      rw [Buffer.put_header, Buffer.send_packet]
      dsimp only
      omega
    · rw [put_cell_content hparts, put_header_content, send_packet_content]
  · rw [if_neg hfull]
    obtain ⟨init, cs, hparts⟩ := hlast
    have hroom : b.pack_bytes + Cell_packet_size p ≤ packet_limit := by
      simp only [Buffer.full_for_cell, decide_eq_true_eq] at hfull
      omega
    exact ⟨h.put_cell hparts (htyped.cell hdest now) hroom, put_cell_content hparts, _, _,
      put_cell_parts hparts⟩

theorem put_next_states_extend (refs : ℕ → Mem) (now : sp_time)
    (states : List (Spines_ID × State_Data p)) (h : b.Good e)
    (hlast : ∃ init cs, b.parts = init ++ [(source, cs)]) (hsource : source < 2 ^ 32)
    (htyped : ∀ s ∈ states, s.1 < 2 ^ 32 ∧ s.2.Typed) :
    Buffer.Extends e source b (states.foldl (put_next_state refs e now source) b)
      (Chain.cells now (source, states)) := by
  induction states generalizing b with
  | nil => exact ⟨h, by simp [Chain.cells], hlast⟩
  | cons s states ih =>
    obtain ⟨hdest, hs⟩ := htyped s mem_cons_self
    obtain ⟨hgood, hcontent, hlast'⟩ := put_next_state_extends refs now h hlast hsource hdest hs
    obtain ⟨hgood', hcontent', hlast''⟩ := ih hgood hlast'
      (fun s hs => htyped s (mem_cons_of_mem _ hs))
    refine ⟨hgood', ?_, hlast''⟩
    rw [foldl_cons, hcontent', hcontent, append_assoc]
    rfl

theorem put_chain_spec (refs : ℕ → Mem) (now : sp_time) (h : b.Good e) (s_chain : Chain p) (htyped : s_chain.Typed) :
    (put_chain refs e now b s_chain).Good e ∧
      (put_chain refs e now b s_chain).content = b.content ++ s_chain.cells now := by
  have hcell : Cell_packet_size p ≤ 20 := by cases p <;> decide
  have hhead : State_header_size p = 8 := by cases p <;> rfl
  have hlimit : packet_limit = 1444 := rfl
  obtain ⟨source, states⟩ := s_chain
  obtain ⟨hsource, hstates⟩ := htyped
  cases states with
  | nil => exact ⟨h, by simp [put_chain, Chain.cells]⟩
  | cons s states =>
    obtain ⟨hdest, hs⟩ := hstates s mem_cons_self
    -- the packet has room for a part
    obtain ⟨b1, hb1, hgood1, hcontent1, hroom⟩ : ∃ b1,
        b1 = (if b.full_for_part then b.send_packet refs else b) ∧ b1.Good e ∧
        b1.content = b.content ∧
        b1.pack_bytes + State_header_size p + Cell_packet_size p ≤ packet_limit := by
      refine ⟨_, rfl, ?_⟩
      by_cases hfull : b.full_for_part
      · rw [if_pos hfull]
        refine ⟨h.send_packet _, send_packet_content _ _, ?_⟩
        rw [Buffer.send_packet]
        dsimp only
        omega
      · rw [if_neg hfull]
        simp only [Buffer.full_for_part, decide_eq_true_eq] at hfull
        exact ⟨h, rfl, by omega⟩
    have hgood2 := hgood1.put_part hsource (hs.cell hdest now) hroom
    obtain ⟨hgood, hcontent, -⟩ := put_next_states_extend refs now states hgood2
      ⟨_, _, put_part_parts _ _ _⟩ hsource
      (fun s hs => hstates s (mem_cons_of_mem _ hs))
    have hrun : put_chain refs e now b (source, s :: states) =
        states.foldl (put_next_state refs e now source)
          (b1.put_part e source (s.2.cell now s.1)) := by
      rw [hb1]
      rfl
    rw [hrun]
    refine ⟨hgood, ?_⟩
    rw [hcontent, put_part_content, hcontent1, append_assoc]
    rfl

/-- What `Net_Send_State_All` puts into its packets, and what is read from them. -/
theorem send_all_parts (htyped : ∀ s_chain ∈ states, s_chain.Typed) :
    (∀ pk ∈ Net_Send_State_All refs e now states, pk.len ≤ packet_limit ∧
      parse e' (e' = e) pk.buff pk.len = some (pk.parts, pk.len)) ∧
    ((Net_Send_State_All refs e now states).flatMap fun pk => cells pk.parts) =
      states.flatMap (Chain.cells now) := by
  have hput : ∀ b : Buffer p, b.Good e →
      (states.foldl (put_chain refs e now) b).Good e ∧
      (states.foldl (put_chain refs e now) b).content =
        b.content ++ states.flatMap (Chain.cells now) := by
    induction states with
    | nil => exact fun b h => ⟨h, by simp⟩
    | cons s_chain states ih =>
      intro b h
      obtain ⟨hgood, hcontent⟩ := put_chain_spec refs now h s_chain
        (htyped s_chain mem_cons_self)
      obtain ⟨hgood', hcontent'⟩ := ih (fun s hs => htyped s (mem_cons_of_mem _ hs)) _ hgood
      refine ⟨hgood', ?_⟩
      rw [foldl_cons, hcontent', hcontent, flatMap_cons, append_assoc]
  obtain ⟨hgood, hcontent⟩ := hput (Buffer.first refs) .first
  -- the last packet is sent when there is something in it
  obtain ⟨b, hb, hparts, hcontent', hpkts⟩ : ∃ b : Buffer p, b.Good e ∧ b.parts = [] ∧
      b.content = states.flatMap (Chain.cells now) ∧
      Net_Send_State_All refs e now states = b.sent := by
    unfold Net_Send_State_All
    dsimp only
    split
    · exact ⟨_, hgood.send_packet _, rfl, (send_packet_content _ _).trans hcontent, rfl⟩
    · rename_i hempty
      have hlen := (length_le_size _).trans_eq hgood.bytes.symm
      exact ⟨_, hgood, eq_nil_of_length_eq_zero (by omega), hcontent, rfl⟩
  rw [hpkts]
  refine ⟨fun pk hpk => ?_, ?_⟩
  · obtain ⟨hlimit, hlen, hholds⟩ := hb.sent pk hpk
    refine ⟨hlimit, ?_⟩
    rw [hlen]
    exact parse_holds hholds
  · rw [← hcontent', Buffer.content, hparts]
    exact (append_nil _).symm

/-- The cells that a daemon of byte order `e` reads from a packet. -/
def Packet.read (pk : Packet p) (e : Endian) (same_endian : Bool) : List (Node_ID × State_Cell p) :=
  match parse e same_endian pk.buff pk.len with
  | some (parts, _) => cells parts
  | none => []

/-- A table goes over the link and comes out as it was: all packets fit, the loop consumes
every one to its end, and the cells read are those of the table, in order. The loop could
do so for the other byte order too, but a daemon of that order has no `p_def` for it. -/
theorem state_packets_round_trip (refs : ℕ → Mem) (e e' : Endian) (now : sp_time)
    (states : List (Chain p)) (htyped : ∀ s_chain ∈ states, s_chain.Typed) :
    (∀ pk ∈ Net_Send_State_All refs e now states, pk.len ≤ packet_limit ∧
      ∃ parts : Parts p, parse e' (e' = e) pk.buff pk.len = some (parts, pk.len)) ∧
    ((Net_Send_State_All refs e now states).flatMap fun pk => pk.read e' (e' = e)) =
      states.flatMap (Chain.cells now) := by
  obtain ⟨hparse, hcells⟩ := @send_all_parts _ e e' refs now states htyped
  refine ⟨fun pk hpk => ⟨(hparse pk hpk).1, _, (hparse pk hpk).2⟩, ?_⟩
  rw [← hcells]
  apply flatMap_congr
  intro pk hpk
  rw [Packet.read, (hparse pk hpk).2]

theorem state_packets_round_trip_edge :
    ((Net_Send_State_All (p := .Edge_Prot_Def) (fun _ _ => 0xFF) .little ⟨100, 0⟩
        [(3, [(4, ⟨50, 7, 60, 0, -1, 2, 9⟩), (5, ⟨51, 0, 70, 0, 300, 0, 8⟩)]),
          (4, [(3, ⟨50, 8, 60, 0, 40, 2, 9⟩)])]).flatMap fun pk => pk.read .little true) =
      [(3, ⟨4, 50, 7, -1, 6, 9⟩), (3, ⟨5, 51, 0, 300, 3, 8⟩), (4, ⟨3, 50, 8, 40, 6, 9⟩)] :=
  (state_packets_round_trip (fun _ _ => 0xFF) .little .little ⟨100, 0⟩ _ (by
    rintro s_chain (_ | ⟨_, _ | ⟨_, ⟨⟩⟩⟩)
    · refine ⟨by decide, ?_⟩
      rintro s (_ | ⟨_, _ | ⟨_, ⟨⟩⟩⟩) <;>
        exact ⟨by decide, ⟨by decide, by decide⟩, ⟨by decide, by decide⟩, ⟨by decide, by decide⟩⟩
    · refine ⟨by decide, ?_⟩
      rintro s (_ | ⟨_, ⟨⟩⟩)
      exact ⟨by decide, ⟨by decide, by decide⟩, ⟨by decide, by decide⟩, ⟨by decide, by decide⟩⟩)).2

end Tables

end Spines.StateFlood
