/-
What `Process_state_packet` touches of a packet (`daemon/state_flood.c`).

The loop goes on while there are bytes left. It takes a header without asking whether
there is room for one, and after it as many cells as the header says. `Prot_process_scat`
has compared the lengths in the packet header with the number of bytes received; what is
in the data nobody looks at.

`touched` lists the headers and cells that are read. They are in the packet exactly if the
counts in the headers divide it up without a remainder. Before the loop the protocol is looked
up by the type. `Read_UDP` has reversed a type of the other byte order, and here it is reversed
once more: nothing is found, and the first header is looked at through `NULL`
(`touched_within`).
-/
import Spines.IntruTol.Gate
import Spines.StateFlood.Packets

set_option autoImplicit false

namespace Spines.StateFlood

open Spines.Lib List
open Spines.IntruTol.Gate (Same_endian Set_endian Flip_int32 Is_link_state Is_group_state)

section Bounds

variable {p : Prot_Def}

def sizes_match (remaining_bytes data_len ack_len : ℕ) : Prop :=
  remaining_bytes = data_len + ack_len

instance (remaining_bytes data_len ack_len : ℕ) :
    Decidable (sizes_match remaining_bytes data_len ack_len) :=
  inferInstanceAs (Decidable (_ = _))

/-- The cells of a part that begin at `pos`: position and size. -/
def touched_cells (p : Prot_Def) : ℕ → ℕ → List (ℕ × ℕ)
  | _, 0 => []
  | pos, n + 1 => (pos, Cell_packet_size p) :: touched_cells p (pos + Cell_packet_size p) n

def touched_loop (p : Prot_Def) (field : ℕ → ℕ → ℕ) (data_len : ℕ) : ℕ → ℕ → List (ℕ × ℕ)
  | 0, _ => []
  | fuel + 1, processed_bytes =>
    if processed_bytes < data_len then
      let num_cells := field (processed_bytes + 4) 2
      let pos := processed_bytes + State_header_size p
      (processed_bytes, State_header_size p) :: (touched_cells p pos num_cells ++
        touched_loop p field data_len fuel (pos + num_cells * Cell_packet_size p))
    else []

def touched (p : Prot_Def) (e : Endian) (same_endian : Bool) (m : Mem) (data_len : ℕ) :
    List (ℕ × ℕ) :=
  touched_loop p (read_field e same_endian m) data_len (data_len + 1) 0

def Get_Prot_Def (t : ℕ) : Option Prot_Def :=
  if Is_link_state t then some .Edge_Prot_Def
  else if Is_group_state t then some .Groups_Prot_Def
  else none

/-- `p_def` of `Process_state_packet`, for the type that `Prot_process_scat` hands on. -/
def p_def (e : Endian) (type : ℕ) : Option Prot_Def :=
  Get_Prot_Def (if Same_endian e type then type else Flip_int32 type)

/-- `Process_state_packet` over the bytes of a packet: what it touches, and `processed_bytes` at
the end. There is none where the loop is entered with a `p_def` that is `NULL`. -/
def Process_state_packet_bytes (e : Endian) (type : ℕ) (m : Mem) (data_len : ℕ) :
    Option (List (ℕ × ℕ) × ℕ) :=
  if data_len = 0 then some ([], 0)
  else (p_def e type).bind fun p =>
    (parse (p := p) e (Same_endian e type) m data_len).map fun r =>
      (touched p e (Same_endian e type) m data_len, r.2)

/-- `[a.1, a.1 + a.2)` is in the packet. -/
def Within (data_len : ℕ) (a : ℕ × ℕ) : Prop := a.1 + a.2 ≤ data_len

instance (data_len : ℕ) (a : ℕ × ℕ) : Decidable (Within data_len a) :=
  inferInstanceAs (Decidable (_ ≤ _))

/-- From `pos` on there are whole parts, and nothing else. -/
inductive Divided (p : Prot_Def) (field : ℕ → ℕ → ℕ) (data_len : ℕ) : ℕ → Prop
  | nil : Divided p field data_len data_len
  | part {pos : ℕ} (rest : Divided p field data_len
      (pos + State_header_size p + field (pos + 4) 2 * Cell_packet_size p)) :
      Divided p field data_len pos

variable {field : ℕ → ℕ → ℕ} {data_len pos n fuel : ℕ}

theorem Divided.le (h : Divided p field data_len pos) : pos ≤ data_len := by
  induction h with
  | nil => exact le_refl _
  | part _ ih => omega

theorem touched_cells_within (hlen : pos + n * Cell_packet_size p ≤ data_len) :
    ∀ a ∈ touched_cells p pos n, Within data_len a := by
  induction n generalizing pos with
  | zero => exact fun a ha => absurd ha not_mem_nil
  | succ n ih =>
    rw [Nat.succ_mul] at hlen
    intro a ha
    rcases mem_cons.mp ha with rfl | ha
    · exact show pos + Cell_packet_size p ≤ data_len by omega
    · exact ih (by omega) a ha

theorem last_touched_cell : (pos + n * Cell_packet_size p, Cell_packet_size p) ∈
    touched_cells p pos (n + 1) := by
  induction n generalizing pos with
  | zero =>
    rw [Nat.zero_mul]
    exact mem_cons_self
  | succ n ih =>
    rw [Nat.succ_mul, add_comm (n * Cell_packet_size p), ← add_assoc]
    exact mem_cons_of_mem _ ih

theorem part_end_le (hhead : Within data_len (pos, State_header_size p))
    (hcells : ∀ a ∈ touched_cells p (pos + State_header_size p) n, Within data_len a) :
    pos + State_header_size p + n * Cell_packet_size p ≤ data_len := by
  cases n with
  | zero =>
    rw [Nat.zero_mul]
    exact hhead
  | succ n =>
    have hlast : pos + State_header_size p + n * Cell_packet_size p + Cell_packet_size p ≤
        data_len := hcells _ last_touched_cell
    rw [Nat.succ_mul]
    omega

theorem parse_loop_ends (hpos : 0 < fuel) (hfuel : data_len < fuel + pos) :
    ∃ r, parse_loop (p := p) field data_len fuel pos = some r := by
  induction fuel generalizing pos with
  | zero => exact absurd hpos (lt_irrefl 0)
  | succ fuel ih =>
    have hhead := header_size_pos (p := p)
    rw [parse_loop]
    by_cases hlt : pos < data_len
    · rw [if_pos hlt]
      dsimp only
      obtain ⟨r, hr⟩ := @ih (pos + State_header_size p + field (pos + 4) 2 * Cell_packet_size p)
        (by omega) (by omega)
      rw [hr]
      exact ⟨_, rfl⟩
    · rw [if_neg hlt]
      exact ⟨_, rfl⟩

theorem Divided.processed (h : Divided p field data_len pos) (hpos : 0 < fuel)
    (hfuel : data_len < fuel + pos) {r : Parts p × ℕ}
    (hr : parse_loop field data_len fuel pos = some r) : r.2 = data_len := by
  induction fuel generalizing pos r with
  | zero => exact absurd hpos (lt_irrefl 0)
  | succ fuel ih =>
    have hhead := header_size_pos (p := p)
    rw [parse_loop] at hr
    cases h with
    | nil =>
      rw [if_neg (lt_irrefl _)] at hr
      rw [← Option.some.inj hr]
    | part rest =>
      have hle := rest.le
      rw [if_pos (by omega)] at hr
      obtain ⟨r', hr', rfl⟩ := Option.map_eq_some_iff.mp hr
      have hprocessed : r'.2 = data_len := ih rest (by omega) (by omega) hr'
      exact hprocessed

/-- **What the loop touches is in the packet** exactly if the counts divide it up, by
induction on the rounds. -/
theorem touched_loop_within (hpos : 0 < fuel) (hfuel : data_len < fuel + pos)
    (hle : pos ≤ data_len) : (∀ a ∈ touched_loop p field data_len fuel pos, Within data_len a) ↔
      Divided p field data_len pos := by
  induction fuel generalizing pos with
  | zero => exact absurd hpos (lt_irrefl 0)
  | succ fuel ih =>
    have hhead := header_size_pos (p := p)
    rw [touched_loop]
    by_cases hlt : pos < data_len
    · rw [if_pos hlt]
      constructor
      · intro h
        -- the next part begins in the packet, or at its end
        have hcells := fun a ha => h a (mem_cons_of_mem _ (mem_append_left _ ha))
        have hend := part_end_le (h _ mem_cons_self) hcells
        exact .part ((ih (by omega) (by omega) hend).mp fun a ha =>
          h a (mem_cons_of_mem _ (mem_append_right _ ha)))
      · intro h
        cases h with
        | nil => exact absurd hlt (lt_irrefl _)
        | part rest =>
          have hend := rest.le
          intro a ha
          rcases mem_cons.mp ha with rfl | ha
          · exact show pos + State_header_size p ≤ data_len by omega
          rcases mem_append.mp ha with ha | ha
          · exact touched_cells_within hend a ha
          · exact (ih (by omega) (by omega) hend).mpr rest a ha
    · obtain rfl : pos = data_len := by omega
      rw [if_neg hlt]
      exact ⟨fun _ => .nil, fun _ a ha => absurd ha not_mem_nil⟩

end Bounds

theorem parse_ends (p : Prot_Def) (e : Endian) (same_endian : Bool) (m : Mem) (data_len : ℕ) :
    ∃ r : Parts p × ℕ, parse e same_endian m data_len = some r ∧
      ((∀ a ∈ touched p e same_endian m data_len, Within data_len a) ∧ r.2 = data_len ↔
        Divided p (read_field e same_endian m) data_len 0) := by
  have hpos : 0 < data_len + 1 := Nat.succ_pos _
  have hfuel : data_len < data_len + 1 + 0 := Nat.lt_succ_self _
  obtain ⟨r, hr⟩ := @parse_loop_ends p (read_field e same_endian m) data_len 0 _ hpos hfuel
  have hwithin := @touched_loop_within p (read_field e same_endian m) data_len 0 _ hpos hfuel
    (Nat.zero_le _)
  refine ⟨r, hr, fun h => hwithin.mp h.1, fun h => ⟨hwithin.mpr h, ?_⟩⟩
  exact h.processed hpos hfuel hr

/-- **`Process_state_packet` gets through a packet** exactly if it has a protocol for it. All
headers and cells that it touches are in the packet, and it ends at its end, exactly if there is
nothing in it, or it has the protocol and the packet is divided into whole parts by the counts in
their headers. -/
theorem touched_within (e : Endian) (type : ℕ) (m : Mem) (data_len : ℕ) :
    ((Process_state_packet_bytes e type m data_len).isSome ↔
      data_len = 0 ∨ (p_def e type).isSome) ∧
    ((∃ touched, Process_state_packet_bytes e type m data_len = some (touched, data_len) ∧
        ∀ a ∈ touched, Within data_len a) ↔
      data_len = 0 ∨ ∃ p, p_def e type = some p ∧
        Divided p (read_field e (Same_endian e type) m) data_len 0) := by
  rw [Process_state_packet_bytes]
  by_cases hzero : data_len = 0
  · subst hzero
    rw [if_pos rfl]
    exact ⟨by simp, iff_of_true ⟨[], rfl, fun _ h => absurd h not_mem_nil⟩ (.inl rfl)⟩
  rw [if_neg hzero]
  simp only [hzero, false_or]
  cases hdef : p_def e type with
  | none => simp
  | some p =>
    obtain ⟨r, hr, hwithin⟩ := parse_ends p e (Same_endian e type) m data_len
    simp only [Option.bind_some, hr, Option.map_some, Option.isSome_some, true_and,
      Option.some.injEq, exists_eq_left', Prod.mk.injEq]
    rw [← hwithin]
    constructor
    · rintro ⟨_, ⟨rfl, hend⟩, hall⟩
      exact ⟨hall, hend⟩
    · rintro ⟨hall, hend⟩
      exact ⟨_, ⟨rfl, hend⟩, hall⟩

/-- A daemon of the other byte order sends states without being understood. -/
example : ∀ e o, p_def e (Set_endian o 0x41000000) = if e = o then some .Edge_Prot_Def else none := by
  rintro (_ | _) (_ | _) <;> decide

def headless_cell : Mem := Mem.store (fun _ => 0) .little 4 2 1

/-- The lengths are right, with eight bytes of acknowledgements; the cell is behind them. From a
daemon of the other byte order no packet with data gets through. -/
theorem cell_outside : sizes_match 16 8 8 ∧
    Process_state_packet_bytes .little (Set_endian .little 0x41000000) headless_cell 8 =
      some ([(0, 8), (8, 20)], 28) ∧ ¬ Within 8 (8, 20) ∧
    Process_state_packet_bytes .little (Set_endian .big 0x41000000) headless_cell 8 = none := by
  decide

end Spines.StateFlood
