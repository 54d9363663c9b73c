/-
`libspines/spines_lib.c`: `spines_recvfrom` over TCP.

The daemon writes a message to the client as a frame: the length of what follows,
the `udp_header`, the payload. `spines_recvfrom` reads length and header, compares
the length with the room the caller has, and reads the payload. When there is not
enough room it gives up at once, between header and payload: the bytes of a
payload that did not fit are the length and the header of the next call.
-/
import Spines.Client.Read
import Spines.Lib.Gather

set_option autoImplicit false

namespace Spines.Client

open Spines.Lib List

/-! ## 1. Words of the other byte order -/

theorem le_value_lt (bs : List UInt8) : le_value bs < 256 ^ bs.length := by
  induction bs with
  | nil => decide
  | cons b bs ih =>
    have hb := b.toNat_lt
    rw [le_value, length_cons, pow_succ]
    omega

theorem flip_word_lt (w x : ℕ) : flip_word w x < 256 ^ w := by
  have h := le_value_lt (le_bytes w x).reverse
  rwa [length_reverse, le_bytes_length] at h

theorem load_lt (m : Mem) (e : Endian) (pos w : ℕ) : m.load e pos w < 256 ^ w := by
  have h := le_value_lt (e.order (m.bytes pos w))
  rwa [Endian.order_length, Mem.bytes_length] at h

theorem to_of_word {w x : ℕ} (h : x < 256 ^ w) : to_word w (of_word w x) = x := by
  unfold to_word of_word
  rw [Int.bmod_def]
  have hcast : ((256 ^ w : ℕ) : ℤ) = 256 ^ w := by push_cast; rfl
  have hx : (x : ℤ) % (256 ^ w : ℕ) = x := Int.emod_eq_of_lt (by omega) (by exact_mod_cast h)
  rw [hx]
  have hx' : (x : ℤ) % 256 ^ w = x := by rw [← hcast]; exact hx
  split
  · rw [hx', Int.toNat_natCast]
  · rw [hcast, Int.sub_emod_right, hx', Int.toNat_natCast]

theorem same_endian_iff (e e' : Endian) : Same_endian e (ARCH_ENDIAN e') = decide (e = e') := by
  cases e <;> cases e' <;> decide

def read_int32 (e : Endian) (endianess_type : ℕ) (m : Mem) (pos : ℕ) : ℤ :=
  let x := of_word 4 (m.load e pos 4)
  if Same_endian e endianess_type then x else of_word 4 (flip_word 4 (to_word 4 x))

theorem read_int32_eq {e e' : Endian} {endianess_type : ℕ}
    (h : Same_endian e endianess_type = decide (e = e')) (m : Mem) (pos : ℕ) :
    read_int32 e endianess_type m pos = of_word 4 (m.load e' pos 4) := by
  unfold read_int32
  rw [h]
  by_cases heq : e = e'
  · rw [if_pos (decide_eq_true heq), heq]
  · rw [if_neg (by rw [decide_eq_false heq]; exact Bool.false_ne_true),
      to_of_word (load_lt m e pos 4), Mem.flip_load heq]

theorem flip_udp_hdr_load {pos w : ℕ} (e : Endian) (m : Mem)
    (h : (pos, w) = (0, 4) ∨ (pos, w) = (4, 4) ∨ (pos, w) = (12, 2) ∨ (pos, w) = (14, 2)) :
    (Flip_udp_hdr e m).load e pos w = flip_word w (m.load e pos w) := by
  unfold Flip_udp_hdr
  simp only [foldl_cons, foldl_nil]
  rcases h with h | h | h | h <;> obtain ⟨rfl, rfl⟩ := Prod.mk.inj h
  · iterate 6 rw [Mem.load_store_other (by omega)]
    exact Mem.load_store (flip_word_lt _ _)
  · iterate 5 rw [Mem.load_store_other (by omega)]
    rw [Mem.load_store (flip_word_lt _ _), Mem.load_store_other (by omega)]
  · iterate 4 rw [Mem.load_store_other (by omega)]
    rw [Mem.load_store (flip_word_lt _ _)]
    iterate 2 rw [Mem.load_store_other (by omega)]
  · iterate 3 rw [Mem.load_store_other (by omega)]
    rw [Mem.load_store (flip_word_lt _ _)]
    iterate 3 rw [Mem.load_store_other (by omega)]

/-! ## 2. `spines_recvfrom` -/

def sizeof_int32 : ℕ := 4
def sizeof_sockaddr_in : ℕ := 16

/-- The arguments of a call that matter: the size of the buffer, and `*fromlen`
unless `from` is `NULL`. -/
structure RecvCall where
  len : ℕ
  from_len : Option ℕ

structure Recvd where
  ret : ℤ
  buf : List UInt8
  /-- `sin_addr` and `sin_port`. -/
  sender : Option (ℕ × ℕ)
  /-- `*dest`, for `spines_recvfrom_dest`. -/
  dest : Option ℕ
  rest : List (List UInt8)

/-- `spines_recvfrom_internal` without `UDP_CONNECT`, for a datagram socket. The
lengths are compared as `size_t`. -/
def spines_recvfrom_internal (e : Endian) (endianess_type : ℕ) (c : RecvCall)
    (cs : List (List UInt8)) : Recvd :=
  let g := gather (sizeof_int32 + sizeof_udp_header) cs
  if g.all = false then ⟨-1, [], none, none, g.rest⟩
  else
    let pkt : Mem := Mem.write (fun _ => 0) 0 g.got
    let pkt_len := read_int32 e endianess_type pkt 0
    let hdr : Mem := fun i => pkt (sizeof_int32 + i)
    let hdr := if Same_endian e endianess_type then hdr else Flip_udp_hdr e hdr
    -- "message too big": the payload stays where it is
    if c.len < to_word 8 (pkt_len - sizeof_udp_header) then ⟨-1, [], none, none, g.rest⟩
    else
      let p := gather (pkt_len - sizeof_udp_header).toNat g.rest
      if p.all = false then ⟨-1, p.got, none, none, p.rest⟩
      else
        match c.from_len with
        | none => ⟨p.got.length, p.got, none, some (hdr.load e 4 4), p.rest⟩
        | some n =>
          if n < sizeof_sockaddr_in then ⟨-1, p.got, none, none, p.rest⟩
          else
            ⟨p.got.length, p.got, some (hdr.load e 0 4, hdr.load e 12 2),
              some (hdr.load e 4 4), p.rest⟩

structure Frame where
  hdr : List UInt8
  payload : List UInt8
  hdr_length : hdr.length = sizeof_udp_header
  fits : sizeof_udp_header + payload.length < 2 ^ 31

/-- As a daemon of byte order `e` writes it. -/
def Frame.bytes (e : Endian) (f : Frame) : List UInt8 :=
  e.order (le_bytes 4 (sizeof_udp_header + f.payload.length)) ++ f.hdr ++ f.payload

def Frame.field (e : Endian) (f : Frame) (pos w : ℕ) : ℕ :=
  (Mem.write (fun _ => 0) 0 f.hdr).load e pos w

/-- `source` and `source_port`. -/
def Frame.sender (e : Endian) (f : Frame) : ℕ × ℕ := (f.field e 0 4, f.field e 12 2)

def RecvCall.SenderFits (c : RecvCall) : Prop := ∀ n, c.from_len = some n → sizeof_sockaddr_in ≤ n

structure DealsWith (e : Endian) (f : Frame) (c : RecvCall) (r : Recvd) : Prop where
  /-- Never more than `len` bytes. -/
  room : r.buf.length ≤ c.len
  payload : f.payload.length ≤ c.len → r.buf = f.payload
  ret : f.payload.length ≤ c.len → c.SenderFits → r.ret = f.payload.length ∧
    (c.from_len.isSome = true → r.sender = some (f.sender e)) ∧ r.dest = some (f.field e 4 4)
  too_big : c.len < f.payload.length → r.ret = -1

section Recvfrom

variable {e e' : Endian} {endianess_type : ℕ} {cs : List (List UInt8)} {f : Frame}
  {rest : List UInt8}

theorem frame_front (e' : Endian) (f : Frame) :
    let pkt : Mem := Mem.write (fun _ => 0) 0
      (e'.order (le_bytes 4 (sizeof_udp_header + f.payload.length)) ++ f.hdr)
    pkt.load e' 0 4 = sizeof_udp_header + f.payload.length ∧
      ∀ (e : Endian) (pos w : ℕ), pos + w ≤ sizeof_udp_header →
        Mem.load (fun i => pkt (sizeof_int32 + i)) e pos w = f.field e pos w := by
  have hlen : (e'.order (le_bytes 4 (sizeof_udp_header + f.payload.length))).length = 4 := by
    rw [Endian.order_length, le_bytes_length]
  constructor
  · have hslice : Mem.bytes (Mem.write (fun _ => 0) 0
        (e'.order (le_bytes 4 (sizeof_udp_header + f.payload.length)) ++ f.hdr)) 0 4
        = (List.drop 0 (e'.order (le_bytes 4 (sizeof_udp_header + f.payload.length))
          ++ f.hdr)).take 4 :=
      Mem.bytes_write_slice _ 0 0 4 (by rw [length_append, hlen]; omega)
    rw [Mem.load, hslice, drop_zero, take_left' hlen, Endian.order_order]
    apply le_value_bytes
    have hfits := f.fits
    norm_num
    omega
  · intro e pos w hpos
    rw [Frame.field]
    apply Mem.load_congr
    intro i _ hi
    have hhdr : i < f.hdr.length := by rw [f.hdr_length]; omega
    unfold Mem.write
    rw [if_pos (Nat.zero_le _), if_pos (Nat.zero_le _), Nat.sub_zero, Nat.sub_zero,
      getD_append_right _ _ _ _ (by rw [hlen, sizeof_int32]; omega), hlen, sizeof_int32,
      Nat.add_sub_cancel_left, getD_eq_getElem _ _ hhdr]

theorem frame_field (h : Same_endian e endianess_type = decide (e = e')) {pkt : Mem}
    (hpkt : ∀ (e : Endian) (pos w : ℕ), pos + w ≤ sizeof_udp_header →
      pkt.load e pos w = f.field e pos w) (pos w : ℕ)
    (hfield : (pos, w) = (0, 4) ∨ (pos, w) = (4, 4) ∨ (pos, w) = (12, 2) ∨ (pos, w) = (14, 2)) :
    (if Same_endian e endianess_type = true then pkt else Flip_udp_hdr e pkt).load e pos w
      = f.field e' pos w := by
  have hpos : pos + w ≤ sizeof_udp_header := by
    rcases hfield with hf | hf | hf | hf <;> obtain ⟨rfl, rfl⟩ := Prod.mk.inj hf <;> decide
  rw [h]
  by_cases heq : e = e'
  · rw [if_pos (decide_eq_true heq), heq]
    exact hpkt e' pos w hpos
  · rw [if_neg (by rw [decide_eq_false heq]; exact Bool.false_ne_true),
      flip_udp_hdr_load e pkt hfield, Mem.flip_load heq]
    exact hpkt e' pos w hpos

/-- **One call.** It deals with the frame that the stream begins with. The stream
goes on behind the frame if the payload fits, and with the payload if not. -/
theorem recvfrom_frame (h : Same_endian e endianess_type = decide (e = e')) (c : RecvCall)
    (hfull : Full cs) (hcs : cs.flatten = f.bytes e' ++ rest) :
    DealsWith e' f c (spines_recvfrom_internal e endianess_type c cs) ∧
      Full (spines_recvfrom_internal e endianess_type c cs).rest ∧
      (spines_recvfrom_internal e endianess_type c cs).rest.flatten
        = if f.payload.length ≤ c.len then rest else f.payload ++ rest := by
  obtain ⟨front, hfront⟩ : ∃ front, front
      = e'.order (le_bytes 4 (sizeof_udp_header + f.payload.length)) ++ f.hdr := ⟨_, rfl⟩
  have hsize : front.length = sizeof_int32 + sizeof_udp_header := by
    rw [hfront, length_append, Endian.order_length, le_bytes_length, f.hdr_length]
    rfl
  have hsplit : cs.flatten = front ++ (f.payload ++ rest) := by
    rw [hcs, Frame.bytes, ← hfront, append_assoc]
  obtain ⟨hall, hgot, hrest, hfull'⟩ := gather_append hfull hsplit
  rw [hsize] at hall hgot hrest hfull'
  obtain ⟨hlen, hfields⟩ := frame_front e' f
  rw [← hfront] at hlen hfields
  have hpkt_len : read_int32 e endianess_type (Mem.write (fun _ => 0) 0 front) 0
      = sizeof_udp_header + f.payload.length := by
    rw [read_int32_eq h, hlen, of_word, Int.bmod_eq_of_le]
    · push_cast
      rfl
    · norm_num
      omega
    · have hfits := f.fits
      norm_num
      omega
  have hwant : ((sizeof_udp_header : ℤ) + f.payload.length - sizeof_udp_header)
      = f.payload.length := by omega
  have hword : to_word 8 (f.payload.length : ℤ) = f.payload.length := by
    have hfits := f.fits
    unfold to_word
    rw [Int.emod_eq_of_lt (by omega) (by norm_num; omega), Int.toNat_natCast]
  have hfield := frame_field h hfields
  unfold spines_recvfrom_internal
  dsimp only
  rw [if_neg (by rw [hall]; exact Bool.true_eq_false_eq_False), hgot, hpkt_len, hwant, hword]
  by_cases hbig : c.len < f.payload.length
  · rw [if_pos hbig, if_neg (not_le.mpr hbig)]
    refine ⟨⟨Nat.zero_le _, ?_, ?_, fun _ => rfl⟩, hfull', hrest⟩
    · exact fun hle => absurd hle (not_le.mpr hbig)
    · exact fun hle => absurd hle (not_le.mpr hbig)
  · have hle : f.payload.length ≤ c.len := not_lt.mp hbig
    rw [if_neg hbig, if_pos hle, Int.toNat_natCast]
    obtain ⟨hall2, hgot2, hrest2, hfull2⟩ := gather_append hfull' hrest
    rw [if_neg (by rw [hall2]; exact Bool.true_eq_false_eq_False), hgot2]
    cases hfrom : c.from_len with
    | none =>
      refine ⟨⟨hle, fun _ => rfl, fun _ _ => ⟨rfl, ?_, ?_⟩, fun hlt => absurd hlt hbig⟩, hfull2,
        hrest2⟩
      · intro hsome
        rw [hfrom] at hsome
        exact absurd hsome Bool.false_ne_true
      · exact congrArg some (hfield 4 4 (by simp))
    | some n =>
      dsimp only
      by_cases hn : n < sizeof_sockaddr_in
      · rw [if_pos hn]
        refine ⟨⟨hle, fun _ => rfl, ?_, fun hlt => absurd hlt hbig⟩, hfull2, hrest2⟩
        exact fun _ hfits => absurd (hfits n hfrom) (not_le.mpr hn)
      · rw [if_neg hn]
        refine ⟨⟨hle, fun _ => rfl, fun _ _ => ⟨rfl, fun _ => ?_, ?_⟩, fun hlt => absurd hlt hbig⟩,
          hfull2, hrest2⟩
        · exact congrArg some (Prod.ext (hfield 0 4 (by simp)) (hfield 12 2 (by simp)))
        · exact congrArg some (hfield 4 4 (by simp))

end Recvfrom

/-! ## 3. Call after call -/

def frames (e : Endian) (fs : List Frame) : List UInt8 := fs.flatMap (Frame.bytes e)

def InStep (e e' : Endian) (endianess_type : ℕ) :
    List Frame → List RecvCall → List (List UInt8) → Prop
  | f :: fs, c :: calls, cs =>
    let r := spines_recvfrom_internal e endianess_type c cs
    DealsWith e' f c r ∧ r.rest.flatten = frames e' fs ∧ InStep e e' endianess_type fs calls r.rest
  | _, _, _ => True

def Fit : List Frame → List RecvCall → Prop
  | f :: fs, c :: calls => f.payload.length ≤ c.len ∧ Fit fs calls
  | _, _ => True

/-- **A client that reads its frames.** However the stream is cut into reads, the
calls stay in step with the frames if and only if every payload fits. -/
theorem calls_in_step {e e' : Endian} {endianess_type : ℕ}
    (h : Same_endian e endianess_type = decide (e = e')) (fs : List Frame) :
    ∀ (calls : List RecvCall) {cs : List (List UInt8)}, Full cs → cs.flatten = frames e' fs →
      (InStep e e' endianess_type fs calls cs ↔ Fit fs calls) := by
  induction fs with
  | nil => exact fun _ _ _ _ => Iff.rfl
  | cons f fs ih =>
    intro calls cs hfull hcs
    cases calls with
    | nil => exact Iff.rfl
    | cons c calls =>
      obtain ⟨hdeals, hfull', hrest⟩ := recvfrom_frame h c hfull
        (show cs.flatten = f.bytes e' ++ frames e' fs from hcs)
      rw [InStep, Fit]
      by_cases hle : f.payload.length ≤ c.len
      · rw [if_pos hle] at hrest
        constructor
        · rintro ⟨-, -, hstep⟩
          exact ⟨hle, (ih calls hfull' hrest).mp hstep⟩
        · rintro ⟨-, hfit⟩
          exact ⟨hdeals, hrest, (ih calls hfull' hrest).mpr hfit⟩
      · rw [if_neg hle] at hrest
        constructor
        · rintro ⟨-, hnext, -⟩
          -- the payload is still there
          have hlen := congrArg List.length (hrest.symm.trans hnext)
          rw [length_append] at hlen
          omega
        · exact fun hfit => absurd hfit.1 hle

end Spines.Client
