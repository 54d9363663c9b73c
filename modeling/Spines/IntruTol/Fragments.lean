/-
Fragments of a message on an intrusion-tolerant link
(`daemon/intrusion_tol_udp.c`: the inner loop of
`Pack_Fragments_Into_Packets_IT`, and `Build_Message_From_Fragments_IT`).

A message is a scatter: a packet header (element 0) and body elements
`1 .. n`. The sender puts as many consecutive body elements into a link packet
as fit, each followed by a `fragment_header` trailer; the receiver finds the
trailers by walking the packet **backwards**, then appends the elements to its
working message **forwards**.

Both directions meet at `packet_bytes`: the bytes of the fragments
`a, a + 1, …, a + cnt - 1`, each with its trailer.

Byte order is the host's (the two ends are taken to agree), low byte first.
-/
import Mathlib.Data.List.GetD
import Mathlib.Data.List.Range

set_option autoImplicit false

namespace Spines.IntruTol

open List Function

abbrev Bytes := List UInt8

/-! ## Sizes -/

def MAX_PACKET_SIZE : ℕ := 1472

def MAX_SCATTER_ELEMENTS : ℕ := 100

def SIZEOF_PACKET_HEADER : ℕ := 20

def SIZEOF_PACKET_BODY : ℕ := MAX_PACKET_SIZE - SIZEOF_PACKET_HEADER

def SIZEOF_FRAGMENT_HEADER : ℕ := 4

/-- `sizeof(intru_tol_pkt_tail)`: four 64-bit and three 32-bit fields, padded. -/
def SIZEOF_PKT_TAIL : ℕ := 48

/-! ## Scatters and trailers -/

/-- A `sys_scatter` holding a message: the packet header at element 0 and the
body elements after it. -/
structure SysScatter where
  hdr : Bytes
  body : List Bytes
  deriving DecidableEq, Repr

/-- `scat->elements[i]`. -/
def SysScatter.element (m : SysScatter) (i : ℕ) : Bytes := (m.hdr :: m.body).getD i []

/-- `scat->num_elements`. -/
def SysScatter.num_elements (m : SysScatter) : ℕ := m.body.length + 1

structure FragmentHeader where
  frag_length : ℕ
  frag_idx : ℕ
  frag_total : ℕ
  deriving DecidableEq, Repr

/-- The four bytes of a `fragment_header` in memory: a 16-bit length and two
single bytes. -/
def FragmentHeader.encode (h : FragmentHeader) : Bytes :=
  [UInt8.ofNat (h.frag_length % 256), UInt8.ofNat (h.frag_length / 256),
    UInt8.ofNat h.frag_idx, UInt8.ofNat h.frag_total]

/-- `(fragment_header*)(buff + off)`, read field by field. -/
def read_fragment_header (buff : Bytes) (off : ℕ) : FragmentHeader where
  frag_length := (buff.getD off 0).toNat + 256 * (buff.getD (off + 1) 0).toNat
  frag_idx := (buff.getD (off + 2) 0).toNat
  frag_total := (buff.getD (off + 3) 0).toNat

theorem FragmentHeader.encode_length (h : FragmentHeader) :
    h.encode.length = SIZEOF_FRAGMENT_HEADER := rfl

theorem read_encode (pre post : Bytes) (h : FragmentHeader) (hl : h.frag_length < 65536)
    (hi : h.frag_idx < 256) (ht : h.frag_total < 256) :
    read_fragment_header (pre ++ h.encode ++ post) pre.length = h := by
  have hget : ∀ k, k < 4 → (pre ++ h.encode ++ post).getD (pre.length + k) 0
      = h.encode.getD k 0 := by
    intro k hk
    rw [append_assoc, getD_append_right _ _ _ _ (by omega), Nat.add_sub_cancel_left,
      getD_append _ _ _ _ (by rw [FragmentHeader.encode_length]; exact hk)]
  have h0 := hget 0 (by omega)
  rw [Nat.add_zero] at h0
  obtain ⟨len, idx, total⟩ := h
  dsimp only at hl hi ht
  simp only [read_fragment_header, h0, hget 1 (by omega), hget 2 (by omega), hget 3 (by omega)]
  simp only [FragmentHeader.encode, getD_cons_zero, getD_cons_succ, UInt8.toNat_ofNat']
  congr 1 <;> omega

/-! ## The packer's inner loop -/

/-- The locals of the inner loop: `itdata->out_frag_idx`, `phdr->data_len` and
the elements of `link_scat` after its header. -/
structure FillState where
  out_frag_idx : ℕ
  data_len : ℕ
  elements : List Bytes

/-- One iteration: append fragment `out_frag_idx` and its trailer. -/
def fill_step (m : SysScatter) (out_frag_total : ℕ) (st : FillState) : FillState :=
  let frag := m.element st.out_frag_idx
  let fhdr : FragmentHeader :=
    ⟨frag.length % 65536, st.out_frag_idx, out_frag_total⟩
  { out_frag_idx := (st.out_frag_idx + 1) % 256
    data_len := st.data_len + frag.length + SIZEOF_FRAGMENT_HEADER
    elements := st.elements ++ [frag, fhdr.encode] }

/-- The condition of the inner loop: there is a fragment left and it fits.
`lhs` is `Link_Header_Size(INTRUSION_TOL_LINK)`. -/
def fill_fits (lhs : ℕ) (m : SysScatter) (out_frag_total : ℕ) (st : FillState) : Bool :=
  decide (st.out_frag_idx ≤ out_frag_total) &&
  decide (st.data_len + (m.element st.out_frag_idx).length + lhs + SIZEOF_FRAGMENT_HEADER
    ≤ MAX_PACKET_SIZE)

/-- The inner loop. An iteration adds at least a trailer, so `MAX_PACKET_SIZE`
iterations always suffice. -/
def fill_loop (lhs : ℕ) (m : SysScatter) (out_frag_total : ℕ) : ℕ → FillState → FillState
  | 0, st => st
  | fuel + 1, st =>
    if fill_fits lhs m out_frag_total st then
      fill_loop lhs m out_frag_total fuel (fill_step m out_frag_total st)
    else st

/-- Fill one link packet, starting from fragment `out_frag_idx`. -/
def fill_packet (lhs : ℕ) (m : SysScatter) (out_frag_idx out_frag_total : ℕ) : FillState :=
  fill_loop lhs m out_frag_total MAX_PACKET_SIZE ⟨out_frag_idx, 0, []⟩

/-! ## The rebuilder -/

/-- The receiver's working message: `in_message`, `in_frag_idx` and
`in_frag_total`. `started` says that the header element has been set up, so
`num_elements` is `0` before and `body.length + 1` after. -/
structure WorkingMsg where
  started : Bool
  body : List Bytes
  idx : ℕ
  total : ℕ
  deriving DecidableEq, Repr

/-- `scat->num_elements` of the working message. -/
def WorkingMsg.num_elements (w : WorkingMsg) : ℕ := if w.started then w.body.length + 1 else 0

/-- The working message as `Create_Link` and a delivery leave it. -/
def WorkingMsg.fresh : WorkingMsg := ⟨false, [], 1, 0⟩

/-- The locals of the backwards pass. `frag_addr i` is where the trailer of
fragment `i` was found, and the trailer. -/
structure Scan where
  processed : ℕ
  total : ℕ
  array_idx : ℕ
  max_array_idx : ℕ
  frag_addr : ℕ → ℕ × FragmentHeader

/-- One iteration of the backwards pass. An error carries the return code and
the value `*total` is left with. -/
def scan_step (buff : Bytes) (s : Scan) : Except (ℤ × ℕ) Scan :=
  -- fewer than four bytes left: the trailer is read from before the packet, and
  -- whatever stands there the length check below refuses it
  if buff.length - s.processed < SIZEOF_FRAGMENT_HEADER then .error (-5, s.total)
  else
    let off := buff.length - s.processed - SIZEOF_FRAGMENT_HEADER
    let fh := read_fragment_header buff off
    if fh.frag_total = 0 ∨ MAX_SCATTER_ELEMENTS - 1 < fh.frag_total then .error (-1, s.total)
    else
      let total := if s.total = 0 then fh.frag_total else s.total
      if total ≠ fh.frag_total then .error (-2, total)
      else if fh.frag_idx = 0 ∨ total < fh.frag_idx then .error (-3, total)
      else
        let array_idx := if s.array_idx = 0 then fh.frag_idx else s.array_idx
        let max_array_idx := if s.array_idx = 0 then fh.frag_idx else s.max_array_idx
        if fh.frag_idx ≠ array_idx then .error (-4, total)
        else
          let processed := s.processed + (SIZEOF_FRAGMENT_HEADER + fh.frag_length)
          if buff.length < processed then .error (-5, total)
          else
            .ok { processed, total, array_idx := array_idx - 1, max_array_idx
                  frag_addr := update s.frag_addr fh.frag_idx (off, fh) }

/-- The backwards pass, `while (processed < data_len)`. -/
def scan_loop (buff : Bytes) : ℕ → Scan → Except (ℤ × ℕ) Scan
  | 0, s => .ok s
  | fuel + 1, s =>
    if s.processed < buff.length then
      match scan_step buff s with
      | .error e => .error e
      | .ok s' => scan_loop buff fuel s'
    else .ok s

/-- The fragment a trailer belongs to: the `frag_length` bytes before it. -/
def fragment_at (buff : Bytes) (a : ℕ × FragmentHeader) : Bytes :=
  (buff.drop (a.1 - a.2.frag_length)).take a.2.frag_length

/-- The forwards pass over `array_idx, array_idx + 1, …` (`cnt` of them);
`false` is the return with `-6`. -/
def append_loop (buff : Bytes) (frag_addr : ℕ → ℕ × FragmentHeader) :
    ℕ → ℕ → WorkingMsg → Bool × WorkingMsg
  | _, 0, w => (true, w)
  | array_idx, cnt + 1, w =>
    if array_idx ≠ w.idx ∨ (frag_addr array_idx).2.frag_idx ≠ w.idx then (false, w)
    else
      append_loop buff frag_addr (array_idx + 1) cnt
        { w with
          body := w.body ++ [fragment_at buff (frag_addr array_idx)]
          idx := w.idx + 1 }

/-- `Build_Message_From_Fragments_IT`: the return value and the working message
it leaves. `buff` is the data part of the packet, `data_len` bytes. -/
def build_message_from_fragments_it (w : WorkingMsg) (buff : Bytes) : ℤ × WorkingMsg :=
  match scan_loop buff buff.length ⟨0, w.total, 0, 0, fun _ => (0, ⟨0, 0, 0⟩)⟩ with
  | .error (code, total) => (code, { w with total := total })
  | .ok s =>
    let w := { w with started := true, total := s.total }
    match append_loop buff s.frag_addr (s.array_idx + 1) (s.max_array_idx - s.array_idx) w with
    | (false, w) => (-6, w)
    | (true, w) => (if w.idx = w.total + 1 then 1 else 0, w)

/-! ## What a packet carries -/

/-- The trailer of fragment `i` of a message with `total` fragments. -/
def trailer (m : SysScatter) (total i : ℕ) : FragmentHeader :=
  ⟨(m.element i).length, i, total⟩

def frag_bytes (m : SysScatter) (total i : ℕ) : Bytes :=
  m.element i ++ (trailer m total i).encode

def packet_bytes (m : SysScatter) (total a cnt : ℕ) : Bytes :=
  (range' a cnt).flatMap (frag_bytes m total)

@[simp] theorem packet_bytes_zero (m : SysScatter) (total a : ℕ) :
    packet_bytes m total a 0 = [] := rfl

theorem packet_bytes_add (m : SysScatter) (total a c d : ℕ) : packet_bytes m total a (c + d)
      = packet_bytes m total a c ++ packet_bytes m total (a + c) d := by
  rw [packet_bytes, packet_bytes, packet_bytes, ← flatMap_append, range'_append_1]

theorem packet_bytes_one (m : SysScatter) (total a : ℕ) :
    packet_bytes m total a 1 = frag_bytes m total a := by
  simp only [packet_bytes, range'_one, flatMap_cons, flatMap_nil, append_nil]

theorem frag_bytes_length (m : SysScatter) (total i : ℕ) :
    (frag_bytes m total i).length = (m.element i).length + SIZEOF_FRAGMENT_HEADER := by
  rw [frag_bytes, length_append, FragmentHeader.encode_length]

/-- A message the link can carry: between one and `MAX_SCATTER_ELEMENTS - 1`
body elements, each of which fits into one packet by itself. -/
structure Fits (lhs : ℕ) (m : SysScatter) : Prop where
  pos : 1 ≤ m.body.length
  le : m.body.length ≤ MAX_SCATTER_ELEMENTS - 1
  elem : ∀ e ∈ m.body, e.length + lhs + SIZEOF_FRAGMENT_HEADER ≤ MAX_PACKET_SIZE

theorem SysScatter.element_mem (m : SysScatter) (i : ℕ) (h1 : 1 ≤ i) (h2 : i ≤ m.body.length) :
    m.element i ∈ m.body := by
  obtain ⟨j, rfl⟩ : ∃ j, i = j + 1 := ⟨i - 1, by omega⟩
  rw [SysScatter.element, getD_cons_succ, getD_eq_getElem _ _ (by omega)]
  exact getElem_mem _

theorem Fits.element_le {lhs : ℕ} {m : SysScatter} (h : Fits lhs m) (i : ℕ) (h1 : 1 ≤ i)
    (h2 : i ≤ m.body.length) :
    (m.element i).length + lhs + SIZEOF_FRAGMENT_HEADER ≤ MAX_PACKET_SIZE :=
  h.elem _ (m.element_mem i h1 h2)

/-! ## The packer fills packets with consecutive fragments -/

structure Filled (m : SysScatter) (total a cnt : ℕ) (st : FillState) : Prop where
  idx : st.out_frag_idx = a + cnt
  bytes : st.elements.flatten = packet_bytes m total a cnt
  len : st.data_len = (packet_bytes m total a cnt).length

theorem fill_step_filled {lhs : ℕ} {m : SysScatter} (hm : Fits lhs m) {a cnt : ℕ}
    {st : FillState} (ha : 1 ≤ a) (hst : Filled m m.body.length a cnt st)
    (hle : a + cnt ≤ m.body.length) :
    Filled m m.body.length a (cnt + 1) (fill_step m m.body.length st) := by
  have hlen := hm.element_le (a + cnt) (by omega) hle
  have hmax := hm.le
  simp only [MAX_PACKET_SIZE, SIZEOF_FRAGMENT_HEADER, MAX_SCATTER_ELEMENTS] at hlen hmax
  have hsmall : (m.element (a + cnt)).length % 65536 = (m.element (a + cnt)).length :=
    Nat.mod_eq_of_lt (by omega)
  have hbytes : packet_bytes m m.body.length a (cnt + 1)
      = packet_bytes m m.body.length a cnt ++ frag_bytes m m.body.length (a + cnt) := by
    rw [packet_bytes_add, packet_bytes_one]
  refine ⟨?_, ?_, ?_⟩
  · simp only [fill_step, hst.idx]
    omega
  · simp only [fill_step, flatten_append, hst.bytes, hst.idx, hsmall, hbytes, frag_bytes,
      trailer, flatten_cons, flatten_nil, append_nil]
  · rw [hbytes, length_append, frag_bytes_length, ← hst.len]
    simp only [fill_step, hst.idx]
    omega

/-- The loop stops with some run of fragments in the packet, and it stops only
when the message is exhausted or the next fragment does not fit. -/
theorem fill_loop_filled {lhs : ℕ} {m : SysScatter} (hm : Fits lhs m) (a : ℕ) (ha : 1 ≤ a)
    (fuel : ℕ) : ∀ (cnt : ℕ) (st : FillState), Filled m m.body.length a cnt st →
      a + cnt ≤ m.body.length + 1 →
      ∃ c, cnt ≤ c ∧ a + c ≤ m.body.length + 1 ∧
        Filled m m.body.length a c (fill_loop lhs m m.body.length fuel st) := by
  induction fuel with
  | zero => intro cnt st hst hle; exact ⟨cnt, le_refl _, hle, hst⟩
  | succ fuel ih =>
    intro cnt st hst hle
    rw [fill_loop]
    by_cases hfit : fill_fits lhs m m.body.length st = true
    · rw [if_pos hfit]
      have hidx : a + cnt ≤ m.body.length := by
        simp only [fill_fits, Bool.and_eq_true, decide_eq_true_eq, hst.idx] at hfit
        exact hfit.1
      obtain ⟨c, hc, hcle, hfilled⟩ :=
        ih (cnt + 1) _ (fill_step_filled hm ha hst hidx) (by omega)
      exact ⟨c, by omega, hcle, hfilled⟩
    · rw [if_neg hfit]
      exact ⟨cnt, le_refl _, hle, hst⟩

/-- **The packer's packet.** From fragment `a` of a message that fits, the
packet carries at least one fragment, and exactly the consecutive ones up to
where `out_frag_idx` has moved. -/
theorem fill_packet_spec {lhs : ℕ} {m : SysScatter} (hm : Fits lhs m) (a : ℕ) (ha : 1 ≤ a)
    (hle : a ≤ m.body.length) :
    ∃ c, 1 ≤ c ∧ a + c ≤ m.body.length + 1 ∧
      Filled m m.body.length a c (fill_packet lhs m a m.body.length) := by
  have hstart : Filled m m.body.length a 0 ⟨a, 0, []⟩ :=
    ⟨rfl, by rw [packet_bytes_zero]; rfl, by rw [packet_bytes_zero]; rfl⟩
  have hfit : fill_fits lhs m m.body.length ⟨a, 0, []⟩ = true := by
    have := hm.element_le a ha hle
    simp only [fill_fits, Bool.and_eq_true, decide_eq_true_eq]
    exact ⟨hle, by omega⟩
  have hfirst := fill_step_filled hm ha hstart (by omega)
  obtain ⟨c, hc, hcle, hfilled⟩ :=
    fill_loop_filled hm a ha (MAX_PACKET_SIZE - 1) 1 _ hfirst (by omega)
  refine ⟨c, hc, hcle, ?_⟩
  have hunroll : fill_packet lhs m a m.body.length
      = fill_loop lhs m m.body.length (MAX_PACKET_SIZE - 1)
          (fill_step m m.body.length ⟨a, 0, []⟩) := by
    rw [fill_packet, show MAX_PACKET_SIZE = (MAX_PACKET_SIZE - 1) + 1 from rfl, fill_loop,
      if_pos hfit]
    rfl
  rw [hunroll]
  exact hfilled

/-! ## The rebuilder reads such a packet back -/

section Rebuild

variable {m : SysScatter} {lhs : ℕ}

def trailer_addr (m : SysScatter) (total a i : ℕ) : ℕ × FragmentHeader :=
  ((packet_bytes m total a (i - a)).length + (m.element i).length, trailer m total i)

theorem packet_bytes_split (total a cnt i : ℕ) (h1 : a ≤ i) (h2 : i < a + cnt) :
    packet_bytes m total a cnt = packet_bytes m total a (i - a) ++ frag_bytes m total i
        ++ packet_bytes m total (i + 1) (a + cnt - (i + 1)) := by
  have hc : cnt = (i - a) + (1 + (a + cnt - (i + 1))) := by omega
  conv_lhs => rw [hc]
  rw [packet_bytes_add, packet_bytes_add, packet_bytes_one, append_assoc,
    show a + (i - a) = i by omega]

theorem read_trailer (hm : Fits lhs m) (a cnt i : ℕ) (ha : 1 ≤ a) (h1 : a ≤ i)
    (h2 : i < a + cnt) (hle : a + cnt ≤ m.body.length + 1) :
    read_fragment_header (packet_bytes m m.body.length a cnt)
        (trailer_addr m m.body.length a i).1 = trailer m m.body.length i := by
  have hlen := hm.element_le i (by omega) (by omega)
  have hmax := hm.le
  simp only [MAX_PACKET_SIZE, SIZEOF_FRAGMENT_HEADER, MAX_SCATTER_ELEMENTS] at hlen hmax
  have hread := read_encode (packet_bytes m m.body.length a (i - a) ++ m.element i)
    (packet_bytes m m.body.length (i + 1) (a + cnt - (i + 1))) (trailer m m.body.length i)
    (by simp only [trailer]; omega) (by simp only [trailer]; omega)
    (by simp only [trailer]; omega)
  rw [length_append] at hread
  rw [packet_bytes_split m.body.length a cnt i h1 h2, frag_bytes, ← append_assoc]
  exact hread

structure Scanned (m : SysScatter) (t0 a cnt j : ℕ) (s : Scan) : Prop where
  processed : s.processed = (packet_bytes m m.body.length (a + cnt - j) j).length
  total : s.total = if j = 0 then t0 else m.body.length
  array_idx : s.array_idx = if j = 0 then 0 else a + cnt - 1 - j
  max_array_idx : s.max_array_idx = if j = 0 then 0 else a + cnt - 1
  frag_addr : ∀ i, a + cnt - j ≤ i → i < a + cnt →
    s.frag_addr i = trailer_addr m m.body.length a i

theorem scan_step_scanned (hm : Fits lhs m) {t0 a cnt j : ℕ} {s : Scan} (ha : 1 ≤ a)
    (hle : a + cnt ≤ m.body.length + 1) (ht : t0 = 0 ∨ t0 = m.body.length) (hj : j < cnt)
    (hs : Scanned m t0 a cnt j s) :
    ∃ s', scan_step (packet_bytes m m.body.length a cnt) s = .ok s' ∧
      Scanned m t0 a cnt (j + 1) s' := by
  -- `i` is the fragment whose trailer is read now
  obtain ⟨i, hi⟩ : ∃ i, i = a + cnt - (j + 1) := ⟨_, rfl⟩
  have hn := hm.pos
  have hmax := hm.le
  simp only [MAX_SCATTER_ELEMENTS] at hmax
  have hproc := hs.processed
  rw [show a + cnt - j = i + 1 by omega] at hproc
  have hlen : (packet_bytes m m.body.length a cnt).length
      = (packet_bytes m m.body.length a (i - a)).length
        + ((m.element i).length + SIZEOF_FRAGMENT_HEADER) + s.processed := by
    rw [packet_bytes_split m.body.length a cnt i (by omega) (by omega), length_append,
      length_append, frag_bytes_length, hproc, show a + cnt - (i + 1) = j by omega]
  have hread := read_trailer hm a cnt i ha (by omega) (by omega) hle
  have hoff : (packet_bytes m m.body.length a cnt).length - s.processed - SIZEOF_FRAGMENT_HEADER
      = (trailer_addr m m.body.length a i).1 := by
    rw [hlen]; simp only [trailer_addr, SIZEOF_FRAGMENT_HEADER]; omega
  have htot : (if s.total = 0 then m.body.length else s.total) = m.body.length := by
    rw [hs.total]; split <;> split <;> omega
  have hidx : (if s.array_idx = 0 then i else s.array_idx) = i := by
    rw [hs.array_idx]; split <;> split <;> omega
  have hmaxidx : (if s.array_idx = 0 then i else s.max_array_idx) = a + cnt - 1 := by
    rw [hs.array_idx, hs.max_array_idx]; split <;> split <;> omega
  refine ⟨⟨s.processed + (SIZEOF_FRAGMENT_HEADER + (m.element i).length), m.body.length, i - 1,
    a + cnt - 1, update s.frag_addr i (trailer_addr m m.body.length a i)⟩, ?_, ?_⟩
  · rw [scan_step, if_neg (by rw [hlen]; simp only [SIZEOF_FRAGMENT_HEADER]; omega)]
    simp only [hoff, hread]
    simp only [trailer, htot, hidx, hmaxidx]
    rw [if_neg (by simp only [MAX_SCATTER_ELEMENTS]; omega), if_neg (by omega),
      if_neg (by omega), if_neg (by omega), if_neg (by rw [hlen]; omega)]
    rfl
  · refine ⟨?_, ?_, ?_, ?_, ?_⟩
    · have hfront : (packet_bytes m m.body.length i (j + 1)).length
          = ((m.element i).length + SIZEOF_FRAGMENT_HEADER) + s.processed := by
        rw [show j + 1 = 1 + j by omega, packet_bytes_add, packet_bytes_one, length_append,
          frag_bytes_length, hproc]
      dsimp only
      rw [show a + cnt - (j + 1) = i from hi.symm, hfront]
      omega
    · rw [if_neg (by omega)]
    · dsimp only
      rw [if_neg (by omega)]
      omega
    · rw [if_neg (by omega)]
    · intro k hk1 hk2
      dsimp only
      by_cases hki : k = i
      · rw [hki, update_self]
      · rw [update_of_ne hki, hs.frag_addr k (by omega) hk2]

theorem scan_loop_scanned (hm : Fits lhs m) {t0 a cnt : ℕ} (ha : 1 ≤ a)
    (hle : a + cnt ≤ m.body.length + 1) (ht : t0 = 0 ∨ t0 = m.body.length) (d : ℕ) :
    ∀ (fuel j : ℕ) (s : Scan), j + d = cnt → d ≤ fuel → Scanned m t0 a cnt j s →
      ∃ s', scan_loop (packet_bytes m m.body.length a cnt) fuel s = .ok s' ∧
        Scanned m t0 a cnt cnt s' := by
  -- the induction is on the number `d` of trailers still to be found
  induction d with
  | zero =>
    intro fuel j s hjd _ hs
    have hj : j = cnt := by omega
    subst hj
    have hdone : ¬ s.processed < (packet_bytes m m.body.length a j).length := by
      rw [hs.processed, Nat.add_sub_cancel]; omega
    refine ⟨s, ?_, hs⟩
    cases fuel with
    | zero => rfl
    | succ fuel => rw [scan_loop, if_neg hdone]
  | succ d ih =>
    intro fuel j s hjd hfuel hs
    obtain ⟨fuel, rfl⟩ : ∃ f, fuel = f + 1 := ⟨fuel - 1, by omega⟩
    obtain ⟨s', hstep, hs'⟩ := scan_step_scanned hm ha hle ht (by omega) hs
    have hmore : s.processed < (packet_bytes m m.body.length a cnt).length := by
      rw [hs.processed, packet_bytes_split m.body.length a cnt (a + cnt - (j + 1)) (by omega)
        (by omega), length_append, length_append, frag_bytes_length,
        show a + cnt - (j + 1) + 1 = a + cnt - j by omega,
        show a + cnt - (a + cnt - j) = j by omega]
      simp only [SIZEOF_FRAGMENT_HEADER]
      omega
    rw [scan_loop, if_pos hmore, hstep]
    exact ih fuel (j + 1) s' (by omega) (by omega) hs'

theorem fragment_at_trailer (a cnt i : ℕ) (h1 : a ≤ i) (h2 : i < a + cnt) :
    fragment_at (packet_bytes m m.body.length a cnt) (trailer_addr m m.body.length a i)
      = m.element i := by
  rw [fragment_at, packet_bytes_split m.body.length a cnt i h1 h2]
  simp only [trailer_addr, trailer, frag_bytes, Nat.add_sub_cancel, append_assoc]
  rw [drop_left, take_left]

theorem append_loop_spec (a cnt : ℕ) (addr : ℕ → ℕ × FragmentHeader)
    (haddr : ∀ i, a ≤ i → i < a + cnt → addr i = trailer_addr m m.body.length a i) (d : ℕ) :
    ∀ (i : ℕ) (w : WorkingMsg), a ≤ i → i + d = a + cnt → w.idx = i →
      append_loop (packet_bytes m m.body.length a cnt) addr i d w
        = (true, { w with body := w.body ++ (range' i d).map m.element, idx := i + d }) := by
  induction d with
  | zero =>
    intro i w _ _ hw
    rw [append_loop, range'_zero, map_nil, append_nil, Nat.add_zero, ← hw]
  | succ d ih =>
    intro i w h1 h2 hw
    have hai := haddr i h1 (by omega)
    rw [append_loop, if_neg (by rw [hai]; simp only [trailer_addr, trailer, hw]; omega), hai,
      fragment_at_trailer a cnt i h1 (by omega), ih (i + 1) _ (by omega) (by omega)
        (by dsimp only; omega)]
    simp only [range'_succ, map_cons, append_assoc, singleton_append]
    rw [show i + 1 + d = i + (d + 1) by omega]

end Rebuild

/-- **One packet is rebuilt.** A working message that waits for fragment `a`
(`total` still unset, or the message's own) takes the packet's fragments in
order; the call returns `1` exactly when they are the last ones. -/
theorem build_message_from_fragments_it_spec {lhs : ℕ} {m : SysScatter} (hm : Fits lhs m)
    (a cnt : ℕ) (ha : 1 ≤ a) (hcnt : 1 ≤ cnt) (hle : a + cnt ≤ m.body.length + 1)
    (w : WorkingMsg) (hidx : w.idx = a) (ht : w.total = 0 ∨ w.total = m.body.length) :
    build_message_from_fragments_it w (packet_bytes m m.body.length a cnt)
      = (if a + cnt = m.body.length + 1 then 1 else 0,
          ⟨true, w.body ++ (range' a cnt).map m.element, a + cnt, m.body.length⟩) := by
  have hstart : Scanned m w.total a cnt 0 ⟨0, w.total, 0, 0, fun _ => (0, ⟨0, 0, 0⟩)⟩ :=
    ⟨by rw [packet_bytes_zero]; rfl, rfl, rfl, rfl, fun i h1 h2 => by omega⟩
  -- a trailer takes four bytes, so the fuel `data_len` covers all of them
  have hfuel : ∀ c b : ℕ, c ≤ (packet_bytes m m.body.length b c).length := by
    intro c
    induction c with
    | zero => intro b; exact Nat.zero_le _
    | succ c ih =>
      intro b
      have hc := ih b
      rw [packet_bytes_add, packet_bytes_one, length_append, frag_bytes_length]
      simp only [SIZEOF_FRAGMENT_HEADER]
      omega
  obtain ⟨s, hscan, hs⟩ := scan_loop_scanned hm ha hle ht cnt _ 0 _ (by omega) (hfuel cnt a) hstart
  have h0 : ¬ cnt = 0 := by omega
  have harr : s.array_idx + 1 = a := by rw [hs.array_idx, if_neg h0]; omega
  have hcount : s.max_array_idx - s.array_idx = cnt := by
    rw [hs.max_array_idx, hs.array_idx, if_neg h0, if_neg h0]; omega
  have htotal : s.total = m.body.length := by rw [hs.total, if_neg h0]
  have happend := append_loop_spec (m := m) a cnt s.frag_addr
    (fun i h1 h2 => hs.frag_addr i (by omega) h2) cnt a
    { w with started := true, total := m.body.length } (le_refl _) rfl hidx
  rw [build_message_from_fragments_it, hscan]
  simp only [harr, hcount, htotal, happend]

end Spines.IntruTol
