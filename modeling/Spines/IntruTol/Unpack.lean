/-
`Build_Message_From_Fragments_IT` on any packet at all
(`daemon/intrusion_tol_udp.c`), and the looks that `Process_IT_Ack` takes at a
packet before it.

`Fragments.lean` follows the function on packets that a sender has packed. Here
the packet is arbitrary: what stands before it in memory is a parameter, since a
header may be read from there; every header that is read is recorded; and an
element of the working message says whether the message still holds its
reference.

`array_idx == 0` means "first header of the packet" and is also the value after a
fragment 1. `Loose` is what the backwards pass accepts, `InOrder` what it is there
to enforce.
-/
import Spines.IntruTol.Fragments

set_option autoImplicit false

namespace Spines.IntruTol.Unpack

open List Function

/-! ## 1. The working message -/

/-- An element of a scatter. `held` says that the scatter's reference has not
been released. -/
structure Element where
  bytes : Bytes
  held : Bool
  deriving DecidableEq

structure Working where
  elements : List Element
  idx : ℕ
  total : ℕ
  deriving DecidableEq

def Working.fresh : Working := ⟨[], 1, 0⟩

/-- `dec_ref_cnt` on all elements. They stay in the scatter. -/
def Working.release (w : Working) : Working :=
  { w with elements := w.elements.map (fun e => { e with held := false }) }

/-! ## 2. The backwards pass -/

/-- The byte at an address relative to the packet; `before k` stands `k + 1`
bytes before it. -/
def byte_at (before : ℕ → UInt8) (buff : Bytes) (i : ℤ) : UInt8 :=
  if 0 ≤ i then buff.getD i.toNat 0 else before ((-i).toNat - 1)

/-- `(fragment_header*)(buff + off)`. -/
def read_header (before : ℕ → UInt8) (buff : Bytes) (off : ℤ) : FragmentHeader where
  frag_length := (byte_at before buff off).toNat + 256 * (byte_at before buff (off + 1)).toNat
  frag_idx := (byte_at before buff (off + 2)).toNat
  frag_total := (byte_at before buff (off + 3)).toNat

def header_offset (buff : Bytes) (processed : ℕ) : ℤ :=
  (buff.length : ℤ) - processed - SIZEOF_FRAGMENT_HEADER

/-- One iteration. An error carries the return code and what `*total` is left
with. -/
def pass_step (before : ℕ → UInt8) (buff : Bytes) (s : Scan) : Except (ℤ × ℕ) Scan :=
  let off := header_offset buff s.processed
  let fh := read_header before buff off
  if fh.frag_total = 0 ∨ MAX_SCATTER_ELEMENTS - 1 < fh.frag_total then .error (-1, s.total)
  else
    let total := if s.total = 0 then fh.frag_total else s.total
    if total ≠ fh.frag_total then .error (-2, total)
    else if fh.frag_idx = 0 ∨ total < fh.frag_idx then .error (-3, total)
    else
      let array_idx := if s.array_idx = 0 then fh.frag_idx else s.array_idx
      let max_array_idx := if s.array_idx = 0 then fh.frag_idx else s.max_array_idx
      if fh.frag_idx ≠ array_idx then .error (-4, total)
      else
        let processed := s.processed + (SIZEOF_FRAGMENT_HEADER + fh.frag_length)
        if buff.length < processed then .error (-5, total)
        else
          .ok { processed, total, array_idx := array_idx - 1, max_array_idx
                frag_addr := update s.frag_addr fh.frag_idx (off.toNat, fh) }

/-- The pass: the offsets at which a header was read, and the outcome. An
iteration takes at least a header, so `data_len` iterations suffice. -/
def pass_loop (before : ℕ → UInt8) (buff : Bytes) : ℕ → Scan → List ℤ × Except (ℤ × ℕ) Scan
  | 0, s => ([], .ok s)
  | fuel + 1, s =>
    if s.processed < buff.length then
      match pass_step before buff s with
      | .error e => ([header_offset buff s.processed], .error e)
      | .ok s' =>
        let r := pass_loop before buff fuel s'
        (header_offset buff s.processed :: r.1, r.2)
    else ([], .ok s)

def start (total : ℕ) : Scan := ⟨0, total, 0, 0, fun _ => (0, ⟨0, 0, 0⟩)⟩

def pass (before : ℕ → UInt8) (buff : Bytes) (total : ℕ) : List ℤ × Except (ℤ × ℕ) Scan :=
  pass_loop before buff buff.length (start total)

/-! ## 3. The forwards pass -/

/-- `cnt` fragments from `array_idx` on; `false` is the return with `-6`. The
headers are those that the backwards pass has found. -/
def append_fragments (buff : Bytes) (frag_addr : ℕ → ℕ × FragmentHeader) :
    ℕ → ℕ → Working → Bool × Working
  | _, 0, w => (true, w)
  | array_idx, cnt + 1, w =>
    if array_idx ≠ w.idx ∨ (frag_addr array_idx).2.frag_idx ≠ w.idx then (false, w.release)
    else
      append_fragments buff frag_addr (array_idx + 1) cnt
        { w with
          elements := w.elements ++ [⟨fragment_at buff (frag_addr array_idx), true⟩]
          idx := w.idx + 1 }

/-- An empty message gets a packet header first; `phdr` are its bytes, of which
the function sets the type and the two lengths. -/
def with_header (phdr : Bytes) (elements : List Element) : List Element :=
  if elements = [] then [⟨phdr, true⟩] else elements

/-- `Build_Message_From_Fragments_IT`: the return value and the working message
it leaves. -/
def build_message_from_fragments_it (before : ℕ → UInt8) (phdr : Bytes) (w : Working)
    (buff : Bytes) : ℤ × Working :=
  match (pass before buff w.total).2 with
  | .error (code, total) => (code, { w with total := total })
  | .ok s =>
    let w := { w with total := s.total, elements := with_header phdr w.elements }
    match append_fragments buff s.frag_addr (s.array_idx + 1)
      (s.max_array_idx - s.array_idx) w with
    | (false, w) => (-6, w)
    | (true, w) => (if w.idx = w.total + 1 then 1 else 0, w)

/-! ## 4. Fragments and packets -/

structure Fragment where
  data : Bytes
  idx : ℕ
  total : ℕ
  fits : data.length < 65536
  valid : 1 ≤ idx ∧ idx ≤ total ∧ total < MAX_SCATTER_ELEMENTS

def Fragment.header (f : Fragment) : FragmentHeader := ⟨f.data.length, f.idx, f.total⟩

def Fragment.bytes (f : Fragment) : Bytes := f.data ++ f.header.encode

def packet (fs : List Fragment) : Bytes := fs.flatMap Fragment.bytes

/-- What the backwards pass accepts: the next fragment in the packet is the next
one of the message, or a fragment 1. `t` is what `*total` was. -/
structure Loose (t : ℕ) (fs : List Fragment) : Prop where
  chain : fs.IsChain (fun f g => g.idx = f.idx + 1 ∨ g.idx = 1)
  same : ∀ f ∈ fs, ∀ g ∈ fs, f.total = g.total
  total : t ≠ 0 → ∀ f ∈ fs, f.total = t

structure InOrder (w : Working) (fs : List Fragment) : Prop where
  some : fs ≠ []
  order : ∀ i (h : i < fs.length), (fs.get ⟨i, h⟩).idx = w.idx + i
  same : ∀ f ∈ fs, ∀ g ∈ fs, f.total = g.total
  total : w.total ≠ 0 → ∀ f ∈ fs, f.total = w.total

def first_run : List Fragment → List Fragment
  | [] => []
  | [f] => [f]
  | f :: g :: fs => if g.idx = f.idx + 1 then f :: first_run (g :: fs) else [f]

variable (before : ℕ → UInt8) (f : Fragment) (buff : Bytes) (fs : List Fragment)

theorem Fragment.bytes_length : f.bytes.length = f.data.length + SIZEOF_FRAGMENT_HEADER := by
  rw [Fragment.bytes, length_append, FragmentHeader.encode_length]

@[simp] theorem packet_nil : packet [] = [] := rfl

theorem packet_cons : packet (f :: fs) = f.bytes ++ packet fs :=
  rfl

theorem packet_append (fs gs : List Fragment) : packet (fs ++ gs) = packet fs ++ packet gs :=
  flatMap_append

theorem Fragment.header_fits :
    f.header.frag_length < 65536 ∧ f.header.frag_idx < 256 ∧ f.header.frag_total < 256 := by
  obtain ⟨h1, h2, h3⟩ := f.valid
  simp only [MAX_SCATTER_ELEMENTS] at h3
  exact ⟨f.fits, by simp only [Fragment.header]; omega, by simp only [Fragment.header]; omega⟩

theorem Fragment.last_unique {pre pre' : Bytes} {f g : Fragment}
    (h : pre ++ f.bytes = pre' ++ g.bytes) : f = g ∧ pre = pre' := by
  have hsplit : (pre ++ f.data) ++ f.header.encode = (pre' ++ g.data) ++ g.header.encode := by
    simpa only [Fragment.bytes, append_assoc] using h
  obtain ⟨hfront, henc⟩ := append_inj' hsplit rfl
  have hheader : f.header = g.header := by
    have hf := read_encode [] [] f.header f.header_fits.1 f.header_fits.2.1 f.header_fits.2.2
    have hg := read_encode [] [] g.header g.header_fits.1 g.header_fits.2.1 g.header_fits.2.2
    rw [henc] at hf
    exact hf.symm.trans hg
  have hlen : f.data.length = g.data.length := congrArg FragmentHeader.frag_length hheader
  obtain ⟨hpre, hdata⟩ := append_inj' hfront hlen
  have hidx : f.idx = g.idx := congrArg FragmentHeader.frag_idx hheader
  have htotal : f.total = g.total := congrArg FragmentHeader.frag_total hheader
  obtain ⟨fd, fi, ft, ff, fv⟩ := f
  obtain ⟨gd, gi, gt, gf, gv⟩ := g
  dsimp only at hdata hidx htotal
  subst hdata hidx htotal
  exact ⟨rfl, hpre⟩

theorem packet_unique {fs gs : List Fragment} (h : packet fs = packet gs) : fs = gs := by
  induction fs using List.reverseRecOn generalizing gs with
  | nil =>
    cases gs with
    | nil => rfl
    | cons g gs =>
      have hlen := congrArg List.length h
      simp only [packet_nil, packet_cons, length_nil, length_append,
        Fragment.bytes_length, SIZEOF_FRAGMENT_HEADER] at hlen
      omega
  | append_singleton fs f ih =>
    rcases eq_nil_or_concat gs with rfl | ⟨gs', g, rfl⟩
    · have hlen := congrArg List.length h
      simp [packet_append, packet_cons, Fragment.bytes_length, SIZEOF_FRAGMENT_HEADER] at hlen
    · simp only [concat_eq_append, packet_append, packet_cons, packet_nil,
        append_nil] at h ⊢
      obtain ⟨rfl, hrest⟩ := Fragment.last_unique h
      rw [ih hrest]

/-! ## 5. Reading a header -/

theorem read_header_inside (off : ℕ) :
    read_header before buff (off : ℤ) = read_fragment_header buff off := by
  have hbyte : ∀ k : ℕ, byte_at before buff ((off : ℤ) + k) = buff.getD (off + k) 0 := by
    intro k
    rw [byte_at, if_pos (by omega)]
    rfl
  have h0 : byte_at before buff (off : ℤ) = buff.getD off 0 := hbyte 0
  have h1 : byte_at before buff ((off : ℤ) + 1) = buff.getD (off + 1) 0 := hbyte 1
  have h2 : byte_at before buff ((off : ℤ) + 2) = buff.getD (off + 2) 0 := hbyte 2
  have h3 : byte_at before buff ((off : ℤ) + 3) = buff.getD (off + 3) 0 := hbyte 3
  simp only [read_header, read_fragment_header, h0, h1, h2, h3]

theorem header_offset_inside {buff : Bytes} {processed : ℕ}
    (h : processed + SIZEOF_FRAGMENT_HEADER ≤ buff.length) :
    header_offset buff processed = ((buff.length - processed - SIZEOF_FRAGMENT_HEADER : ℕ) : ℤ) := by
  simp only [header_offset]
  omega

theorem encode_read (off : ℕ) (h : off + SIZEOF_FRAGMENT_HEADER ≤ buff.length) :
    buff = buff.take off ++ (read_fragment_header buff off).encode
      ++ buff.drop (off + SIZEOF_FRAGMENT_HEADER) := by
  simp only [SIZEOF_FRAGMENT_HEADER] at h ⊢
  have hfour : buff.drop off = buff[off] :: buff[off + 1]
      :: buff[off + 2] :: buff[off + 3] :: buff.drop (off + 4) := by
    rw [drop_eq_getElem_cons (by omega), drop_eq_getElem_cons (by omega),
      drop_eq_getElem_cons (by omega), drop_eq_getElem_cons (by omega)]
  have hget : ∀ k (hk : off + k < buff.length), buff.getD (off + k) 0 = buff[off + k] :=
    fun k hk => getD_eq_getElem _ _ hk
  have h0 : buff.getD off 0 = buff[off] := getD_eq_getElem _ _ (by omega)
  have henc : (read_fragment_header buff off).encode = [buff[off],
      buff[off + 1], buff[off + 2], buff[off + 3]] := by
    simp only [FragmentHeader.encode, read_fragment_header, h0, hget 1 (by omega),
      hget 2 (by omega), hget 3 (by omega)]
    have hlow : (buff[off].toNat + 256 * buff[off + 1].toNat) % 256 = buff[off].toNat := by
      have := buff[off].toNat_lt
      omega
    have hhigh : (buff[off].toNat + 256 * buff[off + 1].toNat) / 256 = buff[off + 1].toNat := by
      have := buff[off].toNat_lt
      omega
    rw [hlow, hhigh]
    simp only [UInt8.ofNat_toNat]
  rw [henc, append_assoc, cons_append, cons_append, cons_append,
    cons_append, nil_append, ← hfour, take_append_drop]

/-! ## 6. The backwards pass -/

structure Taken (buff : Bytes) (s : Scan) (fh : FragmentHeader) : Prop where
  some : fh.frag_total ≠ 0
  few : fh.frag_total ≤ MAX_SCATTER_ELEMENTS - 1
  total : s.total ≠ 0 → s.total = fh.frag_total
  first : fh.frag_idx ≠ 0
  last : fh.frag_idx ≤ fh.frag_total
  next : s.array_idx ≠ 0 → fh.frag_idx = s.array_idx
  inside : s.processed + (SIZEOF_FRAGMENT_HEADER + fh.frag_length) ≤ buff.length

def take_fragment (s : Scan) (off : ℕ) (fh : FragmentHeader) : Scan where
  processed := s.processed + (SIZEOF_FRAGMENT_HEADER + fh.frag_length)
  total := fh.frag_total
  array_idx := fh.frag_idx - 1
  max_array_idx := if s.array_idx = 0 then fh.frag_idx else s.max_array_idx
  frag_addr := update s.frag_addr fh.frag_idx (off, fh)

section Step

variable {before : ℕ → UInt8} {buff : Bytes} {s : Scan}

theorem pass_step_taken
    (h : Taken buff s (read_header before buff (header_offset buff s.processed))) :
    pass_step before buff s = .ok (take_fragment s (header_offset buff s.processed).toNat
      (read_header before buff (header_offset buff s.processed))) := by
  obtain ⟨hsome, hfew, htotal, hfirst, hlast, hnext, hinside⟩ := h
  rw [pass_step]
  generalize header_offset buff s.processed = off at *
  generalize read_header before buff off = fh at *
  have htot : (if s.total = 0 then fh.frag_total else s.total) = fh.frag_total := by
    by_cases h0 : s.total = 0
    · rw [if_pos h0]
    · rw [if_neg h0, htotal h0]
  have hidx : (if s.array_idx = 0 then fh.frag_idx else s.array_idx) = fh.frag_idx := by
    by_cases h0 : s.array_idx = 0
    · rw [if_pos h0]
    · rw [if_neg h0, hnext h0]
  simp only [htot, hidx]
  rw [if_neg (by omega), if_neg (by simp), if_neg (by omega), if_neg (by simp),
    if_neg (by omega)]
  rfl

theorem pass_step_refused
    (h : ¬ Taken buff s (read_header before buff (header_offset buff s.processed))) :
    ∃ code : ℤ, code < 0 ∧ -6 < code ∧ ∃ total, pass_step before buff s = .error (code, total)
      ∧ (total = s.total ∨ s.total = 0
        ∧ total = (read_header before buff (header_offset buff s.processed)).frag_total
        ∧ total ≠ 0 ∧ total ≤ MAX_SCATTER_ELEMENTS - 1) ∧ (s.total = 0 → total = 0 →
        (read_header before buff (header_offset buff s.processed)).frag_total = 0
        ∨ MAX_SCATTER_ELEMENTS - 1
          < (read_header before buff (header_offset buff s.processed)).frag_total) := by
  rw [pass_step]
  generalize header_offset buff s.processed = off at *
  generalize read_header before buff off = fh at *
  by_cases hbad : fh.frag_total = 0 ∨ MAX_SCATTER_ELEMENTS - 1 < fh.frag_total
  · exact ⟨-1, by decide, by decide, s.total, if_pos hbad, .inl rfl, fun _ _ => hbad⟩
  · -- from here on the total is that of the message, or that of this header
    simp only [if_neg hbad]
    generalize htot : (if s.total = 0 then fh.frag_total else s.total) = total
    have hset : total = s.total ∨ s.total = 0 ∧ total = fh.frag_total ∧ total ≠ 0
        ∧ total ≤ MAX_SCATTER_ELEMENTS - 1 := by
      by_cases h0 : s.total = 0
      · rw [if_pos h0] at htot
        exact .inr ⟨h0, htot.symm, by omega, by omega⟩
      · rw [if_neg h0] at htot
        exact .inl htot.symm
    have hzero : s.total = 0 → total = 0 →
        fh.frag_total = 0 ∨ MAX_SCATTER_ELEMENTS - 1 < fh.frag_total := by
      intro h0 htz
      rw [if_pos h0] at htot
      exact .inl (htot.trans htz)
    by_cases h2 : total ≠ fh.frag_total
    · exact ⟨-2, by decide, by decide, total, if_pos h2, hset, hzero⟩
    · rw [if_neg h2]
      by_cases h3 : fh.frag_idx = 0 ∨ total < fh.frag_idx
      · exact ⟨-3, by decide, by decide, total, if_pos h3, hset, hzero⟩
      · rw [if_neg h3]
        by_cases h4 : fh.frag_idx ≠ if s.array_idx = 0 then fh.frag_idx else s.array_idx
        · exact ⟨-4, by decide, by decide, total, if_pos h4, hset, hzero⟩
        · rw [if_neg h4]
          by_cases h5 : buff.length < s.processed + (SIZEOF_FRAGMENT_HEADER + fh.frag_length)
          · exact ⟨-5, by decide, by decide, total, if_pos h5, hset, hzero⟩
          · refine absurd ?_ h
            constructor
            case some => omega
            case few => omega
            case total =>
              intro h0
              rw [if_neg h0] at htot
              omega
            case first => omega
            case last => omega
            case next =>
              intro h0
              rw [if_neg h0] at h4
              omega
            case inside => omega

end Step

structure Scanned (t : ℕ) (buff : Bytes) (fs : List Fragment) (s : Scan) : Prop where
  rest : ∃ pre, buff = pre ++ packet fs
  loose : Loose t fs
  processed : s.processed = (packet fs).length
  unset : fs = [] → s.total = t
  total : ∀ f ∈ fs, f.total = s.total
  array_idx : s.array_idx = match fs with
    | [] => 0
    | f :: _ => f.idx - 1
  max_array_idx : s.max_array_idx = s.array_idx + (first_run fs).length
  addr : ∀ i f, (first_run fs)[i]? = some f →
    (s.frag_addr (s.array_idx + 1 + i)).2 = f.header
      ∧ fragment_at buff (s.frag_addr (s.array_idx + 1 + i)) = f.data

theorem Scanned.start (t : ℕ) (buff : Bytes) : Scanned t buff [] (start t) where
  rest := ⟨buff, by simp⟩
  loose := ⟨List.IsChain.nil, by simp, by simp⟩
  processed := rfl
  unset _ := rfl
  total := by simp
  array_idx := rfl
  max_array_idx := rfl
  addr := by simp [first_run]

theorem first_run_cons :
    first_run (f :: fs) = f :: (match fs with
      | [] => []
      | g :: _ => if g.idx = f.idx + 1 then first_run fs else []) := by
  cases fs with
  | nil => rfl
  | cons g fs =>
    rw [first_run]
    by_cases h : g.idx = f.idx + 1
    · simp only [if_pos h]
    · simp only [if_neg h]

theorem Loose.tail {t : ℕ} {f : Fragment} {fs : List Fragment} (h : Loose t (f :: fs)) :
    Loose t fs where
  chain := h.chain.tail
  same a ha b hb := h.same a (mem_cons_of_mem f ha) b (mem_cons_of_mem f hb)
  total ht a ha := h.total ht a (mem_cons_of_mem f ha)

section Scan

variable (before : ℕ → UInt8) {buff : Bytes} {t : ℕ} {fs : List Fragment} {s : Scan}

theorem Scanned.header (h : Scanned t buff fs s) {pre : Bytes} {f : Fragment}
    (hbuff : buff = pre ++ f.bytes ++ packet fs) :
    read_header before buff (header_offset buff s.processed) = f.header
      ∧ (header_offset buff s.processed).toNat = pre.length + f.data.length := by
  have hlen : buff.length = pre.length + (f.data.length + SIZEOF_FRAGMENT_HEADER)
      + s.processed := by
    rw [h.processed, hbuff]
    simp only [length_append, Fragment.bytes_length]
  have hoff : header_offset buff s.processed = ((pre.length + f.data.length : ℕ) : ℤ) := by
    rw [header_offset_inside (by omega)]
    congr 1
    omega
  refine ⟨?_, by rw [hoff]; rfl⟩
  rw [hoff, read_header_inside]
  have hread := read_encode (pre ++ f.data) (packet fs) f.header f.header_fits.1
    f.header_fits.2.1 f.header_fits.2.2
  rw [length_append] at hread
  rw [hbuff, Fragment.bytes, ← append_assoc]
  exact hread

theorem Scanned.step (h : Scanned t buff fs s) {pre : Bytes} {f : Fragment}
    (hbuff : buff = pre ++ f.bytes ++ packet fs) (hloose : Loose t (f :: fs)) :
    ∃ s', pass_step before buff s = .ok s' ∧ Scanned t buff (f :: fs) s' := by
  obtain ⟨hread, hoff⟩ := h.header before hbuff
  have hlen : buff.length = pre.length + (f.data.length + SIZEOF_FRAGMENT_HEADER)
      + s.processed := by
    rw [h.processed, hbuff]
    simp only [length_append, Fragment.bytes_length]
  obtain ⟨hone, hle, hmax⟩ := f.valid
  have htotal : s.total ≠ 0 → s.total = f.total := by
    intro h0
    cases fs with
    | nil =>
      have hst := h.unset rfl
      rw [hst] at h0 ⊢
      exact (hloose.total h0 f (mem_cons_self ..)).symm
    | cons g gs =>
      rw [← h.total g (mem_cons_self ..)]
      exact hloose.same g (by simp) f (by simp)
  have hnext : s.array_idx ≠ 0 → f.idx = s.array_idx := by
    intro h0
    have harr := h.array_idx
    cases fs with
    | nil => exact absurd harr h0
    | cons g gs =>
      rcases (isChain_cons_cons.mp hloose.chain).1 with hg | hg
      · rw [harr]
        dsimp only
        omega
      · rw [harr] at h0
        dsimp only at h0
        omega
  have htaken : Taken buff s f.header := by
    constructor
    case some => simp only [Fragment.header]; omega
    case few => simp only [Fragment.header]; omega
    case total => exact htotal
    case first => simp only [Fragment.header]; omega
    case last => exact hle
    case next => exact hnext
    case inside => simp only [Fragment.header]; omega
  rw [← hread] at htaken
  refine ⟨_, pass_step_taken htaken, ?_⟩
  rw [hread, hoff]
  constructor
  case rest => exact ⟨pre, by rw [packet_cons, ← append_assoc]; exact hbuff⟩
  case loose => exact hloose
  case processed =>
    rw [packet_cons, length_append, Fragment.bytes_length, ← h.processed]
    simp only [take_fragment, Fragment.header]
    omega
  case unset => exact fun hnil => absurd hnil (cons_ne_nil f fs)
  case total => exact fun g hg => hloose.same g hg f (mem_cons_self ..)
  case array_idx => rfl
  case max_array_idx =>
    have harr := h.array_idx
    have hmaxi := h.max_array_idx
    rw [first_run_cons]
    cases fs with
    | nil =>
      dsimp only at harr
      simp only [take_fragment, harr, if_true, Fragment.header, length_singleton]
      omega
    | cons g gs =>
      dsimp only at harr
      obtain ⟨hgone, -, -⟩ := g.valid
      rcases (isChain_cons_cons.mp hloose.chain).1 with hg | hg
      · have h0 : s.array_idx ≠ 0 := by omega
        simp only [take_fragment, if_neg h0, if_pos hg, Fragment.header, length_cons, hmaxi]
        omega
      · have h0 : s.array_idx = 0 := by omega
        have hne : ¬ g.idx = f.idx + 1 := by omega
        simp only [take_fragment, if_pos h0, if_neg hne, Fragment.header, length_cons,
          length_nil]
        omega
  case addr =>
    intro i a hi
    have hself : fragment_at buff (pre.length + f.data.length, f.header) = f.data := by
      rw [fragment_at, hbuff]
      simp only [Fragment.header, Nat.add_sub_cancel, Fragment.bytes, append_assoc]
      rw [drop_left, take_left]
    rw [first_run_cons] at hi
    cases i with
    | zero =>
      obtain rfl : f = a := by simpa using hi
      have hat : f.header.frag_idx - 1 + 1 = f.header.frag_idx := by
        simp only [Fragment.header]
        omega
      dsimp only [take_fragment, Nat.add_zero]
      rw [hat, update_self]
      exact ⟨rfl, hself⟩
    | succ i =>
      -- an earlier find of the same run
      cases fs with
      | nil => simp at hi
      | cons g gs =>
        by_cases hg : g.idx = f.idx + 1
        · simp only [if_pos hg, List.getElem?_cons_succ] at hi
          have harr : s.array_idx = f.idx := by
            rw [h.array_idx]
            dsimp only
            omega
          have hold := h.addr i a hi
          have hat : f.header.frag_idx - 1 + 1 + (i + 1) = s.array_idx + 1 + i := by
            simp only [Fragment.header]
            omega
          have hne : s.array_idx + 1 + i ≠ f.header.frag_idx := by
            simp only [Fragment.header]
            omega
          simp only [take_fragment, hat, update_of_ne hne]
          exact hold
        · simp [if_neg hg] at hi

variable {before}

theorem Scanned.found (h : Scanned t buff fs s)
    (htaken : Taken buff s (read_header before buff (header_offset buff s.processed))) :
    ∃ pre f, buff = pre ++ f.bytes ++ packet fs ∧ Loose t (f :: fs) := by
  obtain ⟨pre, hpre⟩ := h.rest
  have hlen : buff.length = pre.length + s.processed := by
    rw [h.processed, hpre, length_append]
  obtain ⟨hsome, hfew, htotal, hfirst, hlast, hnext, hinside⟩ := htaken
  have hfour : s.processed + SIZEOF_FRAGMENT_HEADER ≤ buff.length := by omega
  have hread : read_header before buff (header_offset buff s.processed)
      = read_fragment_header pre (pre.length - SIZEOF_FRAGMENT_HEADER) := by
    rw [header_offset_inside hfour, read_header_inside]
    have hoff : buff.length - s.processed - SIZEOF_FRAGMENT_HEADER
        = pre.length - SIZEOF_FRAGMENT_HEADER := by omega
    rw [hoff]
    simp only [SIZEOF_FRAGMENT_HEADER] at hfour ⊢
    simp only [read_fragment_header, hpre]
    rw [getD_append _ _ _ _ (by omega), getD_append _ _ _ _ (by omega),
      getD_append _ _ _ _ (by omega), getD_append _ _ _ _ (by omega)]
  rw [hread] at hsome hfew htotal hfirst hlast hnext hinside
  -- the bytes before the header are the fragment's data
  have hsplit := encode_read pre (pre.length - SIZEOF_FRAGMENT_HEADER) (by omega)
  rw [drop_of_length_le (by omega), append_nil] at hsplit
  generalize hfh : read_fragment_header pre (pre.length - SIZEOF_FRAGMENT_HEADER) = fh at *
  generalize hfront : pre.take (pre.length - SIZEOF_FRAGMENT_HEADER) = front at *
  have hflen : front.length = pre.length - SIZEOF_FRAGMENT_HEADER := by
    rw [← hfront, length_take]
    omega
  have hdlen : (front.drop (front.length - fh.frag_length)).length = fh.frag_length := by
    rw [length_drop]
    omega
  have hfits : fh.frag_length < 65536 := by
    rw [← hfh]
    have h1 := (pre.getD (pre.length - SIZEOF_FRAGMENT_HEADER) 0).toNat_lt
    have h2 := (pre.getD (pre.length - SIZEOF_FRAGMENT_HEADER + 1) 0).toNat_lt
    simp only [read_fragment_header]
    omega
  let f : Fragment :=
    { data := front.drop (front.length - fh.frag_length)
      idx := fh.frag_idx
      total := fh.frag_total
      fits := by rw [hdlen]; exact hfits
      valid := ⟨by omega, hlast, by simp only [MAX_SCATTER_ELEMENTS] at hfew ⊢; omega⟩ }
  have hheader : f.header = fh := by
    simp only [f, Fragment.header, hdlen]
  refine ⟨front.take (front.length - fh.frag_length), f, ?_, ?_⟩
  · rw [hpre]
    congr 1
    rw [hsplit, Fragment.bytes, hheader, ← append_assoc, take_append_drop]
  · constructor
    case chain =>
      cases fs with
      | nil => exact isChain_singleton f
      | cons g gs =>
        refine isChain_cons_cons.mpr ⟨?_, h.loose.chain⟩
        have harr := h.array_idx
        dsimp only at harr
        obtain ⟨hgone, -, -⟩ := g.valid
        by_cases h0 : s.array_idx = 0
        · exact .inr (by omega)
        · have hn := hnext h0
          refine .inl ?_
          show g.idx = fh.frag_idx + 1
          omega
    case same =>
      have hst : ∀ a ∈ f :: fs, a.total = fh.frag_total := by
        intro a ha
        rcases mem_cons.mp ha with rfl | ha
        · rfl
        · obtain ⟨h1, h2, -⟩ := a.valid
          have hs := h.total a ha
          rw [hs]
          exact htotal (by omega)
      intro a ha b hb
      rw [hst a ha, hst b hb]
    case total =>
      intro ht a ha
      rcases mem_cons.mp ha with rfl | ha
      · cases fs with
        | nil =>
          have hst := h.unset rfl
          show fh.frag_total = t
          rw [← hst]
          exact (htotal (by omega)).symm
        | cons g gs =>
          have hg := h.loose.total ht g (mem_cons_self ..)
          have hs := h.total g (mem_cons_self ..)
          show fh.frag_total = t
          rw [← hg, hs]
          exact (htotal (by omega)).symm
      · exact h.loose.total ht a ha

end Scan

/-! ## 7. The whole pass -/

section Pass

variable (before : ℕ → UInt8) {buff : Bytes} {t : ℕ} {fs : List Fragment} {s : Scan}

theorem Scanned.length (h : Scanned t buff fs s) {pre : Bytes} (hpre : buff = pre ++ packet fs) :
    buff.length = pre.length + s.processed := by
  rw [h.processed, hpre, length_append]

theorem Scanned.front (h : Scanned t buff fs s) (hdone : ¬ s.processed < buff.length) (n : ℕ) :
    pass_loop before buff n s = ([], .ok s) ∧ buff = packet fs := by
  obtain ⟨pre, hpre⟩ := h.rest
  have hlen := h.length hpre
  have hnil : pre = [] := length_eq_zero_iff.mp (by omega)
  refine ⟨?_, by rw [hpre, hnil, nil_append]⟩
  cases n with
  | zero => rfl
  | succ n => rw [pass_loop, if_neg hdone]

theorem last_before (rest : Bytes) {gs : List Fragment}
    (hbuff : buff = rest ++ packet (gs ++ fs)) (hloose : Loose t (gs ++ fs)) (hgs : gs ≠ []) :
    ∃ gs' g, gs = gs' ++ [g] ∧ buff = rest ++ packet gs' ++ g.bytes ++ packet fs
      ∧ Loose t (g :: fs) := by
  obtain ⟨gs', g, rfl⟩ := (eq_nil_or_concat gs).resolve_left hgs
  have hcons : gs'.concat g ++ fs = gs' ++ (g :: fs) := by simp
  rw [hcons] at hbuff hloose
  refine ⟨gs', g, concat_eq_append, ?_, ?_⟩
  · rw [hbuff, packet_append, packet_cons]
    simp only [append_assoc]
  · exact ⟨hloose.chain.right_of_append,
      fun a ha b hb => hloose.same a (mem_append_right gs' ha) b
        (mem_append_right gs' hb),
      fun ht a ha => hloose.total ht a (mem_append_right gs' ha)⟩

theorem Scanned.iterate (h : Scanned t buff fs s) : (∃ e : ℤ × ℕ, pass_step before buff s = .error e
      ∧ ∀ pre f, buff = pre ++ f.bytes ++ packet fs → ¬ Loose t (f :: fs))
    ∨ ∃ f s1, pass_step before buff s = .ok s1 ∧ Scanned t buff (f :: fs) s1
      ∧ s.processed + SIZEOF_FRAGMENT_HEADER ≤ s1.processed
      ∧ ∀ pre g, buff = pre ++ g.bytes ++ packet fs → g = f := by
  by_cases htaken : Taken buff s (read_header before buff (header_offset buff s.processed))
  · obtain ⟨front, f, hbuff, hloose⟩ := h.found htaken
    obtain ⟨s1, hs1, h1⟩ := h.step before hbuff hloose
    refine .inr ⟨f, s1, hs1, h1, ?_, ?_⟩
    · rw [h1.processed, packet_cons, length_append, Fragment.bytes_length, ← h.processed]
      omega
    · intro pre g hg
      have hsame := hg.symm.trans hbuff
      exact (Fragment.last_unique (append_cancel_right hsame)).1
  · obtain ⟨code, -, -, total, herr, -⟩ := pass_step_refused htaken
    refine .inl ⟨(code, total), herr, fun pre f hbuff hloose => ?_⟩
    obtain ⟨s1, hs1, -⟩ := h.step before hbuff hloose
    rw [hs1] at herr
    simp at herr

/-- The outcome at the front, in the form that the induction needs. -/
theorem Scanned.filled (h : Scanned t buff fs s) (hdone : ¬ s.processed < buff.length) (n : ℕ) :
    (∀ s', (pass_loop before buff n s).2 = .ok s' →
      ∃ gs, buff = packet (gs ++ fs) ∧ Scanned t buff (gs ++ fs) s')
    ∧ ∀ gs, buff = packet (gs ++ fs) → Loose t (gs ++ fs) →
      ∃ s', (pass_loop before buff n s).2 = .ok s' := by
  obtain ⟨heq, hbuff⟩ := h.front before hdone n
  rw [heq]
  refine ⟨fun s' hs' => ?_, fun gs _ _ => ⟨s, rfl⟩⟩
  obtain rfl : s = s' := by simpa using hs'
  exact ⟨[], hbuff, h⟩

theorem Scanned.run (fuel : ℕ) (h : Scanned t buff fs s)
    (hfuel : buff.length - s.processed ≤ fuel) : (∀ s', (pass_loop before buff fuel s).2 = .ok s' →
      ∃ gs, buff = packet (gs ++ fs) ∧ Scanned t buff (gs ++ fs) s')
    ∧ ∀ gs, buff = packet (gs ++ fs) → Loose t (gs ++ fs) →
      ∃ s', (pass_loop before buff fuel s).2 = .ok s' := by
  induction fuel generalizing fs s with
  | zero => exact h.filled before (by omega) 0
  | succ fuel ih =>
    by_cases hmore : s.processed < buff.length
    · -- fragments that fill the packet are not used up yet
      have hsome : ∀ gs, buff = packet (gs ++ fs) → gs ≠ [] := by
        rintro gs hgs rfl
        rw [nil_append] at hgs
        rw [hgs, h.processed] at hmore
        omega
      rw [pass_loop, if_pos hmore]
      rcases h.iterate before with ⟨e, herr, hnone⟩ | ⟨f, s1, hs1, h1, hproc, honly⟩
      · rw [herr]
        refine ⟨fun s' hs' => by simp at hs', fun gs hgs hgsl => ?_⟩
        obtain ⟨gs', g, -, hg, hloose⟩ := last_before [] hgs hgsl (hsome gs hgs)
        exact absurd hloose (hnone _ g hg)
      · rw [hs1]
        simp only [SIZEOF_FRAGMENT_HEADER] at hproc
        obtain ⟨hsound, hcomplete⟩ := ih h1 (by omega)
        constructor
        · intro s' hs'
          obtain ⟨gs, hgs, h'⟩ := hsound s' hs'
          exact ⟨gs ++ [f], by rw [append_assoc]; exact hgs,
            by rw [append_assoc]; exact h'⟩
        · intro gs hgs hgsl
          obtain ⟨gs', g, rfl, hg, -⟩ := last_before [] hgs hgsl (hsome gs hgs)
          obtain rfl := honly _ g hg
          rw [append_assoc] at hgs hgsl
          exact hcomplete gs' hgs hgsl
    · exact h.filled before hmore (fuel + 1)

/-- `fs` at the end of the packet may stand there, and fewer bytes than a header
takes stand before it. -/
def Short (t : ℕ) (buff : Bytes) (fs : List Fragment) : Prop :=
  ∃ rest gs, buff = rest ++ packet (gs ++ fs) ∧ Loose t (gs ++ fs) ∧ 0 < rest.length
    ∧ rest.length < SIZEOF_FRAGMENT_HEADER

theorem Scanned.reads (fuel : ℕ) (h : Scanned t buff fs s)
    (hfuel : buff.length - s.processed ≤ fuel) :
    (∀ off ∈ (pass_loop before buff fuel s).1,
      0 ≤ off ∧ off + SIZEOF_FRAGMENT_HEADER ≤ buff.length) ↔ ¬ Short t buff fs := by
  induction fuel generalizing fs s with
  | zero =>
    obtain ⟨heq, hbuff⟩ := h.front before (by omega) 0
    rw [heq]
    refine ⟨?_, by simp⟩
    rintro - ⟨rest, gs, hgs, -, hpos, -⟩
    have hlen := congrArg List.length (hbuff.symm.trans hgs)
    rw [packet_append] at hlen
    simp only [length_append] at hlen
    omega
  | succ fuel ih =>
    obtain ⟨pre, hpre⟩ := h.rest
    have hlen := h.length hpre
    by_cases hmore : s.processed < buff.length
    · rw [pass_loop, if_pos hmore]
      by_cases hfour : s.processed + SIZEOF_FRAGMENT_HEADER ≤ buff.length
      · have hhere : 0 ≤ header_offset buff s.processed
            ∧ header_offset buff s.processed + SIZEOF_FRAGMENT_HEADER ≤ buff.length := by
          simp only [header_offset]
          omega
        -- here there is room for a header, so a short place has a fragment before it
        have hsome : ∀ rest gs, buff = rest ++ packet (gs ++ fs) →
            rest.length < SIZEOF_FRAGMENT_HEADER → gs ≠ [] := by
          rintro rest gs hgs hshort rfl
          rw [nil_append] at hgs
          have hl := h.length hgs
          omega
        rcases h.iterate before with ⟨e, herr, hnone⟩ | ⟨f, s1, hs1, h1, hproc, honly⟩
        · rw [herr]
          constructor
          · rintro - ⟨rest, gs, hgs, hgsl, hpos, hshort⟩
            obtain ⟨gs', g, -, hg, hloose⟩ := last_before rest hgs hgsl (hsome rest gs hgs hshort)
            exact hnone _ g hg hloose
          · intro _ off hoff
            obtain rfl := mem_singleton.mp hoff
            exact hhere
        · rw [hs1]
          simp only [SIZEOF_FRAGMENT_HEADER] at hproc
          have hstep : Short t buff fs ↔ Short t buff (f :: fs) := by
            constructor
            · rintro ⟨rest, gs, hgs, hgsl, hpos, hshort⟩
              obtain ⟨gs', g, rfl, hg, -⟩ := last_before rest hgs hgsl (hsome rest gs hgs hshort)
              obtain rfl := honly _ g hg
              rw [append_assoc] at hgs hgsl
              exact ⟨rest, gs', hgs, hgsl, hpos, hshort⟩
            · rintro ⟨rest, gs, hgs, hgsl, hpos, hshort⟩
              refine ⟨rest, gs ++ [f], ?_, ?_, hpos, hshort⟩
              · rw [append_assoc]
                exact hgs
              · rw [append_assoc]
                exact hgsl
          rw [hstep, ← ih h1 (by omega)]
          simp only [mem_cons, forall_eq_or_imp]
          exact and_iff_right hhere
      · -- too few bytes are left
        have hbad : ¬ 0 ≤ header_offset buff s.processed := by
          simp only [header_offset]
          omega
        have hshort : Short t buff fs :=
          ⟨pre, [], hpre, h.loose, by omega, by omega⟩
        refine iff_of_false (fun hall => hbad ?_) (fun hno => hno hshort)
        refine (hall _ ?_).1
        cases pass_step before buff s with
        | error e => exact mem_singleton.mpr rfl
        | ok s1 => exact mem_cons_self ..
    · obtain ⟨heq, hbuff⟩ := h.front before hmore (fuel + 1)
      rw [heq]
      refine ⟨?_, by simp⟩
      rintro - ⟨rest, gs, hgs, -, hpos, -⟩
      have hl := congrArg List.length (hbuff.symm.trans hgs)
      rw [packet_append] at hl
      simp only [length_append] at hl
      omega

end Pass

/-! ## 8. The forwards pass -/

theorem first_run_idx : ∀ i g, (first_run (f :: fs))[i]? = some g → g.idx = f.idx + i := by
  induction fs generalizing f with
  | nil =>
    intro i g hi
    rw [first_run_cons] at hi
    cases i with
    | zero =>
      obtain rfl : f = g := by simpa using hi
      rfl
    | succ i => simp at hi
  | cons a fs ih =>
    intro i g hi
    rw [first_run_cons] at hi
    cases i with
    | zero =>
      obtain rfl : f = g := by simpa using hi
      rfl
    | succ i =>
      by_cases ha : a.idx = f.idx + 1
      · simp only [if_pos ha, List.getElem?_cons_succ] at hi
        have hg := ih a i g hi
        omega
      · simp [if_neg ha] at hi

def Fragment.element (f : Fragment) : Element := ⟨f.data, true⟩

theorem append_fragments_run {addr : ℕ → ℕ × FragmentHeader}
    (run : List Fragment) : ∀ (a : ℕ) (w : Working), w.idx = a →
    (∀ i f, run[i]? = some f → f.idx = a + i ∧ (addr (a + i)).2 = f.header
      ∧ fragment_at buff (addr (a + i)) = f.data) →
    append_fragments buff addr a run.length w = (true,
      { w with
        elements := w.elements ++ run.map Fragment.element
        idx := w.idx + run.length }) := by
  induction run with
  | nil =>
    intro a w _ _
    simp [append_fragments]
  | cons f run ih =>
    intro a w hw haddr
    obtain ⟨hidx, hheader, hdata⟩ := haddr 0 f rfl
    rw [Nat.add_zero] at hidx hheader hdata
    have hgo : ¬ (a ≠ w.idx ∨ (addr a).2.frag_idx ≠ w.idx) := by
      rw [hheader]
      simp only [Fragment.header]
      omega
    rw [length_cons, append_fragments, if_neg hgo, hdata]
    have hrest := ih (a + 1) { w with elements := w.elements ++ [f.element], idx := w.idx + 1 }
      (by dsimp only; omega) (by
        intro i g hi
        have hg := haddr (i + 1) g hi
        rw [Nat.add_assoc, Nat.add_comm 1 i]
        exact hg)
    refine hrest.trans ?_
    simp only [map_cons, append_assoc, singleton_append]
    rw [Nat.add_assoc, Nat.add_comm 1 run.length]

/-! ## 9. What the function does -/

section Build

variable (before : ℕ → UInt8) (phdr : Bytes) (w : Working) {buff : Bytes}

theorem pass_filled {s : Scan} (h : (pass before buff w.total).2 = .ok s) :
    ∃ fs, buff = packet fs ∧ Scanned w.total buff fs s := by
  obtain ⟨gs, hgs, hscan⟩ :=
    ((Scanned.start w.total buff).run before buff.length (Nat.sub_le _ _)).1 s h
  rw [append_nil] at hgs hscan
  exact ⟨gs, hgs, hscan⟩

variable {fs : List Fragment}

theorem pass_of_loose (hbuff : buff = packet fs) (h : Loose w.total fs) :
    ∃ s, (pass before buff w.total).2 = .ok s ∧ Scanned w.total buff fs s := by
  obtain ⟨s, hs⟩ := ((Scanned.start w.total buff).run before buff.length (Nat.sub_le _ _)).2 fs
    (by rw [append_nil]; exact hbuff) (by rw [append_nil]; exact h)
  obtain ⟨gs, hgs, hscan⟩ := pass_filled before w hs
  obtain rfl : fs = gs := packet_unique (hbuff.symm.trans hgs)
  exact ⟨s, hs, hscan⟩

theorem build_empty :
    build_message_from_fragments_it before phdr w [] = (if w.idx = w.total + 1 then 1 else 0,
      { w with elements := with_header phdr w.elements }) := rfl

theorem pass_handed {f : Fragment} (hbuff : buff = packet (f :: fs)) (h : Loose w.total (f :: fs)) :
    ∃ s, (pass before buff w.total).2 = .ok s ∧ s.total = f.total ∧ s.array_idx + 1 = f.idx
      ∧ s.max_array_idx - s.array_idx = (first_run (f :: fs)).length
      ∧ ∀ i g, (first_run (f :: fs))[i]? = some g → g.idx = f.idx + i
        ∧ (s.frag_addr (f.idx + i)).2 = g.header
        ∧ fragment_at buff (s.frag_addr (f.idx + i)) = g.data := by
  obtain ⟨s, hs, hscan⟩ := pass_of_loose before w hbuff h
  have hmax := hscan.max_array_idx
  obtain ⟨hone, -, -⟩ := f.valid
  have harr : s.array_idx + 1 = f.idx := by
    rw [hscan.array_idx]
    dsimp only
    omega
  refine ⟨s, hs, (hscan.total f (mem_cons_self ..)).symm, harr, by omega, ?_⟩
  intro i g hi
  have hg := hscan.addr i g hi
  rw [harr] at hg
  exact ⟨first_run_idx f fs i g hi, hg⟩

theorem build_next {f : Fragment} (hbuff : buff = packet (f :: fs))
    (h : Loose w.total (f :: fs)) (hidx : f.idx = w.idx) :
    build_message_from_fragments_it before phdr w buff =
      (if w.idx + (first_run (f :: fs)).length = f.total + 1 then 1 else 0,
        { elements := with_header phdr w.elements
            ++ (first_run (f :: fs)).map Fragment.element
          idx := w.idx + (first_run (f :: fs)).length
          total := f.total }) := by
  obtain ⟨s, hs, htotal, harr, hcount, haddr⟩ := pass_handed before w hbuff h
  have hrun := append_fragments_run buff (first_run (f :: fs)) f.idx
    { w with elements := with_header phdr w.elements, total := f.total } hidx.symm haddr
  rw [build_message_from_fragments_it, hs]
  dsimp only
  rw [hcount, harr, htotal, hrun]

theorem build_misplaced {f : Fragment} (hbuff : buff = packet (f :: fs))
    (h : Loose w.total (f :: fs)) (hidx : f.idx ≠ w.idx) :
    build_message_from_fragments_it before phdr w buff = (-6, { w with
      elements := (with_header phdr w.elements).map (fun e => { e with held := false })
      total := f.total }) := by
  obtain ⟨s, hs, htotal, harr, hcount, -⟩ := pass_handed before w hbuff h
  rw [build_message_from_fragments_it, hs]
  dsimp only
  rw [hcount, harr, htotal, first_run_cons, length_cons, append_fragments,
    if_pos (.inl hidx)]
  rfl

theorem pass_loop_error {t : ℕ} (fuel : ℕ) : ∀ {s : Scan} {code : ℤ} {total : ℕ},
    (pass_loop before buff fuel s).2 = .error (code, total) →
    code < 0 ∧ -6 < code ∧ (s.total = t → t ≠ 0 → total = t) := by
  induction fuel with
  | zero => intro s code total h; simp [pass_loop] at h
  | succ fuel ih =>
    intro s code total h
    rw [pass_loop] at h
    by_cases hmore : s.processed < buff.length
    · rw [if_pos hmore] at h
      by_cases htaken : Taken buff s (read_header before buff (header_offset buff s.processed))
      · rw [pass_step_taken htaken] at h
        obtain ⟨hneg, hsix, hkeep⟩ := ih h
        refine ⟨hneg, hsix, fun hs ht => hkeep ?_ ht⟩
        subst hs
        exact (htaken.total ht).symm
      · obtain ⟨code', hneg, hsix, total', herr, hset, -⟩ := pass_step_refused htaken
        rw [herr] at h
        obtain ⟨rfl, rfl⟩ : code' = code ∧ total' = total := by simpa using h
        refine ⟨hneg, hsix, fun hs ht => ?_⟩
        rcases hset with hset | ⟨hzero, -⟩
        · exact hset.trans hs
        · exact absurd (hs.symm.trans hzero) ht
    · rw [if_neg hmore] at h
      simp at h

def last_header (buff : Bytes) : FragmentHeader :=
  read_header before buff (header_offset buff 0)

/-- The `frag_total` of a header is one that a message can have. -/
def FragTotalOk (fh : FragmentHeader) : Prop :=
  fh.frag_total ≠ 0 ∧ fh.frag_total ≤ MAX_SCATTER_ELEMENTS - 1

theorem build_refused (h : ∀ fs, buff = packet fs → ¬ Loose w.total fs) :
    ∃ code : ℤ, code < 0 ∧ -6 < code ∧ ∃ total,
      build_message_from_fragments_it before phdr w buff = (code, { w with total := total })
      ∧ (w.total ≠ 0 → total = w.total)
      ∧ (w.total = 0 → (total = 0 ↔ ¬ FragTotalOk (last_header before buff))) := by
  have hne : buff ≠ [] := by
    rintro rfl
    exact h [] rfl ⟨List.IsChain.nil, by simp, by simp⟩
  have hpos : 0 < buff.length := length_pos_iff.mpr hne
  cases hpass : (pass before buff w.total).2 with
  | ok s =>
    obtain ⟨fs, hfs, hscan⟩ := pass_filled before w hpass
    exact absurd hscan.loose (h fs hfs)
  | error e =>
    obtain ⟨code, total⟩ := e
    obtain ⟨hneg, hsix, hkeep⟩ :=
      pass_loop_error before (t := w.total) buff.length (s := start w.total) hpass
    refine ⟨code, hneg, hsix, total, ?_, hkeep rfl, fun hzero => ?_⟩
    · rw [build_message_from_fragments_it, hpass]
    · -- the first iteration decides whether the total is set
      obtain ⟨n, hn⟩ : ∃ n, buff.length = n + 1 := ⟨buff.length - 1, by omega⟩
      rw [pass, hzero, hn, pass_loop, if_pos (by rw [hn]; exact Nat.succ_pos n)] at hpass
      by_cases htaken : Taken buff (start 0)
          (read_header before buff (header_offset buff (start 0).processed))
      · rw [pass_step_taken htaken] at hpass
        have hset := (pass_loop_error before n hpass).2.2 rfl htaken.some
        have hok : FragTotalOk (last_header before buff) := ⟨htaken.some, htaken.few⟩
        refine iff_of_false ?_ (fun hbad => hbad hok)
        rw [hset]
        exact htaken.some
      · obtain ⟨code', -, -, total', herr, hset, hbad⟩ := pass_step_refused htaken
        rw [herr] at hpass
        obtain ⟨rfl, rfl⟩ : code' = code ∧ total' = total := by simpa using hpass
        constructor
        · rintro htz ⟨hsome, hfew⟩
          rcases hbad rfl htz with hb | hb
          · exact hsome hb
          · exact absurd hfew (not_le.mpr hb)
        · intro hbadok
          rcases hset with hset | ⟨-, hset, hsome, hfew⟩
          · exact hset
          · exact absurd ⟨hset ▸ hsome, hset ▸ hfew⟩ hbadok

end Build

/-! ## 10. Packets in order -/

section InOrder

theorem first_run_eq {t : ℕ} {fs : List Fragment} (h : Loose t fs)
    (hno : ∀ f ∈ fs.tail, f.idx ≠ 1) : first_run fs = fs := by
  induction fs with
  | nil => rfl
  | cons f fs ih =>
    rw [first_run_cons]
    cases fs with
    | nil => rfl
    | cons g gs =>
      have hg : g.idx = f.idx + 1 := by
        rcases (isChain_cons_cons.mp h.chain).1 with hg | hg
        · exact hg
        · exact absurd hg (hno g (mem_cons_self ..))
      simp only [if_pos hg]
      rw [ih h.tail (fun a ha => hno a (mem_cons_of_mem g ha))]

variable {w : Working} {fs : List Fragment}

theorem InOrder.loose (h : InOrder w fs) : Loose w.total fs where
  chain := by
    rw [isChain_iff_getElem]
    intro i hi
    have h1 := h.order i (by omega)
    have h2 := h.order (i + 1) hi
    simp only [get_eq_getElem] at h1 h2
    exact .inl (by omega)
  same := h.same
  total := h.total

theorem InOrder.tail (h : InOrder w fs) (hw : 1 ≤ w.idx) : ∀ f ∈ fs.tail, f.idx ≠ 1 := by
  intro f hf
  obtain ⟨i, hi, rfl⟩ := mem_iff_getElem.mp hf
  rw [length_tail] at hi
  have hidx := h.order (i + 1) (by omega)
  simp only [get_eq_getElem] at hidx
  rw [getElem_tail]
  omega

theorem InOrder.head (h : InOrder w fs) : ∃ f gs, fs = f :: gs ∧ f.idx = w.idx := by
  obtain ⟨f, gs, rfl⟩ := exists_cons_of_ne_nil h.some
  exact ⟨f, gs, rfl, h.order 0 (Nat.succ_pos _)⟩

theorem Loose.inOrder {f : Fragment} {gs : List Fragment} (h : Loose w.total (f :: gs))
    (hf : f.idx = w.idx) (hno : ∀ g ∈ gs, g.idx ≠ 1) : InOrder w (f :: gs) where
  some := cons_ne_nil f gs
  order i hi := by
    have hrun := first_run_eq h hno
    have hidx := first_run_idx f gs i ((f :: gs).get ⟨i, hi⟩)
      (by rw [hrun]; exact List.getElem?_eq_getElem hi)
    omega
  same := h.same
  total := h.total

end InOrder

/-- The call takes exactly the packets that continue the working message in
order, appends what they carry and says whether the message is complete. -/
def RebuildsInOrder (before : ℕ → UInt8) (phdr : Bytes) (w : Working) (buff : Bytes) : Prop :=
  (0 ≤ (build_message_from_fragments_it before phdr w buff).1
    ↔ ∃ fs, buff = packet fs ∧ InOrder w fs)
  ∧ ∀ fs, buff = packet fs → InOrder w fs →
    let r := build_message_from_fragments_it before phdr w buff
    r.2.elements = with_header phdr w.elements ++ fs.map Fragment.element
      ∧ r.2.idx = w.idx + fs.length ∧ (∀ f ∈ fs, r.2.total = f.total)
      ∧ (r.1 = 1 ↔ r.2.elements.length = r.2.total + 1)

/-- The packet begins with the fragments that are expected, and then starts
again from a fragment 1. -/
def StartsAgain (w : Working) (buff : Bytes) : Prop :=
  ∃ f gs, buff = packet (f :: gs) ∧ Loose w.total (f :: gs) ∧ f.idx = w.idx ∧ ∃ g ∈ gs, g.idx = 1

/-- The working message has as many elements as its next fragment's number says,
the packet header counted. Then a packet is dealt with as it should be exactly
if it carries data and does not start again from a fragment 1. -/
theorem rebuilds_in_order_iff (before : ℕ → UInt8) (phdr : Bytes) (w : Working) (buff : Bytes)
    (hw : (with_header phdr w.elements).length = w.idx) :
    RebuildsInOrder before phdr w buff ↔ buff ≠ [] ∧ ¬ StartsAgain w buff := by
  have hone : 1 ≤ w.idx := by
    rw [← hw, with_header]
    split_ifs with hnil
    · exact le_refl 1
    · exact length_pos_iff.mpr hnil
  constructor
  · rintro ⟨hiff, -⟩
    constructor
    · -- an empty packet is accepted, but carries no fragment
      rintro rfl
      have haccept : 0 ≤ (build_message_from_fragments_it before phdr w []).1 := by
        rw [build_empty]
        dsimp only
        split_ifs <;> decide
      obtain ⟨fs, hfs, hord⟩ := hiff.mp haccept
      exact hord.some (packet_unique hfs.symm)
    · rintro ⟨f, gs, hbuff, hloose, hf, g, hg, hg1⟩
      have haccept : 0 ≤ (build_message_from_fragments_it before phdr w buff).1 := by
        rw [build_next before phdr w hbuff hloose hf]
        dsimp only
        split_ifs <;> decide
      obtain ⟨fs, hfs, hord⟩ := hiff.mp haccept
      obtain rfl : f :: gs = fs := packet_unique (hbuff.symm.trans hfs)
      exact hord.tail hone g hg hg1
  · rintro ⟨hne, hagain⟩
    have happend : ∀ fs, buff = packet fs → InOrder w fs →
        ∃ T, (∀ f ∈ fs, T = f.total)
          ∧ build_message_from_fragments_it before phdr w buff
            = (if w.idx + fs.length = T + 1 then 1 else 0,
              ⟨with_header phdr w.elements ++ fs.map Fragment.element, w.idx + fs.length, T⟩) := by
      intro fs hbuff hord
      obtain ⟨f, gs, rfl, hf⟩ := hord.head
      refine ⟨f.total, fun g hg => hord.same f (mem_cons_self ..) g hg, ?_⟩
      rw [build_next before phdr w hbuff hord.loose hf,
        first_run_eq hord.loose (hord.tail hone)]
    constructor
    · constructor
      · intro haccept
        by_cases hloose : ∃ fs, buff = packet fs ∧ Loose w.total fs
        · obtain ⟨fs, hbuff, hl⟩ := hloose
          cases fs with
          | nil => exact absurd hbuff hne
          | cons f gs =>
            by_cases hf : f.idx = w.idx
            · refine ⟨f :: gs, hbuff, hl.inOrder hf (fun g hg hg1 => ?_)⟩
              exact hagain ⟨f, gs, hbuff, hl, hf, g, hg, hg1⟩
            · rw [build_misplaced before phdr w hbuff hl hf] at haccept
              exact absurd haccept (Int.not_le.mpr (show (-6 : ℤ) < 0 by decide))
        · obtain ⟨code, hneg, -, total, heq, -⟩ := build_refused before phdr w
            (fun fs hfs hl => hloose ⟨fs, hfs, hl⟩)
          rw [heq] at haccept
          dsimp only at haccept
          omega
      · rintro ⟨fs, hbuff, hord⟩
        obtain ⟨T, -, heq⟩ := happend fs hbuff hord
        rw [heq]
        dsimp only
        split_ifs <;> decide
    · intro fs hbuff hord
      obtain ⟨T, htotal, heq⟩ := happend fs hbuff hord
      rw [heq]
      refine ⟨rfl, rfl, htotal, ?_⟩
      simp only [length_append, length_map, hw]
      split_ifs with hdone
      · exact iff_of_true rfl hdone
      · exact iff_of_false (by decide) hdone

def hollow (idx total : ℕ) (h : 1 ≤ idx ∧ idx ≤ total ∧ total < MAX_SCATTER_ELEMENTS) : Fragment :=
  ⟨[], idx, total, by decide, h⟩

theorem rebuilds_in_order_iff_first :
    RebuildsInOrder (fun _ => 0) [] Working.fresh
      (packet [hollow 1 2 (by decide), hollow 2 2 (by decide)]) :=
  (rebuilds_in_order_iff (fun _ => 0) [] Working.fresh _ rfl).mpr ⟨by decide, by
    rintro ⟨f, gs, hbuff, -, -, g, hg, hone⟩
    obtain ⟨-, rfl⟩ := cons.inj (packet_unique hbuff)
    rw [mem_singleton.mp hg] at hone
    cases hone⟩

/-- Fragment 2 stands before a fragment 1, and is taken. -/
theorem starts_again_taken : ¬ RebuildsInOrder (fun _ => 0) [] ⟨[⟨[], true⟩, ⟨[], true⟩], 2, 2⟩
      (packet [hollow 2 2 (by decide), hollow 1 2 (by decide)]) := by
  rintro ⟨hiff, -⟩
  obtain ⟨fs, hfs, hord⟩ := hiff.mp (by decide)
  obtain rfl := packet_unique hfs
  have hidx := hord.order 1 (by decide)
  exact absurd hidx (by decide)

/-! ## 11. Where headers are read -/

/-- The headers that are read of a packet, from its arrival until it has left
the window: `Process_IT_Ack` looks at the last one unless delivery is ordered,
both when the packet arrives, for a message of its own, and when its turn has
come. `total` is that of the working message then. -/
def header_reads (ordered : Bool) (before : ℕ → UInt8) (total : ℕ) (buff : Bytes) : List ℤ :=
  if ordered then (pass before buff total).1
  else
    let peek := header_offset buff 0
    let frag_total := (last_header before buff).frag_total
    peek :: (if frag_total = 1 then (pass before buff 0).1 else [])
      ++ peek :: (if 1 < frag_total then (pass before buff total).1 else [])

/-- Some fragments at the end of the packet leave one, two or three bytes before
them. -/
def RunsShort (t : ℕ) (buff : Bytes) : Prop :=
  ∃ rest fs, buff = rest ++ packet fs ∧ Loose t fs ∧ 0 < rest.length
    ∧ rest.length < SIZEOF_FRAGMENT_HEADER

def Inside (buff : Bytes) (off : ℤ) : Prop :=
  0 ≤ off ∧ off + SIZEOF_FRAGMENT_HEADER ≤ buff.length

theorem pass_reads (t : ℕ) (buff : Bytes) :
    (∀ off ∈ (pass before buff t).1, Inside buff off) ↔ ¬ RunsShort t buff := by
  have h := (Scanned.start t buff).reads before buff.length (Nat.sub_le _ _)
  simp only [Short, append_nil] at h
  exact h

theorem peek_inside :
    Inside buff (header_offset buff 0) ↔ SIZEOF_FRAGMENT_HEADER ≤ buff.length := by
  simp only [Inside, header_offset]
  omega

/-- Every header is read inside the packet exactly if the packet is long enough
for the looks that are taken, and in each pass that is made no fragments at the
end leave a piece that is too short for a header. -/
theorem headers_inside_iff (ordered : Bool) (before : ℕ → UInt8) (total : ℕ) (buff : Bytes) :
    (∀ off ∈ header_reads ordered before total buff, Inside buff off)
    ↔ (ordered = true ∧ ¬ RunsShort total buff)
      ∨ (ordered = false ∧ SIZEOF_FRAGMENT_HEADER ≤ buff.length
        ∧ ((last_header before buff).frag_total = 1 → ¬ RunsShort 0 buff)
        ∧ (1 < (last_header before buff).frag_total → ¬ RunsShort total buff)) := by
  rw [header_reads]
  cases ordered with
  | true =>
    simp only [if_true, true_and, Bool.true_eq_false, false_and, or_false]
    exact pass_reads before total buff
  | false =>
    -- a pass that is not made reads nothing
    have hpass : ∀ (b : Prop) [Decidable b] (t : ℕ),
        (∀ off ∈ if b then (pass before buff t).1 else [], Inside buff off)
          ↔ (b → ¬ RunsShort t buff) := by
      intro b _ t
      by_cases hb : b
      · rw [if_pos hb, pass_reads]
        exact ⟨fun h _ => h, fun h => h hb⟩
      · rw [if_neg hb]
        exact ⟨fun _ h => absurd h hb, fun _ => by simp⟩
    simp only [Bool.false_eq_true, if_false, false_and, true_and, false_or, mem_append,
      mem_cons, or_imp, forall_and, forall_eq]
    rw [hpass, hpass, peek_inside]
    tauto

/-- A packet of one byte: its header is read from before it. -/
theorem one_byte_read_outside :
    ¬ ∀ (ordered : Bool) (before : ℕ → UInt8) (total : ℕ) (buff : Bytes),
      ∀ off ∈ header_reads ordered before total buff, Inside buff off := by
  intro hclaim
  have hread := hclaim true (fun _ => 0) 0 [0] (-3) (by decide)
  exact absurd hread.1 (by decide)

/-! ## 12. After an error -/

/-- After an error the working message is as it was or empty, and it holds every
element that it has. -/
def Restored (before : ℕ → UInt8) (phdr : Bytes) (w : Working) (buff : Bytes) : Prop :=
  let r := build_message_from_fragments_it before phdr w buff
  r.1 < 0 → (r.2 = w ∨ r.2 = Working.fresh) ∧ ∀ e ∈ r.2.elements, e.held = true

/-- Fragments that may stand in the packet begin with another one than the next
of the message. -/
def Misplaced (w : Working) (buff : Bytes) : Prop :=
  ∃ f gs, buff = packet (f :: gs) ∧ Loose w.total (f :: gs) ∧ f.idx ≠ w.idx

theorem with_header_ne (phdr : Bytes) (elements : List Element) :
    with_header phdr elements ≠ [] := by
  rw [with_header]
  split_ifs with h
  · exact cons_ne_nil _ _
  · exact h

/-- A working message that holds its elements survives an error exactly if the
packet is not misplaced and the total that a refused packet leaves behind is not
new: it was set before, or the last header has none that counts. -/
theorem restored_iff (before : ℕ → UInt8) (phdr : Bytes) (w : Working) (buff : Bytes)
    (hheld : ∀ e ∈ w.elements, e.held = true) : Restored before phdr w buff ↔ ¬ Misplaced w buff
      ∧ ((∀ fs, buff = packet fs → ¬ Loose w.total fs) →
        w.total ≠ 0 ∨ ¬ FragTotalOk (last_header before buff)) := by
  by_cases hloose : ∃ fs, buff = packet fs ∧ Loose w.total fs
  · -- the packet passes the backwards pass
    obtain ⟨fs, hbuff, hl⟩ := hloose
    have hpass : (∀ gs, buff = packet gs → ¬ Loose w.total gs) →
        w.total ≠ 0 ∨ ¬ FragTotalOk (last_header before buff) :=
      fun hno => absurd hl (hno fs hbuff)
    rw [Restored]
    cases fs with
    | nil =>
      have hnot : ¬ Misplaced w buff := by
        rintro ⟨f, gs, hgs, -⟩
        have hnil := packet_unique (hbuff.symm.trans hgs)
        simp at hnil
      refine iff_of_true ?_ ⟨hnot, hpass⟩
      subst hbuff
      intro hneg
      rw [packet_nil, build_empty] at hneg
      dsimp only at hneg
      split_ifs at hneg <;> omega
    | cons f gs =>
      by_cases hf : f.idx = w.idx
      · have hnot : ¬ Misplaced w buff := by
          rintro ⟨g, gs', hgs, -, hne⟩
          obtain ⟨rfl, -⟩ := List.cons.inj (packet_unique (hbuff.symm.trans hgs))
          exact hne hf
        refine iff_of_true ?_ ⟨hnot, hpass⟩
        intro hneg
        rw [build_next before phdr w hbuff hl hf] at hneg
        dsimp only at hneg
        split_ifs at hneg <;> omega
      · -- released elements stay in the message
        refine iff_of_false ?_ (fun h => h.1 ⟨f, gs, hbuff, hl, hf⟩)
        intro hrest
        rw [build_misplaced before phdr w hbuff hl hf] at hrest
        obtain ⟨-, hall⟩ := hrest (show (-6 : ℤ) < 0 by decide)
        obtain ⟨e, he⟩ := exists_mem_of_ne_nil _ (with_header_ne phdr w.elements)
        have hbad := hall _ (mem_map_of_mem he)
        simp at hbad
  · have hrefused : ∀ fs, buff = packet fs → ¬ Loose w.total fs :=
      fun fs hfs hl => hloose ⟨fs, hfs, hl⟩
    have hnot : ¬ Misplaced w buff := fun ⟨f, gs, hgs, hl, _⟩ => hrefused _ hgs hl
    obtain ⟨code, hneg, -, total, heq, hkeep, hzero⟩ := build_refused before phdr w hrefused
    rw [Restored, heq]
    constructor
    · intro hrest
      refine ⟨hnot, fun _ => ?_⟩
      by_cases h0 : w.total = 0
      · refine .inr ((hzero h0).mp ?_)
        rcases (hrest hneg).1 with hsame | hfresh
        · exact (congrArg Working.total hsame).trans h0
        · exact congrArg Working.total hfresh
      · exact .inl h0
    · rintro ⟨-, hset⟩ -
      have htotal : total = w.total := by
        by_cases h0 : w.total = 0
        · rw [h0]
          exact (hzero h0).mpr ((hset hrefused).resolve_left (fun h => h h0))
        · exact hkeep h0
      subst htotal
      exact ⟨.inl rfl, hheld⟩

theorem restored_iff_refused :
    Restored (fun _ => 0) [] ⟨[⟨[], true⟩, ⟨[1], true⟩], 2, 2⟩ [0, 0, 9, 2] :=
  (restored_iff (fun _ => 0) [] ⟨[⟨[], true⟩, ⟨[1], true⟩], 2, 2⟩ [0, 0, 9, 2] (by decide)).mpr ⟨by
    rintro ⟨f, gs, hbuff, hl, hf⟩
    have hcode : (build_message_from_fragments_it (fun _ => 0) [] ⟨[⟨[], true⟩, ⟨[1], true⟩], 2, 2⟩
        [0, 0, 9, 2]).1 = -6 := congrArg Prod.fst (build_misplaced (fun _ => 0) [] _ hbuff hl hf)
    exact absurd hcode (by decide), fun _ => .inl (by decide)⟩

/-- The header of fragment 9 of 5 is refused, and the total 5 stays: the message
of one fragment that comes next is refused too. -/
theorem total_left_behind : ¬ Restored (fun _ => 0) [] Working.fresh [0, 0, 9, 5]
      ∧ (build_message_from_fragments_it (fun _ => 0) [] Working.fresh [0, 0, 1, 1]).1 = 1
      ∧ (build_message_from_fragments_it (fun _ => 0) []
        (build_message_from_fragments_it (fun _ => 0) [] Working.fresh [0, 0, 9, 5]).2
        [0, 0, 1, 1]).1 = -2 := by
  refine ⟨fun hrest => ?_, by decide, by decide⟩
  exact absurd (hrest (by decide)).1 (by decide)

/-! ## 13. The model of the window

`Fragments.lean` follows the function on the packets that reach it through the
window. The two models agree wherever no header is read outside. -/

def Working.view (w : Working) : WorkingMsg where
  started := w.elements ≠ []
  body := w.elements.tail.map Element.bytes
  idx := w.idx
  total := w.total

theorem scan_step_eq {buff : Bytes} {s : Scan} (h : Inside buff (header_offset buff s.processed)) :
    scan_step buff s = pass_step before buff s := by
  have hfour : s.processed + SIZEOF_FRAGMENT_HEADER ≤ buff.length := by
    have hpos := h.1
    simp only [header_offset] at hpos
    omega
  rw [scan_step, if_neg (by omega), pass_step, header_offset_inside hfour, read_header_inside]
  rfl

theorem scan_loop_eq {buff : Bytes} (fuel : ℕ) : ∀ {s : Scan},
    (∀ off ∈ (pass_loop before buff fuel s).1, Inside buff off) →
    scan_loop buff fuel s = (pass_loop before buff fuel s).2 := by
  induction fuel with
  | zero => intro s _; rfl
  | succ fuel ih =>
    intro s hreads
    rw [pass_loop] at hreads ⊢
    rw [scan_loop]
    by_cases hmore : s.processed < buff.length
    · rw [if_pos hmore] at hreads ⊢
      rw [if_pos hmore]
      have hhere : Inside buff (header_offset buff s.processed) := by
        apply hreads
        cases pass_step before buff s with
        | error e => exact mem_singleton.mpr rfl
        | ok s1 => exact mem_cons_self ..
      rw [scan_step_eq before hhere]
      cases hstep : pass_step before buff s with
      | error e => rfl
      | ok s1 =>
        rw [hstep] at hreads
        exact ih (fun off hoff => hreads off (mem_cons_of_mem _ hoff))
    · rw [if_neg hmore, if_neg hmore]

theorem append_loop_view (addr : ℕ → ℕ × FragmentHeader) (cnt : ℕ) :
    ∀ (a : ℕ) (w : Working), w.elements ≠ [] → append_loop buff addr a cnt w.view
        = ((append_fragments buff addr a cnt w).1, (append_fragments buff addr a cnt w).2.view) := by
  induction cnt with
  | zero => intro a w _; rfl
  | succ cnt ih =>
    intro a w hw
    have hidx : w.view.idx = w.idx := rfl
    rw [append_loop, append_fragments, hidx]
    by_cases hbad : a ≠ w.idx ∨ (addr a).2.frag_idx ≠ w.idx
    · have hview : w.release.view = w.view := by
        simp [Working.view, Working.release, map_tail, comp_def]
      rw [if_pos hbad, if_pos hbad, hview]
    · rw [if_neg hbad, if_neg hbad]
      refine Eq.trans ?_ (ih (a + 1) _ (by simp))
      congr 1
      simp [Working.view, hw, tail_append_of_ne_nil hw]

theorem build_agrees (phdr : Bytes) (w : Working) (buff : Bytes)
    (h : ¬ RunsShort w.total buff) : IntruTol.build_message_from_fragments_it w.view buff
      = ((build_message_from_fragments_it before phdr w buff).1,
        (build_message_from_fragments_it before phdr w buff).2.view) := by
  have hscan : scan_loop buff buff.length (start w.total) = (pass before buff w.total).2 :=
    scan_loop_eq before buff.length ((pass_reads before w.total buff).mpr h)
  have hstart : (⟨0, w.view.total, 0, 0, fun _ => (0, ⟨0, 0, 0⟩)⟩ : Scan) = start w.total := rfl
  rw [IntruTol.build_message_from_fragments_it, build_message_from_fragments_it, hstart, hscan]
  cases (pass before buff w.total).2 with
  | error e => rfl
  | ok s =>
    have hview : ({ w.view with started := true, total := s.total } : WorkingMsg)
        = Working.view { w with total := s.total, elements := with_header phdr w.elements } := by
      by_cases hnil : w.elements = []
      · simp [Working.view, with_header, hnil]
      · simp [Working.view, with_header, hnil]
    dsimp only
    rw [hview, append_loop_view buff s.frag_addr _ _ _ (with_header_ne phdr w.elements)]
    cases append_fragments buff s.frag_addr (s.array_idx + 1) (s.max_array_idx - s.array_idx)
      { w with total := s.total, elements := with_header phdr w.elements } with
    | mk ok w' =>
      cases ok with
      | false => rfl
      | true => rfl

theorem build_agrees_first :
    let buff := packet [⟨[7, 8], 1, 2, by decide, by decide⟩, hollow 2 2 (by decide)]
    IntruTol.build_message_from_fragments_it Working.fresh.view buff =
      ((build_message_from_fragments_it (fun _ => 0) [] Working.fresh buff).1,
        (build_message_from_fragments_it (fun _ => 0) [] Working.fresh buff).2.view) := by
  intro buff
  refine build_agrees _ [] Working.fresh buff ((pass_reads (fun _ => 0) 0 buff).mp fun off hoff => ?_)
  have hread : (pass (fun _ => 0) buff 0).1 = [6, 2] := by decide
  rw [hread, mem_cons, mem_singleton] at hoff
  obtain rfl | rfl := hoff
  · exact ⟨by decide, by decide⟩
  · exact ⟨by decide, by decide⟩

end Spines.IntruTol.Unpack
