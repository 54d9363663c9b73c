/-
The fingerprint of the configuration (`Conf_compute_hash` of `daemon/configuration.c`).

Two daemons exchange keys if they hash the same bytes: the parameters in network byte order, the hosts
and the edges in that of the machine, and three real numbers as the first eight characters that
`printf` has for them. All but the edges is of fixed size, so equal bytes are equal field by field,
but two byte orders never agree on the length of signatures, and six digits are not all of a number
(`Conf_compute_hash_iff`).
-/
import Spines.Lib.Bytes
import Mathlib.Data.Int.Log
import Mathlib.Data.List.DropRight
import Mathlib.Data.Rat.Floor

set_option autoImplicit false

namespace Spines.IntruTol.ConfHash

open Spines.Lib List

/-! ## 1. `sprintf` -/

def round_even (x : ℚ) : ℕ :=
  let n := ⌊x⌋₊
  if x - n < 1 / 2 ∨ (x - n = 1 / 2 ∧ n % 2 = 0) then n else n + 1

def scientific (x : ℚ) : ℤ × ℕ :=
  let e := Int.log 10 x
  let n := round_even (x / 10 ^ (e - 5))
  if n = 10 ^ 6 then (e + 1, 10 ^ 5) else (e, n)

def fraction (digits : List Char) : List Char :=
  match digits.rdropWhile (· = '0') with
  | [] => []
  | c :: cs => '.' :: c :: cs

/-- `%g`, of a number that is not negative. -/
def percent_g (x : ℚ) : List Char :=
  if x = 0 then ['0']
  else
    let (e, n) := scientific x
    let digits := Nat.toDigits 10 n
    if e < -4 ∨ 6 ≤ e then
      digits.take 1 ++ fraction (digits.drop 1) ++
        'e' :: (if e < 0 then '-' else '+') :: (if e.natAbs < 10 then ['0'] else []) ++
          Nat.toDigits 10 e.natAbs
    else if e < 0 then '0' :: fraction (replicate (e.natAbs - 1) '0' ++ digits)
    else digits.take (e.toNat + 1) ++ fraction (digits.drop (e.toNat + 1))

/-- `%.8s` into eight bytes that are 0. A zero behind them is overwritten by the next field. -/
def scratch (x : ℚ) : List UInt8 :=
  let cs := ((percent_g x).take 8).map fun c => UInt8.ofNat c.toNat
  cs ++ replicate (8 - cs.length) 0

/-! ## 2. The configuration -/

structure CONF_IT_LINK where
  Crypto : UInt8
  Encrypt : UInt8
  Ordered_Delivery : UInt8
  Reintroduce_Messages : UInt8
  TCP_Fairness : UInt8
  Session_Blocking : UInt8
  Msg_Per_SAA : UInt8
  Send_Batch_Size : UInt8
  Intrusion_Tolerance_Mode : UInt8
  Reliable_Timeout_Factor : UInt32
  NACK_Timeout_Factor : UInt32
  ACK_Timeout : UInt32
  PING_Timeout : UInt32
  DH_Timeout : UInt32
  Incarnation_Timeout : UInt32
  Min_RTT_milliseconds : UInt32
  Default_RTT : UInt32
  Init_NACK_Timeout_Factor : ℚ
  Loss_Threshold : ℚ
  Loss_Calc_Decay : ℚ
  Loss_Calc_Time_Trigger : UInt32
  Loss_Calc_Pkt_Trigger : UInt32
  Loss_Penalty : UInt32
  Ping_Threshold : UInt32
  deriving DecidableEq

@[ext] structure CONF_PRIO where
  Crypto : UInt8
  Default_Priority : UInt8
  dummy1 : UInt8
  dummy2 : UInt8
  Max_Mess_Stored : UInt32
  Min_Belly_Size : UInt32
  Default_Expire_Sec : UInt32
  Default_Expire_USec : UInt32
  Garbage_Collection_Sec : UInt32
  deriving DecidableEq

@[ext] structure CONF_REL where
  HBH_Ack_Timeout : UInt32
  E2E_Ack_Timeout : UInt32
  Status_Change_Timeout : UInt32
  Crypto : UInt8
  SAA_Threshold : UInt8
  HBH_Advance : UInt8
  HBH_Opt : UInt8
  E2E_Opt : UInt8
  dummy1 : UInt8
  dummy2 : UInt8
  dummy3 : UInt8
  deriving DecidableEq

structure Sorted_Edge where
  src_id : UInt32
  dst_id : UInt32
  cost : Int16
  deriving DecidableEq

def MAX_NODES : ℕ := 50

structure Config where
  Conf_IT_Link : CONF_IT_LINK
  RR_Crypto : UInt8
  Conf_Prio : CONF_PRIO
  Conf_Rel : CONF_REL
  Signature_Len_Bits : UInt16
  MultiPath_Bitmask_Size : UInt16
  Directed_Edges : UInt8
  Path_Stamp_Debug : UInt8
  Remote_Connections : UInt8
  temp_node_ip : Fin MAX_NODES → UInt32
  Sorted_Edges : List Sorted_Edge
  /-- `Conf_set_signature_len_bits` takes no others. -/
  signature_len : Signature_Len_Bits = 512 ∨ Signature_Len_Bits = 1024 ∨ Signature_Len_Bits = 2048
  /-- `Edge_Cmp`. -/
  sorted : Sorted_Edges.Pairwise fun a b =>
    a.src_id < b.src_id ∨ a.src_id = b.src_id ∧ a.dst_id ≤ b.dst_id

/-! ## 3. The bytes -/

def int16u (o : Endian) (x : UInt16) : List UInt8 := o.order (le_bytes 2 x.toNat)
def int32u (o : Endian) (x : UInt32) : List UInt8 := o.order (le_bytes 4 x.toNat)
def htonl (x : UInt32) : List UInt8 := int32u .big x

/-- The fields of the `_hton` functions, one after the other. -/
def IT_Link_Conf_hton (c : CONF_IT_LINK) : List (List UInt8) :=
  [[c.Crypto], [c.Encrypt], [c.Ordered_Delivery], [c.Reintroduce_Messages], [c.TCP_Fairness],
    [c.Session_Blocking], [c.Msg_Per_SAA], [c.Send_Batch_Size], [c.Intrusion_Tolerance_Mode],
    htonl c.Reliable_Timeout_Factor, htonl c.NACK_Timeout_Factor, htonl c.ACK_Timeout,
    htonl c.PING_Timeout, htonl c.DH_Timeout, htonl c.Incarnation_Timeout,
    htonl c.Min_RTT_milliseconds, htonl c.Default_RTT, scratch c.Init_NACK_Timeout_Factor,
    scratch c.Loss_Threshold, scratch c.Loss_Calc_Decay, htonl c.Loss_Calc_Time_Trigger,
    htonl c.Loss_Calc_Pkt_Trigger, htonl c.Loss_Penalty, htonl c.Ping_Threshold]

def Prio_Conf_hton (c : CONF_PRIO) : List (List UInt8) :=
  [[c.Crypto], [c.Default_Priority], [c.dummy1], [c.dummy2], htonl c.Max_Mess_Stored,
    htonl c.Min_Belly_Size, htonl c.Default_Expire_Sec, htonl c.Default_Expire_USec,
    htonl c.Garbage_Collection_Sec]

def Rel_Conf_hton (c : CONF_REL) : List (List UInt8) :=
  [htonl c.HBH_Ack_Timeout, htonl c.E2E_Ack_Timeout, htonl c.Status_Change_Timeout, [c.Crypto],
    [c.SAA_Threshold], [c.HBH_Advance], [c.HBH_Opt], [c.E2E_Opt], [c.dummy1], [c.dummy2],
    [c.dummy3]]

def edge_bytes (o : Endian) (e : Sorted_Edge) : List UInt8 :=
  int32u o e.src_id ++ int32u o e.dst_id ++ int16u o e.cost.toUInt16

/-- All that is written, on a machine of byte order `o`. -/
def Config.parts (o : Endian) (c : Config) : List (List UInt8) :=
  (IT_Link_Conf_hton c.Conf_IT_Link ++ [[c.RR_Crypto]] ++ Prio_Conf_hton c.Conf_Prio ++
    Rel_Conf_hton c.Conf_Rel ++ [int16u o c.Signature_Len_Bits, int16u o c.MultiPath_Bitmask_Size,
      [c.Directed_Edges], [c.Path_Stamp_Debug], [c.Remote_Connections]]) ++
    (ofFn fun i => int32u o (c.temp_node_ip i)) ++ c.Sorted_Edges.map (edge_bytes o)

/-- `none` is a write behind the end of `buff`. Within it the 16 bits of `written` are enough. -/
def Conf_compute_hash {δ : Type} (SHA256 : List UInt8 → δ) (o : Endian) (c : Config) : Option δ :=
  if (c.parts o).flatten.length ≤ 2048 then some (SHA256 (c.parts o).flatten) else none

def CONF_IT_LINK.reals (c : CONF_IT_LINK) : List ℚ :=
  [c.Init_NACK_Timeout_Factor, c.Loss_Threshold, c.Loss_Calc_Decay]

def CONF_IT_LINK.no_reals (c : CONF_IT_LINK) : CONF_IT_LINK :=
  { c with Init_NACK_Timeout_Factor := 0, Loss_Threshold := 0, Loss_Calc_Decay := 0 }

def Config.rest (c : Config) :=
  (c.RR_Crypto, c.Conf_Prio, c.Conf_Rel, c.Signature_Len_Bits, c.MultiPath_Bitmask_Size,
    c.Directed_Edges, c.Path_Stamp_Debug, c.Remote_Connections, c.temp_node_ip)

structure Config.Agree (c c' : Config) : Prop where
  it : c.Conf_IT_Link = c'.Conf_IT_Link
  rest : c.rest = c'.rest
  edges : c.Sorted_Edges.Perm c'.Sorted_Edges

structure Config.Alike (c c' : Config) : Prop where
  it : c.Conf_IT_Link.no_reals = c'.Conf_IT_Link.no_reals
  reals : c.Conf_IT_Link.reals.map scratch = c'.Conf_IT_Link.reals.map scratch
  rest : c.rest = c'.rest
  edges : c.Sorted_Edges = c'.Sorted_Edges

/-! ## 4. Equal bytes -/

variable {o o' : Endian} {c c' : Config}

@[simp] theorem int16u_inj {x y : UInt16} : int16u o x = int16u o y ↔ x = y := by
  refine ⟨fun h => ?_, congrArg _⟩
  have hbytes := congrArg o.order h
  rw [int16u, int16u, Endian.order_order, Endian.order_order] at hbytes
  have hvalue := congrArg le_value hbytes
  rw [le_value_bytes x.toNat_lt, le_value_bytes y.toNat_lt] at hvalue
  exact UInt16.toNat_inj.mp hvalue

@[simp] theorem int32u_inj {x y : UInt32} : int32u o x = int32u o y ↔ x = y := by
  refine ⟨fun h => ?_, congrArg _⟩
  have hbytes := congrArg o.order h
  rw [int32u, int32u, Endian.order_order, Endian.order_order] at hbytes
  have hvalue := congrArg le_value hbytes
  rw [le_value_bytes x.toNat_lt, le_value_bytes y.toNat_lt] at hvalue
  exact UInt32.toNat_inj.mp hvalue

@[simp] theorem int16u_length (x : UInt16) : (int16u o x).length = 2 := by simp [int16u]
@[simp] theorem int32u_length (x : UInt32) : (int32u o x).length = 4 := by simp [int32u]
@[simp] theorem htonl_length (x : UInt32) : (htonl x).length = 4 := int32u_length x

@[simp] theorem htonl_inj {x y : UInt32} : htonl x = htonl y ↔ x = y := int32u_inj

@[simp] theorem scratch_length (x : ℚ) : (scratch x).length = 8 := by
  simp only [scratch, length_append, length_map, length_take, length_replicate]
  omega

theorem edge_bytes_inj : Function.Injective (edge_bytes o) := by
  rintro ⟨s, d, x⟩ ⟨s', d', x'⟩ h
  obtain ⟨hids, hcost⟩ := append_inj h (by simp)
  obtain ⟨hsrc, hdst⟩ := append_inj hids (by simp)
  rw [int16u_inj] at hcost
  rw [int32u_inj] at hsrc hdst
  have hx : x = x' := by
    obtain ⟨x⟩ := x
    obtain ⟨x'⟩ := x'
    exact congrArg _ hcost
  rw [hx, show s = s' from hsrc, show d = d' from hdst]

theorem parts_lengths (o : Endian) (c : Config) :
    (c.parts o).map length = replicate 9 1 ++ replicate 8 4 ++ replicate 3 8 ++ replicate 4 4 ++
      replicate 5 1 ++ replicate 8 4 ++ replicate 8 1 ++ [2, 2, 1, 1, 1] ++ replicate MAX_NODES 4 ++
      replicate c.Sorted_Edges.length 10 := by
  have hedges : (c.Sorted_Edges.map (edge_bytes o)).map length =
      replicate c.Sorted_Edges.length 10 := by
    rw [map_map, ← map_const']
    exact map_congr_left fun e _ => by simp [edge_bytes]
  have hhosts : (ofFn fun i => int32u o (c.temp_node_ip i)).map length = replicate MAX_NODES 4 := by
    rw [map_ofFn, ← ofFn_const]
    exact congrArg ofFn (funext fun i => int32u_length _)
  rw [Config.parts, map_append, map_append, hedges, hhosts]
  refine congrArg (· ++ _ ++ _) ?_
  simp only [IT_Link_Conf_hton, Prio_Conf_hton, Rel_Conf_hton, cons_append, nil_append, map_cons,
    map_nil, htonl_length, scratch_length, int16u_length]
  rfl

theorem buff_length (o : Endian) (c : Config) :
    (c.parts o).flatten.length = 333 + 10 * c.Sorted_Edges.length := by
  rw [length_flatten, parts_lengths]
  simp only [sum_append_nat, sum_replicate_nat, sum_cons, sum_nil]
  unfold MAX_NODES
  omega

theorem parts_eq (h : (c.parts o).flatten = (c'.parts o').flatten) : c.parts o = c'.parts o' := by
  have hlen := congrArg length h
  rw [buff_length, buff_length] at hlen
  apply eq_iff_flatten_eq.mpr ⟨h, ?_⟩
  rw [parts_lengths, parts_lengths, show c.Sorted_Edges.length = c'.Sorted_Edges.length by omega]

theorem parts_iff : c.parts o = c'.parts o ↔ c.Alike c' := by
  unfold Config.parts
  constructor
  · intro h
    obtain ⟨h, hedges⟩ := append_inj h (by simp [IT_Link_Conf_hton, Prio_Conf_hton, Rel_Conf_hton])
    obtain ⟨hfields, hhosts⟩ := append_inj h
      (by simp [IT_Link_Conf_hton, Prio_Conf_hton, Rel_Conf_hton])
    have hips : c.temp_node_ip = c'.temp_node_ip :=
      funext fun i => int32u_inj.mp (congrFun (ofFn_injective hhosts) i)
    simp only [IT_Link_Conf_hton, Prio_Conf_hton, Rel_Conf_hton, cons_append, nil_append,
      cons.injEq, htonl_inj, int16u_inj, and_true] at hfields
    refine ⟨?_, ?_, ?_, map_injective_iff.mpr edge_bytes_inj hedges⟩
    · simp [CONF_IT_LINK.no_reals, hfields]
    · simp [CONF_IT_LINK.reals, hfields]
    · simp [Config.rest, CONF_PRIO.ext_iff, CONF_REL.ext_iff, hips, hfields]
  · rintro ⟨hit, hreals, hrest, hedges⟩
    simp only [CONF_IT_LINK.no_reals, CONF_IT_LINK.mk.injEq] at hit
    simp only [CONF_IT_LINK.reals, map_cons, map_nil, cons.injEq] at hreals
    simp only [Config.rest, Prod.mk.injEq] at hrest
    rw [hedges, hrest.2.2.2.2.2.2.2.2]
    simp [IT_Link_Conf_hton, hit, hreals, hrest]

theorem parts_order (ho : o ≠ o') : c.parts o ≠ c'.parts o' := by
  intro h
  have hsig : int16u o c.Signature_Len_Bits = int16u o' c'.Signature_Len_Bits := by
    have hget := congrArg (fun l => l.getD 45 []) h
    simpa [Config.parts, IT_Link_Conf_hton, Prio_Conf_hton, Rel_Conf_hton] using hget
  have hnever : ∀ x ∈ [512, 1024, 2048], ∀ y ∈ [512, 1024, 2048],
      int16u .little x ≠ int16u .big y := by
    simp [int16u]
    decide
  have hmem : ∀ c : Config, c.Signature_Len_Bits ∈ [512, 1024, 2048] := fun c => by
    simpa using c.signature_len
  cases o <;> cases o'
  · exact ho rfl
  · exact hnever _ (hmem c) _ (hmem c') hsig
  · exact hnever _ (hmem c') _ (hmem c) hsig.symm
  · exact ho rfl

/-- **The fingerprint** is the same exactly for configurations that agree, if the edges of both fit
into the buffer, those that agree are on machines of one byte order and have their edges in one
sequence, and those that differ do not differ in later digits only. -/
theorem Conf_compute_hash_iff {δ : Type} (SHA256 : List UInt8 → δ)
    (hinj : Function.Injective SHA256) (o o' : Endian) (c c' : Config) :
    (∃ h h', Conf_compute_hash SHA256 o c = some h ∧ Conf_compute_hash SHA256 o' c' = some h' ∧
      (h = h' ↔ c.Agree c')) ↔
    (c.Sorted_Edges.length ≤ 171 ∧ c'.Sorted_Edges.length ≤ 171) ∧
      (c.Agree c' → o = o' ∧ c.Sorted_Edges = c'.Sorted_Edges) ∧
      (¬ c.Agree c' → o = o' → ¬ c.Alike c') := by
  have hfits : ∀ (o : Endian) (c : Config), (∃ h, Conf_compute_hash SHA256 o c = some h) ↔
      c.Sorted_Edges.length ≤ 171 := by
    intro o c
    unfold Conf_compute_hash
    rw [buff_length]
    split <;> simp <;> omega
  have hhash : ∀ {o : Endian} {c : Config}, c.Sorted_Edges.length ≤ 171 →
      Conf_compute_hash SHA256 o c = some (SHA256 (c.parts o).flatten) := by
    intro o c hle
    unfold Conf_compute_hash
    rw [buff_length, if_pos (by omega)]
  by_cases hlen : c.Sorted_Edges.length ≤ 171 ∧ c'.Sorted_Edges.length ≤ 171
  · have heq : SHA256 (c.parts o).flatten = SHA256 (c'.parts o').flatten ↔
        o = o' ∧ c.Alike c' := by
      constructor
      · intro h
        have hparts := parts_eq (hinj h)
        by_cases ho : o = o'
        · subst ho
          exact ⟨rfl, parts_iff.mp hparts⟩
        · exact absurd hparts (parts_order ho)
      · rintro ⟨rfl, h⟩
        rw [parts_iff.mpr h]
    have hone : (∃ h h', Conf_compute_hash SHA256 o c = some h ∧
        Conf_compute_hash SHA256 o' c' = some h' ∧ (h = h' ↔ c.Agree c')) ↔
        (o = o' ∧ c.Alike c' ↔ c.Agree c') := by
      rw [hhash hlen.1, hhash hlen.2, ← heq]
      simp
    have hagree : c.Agree c' → (c.Alike c' ↔ c.Sorted_Edges = c'.Sorted_Edges) := fun h =>
      ⟨fun ha => ha.edges, fun he => ⟨by rw [h.it], by rw [h.it], h.rest, he⟩⟩
    rw [hone]
    by_cases ha : c.Agree c'
    · constructor
      · intro h
        obtain ⟨ho, hal⟩ := h.mpr ha
        exact ⟨hlen, fun _ => ⟨ho, hal.edges⟩, fun hno => absurd ha hno⟩
      · rintro ⟨-, h, -⟩
        exact iff_of_true ⟨(h ha).1, (hagree ha).mpr (h ha).2⟩ ha
    · constructor
      · intro h
        exact ⟨hlen, fun h' => absurd h' ha, fun _ ho hal => ha (h.mp ⟨ho, hal⟩)⟩
      · rintro ⟨-, -, h⟩
        exact iff_of_false (fun hh => h ha hh.1 hh.2) ha
  · refine iff_of_false ?_ (fun h => hlen h.1)
    rintro ⟨h, h', hh, hh', -⟩
    exact hlen ⟨(hfits o c).mp ⟨h, hh⟩, (hfits o' c').mp ⟨h', hh'⟩⟩

/-! ### The default settings -/

/-- Two hosts, an edge, and a value for `LossCalcDecay`. -/
def two_hosts (decay : ℚ) : Config where
  Conf_IT_Link := ⟨0, 0, 1, 0, 1, 0, 10, 15, 0, 10, 2, 10000, 200000, 999999, 999999, 2, 10, 1 / 4,
    5764607523034235 / 2 ^ 58, decay, 10000000, 1000, 10000, 10⟩
  RR_Crypto := 1
  Conf_Prio := ⟨0, 1, 0, 0, 500, 1000000, 600, 0, 60⟩
  Conf_Rel := ⟨100000, 150000, 150000, 0, 10, 0, 1, 1, 0, 0, 0⟩
  Signature_Len_Bits := 1024
  MultiPath_Bitmask_Size := 8
  Directed_Edges := 0
  Path_Stamp_Debug := 0
  Remote_Connections := 1
  temp_node_ip := fun i => if i.val = 0 then 0x0A000001 else if i.val = 1 then 0x0A000002 else 0
  Sorted_Edges := [⟨1, 2, 10⟩]
  signature_len := by decide
  sorted := by decide

theorem Conf_compute_hash_iff_hosts :
    ¬ ∃ h h', Conf_compute_hash id .little (two_hosts (1 / 2)) = some h ∧
      Conf_compute_hash id .big (two_hosts (1 / 2)) = some h' ∧
      (h = h' ↔ (two_hosts (1 / 2)).Agree (two_hosts (1 / 2))) := by
  rw [Conf_compute_hash_iff id Function.injective_id]
  rintro ⟨-, h, -⟩
  exact absurd (h ⟨rfl, rfl, Perm.refl _⟩).1 (by decide)

theorem same_config_other_hash :
    Conf_compute_hash id .little (two_hosts (1 / 2)) ≠
        Conf_compute_hash id .big (two_hosts (1 / 2)) ∧
      Conf_compute_hash id .little (two_hosts (10356299 / 2 ^ 23)) =
        Conf_compute_hash id .little (two_hosts (10356307 / 2 ^ 23)) ∧
      ¬ (two_hosts (10356299 / 2 ^ 23)).Agree (two_hosts (10356307 / 2 ^ 23)) := by
  refine ⟨by decide +kernel, by decide +kernel, fun h => ?_⟩
  have hdecay := congrArg CONF_IT_LINK.Loss_Calc_Decay h.it
  exact absurd hdecay (by decide +kernel)

end Spines.IntruTol.ConfHash
