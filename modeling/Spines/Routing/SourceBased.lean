/-
Duplicates of source based messages (`Source_Based_Disseminate` of `daemon/route.c`, and
where `Session_Send_Message` of `daemon/session.c` numbers them).

For each source there is a history of `SOURCE_HIST_SIZE` slots. A message belongs in the
slot of its number modulo that size, and goes on if it is newer than what the slot holds,
incarnation first. So a slot holds the newest message that went through it, and what is
older than that is dropped, whether it was seen before or not (`accepts_iff`).

A source counts from 1 and takes the next incarnation when 32 bits are used up.
-/
import Mathlib.Algebra.Group.Nat.Defs
import Mathlib.Tactic.Common

set_option autoImplicit false

namespace Spines.Routing.SourceBased

open Function List

/-! ## 1. The code -/

def SOURCE_HIST_SIZE : ℕ := 100000

structure SeqPair where
  incarnation : ℕ
  seq : ℕ
  deriving DecidableEq, Repr

structure Conf where
  my_address : ℕ
  /-- `Node_Lookup_Addr_to_ID`. -/
  node_lookup : ℕ → Option ℕ
  degree : ℕ
  /-- `Neighbor_Addrs[My_ID][i]`. -/
  neighbor_addrs : ℕ → ℕ
  /-- `MP_Neighbor_Mask[i]`. -/
  mp_neighbor_mask : ℕ → ℕ
  all_nodes : ℕ → Bool

/-- The fields of `udp_header` and `sb_header` that are read, and the mask behind them. -/
structure Packet where
  source : ℕ
  dest : ℕ
  pair : SeqPair
  routing_mask : ℕ
  deriving DecidableEq, Repr

structure Call where
  src_link : Option ℕ
  packet : Packet
  deriving DecidableEq, Repr

/-- `Source_Seq_Hist`. -/
abbrev Hist := ℕ → ℕ → SeqPair

def Hist.init : Hist := fun _ _ => ⟨0, 0⟩

inductive Ret
  | buff_ok
  | no_route
  deriving DecidableEq, Repr

def SeqPair.older (a b : SeqPair) : Prop :=
  a.incarnation < b.incarnation ∨ (a.incarnation = b.incarnation ∧ a.seq < b.seq)

instance (a b : SeqPair) : Decidable (a.older b) := inferInstanceAs (Decidable (_ ∨ _))

def next_hops (cf : Conf) (c : Call) : List ℕ :=
  let last_hop_ip := c.src_link.getD cf.my_address
  ((range' 1 cf.degree).filter fun i =>
    ¬ (cf.neighbor_addrs i = last_hop_ip ∨ cf.neighbor_addrs i = c.packet.source ∨
      cf.my_address = c.packet.dest ∨ c.packet.routing_mask &&& cf.mp_neighbor_mask i = 0) ∧
    cf.all_nodes (cf.neighbor_addrs i)).map cf.neighbor_addrs

/-- `Source_Based_Disseminate`: the history, what is returned, and the calls of
`Forward_Data`. -/
def Source_Based_Disseminate (cf : Conf) (H : Hist) (c : Call) : Hist × Ret × List ℕ :=
  match cf.node_lookup c.packet.source with
  | none => (H, .no_route, [])
  | some src_id =>
    let pair := c.packet.pair
    let seq_index := pair.seq % SOURCE_HIST_SIZE
    let prev_seq := H src_id seq_index
    if prev_seq.seq = pair.seq ∧ prev_seq.incarnation = pair.incarnation then (H, .no_route, [])
    -- too old to tell
    else if pair.incarnation < prev_seq.incarnation ∨
        (pair.seq < prev_seq.seq ∧ prev_seq.incarnation = pair.incarnation) then
      (H, .no_route, [])
    else
      (Function.update H src_id (Function.update (H src_id) seq_index pair), .buff_ok,
        next_hops cf c)

/-- `Session_Send_Message`: the next `My_Source_Incarnation` and `My_Source_Seq`. -/
def next_source_seq (s : SeqPair) : SeqPair :=
  let seq := (s.seq + 1) % 2 ^ 32
  if seq = 0 then ⟨(s.incarnation + 1) % 2 ^ 32, 1⟩ else ⟨s.incarnation, seq⟩

/-- Message number `n` of a source that was started with `incarnation`. -/
def sent (incarnation : ℕ) : ℕ → SeqPair
  | 0 => next_source_seq ⟨incarnation, 0⟩
  | n + 1 => next_source_seq (sent incarnation n)

/-! ## 2. Calls -/

def history (cf : Conf) (H : Hist) (calls : List Call) : Hist :=
  calls.foldl (fun H c => (Source_Based_Disseminate cf H c).1) H

/-- The call returns `BUFF_OK`. -/
def accepts (cf : Conf) (H : Hist) (c : Call) : Prop :=
  (Source_Based_Disseminate cf H c).2.1 = .buff_ok

instance (cf : Conf) (H : Hist) (c : Call) : Decidable (accepts cf H c) :=
  inferInstanceAs (Decidable (_ = _))

/-- The packets for which `BUFF_OK` is returned, in their order. -/
def accepted (cf : Conf) : Hist → List Call → List Packet
  | _, [] => []
  | H, c :: calls =>
    if accepts cf H c then c.packet :: accepted cf (Source_Based_Disseminate cf H c).1 calls
    else accepted cf (Source_Based_Disseminate cf H c).1 calls

structure Packet.In (cf : Conf) (id i : ℕ) (p : Packet) : Prop where
  source : cf.node_lookup p.source = some id
  slot : p.pair.seq % SOURCE_HIST_SIZE = i

section Calls

variable {cf : Conf} {H : Hist} {c : Call} {calls : List Call} {id i : ℕ}

theorem SeqPair.older.trans {a b c : SeqPair} (h : a.older b) (h' : b.older c) : a.older c := by
  unfold older at *
  omega

theorem SeqPair.older.irrefl (a : SeqPair) : ¬ a.older a := by
  unfold older
  omega

theorem older_iff {a b : SeqPair} :
    a.older b ↔ ¬ (a.seq = b.seq ∧ a.incarnation = b.incarnation) ∧
      ¬ (b.incarnation < a.incarnation ∨ (b.seq < a.seq ∧ a.incarnation = b.incarnation)) := by
  unfold SeqPair.older
  omega

theorem disseminate_newer (hid : cf.node_lookup c.packet.source = some id)
    (h : (H id (c.packet.pair.seq % SOURCE_HIST_SIZE)).older c.packet.pair) :
    accepts cf H c ∧ (Source_Based_Disseminate cf H c).1 =
      update H id (update (H id) (c.packet.pair.seq % SOURCE_HIST_SIZE)
        c.packet.pair) := by
  obtain ⟨hnew, hold⟩ := older_iff.mp h
  unfold accepts Source_Based_Disseminate
  rw [hid]
  dsimp only
  rw [if_neg hnew, if_neg hold]
  exact ⟨rfl, rfl⟩

theorem disseminate_old (h : ∀ id, cf.node_lookup c.packet.source = some id →
      ¬ (H id (c.packet.pair.seq % SOURCE_HIST_SIZE)).older c.packet.pair) :
    ¬ accepts cf H c ∧ (Source_Based_Disseminate cf H c).1 = H := by
  unfold accepts Source_Based_Disseminate
  cases hid : cf.node_lookup c.packet.source with
  | none => exact ⟨fun h => Ret.noConfusion h, rfl⟩
  | some id =>
    have hnot := fun hn => h id hid (older_iff.mpr hn)
    dsimp only
    split
    · exact ⟨fun h => Ret.noConfusion h, rfl⟩
    rename_i hnew
    split
    · exact ⟨fun h => Ret.noConfusion h, rfl⟩
    · rename_i hold
      exact absurd ⟨hnew, hold⟩ hnot

theorem accepts_newer (hid : cf.node_lookup c.packet.source = some id) :
    accepts cf H c ↔ (H id (c.packet.pair.seq % SOURCE_HIST_SIZE)).older c.packet.pair := by
  constructor
  · intro hok
    by_contra hold
    refine (disseminate_old fun id' hid' => ?_).1 hok
    obtain rfl := Option.some.inj (hid.symm.trans hid')
    exact hold
  · exact fun h => (disseminate_newer hid h).1

theorem accepts_slot (hok : accepts cf H c) :
    ∃ id, c.packet.In cf id (c.packet.pair.seq % SOURCE_HIST_SIZE) ∧
      (H id (c.packet.pair.seq % SOURCE_HIST_SIZE)).older c.packet.pair := by
  cases hid : cf.node_lookup c.packet.source with
  | none =>
    refine absurd hok (disseminate_old fun id hid' => ?_).1
    exact absurd (hid.symm.trans hid') (by simp)
  | some id => exact ⟨id, ⟨hid, rfl⟩, (accepts_newer hid).mp hok⟩

theorem disseminate_slot (cf : Conf) (H : Hist) (c : Call) (id i : ℕ) :
    (accepts cf H c ∧ c.packet.In cf id i ∧ (H id i).older c.packet.pair ∧
        (Source_Based_Disseminate cf H c).1 id i = c.packet.pair) ∨
      (¬ (accepts cf H c ∧ c.packet.In cf id i) ∧
        (Source_Based_Disseminate cf H c).1 id i = H id i) := by
  by_cases hok : accepts cf H c
  · obtain ⟨id', hin, hnewer⟩ := accepts_slot hok
    rw [(disseminate_newer hin.source hnewer).2]
    by_cases hid : id' = id
    · subst hid
      by_cases hi : c.packet.pair.seq % SOURCE_HIST_SIZE = i
      · subst hi
        exact .inl ⟨hok, hin, hnewer, by rw [update_self, update_self]⟩
      · refine .inr ⟨fun h => hi h.2.slot, ?_⟩
        rw [update_self, update_of_ne (Ne.symm hi)]
    · refine .inr ⟨fun h => hid (Option.some.inj (hin.source.symm.trans h.2.source)), ?_⟩
      rw [update_of_ne (Ne.symm hid)]
  · refine .inr ⟨fun h => hok h.1, ?_⟩
    rw [(disseminate_old fun id' hid h => hok ((accepts_newer hid).mpr h)).2]

theorem accepted_cons (cf : Conf) (H : Hist) (c : Call) (calls : List Call) (p : Packet) :
    p ∈ accepted cf H (c :: calls) ↔
      (accepts cf H c ∧ p = c.packet) ∨
        p ∈ accepted cf (Source_Based_Disseminate cf H c).1 calls := by
  rw [accepted]
  by_cases hok : accepts cf H c
  · rw [if_pos hok, mem_cons]
    exact or_congr_left ⟨fun h => ⟨hok, h⟩, And.right⟩
  · rw [if_neg hok]
    exact ⟨.inr, fun h => h.resolve_left fun h => hok h.1⟩

/-- **A slot holds the newest message that went through it**, by induction on the calls. -/
theorem history_slot (cf : Conf) (calls : List Call) (H : Hist) (id i : ℕ) :
    (history cf H calls id i = H id i ∨
      ∃ p ∈ accepted cf H calls, p.In cf id i ∧ p.pair = history cf H calls id i) ∧
    (H id i = history cf H calls id i ∨ (H id i).older (history cf H calls id i)) ∧
    ∀ p ∈ accepted cf H calls, p.In cf id i → (H id i).older p.pair ∧
      (p.pair = history cf H calls id i ∨ p.pair.older (history cf H calls id i)) := by
  induction calls generalizing H with
  | nil => exact ⟨.inl rfl, .inl rfl, fun p hp => absurd hp not_mem_nil⟩
  | cons c calls ih =>
    obtain ⟨hheld, hle, hall⟩ := ih (Source_Based_Disseminate cf H c).1
    have hhistory : history cf H (c :: calls) =
        history cf (Source_Based_Disseminate cf H c).1 calls := rfl
    rw [hhistory]
    rcases disseminate_slot cf H c id i with ⟨hok, hin, hnewer, hslot⟩ | ⟨hother, hslot⟩
    · -- the message is in the slot now
      rw [hslot] at hheld hle hall
      refine ⟨.inr ?_, .inr ?_, fun p hp hpin => ?_⟩
      · rcases hheld with heq | ⟨p, hp, hpin, heq⟩
        · exact ⟨c.packet, (accepted_cons _ _ _ _ _).mpr (.inl ⟨hok, rfl⟩), hin, heq.symm⟩
        · exact ⟨p, (accepted_cons _ _ _ _ _).mpr (.inr hp), hpin, heq⟩
      · rcases hle with heq | hlt
        · rw [← heq]
          exact hnewer
        · exact hnewer.trans hlt
      · rcases (accepted_cons _ _ _ _ _).mp hp with ⟨-, rfl⟩ | hp
        · exact ⟨hnewer, hle⟩
        · exact ⟨hnewer.trans (hall p hp hpin).1, (hall p hp hpin).2⟩
    · rw [hslot] at hheld hle hall
      refine ⟨?_, hle, fun p hp hpin => ?_⟩
      · rcases hheld with heq | ⟨p, hp, hpin, heq⟩
        · exact .inl heq
        · exact .inr ⟨p, (accepted_cons _ _ _ _ _).mpr (.inr hp), hpin, heq⟩
      · rcases (accepted_cons _ _ _ _ _).mp hp with ⟨hok, rfl⟩ | hp
        · exact absurd ⟨hok, hpin⟩ hother
        · exact hall p hp hpin

theorem accepted_pairwise (cf : Conf) (calls : List Call) (H : Hist) :
    (accepted cf H calls).Pairwise fun p q =>
      ∀ id i, p.In cf id i → q.In cf id i → p.pair.older q.pair := by
  induction calls generalizing H with
  | nil => exact .nil
  | cons c calls ih =>
    rw [accepted]
    by_cases hok : accepts cf H c
    · rw [if_pos hok, pairwise_cons]
      refine ⟨fun q hq id i hin hqin => ?_, ih _⟩
      have hnewer := ((history_slot cf calls (Source_Based_Disseminate cf H c).1 id i).2.2 q hq
        hqin).1
      rcases disseminate_slot cf H c id i with ⟨-, -, -, hslot⟩ | ⟨hother, -⟩
      · rw [hslot] at hnewer
        exact hnewer
      · exact absurd ⟨hok, hin⟩ hother
    · rw [if_neg hok]
      exact ih _

theorem accepted_nodup (cf : Conf) (H : Hist) (calls : List Call) :
    ((accepted cf H calls).map fun p => (p.source, p.pair)).Nodup := by
  have hslot : ∀ p ∈ accepted cf H calls,
      ∃ id, p.In cf id (p.pair.seq % SOURCE_HIST_SIZE) := by
    intro p hp
    induction calls generalizing H with
    | nil => exact absurd hp not_mem_nil
    | cons c calls ih =>
      rcases (accepted_cons _ _ _ _ _).mp hp with ⟨hok, rfl⟩ | hp
      · obtain ⟨id, hin, -⟩ := accepts_slot hok
        exact ⟨id, hin⟩
      · exact ih _ hp
  rw [nodup_iff_pairwise_ne, pairwise_map]
  refine (accepted_pairwise cf calls H).imp_of_mem fun hp _ hnewer heq => ?_
  obtain ⟨hsource, hpair⟩ := Prod.mk.inj heq
  obtain ⟨id, hin⟩ := hslot _ hp
  have hlt := hnewer id _ hin ⟨hsource ▸ hin.source, by rw [← hpair]⟩
  rw [hpair] at hlt
  exact SeqPair.older.irrefl _ hlt

theorem accepts_iff (pre : List Call) (hid : cf.node_lookup c.packet.source = some id) :
    accepts cf (history cf Hist.init pre) c ↔
      SeqPair.older ⟨0, 0⟩ c.packet.pair ∧ ∀ p ∈ accepted cf Hist.init pre,
        p.In cf id (c.packet.pair.seq % SOURCE_HIST_SIZE) → p.pair.older c.packet.pair := by
  obtain ⟨hheld, hle, hall⟩ :=
    history_slot cf pre Hist.init id (c.packet.pair.seq % SOURCE_HIST_SIZE)
  rw [accepts_newer hid]
  constructor
  · intro h
    constructor
    · rcases hle with heq | hlt
      · rw [← heq] at h
        exact h
      · exact hlt.trans h
    · intro p hp hin
      rcases (hall p hp hin).2 with heq | hlt
      · rw [heq]
        exact h
      · exact hlt.trans h
  · rintro ⟨hzero, hnewer⟩
    rcases hheld with heq | ⟨p, hp, hin, heq⟩
    · rw [heq]
      exact hzero
    · rw [← heq]
      exact hnewer p hp hin

end Calls

/-! ## 3. A correct source -/

section Source

variable {cf : Conf} {c : Call} {id incarnation n m : ℕ}

theorem sent_eq (h : incarnation + n / (2 ^ 32 - 1) < 2 ^ 32) :
    sent incarnation n = ⟨incarnation + n / (2 ^ 32 - 1), n % (2 ^ 32 - 1) + 1⟩ := by
  induction n with
  | zero => rfl
  | succ n ih =>
    rw [sent, ih (by omega), next_source_seq]
    dsimp only
    by_cases hlast : n % (2 ^ 32 - 1) = 2 ^ 32 - 2
    · have hdiv : (n + 1) / (2 ^ 32 - 1) = n / (2 ^ 32 - 1) + 1 := by omega
      have hmod : (n + 1) % (2 ^ 32 - 1) = 0 := by omega
      rw [if_pos (by omega), hdiv, hmod, Nat.mod_eq_of_lt (by omega), Nat.add_assoc]
    · have hdiv : (n + 1) / (2 ^ 32 - 1) = n / (2 ^ 32 - 1) := by omega
      have hmod : (n + 1) % (2 ^ 32 - 1) = n % (2 ^ 32 - 1) + 1 := by omega
      rw [if_neg (by omega), hdiv, hmod, Nat.mod_eq_of_lt (by omega)]

/-- Message `m` is before message `n`, or among the `SOURCE_HIST_SIZE - 1` after it in the
same incarnation. -/
def InWindow (n m : ℕ) : Prop :=
  m < n + SOURCE_HIST_SIZE ∧ m / (2 ^ 32 - 1) ≤ n / (2 ^ 32 - 1)

theorem sent_older (h : incarnation + n / (2 ^ 32 - 1) < 2 ^ 32) (hw : InWindow n m)
    (hne : sent incarnation m ≠ sent incarnation n)
    (hslot : (sent incarnation m).seq % SOURCE_HIST_SIZE =
      (sent incarnation n).seq % SOURCE_HIST_SIZE) :
    (sent incarnation m).older (sent incarnation n) := by
  obtain ⟨hlt, hle⟩ := hw
  rw [sent_eq h, sent_eq (n := m) (by omega)] at *
  unfold SeqPair.older
  unfold SOURCE_HIST_SIZE at hlt hslot
  dsimp only at hslot ⊢
  have hmn : m ≠ n := fun heq => hne (by rw [heq])
  omega

end Source

/-! ## 4. The window -/

/-- **Source based messages are not forwarded twice**, whatever the packets say. A message
is accepted exactly if it is newer than all that was accepted in its slot. For a correct
source, as long as it has incarnations left, a message of which no copy was accepted yet is
accepted while everything accepted from the source is in its window. -/
theorem duplicates_dropped (cf : Conf) :
    (∀ H calls, ((accepted cf H calls).map fun p => (p.source, p.pair)).Nodup) ∧
    (∀ pre c id, cf.node_lookup c.packet.source = some id →
      (accepts cf (history cf Hist.init pre) c ↔
        SeqPair.older ⟨0, 0⟩ c.packet.pair ∧ ∀ p ∈ accepted cf Hist.init pre,
          p.In cf id (c.packet.pair.seq % SOURCE_HIST_SIZE) → p.pair.older c.packet.pair)) ∧
    (∀ pre c id incarnation n, cf.node_lookup c.packet.source = some id →
      c.packet.pair = sent incarnation n → incarnation + n / (2 ^ 32 - 1) < 2 ^ 32 →
      (∀ p ∈ accepted cf Hist.init pre, cf.node_lookup p.source = some id →
        p.pair ≠ c.packet.pair ∧ ∃ m, p.pair = sent incarnation m ∧ InWindow n m) →
      accepts cf (history cf Hist.init pre) c) := by
  refine ⟨accepted_nodup cf, fun pre c id hid => accepts_iff pre hid,
    fun pre c id incarnation n hid hsent hleft hown => ?_⟩
  rw [accepts_iff pre hid]
  constructor
  · rw [hsent, sent_eq hleft]
    unfold SeqPair.older
    dsimp only
    omega
  · intro p hp hin
    obtain ⟨hne, m, hm, hw⟩ := hown p hp hin.source
    have hslot := hin.slot
    rw [hsent, hm] at hslot hne ⊢
    exact sent_older hleft hw hne hslot

def one_source : Conf where
  my_address := 1
  node_lookup := fun a => if a = 7 then some 7 else none
  degree := 1
  neighbor_addrs := fun _ => 2
  mp_neighbor_mask := fun _ => 1
  all_nodes := fun _ => true

/-- Message `n` of node 7, which was started in second 5. -/
def from_source (pair : SeqPair) : Call := ⟨some 2, ⟨7, 9, pair, 1⟩⟩

theorem duplicates_dropped_reordered : accepts one_source (history one_source Hist.init
        [from_source ⟨5, 2⟩, from_source ⟨5, 2⟩]) (from_source ⟨5, 1⟩) ∧
      ((accepted one_source Hist.init [from_source ⟨5, 2⟩, from_source ⟨5, 2⟩, from_source ⟨5, 1⟩]).map
        fun p => (p.source, p.pair)).Nodup := by
  obtain ⟨honce, -, hwindow⟩ := duplicates_dropped one_source
  have haccepted : accepted one_source Hist.init [from_source ⟨5, 2⟩, from_source ⟨5, 2⟩] =
      [(from_source ⟨5, 2⟩).packet] := by decide
  refine ⟨hwindow _ _ 7 5 0 rfl rfl (by omega) fun p hp _ => ?_, honce _ _⟩
  rw [haccepted, mem_singleton] at hp
  rw [hp]
  exact ⟨by decide, 1, rfl, by decide, by decide⟩

/-- Message 100005 overtakes the ones before it. Then message 5 comes for the first time; it
is dropped, though only one newer message was accepted. -/
theorem overtaken_dropped :
    sent 5 4 = ⟨5, 5⟩ ∧ sent 5 100004 = ⟨5, 100005⟩ ∧
      accepted one_source Hist.init [from_source ⟨5, 100005⟩] = [(from_source ⟨5, 100005⟩).packet] ∧
      ¬ accepts one_source (history one_source Hist.init [from_source ⟨5, 100005⟩])
        (from_source ⟨5, 5⟩) := by
  refine ⟨sent_eq (by omega), sent_eq (by omega), by decide, by decide⟩

end Spines.Routing.SourceBased
