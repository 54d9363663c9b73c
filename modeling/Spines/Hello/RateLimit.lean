/-
The rate limit of a leg (`Link_Send` and `Fill_Leg_Bucket` of `daemon/link.c`).

A packet costs its bytes from a bucket that is filled as time goes by, and waits behind the others
when the bucket does not hold them. Order, bounds and progress hold in every run. The rate does not:
what is earned counts from the last stamp, and a full bucket is not stamped, so what it could not hold
is granted once it was emptied.
-/
import Spines.Lib.Run
import Mathlib.Tactic.Linarith

set_option autoImplicit false

namespace Spines.Hello.RateLimit

open Spines.Lib List

/-! ## 1. The leg -/

def MAX_PACKET_SIZE : ℕ := 1472
def LEG_BUCKET_FILL_USEC : ℕ := 500

def Leg_Bucket_Cap (Leg_Rate_Limit_kbps : ℕ) : ℤ :=
  Leg_Rate_Limit_kbps * LEG_BUCKET_FILL_USEC / 8000 + MAX_PACKET_SIZE

def Leg_Max_Buffered (Leg_Rate_Limit_kbps : ℕ) : ℤ := Leg_Bucket_Cap Leg_Rate_Limit_kbps

/-- `Leg_Buf_Cell`: which packet it is, and its length. -/
structure Cell where
  scat : ℕ
  total_bytes : ℕ

structure Leg where
  bucket_bytes : ℤ
  bucket_last_filled : ℕ
  bucket_buf : List Cell
  /-- History: what went out and when, and what was not refused. -/
  sent : List (ℕ × Cell)
  taken : List Cell

variable (Leg_Rate_Limit_kbps : ℕ)

def Create_Network_Leg (now : ℕ) : Leg := ⟨Leg_Bucket_Cap Leg_Rate_Limit_kbps, now, [], [], []⟩

def Leg.dl_send (leg : Leg) (now : ℕ) (cell : Cell) : Leg :=
  { leg with
    bucket_bytes := leg.bucket_bytes - cell.total_bytes
    sent := leg.sent ++ [(now, cell)] }

def Leg_Try_Send_Buffered (now : ℕ) : List Cell → Leg → Leg
  | [], leg => { leg with bucket_buf := [] }
  | cell :: cells, leg =>
    if leg.bucket_bytes < cell.total_bytes then { leg with bucket_buf := cell :: cells }
    else Leg_Try_Send_Buffered now cells (leg.dl_send now cell)

def Link_Send (now : ℕ) (cell : Cell) (leg : Leg) : Leg :=
  if Leg_Max_Buffered Leg_Rate_Limit_kbps ≤ leg.bucket_buf.length then leg
  else
    let leg := { leg with taken := leg.taken ++ [cell] }
    if leg.bucket_buf = [] ∧ (cell.total_bytes : ℤ) ≤ leg.bucket_bytes then leg.dl_send now cell
    else Leg_Try_Send_Buffered now (leg.bucket_buf ++ [cell]) leg

def Leg.to_add (leg : Leg) (now : ℕ) : ℕ :=
  Leg_Rate_Limit_kbps * (now - leg.bucket_last_filled) / 8000

/-- `none` is its exit. -/
def Fill_Leg_Bucket (now : ℕ) (leg : Leg) : Option Leg :=
  if Leg_Bucket_Cap Leg_Rate_Limit_kbps < leg.bucket_bytes then none
  else if leg.bucket_bytes = Leg_Bucket_Cap Leg_Rate_Limit_kbps then some leg
  else
    let leg := { leg with
      bucket_bytes := min (leg.bucket_bytes + leg.to_add Leg_Rate_Limit_kbps now)
        (Leg_Bucket_Cap Leg_Rate_Limit_kbps)
      bucket_last_filled := now }
    if leg.bucket_buf ≠ [] ∧ 0 < leg.bucket_bytes then
      some (Leg_Try_Send_Buffered now leg.bucket_buf leg)
    else some leg

/-! ## 2. Runs -/

inductive Event
  | send (cell : Cell)
  | fill

def Leg.next (leg : Leg) (now : ℕ) : Event → Option Leg
  | .send cell => some (Link_Send Leg_Rate_Limit_kbps now cell leg)
  | .fill => Fill_Leg_Bucket Leg_Rate_Limit_kbps now leg

structure World where
  now : ℕ
  leg : Leg

def Step (w : World) (e : ℕ × Event) (w' : World) : Prop :=
  w.now ≤ e.1 ∧ w'.now = e.1 ∧ w.leg.next Leg_Rate_Limit_kbps e.1 e.2 = some w'.leg

/-- What a bucket holds at `now` that is filled all the time and never holds more than the cap, in
8000ths of a byte: first after the last packet, and then until `now`. -/
def drawn (sent : List (ℕ × Cell)) : ℤ × ℕ :=
  sent.foldl (fun l s => (min (8000 * Leg_Bucket_Cap Leg_Rate_Limit_kbps)
    (l.1 + Leg_Rate_Limit_kbps * (s.1 - l.2 : ℤ)) - 8000 * s.2.total_bytes, s.1))
    (8000 * Leg_Bucket_Cap Leg_Rate_Limit_kbps, 0)

def level (sent : List (ℕ × Cell)) (now : ℕ) : ℤ :=
  min (8000 * Leg_Bucket_Cap Leg_Rate_Limit_kbps)
    ((drawn Leg_Rate_Limit_kbps sent).1 +
      Leg_Rate_Limit_kbps * (now - (drawn Leg_Rate_Limit_kbps sent).2 : ℤ))

/-- A fill adds nothing that was earned while the bucket was full: with what has been earned since
the last stamp there is no more in the bucket than if it had been filled all the time, or that would
be full by now. -/
def Fits (w : World) (e : ℕ × Event) : Prop :=
  match e.2 with
  | .send _ => True
  | .fill => w.leg.bucket_bytes < Leg_Bucket_Cap Leg_Rate_Limit_kbps →
    8000 * (w.leg.bucket_bytes + w.leg.to_add Leg_Rate_Limit_kbps e.1) ≤
        level Leg_Rate_Limit_kbps w.leg.sent e.1 ∨
      8000 * Leg_Bucket_Cap Leg_Rate_Limit_kbps ≤ level Leg_Rate_Limit_kbps w.leg.sent e.1

/-- Any steps, in which `n` bytes are earned. -/
inductive Fed (w : World) : ℕ → World → Prop
  | refl : Fed w 0 w
  | send {n : ℕ} {w' w'' : World} {now : ℕ} {cell : Cell} (h : Fed w n w')
      (hstep : Step Leg_Rate_Limit_kbps w' (now, .send cell) w'') : Fed w n w''
  | fill {n : ℕ} {w' w'' : World} {now : ℕ} (h : Fed w n w')
      (hstep : Step Leg_Rate_Limit_kbps w' (now, .fill) w'') :
      Fed w (n + w'.leg.to_add Leg_Rate_Limit_kbps now) w''

/-- The bytes that went out from `t` on, and up to `t'`. -/
def Leg.bytes (leg : Leg) (t t' : ℕ) : ℕ :=
  ((leg.sent.filter fun s => t ≤ s.1 ∧ s.1 ≤ t').map fun s => s.2.total_bytes).sum

/-! ## 3. Every run -/

structure Leg.Inv (leg : Leg) : Prop where
  nonneg : 0 ≤ leg.bucket_bytes
  le_cap : leg.bucket_bytes ≤ Leg_Bucket_Cap Leg_Rate_Limit_kbps
  stuck : ∀ cell ∈ leg.bucket_buf.head?, leg.bucket_bytes < cell.total_bytes
  order : leg.sent.map Prod.snd ++ leg.bucket_buf = leg.taken

structure Sends (now : ℕ) (cells : List Cell) (leg leg' : Leg) : Prop where
  out : ∃ l, cells = l ++ leg'.bucket_buf ∧ leg'.sent = leg.sent ++ l.map (fun c => (now, c)) ∧
    leg'.bucket_bytes = leg.bucket_bytes - (l.map Cell.total_bytes).sum
  nonneg : 0 ≤ leg.bucket_bytes → 0 ≤ leg'.bucket_bytes
  stuck : ∀ cell ∈ leg'.bucket_buf.head?, leg'.bucket_bytes < cell.total_bytes
  stamp : leg'.bucket_last_filled = leg.bucket_last_filled
  taken : leg'.taken = leg.taken

theorem try_sends (now : ℕ) (cells : List Cell) (leg : Leg) :
    Sends now cells leg (Leg_Try_Send_Buffered now cells leg) := by
  induction cells generalizing leg with
  | nil => exact ⟨⟨[], by simp [Leg_Try_Send_Buffered]⟩, id, by simp [Leg_Try_Send_Buffered], rfl, rfl⟩
  | cons cell cells ih =>
    unfold Leg_Try_Send_Buffered
    by_cases hc : leg.bucket_bytes < cell.total_bytes
    · rw [if_pos hc]
      exact ⟨⟨[], by simp⟩, id, by simpa using hc, rfl, rfl⟩
    · rw [if_neg hc]
      obtain ⟨⟨l, hcells, hsent, hbytes⟩, hnonneg, hstuck, hstamp, htaken⟩ := ih (leg.dl_send now cell)
      refine ⟨⟨cell :: l, ?_, ?_, ?_⟩, fun _ => hnonneg ?_, hstuck, hstamp, htaken⟩
      · rw [cons_append, ← hcells]
      · rw [hsent]
        simp [Leg.dl_send]
      · rw [hbytes]
        simp only [Leg.dl_send, map_cons, sum_cons]
        push_cast
        omega
      · simp only [Leg.dl_send]
        omega

theorem send_sends {leg : Leg} (now : ℕ) (cell : Cell)
    (h : ¬ Leg_Max_Buffered Leg_Rate_Limit_kbps ≤ leg.bucket_buf.length) :
    Sends now (leg.bucket_buf ++ [cell]) { leg with taken := leg.taken ++ [cell] }
      (Link_Send Leg_Rate_Limit_kbps now cell leg) := by
  unfold Link_Send
  rw [if_neg h]
  dsimp only
  split
  · next hdirect =>
    refine ⟨⟨[cell], ?_, ?_, ?_⟩, fun _ => ?_, ?_, rfl, rfl⟩
    · simp [Leg.dl_send, hdirect.1]
    · simp [Leg.dl_send]
    · simp [Leg.dl_send]
    · have := hdirect.2
      dsimp only [Leg.dl_send]
      omega
    · simp [Leg.dl_send, hdirect.1]
  · exact try_sends now _ _

variable {K : ℕ}

theorem cap_nonneg : 0 ≤ Leg_Bucket_Cap K := by
  unfold Leg_Bucket_Cap
  positivity

theorem Sends.order {now : ℕ} {cells : List Cell} {leg leg' : Leg} (h : Sends now cells leg leg') :
    leg'.sent.map Prod.snd ++ leg'.bucket_buf = leg.sent.map Prod.snd ++ cells := by
  obtain ⟨l, hcells, hsent, -⟩ := h.out
  have hid : (l.map fun c => (now, c)).map Prod.snd = l := by simp [Function.comp_def]
  rw [hcells, hsent, map_append, hid, append_assoc]

theorem fill_cases {leg : Leg} (h : leg.Inv K) (now : ℕ) :
    (leg.bucket_bytes = Leg_Bucket_Cap K ∧
      Fill_Leg_Bucket K now leg = some leg) ∨
    (leg.bucket_bytes < Leg_Bucket_Cap K ∧
      ∃ leg', Fill_Leg_Bucket K now leg = some leg' ∧
        Sends now leg.bucket_buf { leg with
          bucket_bytes := min (leg.bucket_bytes + leg.to_add K now)
            (Leg_Bucket_Cap K)
          bucket_last_filled := now } leg') := by
  unfold Fill_Leg_Bucket
  rw [if_neg (not_lt.mpr h.le_cap)]
  by_cases hfull : leg.bucket_bytes = Leg_Bucket_Cap K
  · exact .inl ⟨hfull, if_pos hfull⟩
  · rw [if_neg hfull]
    refine .inr ⟨lt_of_le_of_ne h.le_cap hfull, ?_⟩
    dsimp only
    split
    · exact ⟨_, rfl, try_sends now _ _⟩
    · next hno =>
      -- nothing waits, or the bucket is empty and what waits did not fit before
      refine ⟨_, rfl, ⟨[], by simp⟩, id, fun cell hcell => ?_, rfl, rfl⟩
      have hold := h.stuck cell hcell
      have hpos := h.nonneg
      have hne : leg.bucket_buf ≠ [] := by
        rintro hnil
        rw [hnil] at hcell
        simp at hcell
      have hzero : ¬ 0 < min (leg.bucket_bytes + leg.to_add K now)
        (Leg_Bucket_Cap K) := fun hlt => hno ⟨hne, hlt⟩
      dsimp only
      omega

theorem next_inv {leg : Leg} (h : leg.Inv K) (now : ℕ) (e : Event) :
    ∃ leg', leg.next K now e = some leg' ∧ leg'.Inv K := by
  have hcap := cap_nonneg (K := K)
  have hnonneg := h.nonneg
  have hle := h.le_cap
  cases e with
  | send cell =>
    by_cases hfull : Leg_Max_Buffered K ≤ leg.bucket_buf.length
    · exact ⟨leg, by rw [Leg.next, Link_Send, if_pos hfull], h⟩
    · have hs := send_sends K now cell hfull
      obtain ⟨l, -, -, hbytes⟩ := hs.out
      dsimp only at hbytes
      refine ⟨_, rfl, hs.nonneg h.nonneg, by omega, hs.stuck, ?_⟩
      rw [hs.order, hs.taken, ← append_assoc]
      exact congrArg (· ++ [cell]) h.order
  | fill =>
    rcases fill_cases h now with ⟨-, hsame⟩ | ⟨-, leg', hfill, hs⟩
    · exact ⟨leg, hsame, h⟩
    · obtain ⟨l, -, -, hbytes⟩ := hs.out
      dsimp only at hbytes
      refine ⟨leg', hfill, hs.nonneg ?_, by omega, hs.stuck, ?_⟩
      · dsimp only
        omega
      · rw [hs.order, hs.taken]
        exact h.order

theorem created_inv (now : ℕ) : (Create_Network_Leg K now).Inv K :=
  ⟨cap_nonneg, le_refl _, by simp [Create_Network_Leg], rfl⟩

theorem step_inv {w w' : World} {e : ℕ × Event} (h : w.leg.Inv K)
    (hstep : Step K w e w') : w'.leg.Inv K := by
  obtain ⟨leg', hnext, hinv⟩ := next_inv h e.1 e.2
  rw [hstep.2.2, Option.some.injEq] at hnext
  exact hnext ▸ hinv

theorem fed_waits {n : ℕ} {w w' : World} {cell : Cell} {cells : List Cell}
    (h : w.leg.Inv K) (hbuf : w.leg.bucket_buf = cell :: cells)
    (hcell : cell.total_bytes ≤ Leg_Bucket_Cap K) (hfed : Fed K w n w') :
    w'.leg.Inv K ∧
      (w.leg.sent.map Prod.snd ++ [cell] <+: w'.leg.sent.map Prod.snd ∨
        w'.leg.sent = w.leg.sent ∧ w'.leg.bucket_buf.head? = some cell ∧
          n ≤ w'.leg.bucket_bytes) := by
  have honward : ∀ {now : ℕ} {cs : List Cell} {leg leg' : Leg}, Sends now cs leg leg' →
      leg.sent.map Prod.snd <+: leg'.sent.map Prod.snd := by
    intro now cs leg leg' hs
    obtain ⟨l, -, hsent, -⟩ := hs.out
    rw [hsent, map_append]
    exact prefix_append _ _
  -- a loop that begins with the packet sends it, or nothing
  have hloop : ∀ {now : ℕ} {cs : List Cell} {leg leg' : Leg}, Sends now (cell :: cs) leg leg' →
      leg.sent = w.leg.sent →
      w.leg.sent.map Prod.snd ++ [cell] <+: leg'.sent.map Prod.snd ∨
        leg'.sent = w.leg.sent ∧ leg'.bucket_buf.head? = some cell ∧
          leg'.bucket_bytes = leg.bucket_bytes := by
    intro now cs leg leg' hs hsent0
    obtain ⟨l, hcells, hsent, hbytes⟩ := hs.out
    cases l with
    | nil =>
      rw [nil_append] at hcells
      exact .inr ⟨by simpa [hsent0] using hsent, by rw [← hcells]; rfl, by simpa using hbytes⟩
    | cons c l =>
      rw [cons_append, cons.injEq] at hcells
      refine .inl ⟨l, ?_⟩
      rw [hsent, hsent0, hcells.1]
      simp [Function.comp_def]
  induction hfed with
  | refl => exact ⟨h, .inr ⟨rfl, by rw [hbuf]; rfl, h.nonneg⟩⟩
  | @send n w1 w2 now c _ hstep ih =>
    obtain ⟨hinv, ih⟩ := ih
    refine ⟨step_inv hinv hstep, ?_⟩
    obtain ⟨-, -, hnext⟩ := hstep
    have hleg := Option.some.inj hnext
    by_cases hfull : Leg_Max_Buffered K ≤ w1.leg.bucket_buf.length
    · rw [Link_Send, if_pos hfull] at hleg
      rw [← hleg]
      exact ih
    · have hs := send_sends K now c hfull
      rw [hleg] at hs
      rcases ih with hgone | ⟨hsent, hhead, hn⟩
      · have hmore := honward hs
        exact .inl (hgone.trans hmore)
      · obtain ⟨cs, hcs⟩ := head?_eq_some_iff.mp hhead
        rw [hcs, cons_append] at hs
        rcases hloop hs hsent with hgone | ⟨hsame, hhead', hbytes⟩
        · exact .inl hgone
        · exact .inr ⟨hsame, hhead', by rw [hbytes]; exact hn⟩
  | @fill n w1 w2 now _ hstep ih =>
    obtain ⟨hinv, ih⟩ := ih
    refine ⟨step_inv hinv hstep, ?_⟩
    obtain ⟨-, -, hnext⟩ := hstep
    rw [Leg.next] at hnext
    rcases fill_cases hinv now with ⟨hcap, hsame⟩ | ⟨-, leg', hfill, hs⟩
    · rw [hsame, Option.some.injEq] at hnext
      rw [← hnext]
      refine ih.imp_right fun ⟨_, hhead, _⟩ => ?_
      -- a full bucket holds the packet
      have hlt := hinv.stuck cell hhead
      omega
    · rw [hfill, Option.some.injEq] at hnext
      rw [hnext] at hs
      rcases ih with hgone | ⟨hsent, hhead, hn⟩
      · have hmore := honward hs
        exact .inl (hgone.trans hmore)
      · obtain ⟨cs, hcs⟩ := head?_eq_some_iff.mp hhead
        rw [hcs] at hs
        rcases hloop hs hsent with hgone | ⟨hsame, hhead', hbytes⟩
        · exact .inl hgone
        · have hlt := hs.stuck cell hhead'
          dsimp only at hbytes
          exact .inr ⟨hsame, hhead', by push_cast; omega⟩

/-! ## 4. The rate -/

theorem bytes_sent {now t t' : ℕ} {cells : List Cell} {leg leg' : Leg}
    (h : Sends now cells leg leg') :
    (t ≤ now ∧ now ≤ t' →
      (leg'.bytes t t' : ℤ) + leg'.bucket_bytes = leg.bytes t t' + leg.bucket_bytes) ∧
    (¬ (t ≤ now ∧ now ≤ t') → leg'.bytes t t' = leg.bytes t t') := by
  obtain ⟨l, -, hsent, hbytes⟩ := h.out
  unfold Leg.bytes
  rw [hsent, filter_append, map_append, sum_append, hbytes]
  constructor
  · intro hin
    have hall : (l.map fun c => (now, c)).filter (fun s => t ≤ s.1 ∧ s.1 ≤ t') =
        l.map fun c => (now, c) := by
      rw [filter_eq_self]
      simp [hin]
    have hsum : ((l.map fun c => (now, c)).map fun s => s.2.total_bytes) = l.map Cell.total_bytes := by
      rw [map_map]
      rfl
    rw [hall, hsum]
    push_cast
    omega
  · intro hout
    have hnone : (l.map fun c => (now, c)).filter (fun s => t ≤ s.1 ∧ s.1 ≤ t') = [] := by
      rw [filter_eq_nil_iff]
      rintro s hs
      obtain ⟨c, -, rfl⟩ := mem_map.mp hs
      simpa using hout
    rw [hnone]
    simp

theorem level_le (sent : List (ℕ × Cell)) (now : ℕ) :
    level K sent now ≤ 8000 * Leg_Bucket_Cap K := min_le_left _ _

theorem level_mono (sent : List (ℕ × Cell)) {now now' : ℕ} (h : now ≤ now') :
    level K sent now ≤ level K sent now' := by
  have hmul : (K * now : ℤ) ≤ K * now' := by
    exact_mod_cast Nat.mul_le_mul_left K h
  refine min_le_min_left _ ?_
  linarith

theorem level_concat (sent : List (ℕ × Cell)) (s : ℕ × Cell) (now : ℕ) :
    level K (sent ++ [s]) now = min (8000 * Leg_Bucket_Cap K)
      (level K sent s.1 - 8000 * s.2.total_bytes + K * (now - s.1 : ℤ)) := by
  simp only [level, drawn, foldl_append, foldl_cons, foldl_nil]

/-- Packets that go out at one time are taken out of the level as they are. -/
theorem level_sent (sent : List (ℕ × Cell)) (now : ℕ) (l : List Cell) :
    level K (sent ++ l.map fun c => (now, c)) now =
      level K sent now - 8000 * (l.map Cell.total_bytes).sum := by
  induction l generalizing sent with
  | nil => simp
  | cons c l ih =>
    have hle := level_le (K := K) sent now
    rw [map_cons, append_cons, ih, level_concat, map_cons, sum_cons, sub_self, mul_zero,
      min_eq_right (by dsimp only; omega)]
    dsimp only
    push_cast
    omega

/-- The level knows of every interval, by induction on the packets from the last one. -/
theorem level_bytes {sent : List (ℕ × Cell)} {now : ℕ}
    (horder : (sent.map Prod.fst ++ [now]).Pairwise (· ≤ ·)) {t : ℕ} (ht : t ≤ now) (t' : ℕ)
    (ht' : now ≤ t') : level K sent now +
      8000 * ((sent.filter fun s => t ≤ s.1 ∧ s.1 ≤ t').map fun s => s.2.total_bytes).sum ≤
        8000 * Leg_Bucket_Cap K + K * (now - t : ℤ) := by
  have hmul : (K * t : ℤ) ≤ K * now := by
    exact_mod_cast Nat.mul_le_mul_left K ht
  induction sent using reverseRecOn generalizing now with
  | nil =>
    have hle := level_le (K := K) [] now
    simp only [filter_nil, map_nil, sum_nil]
    push_cast
    linarith
  | append_singleton sent s ih =>
    rw [map_append, map_singleton, append_assoc, pairwise_append] at horder
    obtain ⟨hsent, hlast, hpast⟩ := horder
    have hs : s.1 ≤ now := by simpa using hlast
    by_cases hts : t ≤ s.1
    · have horder' : (sent.map Prod.fst ++ [s.1]).Pairwise (· ≤ ·) := by
        refine pairwise_append.mpr ⟨hsent, pairwise_singleton _ _, fun a ha b hb => ?_⟩
        exact hpast a ha b (by simp [mem_singleton.mp hb])
      have hmul' : (K * t : ℤ) ≤ K * s.1 := by
        exact_mod_cast Nat.mul_le_mul_left K hts
      have hold := ih horder' hts (hs.trans ht') hmul'
      have hin : decide (t ≤ s.1 ∧ s.1 ≤ t') = true := decide_eq_true ⟨hts, hs.trans ht'⟩
      have hle := min_le_right (8000 * Leg_Bucket_Cap K)
        (level K sent s.1 - 8000 * s.2.total_bytes + K * (now - s.1 : ℤ))
      rw [level_concat, filter_append, filter_singleton, hin, map_append, sum_append]
      simp only [cond_true, map_singleton, sum_singleton]
      rw [Nat.cast_add]
      linarith
    · -- the interval begins behind all packets
      have hnone : (sent ++ [s]).filter (fun s => t ≤ s.1 ∧ s.1 ≤ t') = [] := by
        rw [filter_eq_nil_iff]
        intro a ha
        have hle : a.1 ≤ s.1 := by
          rcases mem_append.mp ha with ha | ha
          · exact hpast _ (mem_map_of_mem ha) _ mem_cons_self
          · rw [mem_singleton.mp ha]
        simp
        omega
      have hle := level_le (K := K) (sent ++ [s]) now
      rw [hnone, map_nil, sum_nil]
      push_cast
      linarith

structure Bounded (K : ℕ) (w : World) : Prop where
  order : (w.leg.sent.map Prod.fst ++ [w.now]).Pairwise (· ≤ ·)
  holds : 8000 * w.leg.bucket_bytes ≤ level K w.leg.sent w.now
  rate : ∀ t t' : ℕ, t ≤ t' →
    8000 * (w.leg.bytes t t' : ℤ) ≤ 8000 * Leg_Bucket_Cap K + K * (t' - t : ℤ)

/-- Sending keeps the bound when the bucket holds no more than the level. -/
theorem Bounded.sends {now : ℕ} {w : World} {cells : List Cell} {leg leg' : Leg}
    (h : Bounded K w) (hnow : w.now ≤ now) (hsent : leg.sent = w.leg.sent)
    (hnonneg : 0 ≤ leg.bucket_bytes) (hlevel : 8000 * leg.bucket_bytes ≤ level K w.leg.sent now)
    (hs : Sends now cells leg leg') : Bounded K ⟨now, leg'⟩ := by
  obtain ⟨l, -, hout, hbytes⟩ := hs.out
  have hnonneg' := hs.nonneg hnonneg
  have hlevel' : 8000 * leg'.bucket_bytes ≤ level K leg'.sent now := by
    rw [hout, level_sent, hbytes, hsent]
    linarith
  have horder : (leg'.sent.map Prod.fst ++ [now]).Pairwise (· ≤ ·) := by
    have hpast := pairwise_append.mp h.order
    have htimes : leg'.sent.map Prod.fst ++ [now] =
        w.leg.sent.map Prod.fst ++ replicate (l.length + 1) now := by
      rw [hout, hsent, map_append, map_map, append_assoc, replicate_succ']
      congr 2
      exact map_const'
    rw [htimes, pairwise_append]
    refine ⟨hpast.1, pairwise_replicate.mpr (.inr (le_refl now)), fun a ha b hb => ?_⟩
    rw [eq_of_mem_replicate hb]
    exact (hpast.2.2 a ha _ mem_cons_self).trans hnow
  refine ⟨horder, hlevel', fun t t' htt => ?_⟩
  by_cases hin : t ≤ now ∧ now ≤ t'
  · have hbound := level_bytes (K := K) horder hin.1 t' hin.2
    have hmul : (K * now : ℤ) ≤ K * t' := by
      exact_mod_cast Nat.mul_le_mul_left K hin.2
    dsimp only [Leg.bytes]
    linarith
  · dsimp only
    rw [(bytes_sent hs).2 hin, Leg.bytes, hsent]
    exact h.rate t t' htt

theorem Leg.Inv.sends_nothing {leg : Leg} (h : leg.Inv K) (now : ℕ) :
    Sends now leg.bucket_buf leg leg :=
  ⟨⟨[], by simp⟩, id, h.stuck, rfl, rfl⟩

theorem step_bounded {w w' : World} {e : ℕ × Event} (hinv : w.leg.Inv K)
    (h : Bounded K w) (hstep : Step K w e w') (hfits : Fits K w e) : Bounded K w' := by
  obtain ⟨now0, e⟩ := e
  obtain ⟨now, leg'⟩ := w'
  obtain ⟨hnow, rfl, hnext⟩ := hstep
  dsimp only at hnow hnext ⊢
  have hlevel := h.holds.trans (level_mono w.leg.sent hnow)
  have hsame := h.sends hnow rfl hinv.nonneg hlevel (hinv.sends_nothing now)
  cases e with
  | send cell =>
    obtain rfl := Option.some.inj hnext
    by_cases hfull : Leg_Max_Buffered K ≤ w.leg.bucket_buf.length
    · rw [Link_Send, if_pos hfull]
      exact hsame
    · refine h.sends hnow ?_ ?_ ?_ (send_sends K now cell hfull)
      · rfl
      · exact hinv.nonneg
      · exact hlevel
  | fill =>
    rw [Leg.next] at hnext
    rcases fill_cases hinv now with ⟨-, hkept⟩ | ⟨hlt, leg1, hfill, hs⟩
    · rw [hkept, Option.some.injEq] at hnext
      rw [← hnext]
      exact hsame
    · rw [hfill, Option.some.injEq] at hnext
      rw [hnext] at hs
      have hcap := cap_nonneg (K := K)
      have hnonneg := hinv.nonneg
      have hfit := hfits hlt
      refine h.sends hnow ?_ ?_ ?_ hs <;> dsimp only at hfit ⊢
      · omega
      · omega

theorem created_bounded (K now : ℕ) : Bounded K ⟨now, Create_Network_Leg K now⟩ := by
  have hcap := cap_nonneg (K := K)
  refine ⟨pairwise_singleton _ _, le_min (le_refl _) ?_, fun t t' h => ?_⟩
  · simp only [drawn, Create_Network_Leg, foldl_nil]
    have hmul : (0 : ℤ) ≤ K * now := by positivity
    push_cast
    linarith
  have hzero : (Create_Network_Leg K now).bytes t t' = 0 := rfl
  have hmul : (K * t : ℤ) ≤ K * t' := by
    exact_mod_cast Nat.mul_le_mul_left K h
  dsimp only
  rw [hzero]
  push_cast
  linarith

end Spines.Hello.RateLimit
