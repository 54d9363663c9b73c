/-
Whether `Reliable_Flood_Process_E2E` returns (`daemon/reliable_flood.c`).

`reliable_flood_process_e2e` computes what the function does to the daemon, and
decides beforehand whether the loop `while (fb->sow <= aru)` of some cell goes
on forever. Here the loops are run: each is given by its round, on the integers
of the source, and `E2eRuns` relates the state before a call to the state in
which it returns.

Every loop but one counts up to `head_seq`, an `int64u`, with a strict
comparison. The bound of the remaining one is the `aru` of the cell, with `<=`;
`Reliable_Flood_Process_Acks` guards its copy against the largest value and this
one does not (`sow_loop_endless`).
-/
import Spines.RelFlood.Acks
import Spines.Lib.While

set_option autoImplicit false

namespace Spines.RelFlood

open Spines.Lib List

/-! ## 1. The loops on one buffer -/

def sow_round (cf : Conf) (aru : ℕ) (fb : FlowBuffer) : Option FlowBuffer :=
  if fb.sow ≤ aru then
    let idx := slot fb.sow
    let fb := if (fb.msg idx).isNone then fb else fb.clear_slot cf idx
    some { fb with sow := int64u (fb.sow + 1) }
  else none

/-- A round of the loop that moves `next_seq[k]` over what was sent. -/
def sent_round (fb : FlowBuffer) (k n : ℕ) : Option ℕ :=
  if n < fb.head_seq ∧ (fb.status (slot n) k).sent then some (int64u (n + 1)) else none

/-- A round of `for (k = fb->sow; k < fb->head_seq; k++)`. -/
def clear_round (cf : Conf) (x : ℕ × FlowBuffer) : Option (ℕ × FlowBuffer) :=
  if x.1 < x.2.head_seq then some (int64u (x.1 + 1), x.2.clear_slot cf (slot x.1)) else none

/-- The counters of a buffer that bound or drive a loop fit into an `int64u`. -/
def FlowBuffer.Words (fb : FlowBuffer) : Prop := fb.sow < 2 ^ 64 ∧ fb.head_seq < 2 ^ 64

section Loops

variable {cf : Conf} {fb fb' : FlowBuffer}

theorem int64u_of_lt {n : ℕ} (h : n < 2 ^ 64) : int64u n = n := by
  unfold int64u
  exact Nat.mod_eq_of_lt h

theorem sow_round_advance {aru : ℕ} (h : aru + 1 < 2 ^ 64) (hle : fb.sow ≤ aru) :
    ∃ fb1, sow_round cf aru fb = some fb1 ∧ fb1.sow = fb.sow + 1 ∧
      ∀ n, advance_loop cf true (n + 1) fb = advance_loop cf true n fb1 := by
  have hword : int64u (fb.sow + 1) = fb.sow + 1 := int64u_of_lt (by omega)
  rw [sow_round, if_pos hle]
  dsimp only
  by_cases hmsg : (fb.msg (slot fb.sow)).isNone = true
  · rw [if_pos hmsg, hword]
    refine ⟨_, rfl, rfl, fun n => ?_⟩
    rw [advance_loop, hmsg]
    rfl
  · rw [if_neg hmsg]
    refine ⟨_, rfl, hword, fun n => ?_⟩
    rw [advance_loop, Bool.eq_false_iff.mpr hmsg]
    dsimp only [FlowBuffer.clear_slot]
    rw [hword]
    rfl

theorem sow_loop_ends (cf : Conf) {aru : ℕ} (h : aru + 1 < 2 ^ 64) (fb : FlowBuffer) :
    Ends (sow_round cf aru) fb (fb.advance_sow cf true aru) := by
  refine ends_of_rounds (advance_loop cf true) (fun n fb => n = aru + 1 - fb.sow) ?_ ?_ _ fb rfl
  · rintro n fb rfl hstop
    have hlt : ¬ fb.sow ≤ aru := fun hle => by
      rw [sow_round, if_pos hle] at hstop
      cases hstop
    rw [show aru + 1 - fb.sow = 0 by omega, advance_loop]
  · rintro n fb fb' rfl hround
    have hle : fb.sow ≤ aru := by
      by_contra hgt
      rw [sow_round, if_neg hgt] at hround
      cases hround
    obtain ⟨fb1, hfb1, hsow, hloop⟩ := sow_round_advance h hle
    obtain rfl := Option.some.inj (hfb1.symm.trans hround)
    refine ⟨aru - fb.sow, by omega, ?_, by omega⟩
    rw [show aru + 1 - fb.sow = aru - fb.sow + 1 by omega, hloop]

theorem sow_loop_endless (hfb : fb.sow < 2 ^ 64) : ¬ Ends (sow_round cf ULLONG_MAX) fb fb' := by
  refine not_ends (fun fb => fb.sow < 2 ^ 64) hfb (fun fb hlt => ?_)
  rw [sow_round, if_pos (by unfold ULLONG_MAX; omega)]
  refine ⟨_, rfl, ?_⟩
  unfold int64u
  exact Nat.mod_lt _ (by decide)

theorem sent_loop_ends (k n : ℕ) (hfb : fb.head_seq < 2 ^ 64) :
    Ends (sent_round fb k) n (fb.skip_sent k n) := by
  refine ends_of_rounds (skip_loop fb.status fb.head_seq k)
    (fun r n => r = fb.head_seq - n) ?_ ?_ _ n rfl
  · rintro r n rfl hstop
    cases hr : fb.head_seq - n with
    | zero => rfl
    | succ r =>
      rw [skip_loop, if_neg]
      intro hgo
      rw [sent_round, if_pos hgo] at hstop
      cases hstop
  · rintro r n n' rfl hround
    unfold sent_round at hround
    split at hround
    · rename_i hgo
      obtain rfl := Option.some.inj hround
      have hword : int64u (n + 1) = n + 1 := int64u_of_lt (by omega)
      refine ⟨fb.head_seq - (n + 1), by omega, ?_, by rw [hword]⟩
      rw [hword, show fb.head_seq - n = fb.head_seq - (n + 1) + 1 by omega, skip_loop, if_pos hgo]
    · cases hround

theorem clear_loop_ends (lo : ℕ) (hfb : fb.head_seq < 2 ^ 64) :
    ∃ n, Ends (clear_round cf) (lo, fb) (n, clear_range cf lo (fb.head_seq - lo) fb) := by
  have hends : Ends (clear_round cf) (lo, fb) _ := ends_of_rounds
    (fun r x => (x.1 + r, clear_range cf x.1 r x.2))
    (fun r x => r = x.2.head_seq - x.1 ∧ x.2.head_seq < 2 ^ 64) ?_ ?_
    (fb.head_seq - lo) (lo, fb) ⟨rfl, hfb⟩
  · exact ⟨_, hends⟩
  · rintro r ⟨n, fb⟩ ⟨rfl, -⟩ hstop
    have hge : ¬ n < fb.head_seq := fun hlt => by
      rw [clear_round, if_pos hlt] at hstop
      cases hstop
    have hnone : fb.head_seq - n = 0 := by omega
    rw [hnone]
    rfl
  · rintro r ⟨n, fb⟩ x ⟨rfl, hlt⟩ hround
    unfold clear_round at hround
    dsimp only at hround hlt
    split at hround
    · rename_i hgo
      obtain rfl := Option.some.inj hround
      have hword : int64u (n + 1) = n + 1 := int64u_of_lt (by omega)
      refine ⟨fb.head_seq - (n + 1), by dsimp only; omega, ?_, ?_, hlt⟩
      · dsimp only
        rw [hword, show fb.head_seq - n = fb.head_seq - (n + 1) + 1 by omega, clear_range]
        congr 1
        omega
      · dsimp only
        rw [hword]
        rfl
    · cases hround

end Loops

/-! ## 2. The function, loop by loop -/

/-- The loops over the neighbours: `next_seq[k]` starts at `start k` and passes over
what was sent. -/
def NextRuns (cf : Conf) (start : ℕ → ℕ) (fb fb' : FlowBuffer) : Prop :=
  ∃ next : ℕ → ℕ, (∀ k, cf.nbr k → Ends (sent_round fb k) (start k) (next k)) ∧
    fb' = { fb with next_seq := cf.each next fb.next_seq }

def ResetRuns (cf : Conf) (c : Cell) (fb fb' : FlowBuffer) : Prop :=
  NextRuns cf (fun _ => int64u (c.aru + 1))
    { fb with
      sow := int64u (c.aru + 1)
      head_seq := int64u (c.aru + 1)
      src_epoch := c.src_epoch } fb'

def BufferRuns (cf : Conf) (new old : Cell) (fb fb' : FlowBuffer) : Prop :=
  if old.dest_epoch < new.dest_epoch then
    ∃ n fb₁, Ends (clear_round cf) (fb.sow, fb) (n, fb₁) ∧ ResetRuns cf new fb₁ fb'
  else if old.src_epoch < new.src_epoch then
    ResetRuns cf new fb fb'
  else if old.aru < new.aru then
    ∃ fb₁, Ends (sow_round cf new.aru) fb fb₁ ∧
      NextRuns cf (fun k => max (fb₁.next_seq k) fb₁.sow)
        { fb₁ with head_seq := max fb₁.head_seq fb₁.sow } fb'
  else fb' = fb

/-- The body of the loop over the cells, once its buffer is `fb`. -/
def cell_done (cf : Conf) (last_hop_index : ℕ) (new : E2eAck) (D : Daemon) (i : ℕ)
    (fb : FlowBuffer) : Daemon :=
  let d := new.dest
  let old := (D.e2e d).cell i
  { D with
    fb := set2 D.fb i d fb
    edge := cf.each (fun k => e2e_cell_link cf last_hop_index d i (new.cell i) old fb k (D.edge k))
      D.edge }

def CellsRun (cf : Conf) (last_hop_index : ℕ) (new : E2eAck) : List ℕ → Daemon → Daemon → Prop
  | [], D, D' => D' = D
  | i :: l, D, D' =>
    ∃ fb, BufferRuns cf (new.cell i) ((D.e2e new.dest).cell i) (D.fb i new.dest) fb ∧
      CellsRun cf last_hop_index new l (cell_done cf last_hop_index new D i fb) D'

def e2e_end (cf : Conf) (last_hop_index : ℕ) (new : E2eAck) (D : Daemon) : Daemon :=
  let d := new.dest
  { D with
    edge := cf.each (fun k =>
      let ld := D.edge k
      if ld.e2e_unsent d = false ∧ k ≠ last_hop_index then
        ld.e2e_insert (ld.e2e_timeout d + cf.e2e_ack_timeout) d
      else ld) D.edge
    e2e := Function.update D.e2e d new }

def reaches_cells (cf : Conf) (sec : ℕ) (new : E2eAck) (D : Daemon) : Prop :=
  e2e_accepted new D ∧ ¬ e2e_refused cf sec new D

instance (cf : Conf) (sec : ℕ) (new : E2eAck) (D : Daemon) :
    Decidable (reaches_cells cf sec new D) := inferInstanceAs (Decidable (_ ∧ _))

/-- **`Reliable_Flood_Process_E2E`**, called in `D`, returns in `D'`. -/
def E2eRuns (cf : Conf) (sec last_hop_index : ℕ) (new : E2eAck) (D D' : Daemon) : Prop :=
  if reaches_cells cf sec new D then
    ∃ D₁, CellsRun cf last_hop_index new (range' 1 MAX_NODES)
        (handshake_finish cf new (handshake cf sec new D)) D₁ ∧
      D' = e2e_end cf last_hop_index new D₁
  else D' = if e2e_accepted new D then handshake cf sec new D else D

def Cell.raises (new old : Cell) : Prop :=
  new.dest_epoch ≤ old.dest_epoch ∧ new.src_epoch ≤ old.src_epoch ∧ old.aru < new.aru

instance (new old : Cell) : Decidable (new.raises old) := inferInstanceAs (Decidable (_ ∧ _ ∧ _))

section Runs

variable {cf : Conf} {fb fb' : FlowBuffer} {new old : Cell}

theorem nextRuns_iff (cf : Conf) (start : ℕ → ℕ) {fb fb' : FlowBuffer}
    (hfb : fb.head_seq < 2 ^ 64) : NextRuns cf start fb fb' ↔
      fb' = { fb with next_seq := cf.each (fun k => fb.skip_sent k (start k)) fb.next_seq } := by
  constructor
  · rintro ⟨next, hnext, rfl⟩
    have heach : cf.each next fb.next_seq =
        cf.each (fun k => fb.skip_sent k (start k)) fb.next_seq := by
      funext k
      by_cases hk : cf.nbr k
      · rw [Conf.each_nbr _ _ hk, Conf.each_nbr _ _ hk]
        exact (hnext k hk).unique (sent_loop_ends k (start k) hfb)
      · rw [Conf.each_other _ _ hk, Conf.each_other _ _ hk]
    rw [heach]
  · rintro rfl
    exact ⟨_, fun k _ => sent_loop_ends k (start k) hfb, rfl⟩

theorem resetRuns_iff : ResetRuns cf new fb fb' ↔ fb' = fb.e2e_reset cf new := by
  unfold ResetRuns
  rw [nextRuns_iff cf _ (int64u_le _)]
  -- the loop starts at `head_seq`
  have hnone : ∀ k, FlowBuffer.skip_sent { fb with
      sow := int64u (new.aru + 1)
      head_seq := int64u (new.aru + 1)
      src_epoch := new.src_epoch } k (int64u (new.aru + 1)) = int64u (new.aru + 1) := by
    intro k
    unfold FlowBuffer.skip_sent
    rw [Nat.sub_self, skip_loop]
  simp only [hnone]
  rfl

theorem bufferRuns_iff (cf : Conf) (new old : Cell) {fb : FlowBuffer} (hfb : fb.Words)
    (fb' : FlowBuffer) : BufferRuns cf new old fb fb' ↔
      ¬ (new.raises old ∧ new.aru = ULLONG_MAX) ∧ fb' = fb.e2e_cell cf new old := by
  unfold BufferRuns FlowBuffer.e2e_cell Cell.raises
  by_cases hdest : old.dest_epoch < new.dest_epoch
  · rw [if_pos hdest, if_pos hdest]
    obtain ⟨n, hclear⟩ := clear_loop_ends fb.sow hfb.2
    constructor
    · rintro ⟨m, fb1, hends, hreset⟩
      obtain rfl : fb1 = _ := congrArg Prod.snd (hends.unique hclear)
      exact ⟨fun h => absurd h.1.1 (by omega), resetRuns_iff.mp hreset⟩
    · rintro ⟨-, rfl⟩
      exact ⟨n, _, hclear, resetRuns_iff.mpr rfl⟩
  rw [if_neg hdest, if_neg hdest]
  by_cases hsrc : old.src_epoch < new.src_epoch
  · rw [if_pos hsrc, if_pos hsrc, resetRuns_iff]
    exact ⟨fun h => ⟨fun hbad => absurd hbad.1.2.1 (by omega), h⟩, And.right⟩
  rw [if_neg hsrc, if_neg hsrc]
  by_cases haru : old.aru < new.aru
  · rw [if_pos haru, if_pos haru]
    by_cases hmax : new.aru = ULLONG_MAX
    · refine ⟨fun ⟨fb1, hends, _⟩ => ?_, fun h => absurd ⟨⟨by omega, by omega, haru⟩, hmax⟩ h.1⟩
      rw [hmax] at hends
      exact absurd hends (sow_loop_endless hfb.1)
    · have hlt : new.aru + 1 < 2 ^ 64 := by
        have := new.aru_lt
        unfold ULLONG_MAX at hmax
        omega
      have hends := sow_loop_ends cf hlt fb
      have hhead : max (fb.advance_sow cf true new.aru).head_seq
          (fb.advance_sow cf true new.aru).sow < 2 ^ 64 := by
        obtain ⟨h1, h2, -, -⟩ := advance_loop_fields cf true (new.aru + 1 - fb.sow) fb
        unfold FlowBuffer.advance_sow
        have := hfb.1
        have := hfb.2
        omega
      have hnext := @nextRuns_iff cf
        (fun k => max ((fb.advance_sow cf true new.aru).next_seq k)
          (fb.advance_sow cf true new.aru).sow)
        { fb.advance_sow cf true new.aru with
          head_seq := max (fb.advance_sow cf true new.aru).head_seq
            (fb.advance_sow cf true new.aru).sow } fb' hhead
      constructor
      · rintro ⟨fb1, hends', hruns⟩
        obtain rfl := hends'.unique hends
        exact ⟨fun h => hmax h.2, hnext.mp hruns⟩
      · rintro ⟨-, h⟩
        exact ⟨_, hends, hnext.mpr h⟩
  · rw [if_neg haru, if_neg haru]
    exact ⟨fun h => ⟨fun hbad => haru hbad.1.2.2, h⟩, And.right⟩

theorem cell_done_e2e_cell (hop : ℕ) (new : E2eAck) (D : Daemon) (i : ℕ) :
    cell_done cf hop new D i
      ((D.fb i new.dest).e2e_cell cf (new.cell i) ((D.e2e new.dest).cell i)) =
        process_cell cf hop new D i := rfl

theorem cellsRun_iff (cf : Conf) (hop : ℕ) (new : E2eAck) (D' : Daemon) (l : List ℕ) :
    ∀ D : Daemon, l.Nodup → (∀ i ∈ l, (D.fb i new.dest).Words) →
      (CellsRun cf hop new l D D' ↔
        (∀ i ∈ l, ¬ ((new.cell i).raises ((D.e2e new.dest).cell i) ∧
          (new.cell i).aru = ULLONG_MAX)) ∧
        D' = l.foldl (process_cell cf hop new) D) := by
  induction l with
  | nil =>
    intro D _ _
    exact ⟨fun h => ⟨fun i hi => absurd hi not_mem_nil, h⟩, And.right⟩
  | cons i l ih =>
    intro D hnodup hwords
    obtain ⟨hi, hl⟩ := nodup_cons.mp hnodup
    have hrest : ∀ j ∈ l, ((process_cell cf hop new D i).fb j new.dest).Words := by
      intro j hj
      have hne : ¬ (j = i ∧ new.dest = new.dest) := fun h => hi (h.1 ▸ hj)
      have hfb : (process_cell cf hop new D i).fb j new.dest = D.fb j new.dest :=
        set2_of_ne _ _ hne
      rw [hfb]
      exact hwords j (mem_cons_of_mem i hj)
    have hstep := ih (process_cell cf hop new D i) hl hrest
    have hbuffer := bufferRuns_iff cf (new.cell i) ((D.e2e new.dest).cell i)
      (hwords i mem_cons_self)
    rw [foldl_cons]
    constructor
    · rintro ⟨fb, hfb, hcells⟩
      obtain ⟨hok, rfl⟩ := (hbuffer fb).mp hfb
      rw [cell_done_e2e_cell] at hcells
      obtain ⟨hall, hD'⟩ := hstep.mp hcells
      exact ⟨forall_mem_cons.mpr ⟨hok, hall⟩, hD'⟩
    · rintro ⟨hall, hD'⟩
      obtain ⟨hok, hall⟩ := forall_mem_cons.mp hall
      refine ⟨_, (hbuffer _).mpr ⟨hok, rfl⟩, ?_⟩
      rw [cell_done_e2e_cell]
      exact hstep.mpr ⟨hall, hD'⟩

theorem e2e_hangs_raises (new old : E2eAck) :
    e2e_hangs new old ↔ ∃ i ∈ range' 1 MAX_NODES,
      (new.cell i).raises (old.cell i) ∧ (new.cell i).aru = ULLONG_MAX := by
  unfold e2e_hangs Cell.raises
  simp only [and_assoc]

theorem handshake_words (sec : ℕ) (new : E2eAck) {D : Daemon} (hw : ∀ s d, (D.fb s d).Words)
    (s d : ℕ) : ((handshake_finish cf new (handshake cf sec new D)).fb s d).Words := by
  rw [handshake_finish_fb]
  unfold handshake
  split
  · rw [(handshake_request_spec cf sec new.dest _ D).1]
    by_cases h : s = new.dest ∧ d = cf.my_id
    · obtain ⟨rfl, rfl⟩ := h
      rw [set2_self]
      exact ⟨show 1 < 2 ^ 64 by decide, show 1 < 2 ^ 64 by decide⟩
    · rw [set2_of_ne _ _ h]
      exact hw s d
  · exact hw s d

theorem e2eRuns_iff (sec hop : ℕ) (new : E2eAck) {D D' : Daemon}
    (hw : ∀ s d, (D.fb s d).Words) : E2eRuns cf sec hop new D D' ↔
      ¬ (reaches_cells cf sec new D ∧ e2e_endless cf sec new D) ∧
        D' = reliable_flood_process_e2e cf sec hop new D := by
  unfold E2eRuns
  rcases process_e2e_cases cf sec hop new D with ⟨hdrop, heq⟩ | ⟨hacc, hways⟩
  · rw [if_neg (fun h => hdrop h.1), if_neg hdrop, heq]
    exact ⟨fun h => ⟨fun hbad => hdrop hbad.1.1, h⟩, And.right⟩
  rw [handshake_refused_iff] at hways
  rcases hways with ⟨href, heq⟩ | ⟨href, hends⟩
  · rw [if_neg (fun h => h.2 href), if_pos hacc, heq]
    exact ⟨fun h => ⟨fun hbad => hbad.1.2 href, h⟩, And.right⟩
  have hreach : reaches_cells cf sec new D := ⟨hacc, href⟩
  rw [if_pos hreach]
  have hcells := fun D1 => cellsRun_iff cf hop new D1
    (range' 1 MAX_NODES) (handshake_finish cf new (handshake cf sec new D))
    nodup_range' (fun i _ => handshake_words sec new hw i new.dest)
  rw [handshake_finish_e2e] at hcells
  rw [← e2e_hangs_iff hacc, e2e_hangs_raises]
  rw [e2e_hangs_raises] at hends
  constructor
  · rintro ⟨D1, hrun, rfl⟩
    obtain ⟨hok, rfl⟩ := (hcells D1).mp hrun
    rcases hends with ⟨⟨i, hi, hbad⟩, -⟩ | ⟨-, heq⟩
    · exact absurd hbad (hok i hi)
    · exact ⟨fun ⟨_, i, hi, hbad⟩ => hok i hi hbad, heq.symm⟩
  · rintro ⟨hok, hD'⟩
    rcases hends with ⟨hbad, -⟩ | ⟨-, heq⟩
    · exact absurd ⟨hreach, hbad⟩ hok
    · refine ⟨_, (hcells _).mpr ⟨fun i hi hbad => hok ⟨hreach, i, hi, hbad⟩, rfl⟩, ?_⟩
      rw [hD', heq]
      rfl

/-! ## 3. The function returns -/

/-- Every loop `while (fb->sow <= aru)` that has something to do ends, with `sow` just
above the aru and not wrapped around. -/
def SowFollows (cf : Conf) (sec : ℕ) (new : E2eAck) (D : Daemon) : Prop :=
  ∀ i ∈ range' 1 MAX_NODES,
    (new.cell i).raises (((handshake cf sec new D).e2e new.dest).cell i) →
    ((handshake cf sec new D).fb i new.dest).sow ≤ (new.cell i).aru →
    ∃ fb, Ends (sow_round cf (new.cell i).aru) ((handshake cf sec new D).fb i new.dest) fb ∧
      fb.sow = (new.cell i).aru + 1

/-- **`Reliable_Flood_Process_E2E` returns**, and its loops leave `sow` just above the
acknowledged number, exactly unless the ack gets to the cells with the largest `int64u`
in a cell that only raises the aru. -/
theorem process_e2e_returns (cf : Conf) (sec hop : ℕ) (new : E2eAck) (D : Daemon)
    (hw : ∀ s d, (D.fb s d).Words) :
    ((∃ D', E2eRuns cf sec hop new D D') ∧
        (reaches_cells cf sec new D → SowFollows cf sec new D)) ↔
      ¬ (reaches_cells cf sec new D ∧ e2e_endless cf sec new D) := by
  constructor
  · rintro ⟨⟨D', hrun⟩, -⟩
    exact ((e2eRuns_iff sec hop new hw).mp hrun).1
  · intro hok
    refine ⟨⟨_, (e2eRuns_iff sec hop new hw).mpr ⟨hok, rfl⟩⟩, ?_⟩
    intro hreach i hi hraises hle
    have hne : (new.cell i).aru ≠ ULLONG_MAX := fun hmax => by
      refine hok ⟨hreach, (e2e_hangs_iff hreach.1).mp ?_⟩
      exact (e2e_hangs_raises _ _).mpr ⟨i, hi, hraises, hmax⟩
    have hlt : (new.cell i).aru + 1 < 2 ^ 64 := by
      have := (new.cell i).aru_lt
      unfold ULLONG_MAX at hne
      omega
    refine ⟨_, sow_loop_ends cf hlt _, ?_⟩
    rw [FlowBuffer.advance_sow, (advance_loop_fields cf true _ _).1]
    omega

theorem words_init (cf : Conf) (sec s d : ℕ) : ((init_reliable_flooding cf sec).fb s d).Words := by
  unfold init_reliable_flooding FlowBuffer.Words
  dsimp only
  split
  · exact ⟨show 1 < 2 ^ 64 by decide, show 1 < 2 ^ 64 by decide⟩
  · exact ⟨show 1 < 2 ^ 64 by decide, show 1 < 2 ^ 64 by decide⟩

/-- The ack of destination `3` that acknowledges `aru` messages of source `1`, in the
epoch the daemons start with. -/
def first_ack (aru : ℕ) (h : aru < 2 ^ 64) : E2eAck :=
  ⟨3, fun i => if i = 1 then ⟨0, 0, aru, h⟩ else ⟨0, 0, 0, zero_lt_word⟩⟩

theorem process_e2e_returns_three :
    (∃ D', E2eRuns relay_conf 8 2 (first_ack 3 (by decide)) (init_reliable_flooding relay_conf 7) D') ∧
      (reaches_cells relay_conf 8 (first_ack 3 (by decide)) (init_reliable_flooding relay_conf 7) →
        SowFollows relay_conf 8 (first_ack 3 (by decide)) (init_reliable_flooding relay_conf 7)) := by
  refine (process_e2e_returns relay_conf 8 2 (first_ack 3 (by decide))
    (init_reliable_flooding relay_conf 7) (words_init relay_conf 7)).mpr ?_
  decide +kernel

/-- **The destination acknowledges `2 ^ 64 - 1` messages.** The call does not return. -/
theorem largest_aru_never_returns :
    ¬ ∀ (cf : Conf) (sec hop : ℕ) (new : E2eAck) (D : Daemon),
      (∀ s d, (D.fb s d).Words) →
        (∃ D', E2eRuns cf sec hop new D D') ∧
          (reaches_cells cf sec new D → SowFollows cf sec new D) := by
  intro hclaim
  obtain ⟨⟨D', hrun⟩, -⟩ := hclaim relay_conf 8 2 (first_ack ULLONG_MAX (by decide))
    (init_reliable_flooding relay_conf 7) (words_init relay_conf 7)
  exact ((e2eRuns_iff 8 2 _ (words_init relay_conf 7)).mp hrun).1 (by decide +kernel)

end Runs

end Spines.RelFlood
