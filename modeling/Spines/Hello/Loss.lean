/-
The sequence numbers by which losses on a link are noticed (`daemon/link.c`).

`Check_Link_Loss` walks modulo `PACK_MAX_SEQ` from the last number to the one in the header, so
that it never stops for a number from `PACK_MAX_SEQ` on that is not refused as reordered: that is
one at most half the range above what is stored (`link_loss_stops_and_counts`). Between a sender
that goes by `Set_Loss_SeqNo` and a receiver that is never half the range away from it, the walk
makes one round for each number that is skipped.
-/
import Mathlib.Tactic.Ring

set_option autoImplicit false

namespace Spines.Hello.Loss

/-! ## 1. The two ends -/

def PACK_MAX_SEQ : ℕ := 30000

def reset_marker : Int16 := 30001

/-- `Set_Loss_SeqNo`; it starts from `PACK_MAX_SEQ`. -/
def Set_Loss_SeqNo (my_seq : Int16) : Int16 :=
  if PACK_MAX_SEQ ≤ (my_seq + 1).toInt then 0 else my_seq + 1

/-- The rounds of the loop from `i`, if there is enough fuel. Every round decays `loss_rate`. -/
def gap_loop (seq_no : ℕ) : ℕ → ℕ → Option ℕ
  | 0, _ => none
  | fuel + 1, i =>
    if i = seq_no then some 0
    else (gap_loop seq_no fuel ((i + 1) % PACK_MAX_SEQ)).map (· + 1)

def reordered (seq_no seq : ℤ) : Prop :=
  (seq_no ≤ seq ∧ seq - seq_no < PACK_MAX_SEQ - seq + seq_no) ∨
    (seq_no > seq ∧ PACK_MAX_SEQ - seq_no + seq < seq_no - seq)

instance (seq_no seq : ℤ) : Decidable (reordered seq_no seq) := by
  unfold reordered
  infer_instance

/-- The rounds of `Check_Link_Loss` and what it stores. `control` is whether the leg has a control
link. -/
def Check_Link_Loss (fuel : ℕ) (control intru_tol : Bool) (seq_no : UInt16) (seq : Int16) :
    Option (ℕ × Int16) :=
  if control = false ∨ seq_no = 0xffff ∨ intru_tol then some (0, seq)
  else if seq = reset_marker then some (0, Int16.ofInt seq_no.toNat)
  else if reordered seq_no.toNat seq.toInt then some (0, seq)
  else (gap_loop seq_no.toNat fuel
    (((seq.toInt + 1).tmod PACK_MAX_SEQ) % 2 ^ 16).toNat).map (·, Int16.ofInt seq_no.toNat)

/-! ## 2. The loop -/

variable {n i fuel : ℕ}

theorem gap_loop_eq (hn : n < PACK_MAX_SEQ) (hi : i < PACK_MAX_SEQ)
    (hfuel : (n + PACK_MAX_SEQ - i) % PACK_MAX_SEQ < fuel) :
    gap_loop n fuel i = some ((n + PACK_MAX_SEQ - i) % PACK_MAX_SEQ) := by
  induction fuel generalizing i with
  | zero => omega
  | succ fuel ih =>
    rw [gap_loop]
    simp only [PACK_MAX_SEQ] at hn hi hfuel ih ⊢
    split
    · rename_i heq
      subst heq
      simp
    · rename_i hne
      -- one round less is left from the next number
      have hleft : (n + 30000 - i) % 30000 = (n + 30000 - (i + 1) % 30000) % 30000 + 1 := by omega
      rw [ih (Nat.mod_lt _ (by decide)) (by omega), Option.map_some, hleft]

theorem gap_loop_stops (hn : n < PACK_MAX_SEQ) (i : ℕ) : ∃ fuel, (gap_loop n fuel i).isSome := by
  refine ⟨PACK_MAX_SEQ + 1 + 1, ?_⟩
  rw [gap_loop]
  split
  · rfl
  · have hrest := Nat.mod_lt (n + PACK_MAX_SEQ - (i + 1) % PACK_MAX_SEQ)
      (show 0 < PACK_MAX_SEQ by decide)
    rw [gap_loop_eq hn (Nat.mod_lt _ (by decide)) (by omega)]
    rfl

theorem gap_loop_none (hn : PACK_MAX_SEQ ≤ n) (hi : i < PACK_MAX_SEQ) : gap_loop n fuel i = none := by
  induction fuel generalizing i with
  | zero => rfl
  | succ fuel ih =>
    rw [gap_loop, if_neg (by omega), ih (Nat.mod_lt _ (by decide))]
    rfl

/-! ## 3. Any header -/

def Spins (control intru_tol : Bool) (seq_no : UInt16) (seq : Int16) : Prop :=
  control = true ∧ intru_tol = false ∧ seq ≠ reset_marker ∧ PACK_MAX_SEQ ≤ seq_no.toNat ∧
    seq.toInt < seq_no.toNat ∧ seq_no.toNat ≤ seq.toInt + PACK_MAX_SEQ / 2

theorem stops_iff (control intru_tol : Bool) (seq_no : UInt16) (seq : Int16) :
    (∃ fuel, (Check_Link_Loss fuel control intru_tol seq_no seq).isSome) ↔
      ¬Spins control intru_tol seq_no seq := by
  have hle := seq.le_toInt
  have hlt := seq.toInt_lt
  have hspecial : seq_no = 0xffff → seq_no.toNat = 65535 := fun h => h ▸ rfl
  have hsize : PACK_MAX_SEQ = 30000 := rfl
  rw [Spins, hsize]
  simp only [Check_Link_Loss]
  split
  · rename_i hignored
    refine iff_of_true ⟨0, rfl⟩ ?_
    rintro ⟨hcontrol, hmode, -, -, -, hhalf⟩
    rcases hignored with h | h | h
    · simp [h] at hcontrol
    · have := hspecial h
      omega
    · simp [h] at hmode
  · split
    · rename_i hreset
      exact iff_of_true ⟨0, rfl⟩ fun h => h.2.2.1 hreset
    · split
      · rename_i hold
        rw [reordered, hsize] at hold
        exact iff_of_true ⟨0, rfl⟩ (by omega)
      · rename_i hignored hreset hnew
        rw [reordered, hsize] at hnew
        simp only [Option.isSome_map]
        by_cases hrange : seq_no.toNat < PACK_MAX_SEQ
        · exact iff_of_true (gap_loop_stops hrange _) (by omega)
        · refine iff_of_false ?_ (not_not.mpr ?_)
          · rintro ⟨fuel, h⟩
            have hfirst : (((seq.toInt + 1).tmod PACK_MAX_SEQ) % 2 ^ 16).toNat < PACK_MAX_SEQ := by
              rw [Int.tmod_eq_emod_of_nonneg (by omega), hsize]
              omega
            rw [gap_loop_none (not_lt.mp hrange) hfirst] at h
            cases h
          · simp only [not_or, Bool.not_eq_false, Bool.not_eq_true] at hignored
            exact ⟨hignored.1, hignored.2.2, hreset, by omega, by omega, by omega⟩

/-! ## 4. A correct sender -/

def sent_seq (k : ℕ) : Int16 := Set_Loss_SeqNo^[k + 1] (Int16.ofInt PACK_MAX_SEQ)

theorem sent_seq_toInt (k : ℕ) : (sent_seq k).toInt = (k % PACK_MAX_SEQ : ℕ) := by
  induction k with
  | zero => decide
  | succ k ih =>
    have hnext : (sent_seq k + 1).toInt = (k % PACK_MAX_SEQ : ℕ) + 1 := by
      rw [Int16.toInt_add, ih, Int.bmod_eq_of_le]
      · rfl
      · simp only [PACK_MAX_SEQ, Int16.toInt_one]; omega
      · simp only [PACK_MAX_SEQ, Int16.toInt_one]; omega
    rw [sent_seq, Function.iterate_succ_apply', ← sent_seq, Set_Loss_SeqNo]
    have hsize : PACK_MAX_SEQ = 30000 := rfl
    rw [hsize] at hnext ⊢
    split
    · rw [Int16.toInt_zero]
      omega
    · omega

/-- What is stored when `highest` is the highest index so far. A new link stores 0, as after the
first packet. -/
def stored (highest : Option ℕ) : Int16 := highest.elim reset_marker sent_seq

def receive (fuel : ℕ) : Int16 → List ℕ → Option (List ℕ)
  | _, [] => some []
  | seq, k :: ks => do
    let (rounds, seq') ← Check_Link_Loss fuel true false (sent_seq k).toUInt16 seq
    return rounds :: (← receive fuel seq' ks)

def higher (highest : Option ℕ) (k : ℕ) : ℕ := highest.elim k (max k)

def skipped : Option ℕ → List ℕ → List ℕ
  | _, [] => []
  | highest, k :: ks => highest.elim 0 (k - · - 1) :: skipped (some (higher highest k)) ks

def Near : Option ℕ → List ℕ → Prop
  | _, [] => True
  | highest, k :: ks =>
    (∀ h ∈ highest, k < h + PACK_MAX_SEQ / 2 ∧ h < k + PACK_MAX_SEQ / 2) ∧
      Near (some (higher highest k)) ks

theorem Check_Link_Loss_sent {highest : Option ℕ} {k : ℕ}
    (hnear : ∀ h ∈ highest, k < h + PACK_MAX_SEQ / 2 ∧ h < k + PACK_MAX_SEQ / 2) :
    Check_Link_Loss PACK_MAX_SEQ true false (sent_seq k).toUInt16 (stored highest) =
      some (highest.elim 0 (k - · - 1), sent_seq (higher highest k)) := by
  have hsize : PACK_MAX_SEQ = 30000 := rfl
  have hseq := sent_seq_toInt k
  have hk := Nat.mod_lt k (show 0 < PACK_MAX_SEQ by decide)
  have hnat : (sent_seq k).toUInt16.toNat = k % PACK_MAX_SEQ := by
    rw [Int16.toNat_toUInt16_of_le (Int16.le_iff_toInt_le.mpr (by rw [hseq]; exact Int.natCast_nonneg _)),
      Int16.toNatClampNeg, hseq, Int.toNat_natCast]
  have hback : Int16.ofInt (sent_seq k).toUInt16.toNat = sent_seq k := by
    rw [hnat, ← hseq, Int16.ofInt_toInt]
  have hplain : ¬(true = false ∨ (sent_seq k).toUInt16 = 0xffff ∨ false = true) := by
    rintro (h | h | h)
    · cases h
    · rw [h] at hnat
      exact absurd (hnat.trans_lt hk) (by decide)
    · cases h
  rw [Check_Link_Loss, if_neg hplain, hback, hnat]
  cases highest with
  | none => rfl
  | some h =>
    obtain ⟨hbelow, habove⟩ := hnear h rfl
    have hstored := sent_seq_toInt h
    have hnot : stored (some h) ≠ reset_marker := by
      intro heq
      have h30001 : (sent_seq h).toInt = 30001 := congrArg Int16.toInt heq
      rw [hstored, hsize] at h30001
      omega
    have hhigher : higher (some h) k = max k h := rfl
    rw [if_neg hnot, stored, Option.elim_some, hstored, hhigher, Option.elim_some]
    rw [hsize] at hbelow habove
    by_cases hnew : h < k
    · have hfirst : ((((h % PACK_MAX_SEQ : ℕ) : ℤ) + 1).tmod PACK_MAX_SEQ % 2 ^ 16).toNat =
          (h + 1) % PACK_MAX_SEQ := by
        rw [Int.tmod_eq_emod_of_nonneg (by omega), hsize]
        omega
      rw [if_neg (by rw [reordered, hsize]; omega), hfirst, gap_loop_eq hk (Nat.mod_lt _ (by decide))
        (Nat.mod_lt _ (by decide)), max_eq_left hnew.le, hsize, Option.map_some]
      congr 2
      omega
    · rw [if_pos (by rw [reordered, hsize]; omega), max_eq_right (not_lt.mp hnew)]
      congr 2
      omega

theorem receive_eq (ks : List ℕ) {highest : Option ℕ} (hnear : Near highest ks) :
    receive PACK_MAX_SEQ (stored highest) ks = some (skipped highest ks) := by
  induction ks generalizing highest with
  | nil => rfl
  | cons k ks ih =>
    obtain ⟨hfirst, hrest⟩ := hnear
    have hlater := ih hrest
    rw [receive, Check_Link_Loss_sent hfirst]
    simp only [stored, Option.elim_some] at hlater
    simp [hlater, skipped]

/-- **`Check_Link_Loss` returns for all headers but those out of range, and with a correct sender
it makes as many rounds as numbers were skipped.** -/
theorem link_loss_stops_and_counts (control intru_tol : Bool) (seq_no : UInt16) (seq : Int16)
    (highest : Option ℕ) (ks : List ℕ) :
    ((∃ fuel, (Check_Link_Loss fuel control intru_tol seq_no seq).isSome) ↔
      ¬Spins control intru_tol seq_no seq) ∧
    (Near highest ks →
      receive PACK_MAX_SEQ (stored highest) ks = some (skipped highest ks)) :=
  ⟨stops_iff control intru_tol seq_no seq, receive_eq ks⟩

theorem link_loss_counts_run : receive PACK_MAX_SEQ (stored none) [7, 10, 9, 11] = some [0, 2, 0, 0] :=
  (link_loss_stops_and_counts true false 0 0 none [7, 10, 9, 11]).2
    (by simp [Near, higher, PACK_MAX_SEQ])

theorem link_loss_spins : ¬∃ fuel, (Check_Link_Loss fuel true false 30000 29999).isSome := by
  rw [stops_iff, not_not, Spins]
  decide

end Spines.Hello.Loss
