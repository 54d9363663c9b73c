/-
Words in a byte-addressed memory, in the byte order of either kind of machine.

`Mem.store` and `Mem.load` write and read a word of some width at a position.
What is loaded is what was stored last (`load_store`), stores elsewhere do not matter
(`load_store_other`), and a reader of the other byte order gets the word after
flipping its bytes (`flip_load`).
-/
import Mathlib.Data.List.GetD
import Mathlib.Tactic.Positivity
import Mathlib.Tactic.NormNum

set_option autoImplicit false

namespace Spines.Lib

open List

/-! ## 1. Words and bytes -/

inductive Endian
  | little
  | big
  deriving DecidableEq, Repr

/-- The `w` lowest bytes of `x`, the lowest first. -/
def le_bytes : ℕ → ℕ → List UInt8
  | 0, _ => []
  | w + 1, x => UInt8.ofNat x :: le_bytes w (x / 256)

def le_value : List UInt8 → ℕ
  | [] => 0
  | b :: bs => b.toNat + 256 * le_value bs

@[simp] theorem le_bytes_length (w x : ℕ) : (le_bytes w x).length = w := by
  induction w generalizing x with
  | zero => rfl
  | succ w ih => rw [le_bytes, length_cons, ih]

theorem le_value_bytes {w x : ℕ} (h : x < 256 ^ w) : le_value (le_bytes w x) = x := by
  induction w generalizing x with
  | zero =>
    rw [pow_zero] at h
    rw [le_bytes, le_value]
    omega
  | succ w ih =>
    have hlow : (UInt8.ofNat x).toNat = x % 256 := by simp
    rw [pow_succ] at h
    rw [le_bytes, le_value, hlow, ih (Nat.div_lt_of_lt_mul (by omega))]
    exact Nat.mod_add_div x 256

theorem le_bytes_value {w : ℕ} {bs : List UInt8} (h : bs.length = w) :
    le_bytes w (le_value bs) = bs := by
  subst h
  induction bs with
  | nil => rfl
  | cons b bs ih =>
    have hb : b.toNat < 256 := b.toNat_lt
    have hdiv : (b.toNat + 256 * le_value bs) / 256 = le_value bs := by omega
    have hmod : UInt8.ofNat (b.toNat + 256 * le_value bs) = b := by
      apply UInt8.toNat_inj.mp
      simp
    rw [le_value, length_cons, le_bytes, hdiv, ih, hmod]

theorem or_words {a b x y : ℕ} (hx : x < 256) (hy : y < 256) :
    (x + 256 * a) ||| (y + 256 * b) = (x ||| y) + 256 * (a ||| b) := by
  have hor : x ||| y < 2 ^ 8 := Nat.or_lt_two_pow hx hy
  -- a digit below a word is a part of a union
  have hsplit : ∀ {n c : ℕ}, n < 2 ^ 8 → n + 256 * c = 2 ^ 8 * c ||| n := fun {n c} hn => by
    rw [← Nat.two_pow_add_eq_or_of_lt hn c]
    omega
  have hshift : 2 ^ 8 * (a ||| b) = 2 ^ 8 * a ||| 2 ^ 8 * b := by
    have h : (a ||| b) <<< 8 = a <<< 8 ||| b <<< 8 := Nat.shiftLeft_or_distrib
    simp only [Nat.shiftLeft_eq] at h
    rw [mul_comm, h, mul_comm a, mul_comm b]
  rw [hsplit hx, hsplit hy, hsplit hor, hshift]
  ac_rfl

theorem le_value_or : ∀ a b : List UInt8, a.length = b.length →
    le_value (List.zipWith (· ||| ·) a b) = le_value a ||| le_value b := by
  intro a
  induction a with
  | nil =>
    intro b h
    obtain rfl := length_eq_zero_iff.mp h.symm
    rfl
  | cons x a ih =>
    intro b h
    obtain ⟨y, b, rfl⟩ := exists_cons_of_length_eq_add_one h.symm
    rw [zipWith_cons_cons, le_value, le_value, le_value, ih b (Nat.succ.inj h),
      or_words x.toNat_lt y.toNat_lt, UInt8.toNat_or]

def Endian.order (e : Endian) (bs : List UInt8) : List UInt8 :=
  match e with
  | .little => bs
  | .big => bs.reverse

@[simp] theorem Endian.order_length (e : Endian) (bs : List UInt8) :
    (e.order bs).length = bs.length := by
  cases e <;> simp [order]

@[simp] theorem Endian.order_order (e : Endian) (bs : List UInt8) : e.order (e.order bs) = bs := by
  cases e <;> simp [order]

def flip_word (w x : ℕ) : ℕ := le_value (le_bytes w x).reverse

/-! ## 2. Memory -/

abbrev Mem := ℕ → UInt8

namespace Mem

def bytes (m : Mem) (pos w : ℕ) : List UInt8 := (range w).map fun i => m (pos + i)

def write (m : Mem) (pos : ℕ) (bs : List UInt8) : Mem :=
  fun i => if pos ≤ i then bs.getD (i - pos) (m i) else m i

def load (m : Mem) (e : Endian) (pos w : ℕ) : ℕ := le_value (e.order (m.bytes pos w))

def store (m : Mem) (e : Endian) (pos w x : ℕ) : Mem := m.write pos (e.order (le_bytes w x))

variable {m m' : Mem} {e e' : Endian} {pos q w v x : ℕ} {bs : List UInt8}

@[simp] theorem bytes_length : (m.bytes pos w).length = w := by
  simp [bytes]

theorem bytes_congr (h : ∀ i, pos ≤ i → i < pos + w → m i = m' i) :
    m.bytes pos w = m'.bytes pos w := by
  apply map_congr_left
  intro i hi
  rw [mem_range] at hi
  exact h _ (by omega) (by omega)

theorem load_congr (h : ∀ i, pos ≤ i → i < pos + w → m i = m' i) :
    m.load e pos w = m'.load e pos w := by
  rw [load, load, bytes_congr h]

theorem bytes_write (h : bs.length = w) : (m.write pos bs).bytes pos w = bs := by
  apply ext_getElem (by simp [h])
  intro i hi hi'
  simp [bytes, write, hi']

theorem bytes_write_drop (m : Mem) (pos k : ℕ) (bs : List UInt8) :
    (m.write pos bs).bytes (pos + k) (bs.length - k) = bs.drop k := by
  apply ext_getElem (by simp)
  intro i hi hi'
  rw [length_drop] at hi'
  have hpos : pos ≤ pos + k + i := by omega
  have hindex : pos + k + i - pos = k + i := by omega
  have hlt : k + i < bs.length := by omega
  simp [bytes, write, hpos, hindex, hlt]

theorem getD_bytes {i : ℕ} (m : Mem) (pos : ℕ) (h : i < w) (b : UInt8) :
    (m.bytes pos w).getD i b = m (pos + i) := by
  have hi : i < (m.bytes pos w).length := by simpa using h
  rw [getD_eq_getElem _ _ hi]
  simp [bytes]

theorem bytes_add (m : Mem) (pos w v : ℕ) :
    m.bytes pos (w + v) = m.bytes pos w ++ m.bytes (pos + w) v := by
  simp [bytes, range_add, add_assoc, Function.comp_def]

theorem bytes_write_slice (m : Mem) (pos k w : ℕ) (h : k + w ≤ bs.length) :
    (m.write pos bs).bytes (pos + k) w = (bs.drop k).take w := by
  have hsplit := bytes_write_drop m pos k bs
  have hlen : bs.length - k = w + (bs.length - k - w) := by omega
  rw [hlen, bytes_add] at hsplit
  rw [← hsplit, take_left' (by simp)]

theorem write_other {i : ℕ} (h : i < pos ∨ pos + bs.length ≤ i) : m.write pos bs i = m i := by
  unfold write
  split
  · rw [getD_eq_default _ _ (by omega)]
  · rfl

theorem bytes_write_other (h : q + w ≤ pos ∨ pos + bs.length ≤ q) :
    (m.write pos bs).bytes q w = m.bytes q w := by
  apply bytes_congr
  intro i hlo hhi
  exact write_other (by omega)

theorem store_other {i : ℕ} (h : i < pos ∨ pos + w ≤ i) : m.store e pos w x i = m i := by
  apply write_other
  simpa using h

theorem load_store (h : x < 256 ^ w) : (m.store e pos w x).load e pos w = x := by
  rw [load, store, bytes_write (by simp), Endian.order_order, le_value_bytes h]

theorem load_store_other (h : q + v ≤ pos ∨ pos + w ≤ q) :
    (m.store e pos w x).load e' q v = m.load e' q v := by
  apply load_congr
  intro i hlo hhi
  exact store_other (by omega)

theorem store_store (m : Mem) (e : Endian) (pos w x y : ℕ) :
    (m.store e pos w x).store e pos w y = m.store e pos w y := by
  funext i
  by_cases h : i < pos ∨ pos + w ≤ i
  · rw [store_other h, store_other h, store_other h]
  · have hi : i - pos < (e.order (le_bytes w y)).length := by
      rw [Endian.order_length, le_bytes_length]
      omega
    have hpos : pos ≤ i := by omega
    simp only [store, write, if_pos hpos, getD_eq_getElem _ _ hi]

theorem flip_load (h : e ≠ e') : flip_word w (m.load e pos w) = m.load e' pos w := by
  have hrev : (e.order (m.bytes pos w)).reverse = e'.order (m.bytes pos w) := by
    cases e <;> cases e' <;> simp_all [Endian.order]
  rw [flip_word, load, le_bytes_value (by simp), hrev, load]

end Mem

/-! ## 3. Signed words -/

/-- Two's complement in `w` bytes. -/
def to_word (w : ℕ) (x : ℤ) : ℕ := (x % 256 ^ w).toNat

def of_word (w n : ℕ) : ℤ := Int.bmod n (256 ^ w)

theorem to_word_lt (w : ℕ) (x : ℤ) : to_word w x < 256 ^ w := by
  have hpos : (0 : ℤ) < 256 ^ w := by positivity
  have hlt := Int.emod_lt_of_pos x hpos
  have hnn := Int.emod_nonneg x hpos.ne'
  unfold to_word
  rw [Int.toNat_lt hnn]
  exact_mod_cast hlt

theorem of_to_word {w : ℕ} {x : ℤ} (hlo : -(256 ^ w : ℤ) ≤ 2 * x) (hhi : 2 * x < 256 ^ w) :
    of_word w (to_word w x) = x := by
  have hpos : (0 : ℤ) < 256 ^ w := by positivity
  have hnn := Int.emod_nonneg x hpos.ne'
  unfold of_word to_word
  rw [Int.toNat_of_nonneg hnn]
  have hcast : ((256 ^ w : ℕ) : ℤ) = 256 ^ w := by push_cast; rfl
  rw [← hcast, Int.emod_bmod, Int.bmod_eq_of_le]
  · omega
  · omega

end Spines.Lib
