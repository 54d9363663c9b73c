/-
Buffers of a fixed size.

A buffer is a list of bytes whose length never changes. Reading and writing are
checked: a place outside the buffer has no value. A writer that starts at the
front and goes on from where it stopped keeps the buffer in the form
`overlay out b`: what was written so far, over what was there before.
-/
import Mathlib.Data.List.TakeDrop

set_option autoImplicit false

namespace Spines.Lib.Buffer

open List

variable {α : Type*}

/-! ## 1. Checked access -/

/-- The `len` entries from `pos` on. -/
def read (b : List α) (pos len : ℕ) : Option (List α) :=
  if pos + len ≤ b.length then some ((b.drop pos).take len) else none

/-- `out` is put at `pos`. -/
def write (b : List α) (pos : ℕ) (out : List α) : Option (List α) :=
  if pos + out.length ≤ b.length then
    some (b.take pos ++ out ++ b.drop (pos + out.length))
  else none

variable {b b' out : List α} {pos q len : ℕ}

theorem length_of_write (h : write b pos out = some b') : b'.length = b.length := by
  rw [write] at h
  split at h
  · rename_i hle
    cases h
    simp only [length_append, length_take, length_drop]
    omega
  · cases h

theorem drop_of_write (h : write b pos out = some b') (hq : pos + out.length ≤ q) :
    b'.drop q = b.drop q := by
  rw [write] at h
  split at h
  · rename_i hle
    cases h
    have hlen : (b.take pos ++ out).length = pos + out.length := by
      rw [length_append, length_take_of_le (by omega)]
    obtain ⟨k, rfl⟩ := Nat.exists_eq_add_of_le hq
    rw [← drop_drop, ← hlen, drop_left, hlen, drop_drop]
  · cases h

theorem take_end_of_write (h : write b pos out = some b') :
    b'.take (pos + out.length) = b.take pos ++ out := by
  rw [write] at h
  split at h
  · rename_i hle
    cases h
    have hlen : (b.take pos ++ out).length = pos + out.length := by
      rw [length_append, length_take_of_le (by omega)]
    rw [← hlen, take_left]
  · cases h

theorem write_of_le (h : pos + out.length ≤ b.length) : ∃ b', write b pos out = some b' :=
  ⟨_, if_pos h⟩

/-! ## 2. Writing from the front -/

def overlay (out b : List α) : List α := out ++ b.drop out.length

theorem overlay_nil (b : List α) : overlay [] b = b := rfl

theorem length_overlay (h : out.length ≤ b.length) : (overlay out b).length = b.length := by
  rw [overlay, length_append, length_drop]
  omega

theorem take_overlay (out b : List α) : (overlay out b).take out.length = out :=
  take_left

theorem drop_overlay (out b : List α) : (overlay out b).drop out.length = b.drop out.length :=
  drop_left

theorem write_overlay {more : List α} (h : out.length + more.length ≤ b.length) :
    write (overlay out b) out.length more = some (overlay (out ++ more) b) := by
  have hlen : (overlay out b).length = b.length := length_overlay (by omega)
  have hdrop : (overlay out b).drop (out.length + more.length) =
      b.drop (out.length + more.length) := by
    rw [← drop_drop, drop_overlay, drop_drop]
  rw [write, if_pos (by omega), take_overlay, hdrop, overlay, length_append]

theorem read_overlay (h : out.length ≤ b.length) : read (overlay out b) 0 out.length = some out := by
  have hlen := length_overlay h
  rw [read, if_pos (by omega), drop_zero, take_overlay]

end Spines.Lib.Buffer
