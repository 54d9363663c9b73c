/-
`daemon/security.c`: sealing and opening the messages of intrusion-tolerant links.

A sealed message is its ciphertext, the IV and the HMAC of both; without `Encrypt` it is
the message and its HMAC. `Sec_unlock_msg` copies what was received into its buffer, finds
the three parts from the end, and decrypts in place before it compares the HMACs.

Block cipher, padding and HMAC are OpenSSL's (`Crypto`), and the properties used are
`Crypto.Sound`. A context is known by its IV and by what it was given since. A decryption
may write more than it returns, up to a block behind its input: that is where the IV
stands, and the HMAC behind it is out of reach.

Every access to the destination is checked. `abort` stands for an `assert(0)` and for an
access outside the buffer, and `fail` for the return of -1, after which nobody reads the
buffer. `Sec_gen_IV` is left out: the IV is an argument.
-/
import Spines.Lib.Buffer
import Spines.Lib.Bytes

set_option autoImplicit false

namespace Spines.IntruTol.Sealing

open Spines.Lib Option List

abbrev Bytes := List UInt8

/-! ## 1. OpenSSL -/

/-- What a call wrote, and `*outl`. -/
structure Written where
  ok : Bool
  bytes : Bytes
  outl : ℕ

/-- The functions of OpenSSL under the keys of a link. `encrypt_update iv fed inp` is the
output for `inp` of a context that was initialised with `iv` and then given `fed`; `none`
is a return other than 1. A decryption is one update and the final call. -/
structure Crypto where
  block_size : ℕ
  iv_length : ℕ
  /-- `EVP_MD_size`. -/
  md_size : ℕ
  encrypt_update : Bytes → List Bytes → Bytes → Option Bytes
  encrypt_final : Bytes → List Bytes → Option Bytes
  decrypt_update : Bytes → Bytes → Written
  decrypt_final : Bytes → Bytes → Written
  hmac : Bytes → Bytes

def Crypto.outs (cr : Crypto) (iv : Bytes) : List Bytes → List Bytes → Bytes
  | _, [] => []
  | fed, el :: els => (cr.encrypt_update iv fed el).getD [] ++ cr.outs iv (fed ++ [el]) els

def Crypto.cipher (cr : Crypto) (iv : Bytes) (els : List Bytes) : Bytes :=
  cr.outs iv [] els ++ (cr.encrypt_final iv els).getD []

def Crypto.plain (cr : Crypto) (iv c : Bytes) : Bytes :=
  (cr.decrypt_update iv c).bytes.take (cr.decrypt_update iv c).outl ++
    (cr.decrypt_final iv c).bytes.take (cr.decrypt_final iv c).outl

def Crypto.deciphers (cr : Crypto) (iv c : Bytes) : Bool :=
  (cr.decrypt_update iv c).ok && (cr.decrypt_final iv c).ok

def SECURITY_MIN_HMAC_SIZE : ℕ := 32
def SECURITY_MAX_HMAC_SIZE : ℕ := 32

/-- What the code relies on: a block cipher in CBC mode with padding, and an HMAC of 32
bytes. -/
structure Crypto.Sound (cr : Crypto) : Prop where
  iv_block : cr.iv_length = cr.block_size
  block_pos : 0 < cr.block_size
  md_size : cr.md_size = SECURITY_MIN_HMAC_SIZE
  /-- An update puts out at most what it is given and what is left of a block. -/
  update : ∀ iv fed inp, ∃ out, cr.encrypt_update iv fed inp = some out ∧
    out.length + 1 ≤ inp.length + cr.block_size
  final : ∀ iv fed, ∃ out, cr.encrypt_final iv fed = some out ∧ out.length ≤ cr.block_size
  cut : ∀ iv els, cr.cipher iv els = cr.cipher iv [els.flatten]
  padding : ∀ iv m, m.length ≤ (cr.cipher iv [m]).length ∧
    (cr.cipher iv [m]).length ≤ m.length + cr.block_size
  decrypt_room : ∀ iv c, (cr.decrypt_update iv c).outl ≤ (cr.decrypt_update iv c).bytes.length ∧
    (cr.decrypt_update iv c).bytes.length ≤ c.length + cr.block_size
  final_room : ∀ iv c, (cr.decrypt_final iv c).outl ≤ (cr.decrypt_final iv c).bytes.length ∧
    (cr.decrypt_final iv c).bytes.length ≤ cr.block_size
  /-- No inflation and at most one block of padding, also when the decryption fails. -/
  unpadding : ∀ iv c,
    (cr.decrypt_update iv c).outl + (cr.decrypt_final iv c).outl ≤ c.length ∧
    c.length ≤ (cr.decrypt_update iv c).outl + (cr.decrypt_final iv c).outl + cr.block_size
  decrypt_encrypt : ∀ iv m, cr.deciphers iv (cr.cipher iv [m]) = true ∧
    cr.plain iv (cr.cipher iv [m]) = m
  encrypt_decrypt : ∀ iv c, cr.deciphers iv c = true → cr.cipher iv [cr.plain iv c] = c
  hmac_length : ∀ b, (cr.hmac b).length = cr.md_size

/-! ## 2. Sealing -/

inductive Halt
  | fail
  | abort
  deriving DecidableEq, Repr

def int32 (n : ℕ) : ℤ := Int.bmod n (2 ^ 32)

/-- `memcpy` into the destination. -/
def store (dst : Bytes) (pos : ℕ) (bs : Bytes) : Except Halt Bytes :=
  match Buffer.write dst pos bs with
  | none => .error .abort
  | some dst' => .ok dst'

def load (dst : Bytes) (pos len : ℕ) : Except Halt Bytes :=
  match Buffer.read dst pos len with
  | none => .error .abort
  | some bs => .ok bs

/-- A return other than 1 ends in `assert(0)`. -/
def succeeds (out : Option Bytes) : Except Halt Bytes :=
  match out with
  | none => .error .abort
  | some bs => .ok bs

def append (dst : Bytes) (pos : ℕ) (bs : Bytes) : Except Halt Bytes :=
  if dst.length < pos + bs.length then .error .fail else store dst pos bs

/-- The loop over the elements with `Encrypt`: the destination, the place in it, and the
length of what was encrypted. -/
def encrypt_loop (cr : Crypto) (iv : Bytes) :
    List Bytes → List Bytes → Bytes → ℕ → ℕ → Except Halt (Bytes × ℕ × ℕ)
  | _, [], dst, pos, ret => .ok (dst, pos, ret)
  | fed, el :: els, dst, pos, ret =>
    if dst.length + 1 < pos + el.length + cr.block_size then .error .fail
    else do
      let out ← succeeds (cr.encrypt_update iv fed el)
      let dst ← store dst pos out
      encrypt_loop cr iv (fed ++ [el]) els dst (pos + out.length) (ret + el.length)

def copy_loop : List Bytes → Bytes → ℕ → Except Halt (Bytes × ℕ)
  | [], dst, pos => .ok (dst, pos)
  | el :: els, dst, pos => do
      let dst ← append dst pos el
      copy_loop els dst (pos + el.length)

def returns (len : ℕ) (dst : Bytes) : Except Halt (ℤ × Bytes) :=
  if int32 len < 0 then .error .abort else .ok (int32 len, dst)

def append_hmac (cr : Crypto) (body dst : Bytes) (pos : ℕ) : Except Halt (ℤ × Bytes) :=
  let local_hmac := cr.hmac body
  if local_hmac.length < SECURITY_MIN_HMAC_SIZE ∨ SECURITY_MAX_HMAC_SIZE < local_hmac.length then
    .error .abort
  else do
    let dst ← append dst pos local_hmac
    returns (pos + local_hmac.length) dst

/-- `Sec_lock_msg`: what is returned, and the destination. -/
def Sec_lock_msg (cr : Crypto) (encrypt : Bool) (iv : Bytes) (msg : List Bytes) (dst : Bytes) :
    Except Halt (ℤ × Bytes) :=
  if encrypt then do
    let (dst, pos, ret) ← encrypt_loop cr iv [] msg dst 0 0
    if dst.length < pos + cr.block_size then .error .fail
    else do
      let out ← succeeds (cr.encrypt_final iv msg)
      let dst ← store dst pos out
      let pos := pos + out.length
      if int32 pos < ret ∨ ret + cr.block_size < int32 pos then .error .abort
      else do
        let dst ← append dst pos iv
        let body ← load dst 0 (pos + iv.length)
        append_hmac cr body dst (pos + iv.length)
  else do
    let (dst, pos) ← copy_loop msg dst 0
    append_hmac cr msg.flatten dst pos

/-! ## 3. Opening -/

/-- Decryption in place of the first `ret` bytes, with the IV behind them: the destination,
the length of what it returns, and whether it went well. -/
def decrypt (cr : Crypto) (dst : Bytes) (ret : ℕ) : Except Halt (Bytes × ℕ × Bool) := do
  let msg_iv ← load dst ret cr.iv_length
  let c ← load dst 0 ret
  let u := cr.decrypt_update msg_iv c
  let dst ← store dst 0 u.bytes
  if dst.length < u.outl then .error .abort
  else do
    let f := cr.decrypt_final msg_iv c
    let dst ← store dst u.outl f.bytes
    let len := u.outl + f.outl
    if dst.length < len ∨ int32 len < ret - cr.block_size ∨ ret < int32 len then .error .abort
    else return (dst, len, u.ok && f.ok)

/-- `Sec_unlock_msg`: the length of the message, and the destination. -/
def Sec_unlock_msg (cr : Crypto) (encrypt : Bool) (msg : List Bytes) (dst : Bytes) :
    Except Halt (ℤ × Bytes) :=
  if cr.md_size < SECURITY_MIN_HMAC_SIZE ∨ SECURITY_MAX_HMAC_SIZE < cr.md_size then .error .abort
  else do
    let (dst, pos) ← copy_loop msg dst 0
    if int32 pos < cr.md_size then .error .fail
    else do
      let msg_hmac := pos - cr.md_size
      let ret := (int32 pos - cr.md_size).toNat
      let body ← load dst 0 ret
      let local_hmac := cr.hmac body
      if local_hmac.length ≠ cr.md_size then .error .abort
      else if encrypt then
        if ret < cr.iv_length then .error .fail
        else do
          let (dst, len, ok) ← decrypt cr dst (ret - cr.iv_length)
          let tag ← load dst msg_hmac cr.md_size
          if tag = local_hmac ∧ ok then return (len, dst) else .error .fail
      else do
        let tag ← load dst msg_hmac cr.md_size
        if tag = local_hmac then return (ret, dst) else .error .fail

/-! ## 4. Sealed messages -/

def Crypto.body (cr : Crypto) (encrypt : Bool) (iv : Bytes) (msg : List Bytes) : Bytes :=
  if encrypt then cr.cipher iv msg ++ iv else msg.flatten

def Crypto.seal (cr : Crypto) (encrypt : Bool) (iv : Bytes) (msg : List Bytes) : Bytes :=
  cr.body encrypt iv msg ++ cr.hmac (cr.body encrypt iv msg)

def Crypto.open_body (cr : Crypto) (encrypt : Bool) (body : Bytes) : Option Bytes :=
  if encrypt then
    if body.length < cr.iv_length then none
    else
      let c := body.take (body.length - cr.iv_length)
      let iv := body.drop (body.length - cr.iv_length)
      if cr.deciphers iv c then some (cr.plain iv c) else none
  else some body

def Crypto.opens (cr : Crypto) (encrypt : Bool) (r : Bytes) : Option Bytes :=
  if r.length < cr.md_size then none
  else
    let body := r.take (r.length - cr.md_size)
    if r.drop (r.length - cr.md_size) = cr.hmac body then cr.open_body encrypt body else none

variable {cr : Crypto} {encrypt : Bool} {iv : Bytes}

variable {b c dst out r : Bytes} {p : ℕ} (els : List Bytes) (n : ℕ)

theorem Crypto.Sound.seal_of_opens (hcr : cr.Sound) {m : Bytes} (h : cr.opens encrypt r = some m) :
    ∃ iv, iv.length = cr.iv_length ∧ cr.seal encrypt iv [m] = r := by
  rw [Crypto.opens] at h
  split at h
  · cases h
  · rename_i hlong
    dsimp only at h
    split at h
    · rename_i htag
      set body := r.take (r.length - cr.md_size) with hbody
      have hr : r = body ++ cr.hmac body := by
        rw [← htag, hbody, take_append_drop]
      rw [Crypto.open_body] at h
      split at h
      · rename_i hon
        split at h
        · cases h
        · rename_i hiv
          dsimp only at h
          split at h
          · rename_i hdec
            refine ⟨body.drop (body.length - cr.iv_length), ?_, ?_⟩
            · rw [length_drop]
              omega
            · have hc := hcr.encrypt_decrypt _ _ hdec
              rw [some.inj h] at hc
              rw [Crypto.seal, Crypto.body, if_pos hon, hc, take_append_drop]
              exact hr.symm
          · cases h
      · rename_i hoff
        refine ⟨replicate cr.iv_length 0, length_replicate, ?_⟩
        rw [Crypto.seal, Crypto.body, if_neg hoff, ← some.inj h]
        simpa using hr.symm
    · cases h

theorem Crypto.opens_of_hmac (r body : Bytes) (hr : r = body ++ cr.hmac body)
    (hlen : (cr.hmac body).length = cr.md_size) :
    cr.opens encrypt r = cr.open_body encrypt body := by
  have hsub : r.length - cr.md_size = body.length := by
    rw [hr, length_append]
    omega
  have hlong : ¬r.length < cr.md_size := by
    rw [hr, length_append]
    omega
  have htake : r.take body.length = body := by
    rw [hr, take_left]
  have hdrop : r.drop body.length = cr.hmac body := by
    rw [hr, drop_left]
  rw [Crypto.opens, if_neg hlong]
  simp only [hsub, htake, hdrop, if_true]

theorem Crypto.Sound.opens_seal (hcr : cr.Sound) (hiv : iv.length = cr.iv_length)
    (msg : List Bytes) : cr.opens encrypt (cr.seal encrypt iv msg) = some msg.flatten := by
  rw [Crypto.opens_of_hmac (cr.seal encrypt iv msg) _ rfl (hcr.hmac_length _), Crypto.open_body,
    Crypto.body]
  split
  · have hshort : ¬(cr.cipher iv msg ++ iv).length < cr.iv_length := by
      rw [length_append]
      omega
    have hsub : (cr.cipher iv msg ++ iv).length - cr.iv_length = (cr.cipher iv msg).length := by
      rw [length_append]
      omega
    obtain ⟨hdec, hplain⟩ := hcr.decrypt_encrypt iv msg.flatten
    rw [← hcr.cut] at hdec hplain
    rw [if_neg hshort]
    simp only [hsub, take_left, drop_left, hdec, hplain, if_true]
  · rfl

theorem Crypto.Sound.opens_other (hcr : cr.Sound) {body other : Bytes}
    (hr : r = body ++ cr.hmac other) (hne : cr.hmac body ≠ cr.hmac other) :
    cr.opens encrypt r = none := by
  have hlen := hcr.hmac_length other
  have hsub : r.length - cr.md_size = body.length := by
    rw [hr, length_append]
    omega
  have htake : r.take body.length = body := by
    rw [hr, take_left]
  have hdrop : r.drop body.length = cr.hmac other := by
    rw [hr, drop_left]
  rw [Crypto.opens]
  split
  · rfl
  · simp only [hsub, htake, hdrop]
    exact if_neg (fun heq => hne heq.symm)

/-! ## 5. The loops -/

theorem ok_bind {α β : Type} (a : α) (f : α → Except Halt β) : (Except.ok a >>= f) = f a := rfl

theorem store_over {more : Bytes} (h : out.length + more.length ≤ b.length) :
    store (Buffer.overlay out b) out.length more = .ok (Buffer.overlay (out ++ more) b) := by
  rw [store, Buffer.write_overlay h]

theorem load_over (h : out.length ≤ b.length) :
    load (Buffer.overlay out b) 0 out.length = .ok out := by
  rw [load, Buffer.read_overlay h]

theorem append_over {more : Bytes} (h : out.length ≤ b.length) :
    append (Buffer.overlay out b) out.length more =
      if b.length < out.length + more.length then .error .fail
      else .ok (Buffer.overlay (out ++ more) b) := by
  rw [append, Buffer.length_overlay h]
  split
  · rfl
  · exact store_over (by omega)

theorem copy_loop_spec :
    ∀ out : Bytes, out.length ≤ b.length →
      copy_loop els (Buffer.overlay out b) out.length =
        if b.length < (out ++ els.flatten).length then .error .fail
        else .ok (Buffer.overlay (out ++ els.flatten) b, (out ++ els.flatten).length) := by
  induction els with
  | nil =>
    intro out h
    rw [flatten_nil, append_nil, if_neg (by omega)]
    rfl
  | cons el els ih =>
    intro out h
    rw [copy_loop, append_over h]
    rw [flatten_cons, ← append_assoc]
    split
    · rename_i hfull
      rw [if_pos (by simp only [length_append] at hfull ⊢; omega)]
      rfl
    · rename_i hroom
      have hnext := ih (out ++ el) (by rw [length_append]; omega)
      rw [length_append] at hnext
      exact hnext

theorem encrypt_loop_spec (hcr : cr.Sound) (els : List Bytes) :
    ∀ (fed : List Bytes) (out : Bytes) (ret : ℕ), out.length ≤ b.length →
      encrypt_loop cr iv fed els (Buffer.overlay out b) out.length ret = .error .fail ∨
      (out ++ cr.outs iv fed els).length ≤ b.length ∧
        encrypt_loop cr iv fed els (Buffer.overlay out b) out.length ret =
          .ok (Buffer.overlay (out ++ cr.outs iv fed els) b, (out ++ cr.outs iv fed els).length,
            ret + els.flatten.length) := by
  induction els with
  | nil =>
    intro fed out ret h
    rw [Crypto.outs, append_nil]
    exact .inr ⟨h, rfl⟩
  | cons el els ih =>
    intro fed out ret h
    obtain ⟨more, hmore, hlen⟩ := hcr.update iv fed el
    rw [encrypt_loop, Buffer.length_overlay h]
    split
    · exact .inl rfl
    · rename_i hroom
      have hfits : out.length + more.length ≤ b.length := by omega
      have hstep := store_over hfits
      have hnext := ih (fed ++ [el]) (out ++ more) (ret + el.length)
        (by rw [length_append]; exact hfits)
      have houts : cr.outs iv fed (el :: els) = more ++ cr.outs iv (fed ++ [el]) els := by
        rw [Crypto.outs, hmore, getD_some]
      have hflat : (el :: els).flatten.length = el.length + els.flatten.length := by
        rw [flatten_cons, length_append]
      rw [houts, ← append_assoc, hflat, ← add_assoc]
      simp only [hmore, succeeds, hstep, bind, Except.bind]
      have hpos : (out ++ more).length = out.length + more.length := length_append
      rw [hpos] at hnext
      exact hnext

theorem int32_of_lt {n : ℕ} (h : n < 2 ^ 31) : int32 n = n :=
  Int.bmod_eq_of_le (by omega) (by omega)

theorem returns_eq {n : ℕ} (h : n < 2 ^ 31) (dst : Bytes) : returns n dst = .ok ((n : ℤ), dst) := by
  rw [returns, int32_of_lt h, if_neg (Int.not_lt.mpr (Int.natCast_nonneg n))]

theorem Crypto.Sound.hmac_32 (hcr : cr.Sound) (b : Bytes) :
    (cr.hmac b).length = SECURITY_MIN_HMAC_SIZE :=
  (hcr.hmac_length b).trans hcr.md_size

theorem append_hmac_spec (hcr : cr.Sound) (h : out.length ≤ b.length) (hsize : b.length < 2 ^ 31)
    (body : Bytes) :
    append_hmac cr body (Buffer.overlay out b) out.length =
      if b.length < (out ++ cr.hmac body).length then .error .fail
      else .ok (((out ++ cr.hmac body).length : ℤ), Buffer.overlay (out ++ cr.hmac body) b) := by
  have hlen := hcr.hmac_32 body
  have hfits : ¬((cr.hmac body).length < SECURITY_MIN_HMAC_SIZE ∨
      SECURITY_MAX_HMAC_SIZE < (cr.hmac body).length) := by
    rw [hlen]
    exact not_or.mpr ⟨lt_irrefl _, lt_irrefl _⟩
  rw [append_hmac]
  simp only [if_neg hfits, append_over h, length_append]
  split
  · rfl
  · rename_i hroom
    rw [ok_bind, returns_eq (by omega)]

/-! ## 6. Sealing -/

theorem lock_plain (hcr : cr.Sound) (hsize : dst.length < 2 ^ 31) (msg : List Bytes) :
    Sec_lock_msg cr false iv msg dst =
      if dst.length < (cr.seal false iv msg).length then .error .fail
      else .ok (((cr.seal false iv msg).length : ℤ), Buffer.overlay (cr.seal false iv msg) dst) := by
  have hseal : cr.seal false iv msg = msg.flatten ++ cr.hmac msg.flatten := rfl
  have hcopy := copy_loop_spec (b := dst) msg [] (Nat.zero_le _)
  rw [nil_append, Buffer.overlay_nil] at hcopy
  change (copy_loop msg dst 0 >>= _) = _
  rw [show copy_loop msg dst 0 = _ from hcopy, hseal]
  split
  · rename_i hfull
    rw [if_pos (by rw [length_append]; omega)]
    rfl
  · rename_i hroom
    exact append_hmac_spec hcr (not_lt.mp hroom) hsize _

theorem lock_of_loop (hcr : cr.Sound) (hiv : iv.length = cr.iv_length) (hsize : dst.length < 2 ^ 31)
    {msg : List Bytes} (hroom : (cr.outs iv [] msg).length ≤ dst.length)
    (hloop : encrypt_loop cr iv [] msg dst 0 0 =
      .ok (Buffer.overlay (cr.outs iv [] msg) dst, (cr.outs iv [] msg).length, msg.flatten.length)) :
    Sec_lock_msg cr true iv msg dst =
      if dst.length < (cr.outs iv [] msg).length + cr.block_size ∨
          dst.length < (cr.seal true iv msg).length then .error .fail
      else .ok (((cr.seal true iv msg).length : ℤ), Buffer.overlay (cr.seal true iv msg) dst) := by
  obtain ⟨last, hlast, hlast_len⟩ := hcr.final iv msg
  have hcipher : cr.cipher iv msg = cr.outs iv [] msg ++ last := by
    rw [Crypto.cipher, hlast, getD_some]
  have hseal : cr.seal true iv msg = cr.cipher iv msg ++ iv ++ cr.hmac (cr.cipher iv msg ++ iv) := rfl
  obtain ⟨hlow, hhigh⟩ := hcr.padding iv msg.flatten
  rw [← hcr.cut] at hlow hhigh
  have hlen : (cr.cipher iv msg).length = (cr.outs iv [] msg).length + last.length := by
    rw [hcipher, length_append]
  rw [Sec_lock_msg, if_pos rfl]
  simp only [hloop, bind, Except.bind, Buffer.length_overlay hroom]
  by_cases hblock : dst.length < (cr.outs iv [] msg).length + cr.block_size
  · rw [if_pos hblock, if_pos (.inl hblock)]
  · rw [if_neg hblock]
    have hint : int32 (cr.cipher iv msg).length = (cr.cipher iv msg).length :=
      int32_of_lt (by omega)
    have hpadded : ¬(((cr.cipher iv msg).length : ℤ) < msg.flatten.length ∨
        (msg.flatten.length + cr.block_size : ℤ) < (cr.cipher iv msg).length) := by
      omega
    have hstore : store (Buffer.overlay (cr.outs iv [] msg) dst) (cr.outs iv [] msg).length last =
        .ok (Buffer.overlay (cr.outs iv [] msg ++ last) dst) := store_over (by omega)
    rw [← hcipher] at hstore
    have happend : append (Buffer.overlay (cr.cipher iv msg) dst) (cr.cipher iv msg).length iv = _ :=
      append_over (by omega)
    simp only [hlast, succeeds, hstore, ← hlen, hint, if_neg hpadded, happend]
    by_cases hfull : dst.length < (cr.cipher iv msg).length + iv.length
    · have hlong : dst.length < (cr.seal true iv msg).length := by
        rw [hseal, length_append, length_append]
        omega
      rw [if_pos hfull, if_pos (.inr hlong)]
    · rw [if_neg hfull]
      have hbody : (cr.cipher iv msg ++ iv).length ≤ dst.length := by
        rw [length_append]
        omega
      have hload := load_over hbody
      have hhmac := append_hmac_spec hcr hbody hsize (cr.cipher iv msg ++ iv)
      rw [← hseal] at hhmac
      have hpos : (cr.cipher iv msg ++ iv).length = (cr.cipher iv msg).length + iv.length :=
        length_append
      rw [hpos] at hload hhmac
      simp only [hload, hhmac, hblock, false_or]

theorem lock_spec (hcr : cr.Sound) (hiv : iv.length = cr.iv_length) (hsize : dst.length < 2 ^ 31)
    (msg : List Bytes) :
    Sec_lock_msg cr encrypt iv msg dst = .error .fail ∨
      (cr.seal encrypt iv msg).length ≤ dst.length ∧ Sec_lock_msg cr encrypt iv msg dst =
          .ok (((cr.seal encrypt iv msg).length : ℤ), Buffer.overlay (cr.seal encrypt iv msg) dst) := by
  cases encrypt with
  | false =>
    rw [lock_plain hcr hsize]
    split
    · exact .inl rfl
    · rename_i hroom
      exact .inr ⟨not_lt.mp hroom, rfl⟩
  | true =>
    have hspec : encrypt_loop cr iv [] msg dst 0 0 = .error .fail ∨ _ :=
      encrypt_loop_spec hcr msg [] [] 0 (Nat.zero_le dst.length)
    rcases hspec with hfail | ⟨hroom, hloop⟩
    · refine .inl ?_
      rw [Sec_lock_msg, if_pos rfl]
      rw [hfail]
      rfl
    · rw [nil_append, Buffer.overlay_nil, zero_add] at hloop
      rw [lock_of_loop hcr hiv hsize hroom hloop]
      split
      · exact .inl rfl
      · rename_i hfits
        rw [not_or, not_lt, not_lt] at hfits
        exact .inr ⟨hfits.2, rfl⟩

theorem lock_one (hcr : cr.Sound) (hiv : iv.length = cr.iv_length) (hsize : dst.length < 2 ^ 31)
    (m : Bytes) (hfits : (cr.seal encrypt iv [m]).length ≤ dst.length) :
    Sec_lock_msg cr encrypt iv [m] dst =
      .ok (((cr.seal encrypt iv [m]).length : ℤ), Buffer.overlay (cr.seal encrypt iv [m]) dst) := by
  cases encrypt with
  | false =>
    rw [lock_plain hcr hsize, if_neg (not_lt.mpr hfits)]
  | true =>
    obtain ⟨out, hout, -⟩ := hcr.update iv [] m
    obtain ⟨last, hlast, hlast_len⟩ := hcr.final iv [m]
    obtain ⟨hlow, -⟩ := hcr.padding iv m
    have houts : cr.outs iv [] [m] = out := by
      rw [Crypto.outs, hout, getD_some, Crypto.outs, append_nil]
    have hcipher : cr.cipher iv [m] = out ++ last := by
      rw [Crypto.cipher, houts, hlast, getD_some]
    have hlen := congrArg List.length hcipher
    rw [length_append] at hlen
    have htotal : (cr.cipher iv [m]).length + iv.length ≤ dst.length := by
      have hseal : cr.seal true iv [m] =
        cr.cipher iv [m] ++ iv ++ cr.hmac (cr.cipher iv [m] ++ iv) := rfl
      rw [hseal, length_append, length_append] at hfits
      omega
    have hblock := hcr.iv_block
    have hroom : (cr.outs iv [] [m]).length ≤ dst.length := by
      rw [houts]
      omega
    have hloop : encrypt_loop cr iv [] [m] dst 0 0 = .ok (Buffer.overlay (cr.outs iv [] [m]) dst,
        (cr.outs iv [] [m]).length, [m].flatten.length) := by
      have hstart : ([] : Bytes).length + out.length ≤ dst.length := by
        rw [houts] at hroom
        simpa using hroom
      have hstore : store dst 0 out = _ := store_over hstart
      rw [encrypt_loop, if_neg (by omega), houts]
      simp only [hout, succeeds, hstore, bind, Except.bind, encrypt_loop]
      simp
    rw [lock_of_loop hcr hiv hsize hroom hloop, houts, if_neg (by omega)]

/-! ## 7. Opening -/

theorem load_of_le {pos len : ℕ} (h : pos + len ≤ dst.length) :
    load dst pos len = .ok ((dst.drop pos).take len) := by
  rw [load, Buffer.read, if_pos h]

theorem store_of_le {d : Bytes} (h : p + b.length ≤ d.length) :
    ∃ d', store d p b = .ok d' ∧ Buffer.write d p b = some d' := by
  obtain ⟨d', hwrite⟩ := Buffer.write_of_le h
  refine ⟨d', ?_, hwrite⟩
  rw [store, hwrite]

structure Decrypted (cr : Crypto) (iv c dst dst' : Bytes) : Prop where
  length : dst'.length = dst.length
  plain : dst'.take (cr.plain iv c).length = cr.plain iv c
  rest : dst'.drop (c.length + cr.block_size) = dst.drop (c.length + cr.block_size)

theorem Crypto.Sound.plain_length (hcr : cr.Sound) (iv c : Bytes) :
    (cr.plain iv c).length = (cr.decrypt_update iv c).outl + (cr.decrypt_final iv c).outl := by
  have hu := (hcr.decrypt_room iv c).1
  have hf := (hcr.final_room iv c).1
  rw [Crypto.plain, length_append, length_take_of_le hu, length_take_of_le hf]

theorem decrypted_of_write (hcr : cr.Sound) {dst1 dst2 : Bytes}
    (h1 : Buffer.write dst 0 (cr.decrypt_update iv c).bytes = some dst1)
    (h2 : Buffer.write dst1 (cr.decrypt_update iv c).outl (cr.decrypt_final iv c).bytes =
      some dst2) : Decrypted cr iv c dst dst2 := by
  obtain ⟨hu, hu'⟩ := hcr.decrypt_room iv c
  obtain ⟨hf, hf'⟩ := hcr.final_room iv c
  obtain ⟨hsum, -⟩ := hcr.unpadding iv c
  refine ⟨?_, ?_, ?_⟩
  · rw [Buffer.length_of_write h2, Buffer.length_of_write h1]
  · -- the second write starts where the output of the first ends
    have hfirst : dst1.take (cr.decrypt_update iv c).outl =
        (cr.decrypt_update iv c).bytes.take (cr.decrypt_update iv c).outl := by
      have hall := Buffer.take_end_of_write h1
      rw [zero_add, take_zero, nil_append] at hall
      rw [← hall, take_take, Nat.min_eq_left hu]
    have hsecond := Buffer.take_end_of_write h2
    rw [hfirst] at hsecond
    have hlen : ((cr.decrypt_update iv c).bytes.take (cr.decrypt_update iv c).outl).length =
        (cr.decrypt_update iv c).outl := length_take_of_le hu
    calc dst2.take (cr.plain iv c).length
        = (dst2.take ((cr.decrypt_update iv c).outl + (cr.decrypt_final iv c).bytes.length)).take
            (cr.plain iv c).length := by
          rw [take_take, hcr.plain_length, Nat.min_eq_left (by omega)]
      _ = cr.plain iv c := by
          rw [hsecond, hcr.plain_length, Crypto.plain, take_append, hlen,
            Nat.add_sub_cancel_left, take_take, Nat.min_eq_right (by omega)]
  · rw [Buffer.drop_of_write h2 (by omega), Buffer.drop_of_write h1 (by omega)]

theorem decrypt_spec (hcr : cr.Sound) (hsize : dst.length < 2 ^ 31) (hc : dst.take c.length = c)
    (hiv : (dst.drop c.length).take cr.iv_length = iv)
    (hroom : c.length + cr.iv_length ≤ dst.length) :
    ∃ dst', decrypt cr dst c.length = .ok (dst', (cr.plain iv c).length, cr.deciphers iv c) ∧
      Decrypted cr iv c dst dst' := by
  have hblock := hcr.iv_block
  obtain ⟨hu, hu'⟩ := hcr.decrypt_room iv c
  obtain ⟨hf, hf'⟩ := hcr.final_room iv c
  obtain ⟨hsum, hsum'⟩ := hcr.unpadding iv c
  have hload_c : load dst 0 c.length = .ok c := by
    rw [load_of_le (by omega), drop_zero, hc]
  have hload_iv : load dst c.length cr.iv_length = .ok iv := by
    rw [load_of_le hroom, hiv]
  obtain ⟨dst1, hstore1, hwrite1⟩ :=
    store_of_le (d := dst) (b := (cr.decrypt_update iv c).bytes) (p := 0) (by omega)
  have hlen1 := Buffer.length_of_write hwrite1
  obtain ⟨dst2, hstore2, hwrite2⟩ := store_of_le (d := dst1)
    (b := (cr.decrypt_final iv c).bytes) (p := (cr.decrypt_update iv c).outl) (by omega)
  have hlen2 := Buffer.length_of_write hwrite2
  refine ⟨dst2, ?_, decrypted_of_write hcr hwrite1 hwrite2⟩
  have hfits1 : ¬dst.length < (cr.decrypt_update iv c).outl := by omega
  have hfits2 : ¬(dst2.length < (cr.decrypt_update iv c).outl + (cr.decrypt_final iv c).outl ∨
      (((cr.decrypt_update iv c).outl + (cr.decrypt_final iv c).outl : ℕ) : ℤ) <
        (c.length : ℤ) - cr.block_size ∨
      (c.length : ℤ) <
        (((cr.decrypt_update iv c).outl + (cr.decrypt_final iv c).outl : ℕ) : ℤ)) := by
    omega
  have hint : int32 ((cr.decrypt_update iv c).outl + (cr.decrypt_final iv c).outl) =
      (((cr.decrypt_update iv c).outl + (cr.decrypt_final iv c).outl : ℕ) : ℤ) :=
    int32_of_lt (by omega)
  rw [decrypt, hload_iv, ok_bind, hload_c, ok_bind]
  dsimp only
  rw [hstore1, ok_bind, hlen1, if_neg hfits1, hstore2, ok_bind, hint, if_neg hfits2,
    hcr.plain_length]
  rfl

/-- What `Sec_unlock_msg` returns for a received string `r`. -/
def Opened (o : Option Bytes) (dst : Bytes) (res : Except Halt (ℤ × Bytes)) : Prop :=
  match o with
  | none => res = .error .fail
  | some m => ∃ dst', res = .ok ((m.length : ℤ), dst') ∧ dst'.length = dst.length ∧
      dst'.take m.length = m

theorem take_received {k : ℕ} (h : k ≤ r.length) : (Buffer.overlay r dst).take k = r.take k :=
  take_append_of_le_length h

theorem drop_received {k : ℕ} (h : k ≤ r.length) :
    (Buffer.overlay r dst).drop k = r.drop k ++ dst.drop r.length :=
  drop_append_of_le_length h

theorem unlock_encrypted (hcr : cr.Sound) (hsize : dst.length < 2 ^ 31)
    (hroom : r.length ≤ dst.length) (hlong : ¬r.length < cr.md_size)
    (hiv : ¬r.length - cr.md_size < cr.iv_length) :
    Opened (cr.opens true r) dst (do
      let (d, len, ok) ← decrypt cr (Buffer.overlay r dst) (r.length - cr.md_size - cr.iv_length)
      let tag ← load d (r.length - cr.md_size) cr.md_size
      if tag = cr.hmac (r.take (r.length - cr.md_size)) ∧ ok then return ((len : ℤ), d)
      else .error .fail) := by
  have hblock := hcr.iv_block
  have hlen : (Buffer.overlay r dst).length = dst.length := Buffer.length_overlay hroom
  set body := r.take (r.length - cr.md_size) with hbody
  have hbody_len : body.length = r.length - cr.md_size := length_take_of_le (by omega)
  have hc_len : (body.take (body.length - cr.iv_length)).length =
      r.length - cr.md_size - cr.iv_length := by
    rw [length_take_of_le (by omega), hbody_len]
  have hc : (Buffer.overlay r dst).take (body.take (body.length - cr.iv_length)).length =
      body.take (body.length - cr.iv_length) := by
    rw [hc_len, take_received (by omega), hbody_len, hbody, take_take,
      Nat.min_eq_left (by omega)]
  have hiv_eq : ((Buffer.overlay r dst).drop (body.take (body.length - cr.iv_length)).length).take
      cr.iv_length = body.drop (body.length - cr.iv_length) := by
    rw [hc_len, drop_received (by omega), take_append_of_le_length, hbody_len, hbody,
      drop_take]
    · congr 1
      omega
    · rw [length_drop]
      omega
  have hsize' : (Buffer.overlay r dst).length < 2 ^ 31 := hlen ▸ hsize
  obtain ⟨d, hdecrypt, hd⟩ := decrypt_spec hcr hsize' hc hiv_eq (by omega)
  have htag : load d (r.length - cr.md_size) cr.md_size =
      .ok (r.drop (r.length - cr.md_size)) := by
    have hrest := hd.rest
    have hplace : (body.take (body.length - cr.iv_length)).length + cr.block_size =
        r.length - cr.md_size := by omega
    rw [hplace] at hrest
    have hd_len := hd.length
    rw [load_of_le (by omega), hrest, drop_received (by omega), take_append_of_le_length,
      take_of_length_le]
    · rw [length_drop]
      omega
    · rw [length_drop]
      omega
  rw [hc_len] at hdecrypt
  have hopen_long : ¬body.length < cr.iv_length := by omega
  rw [hdecrypt, ok_bind]
  dsimp only
  rw [htag, ok_bind, Crypto.opens, if_neg hlong]
  by_cases heq : r.drop (r.length - cr.md_size) = cr.hmac body
  · rw [if_pos heq, Crypto.open_body, if_pos rfl, if_neg hopen_long]
    dsimp only
    split
    · rename_i hdec
      rw [if_pos ⟨heq, hdec⟩]
      exact ⟨d, rfl, hd.length.trans hlen, hd.plain⟩
    · rename_i hdec
      rw [if_neg (fun hboth => hdec hboth.2)]
      rfl
  · rw [if_neg heq, if_neg (fun hboth => heq hboth.1)]
    rfl

theorem unlock_spec (hcr : cr.Sound) (encrypt : Bool) (hsize : dst.length < 2 ^ 31)
    (msg : List Bytes) :
    (dst.length < msg.flatten.length → Sec_unlock_msg cr encrypt msg dst = .error .fail) ∧
      (msg.flatten.length ≤ dst.length →
        Opened (cr.opens encrypt msg.flatten) dst (Sec_unlock_msg cr encrypt msg dst)) := by
  have hmd : ¬(cr.md_size < SECURITY_MIN_HMAC_SIZE ∨ SECURITY_MAX_HMAC_SIZE < cr.md_size) := by
    rw [hcr.md_size]
    exact not_or.mpr ⟨lt_irrefl _, lt_irrefl _⟩
  have hcopy : copy_loop msg dst 0 = _ := copy_loop_spec (b := dst) msg [] (Nat.zero_le _)
  rw [nil_append] at hcopy
  rw [Sec_unlock_msg, if_neg hmd, hcopy]
  constructor
  · intro hfull
    rw [if_pos hfull]
    rfl
  · intro hroom
    set r := msg.flatten
    rw [if_neg (not_lt.mpr hroom), ok_bind]
    dsimp only
    rw [int32_of_lt (by omega)]
    by_cases hlong : r.length < cr.md_size
    · rw [if_pos (by omega), Crypto.opens, if_pos hlong]
      rfl
    · have hret : ((r.length : ℤ) - (cr.md_size : ℤ)).toNat = r.length - cr.md_size := by omega
      have hlen : (Buffer.overlay r dst).length = dst.length := Buffer.length_overlay hroom
      rw [if_neg (by omega), hret, load_of_le (by omega), drop_zero,
        take_received (Nat.sub_le _ _), ok_bind, if_neg (by rw [hcr.hmac_length]; simp)]
      split
      · rename_i hon
        subst hon
        by_cases hiv : r.length - cr.md_size < cr.iv_length
        · have hnone : cr.opens true r = none := by
            have hshort : (r.take (r.length - cr.md_size)).length < cr.iv_length := by
              rw [length_take_of_le (Nat.sub_le _ _)]
              exact hiv
            rw [Crypto.opens, if_neg hlong]
            dsimp only
            rw [Crypto.open_body, if_pos rfl, if_pos hshort]
            split
            · rfl
            · rfl
          rw [if_pos hiv, hnone]
          rfl
        · rw [if_neg hiv]
          exact unlock_encrypted hcr hsize hroom hlong hiv
      · rename_i hoff
        have htag : load (Buffer.overlay r dst) (r.length - cr.md_size) cr.md_size =
            .ok (r.drop (r.length - cr.md_size)) := by
          rw [load_of_le (by omega), drop_received (by omega), take_append_of_le_length,
            take_of_length_le]
          · rw [length_drop]
            omega
          · rw [length_drop]
            omega
        rw [htag, ok_bind, Crypto.opens, if_neg hlong]
        dsimp only
        rw [Crypto.open_body, if_neg hoff]
        split
        · have hbody : (r.take (r.length - cr.md_size)).length = r.length - cr.md_size :=
            length_take_of_le (by omega)
          refine ⟨_, ?_, hlen, ?_⟩
          · rw [hbody]
            rfl
          · rw [hbody, take_received (by omega)]
        · rfl

/-! ## 8. The round trip -/

/-- Whatever the pieces of the message, sealing fails or writes exactly the `n` bytes it
returns, and however these are cut they open to the message. Opening a string either fails
or gives the message that sealing turns into that string; a string that ends in the HMAC
of something else does not open. Neither leaves the buffer or reaches an assertion. -/
theorem sealing_round_trip (cr : Crypto) (hcr : cr.Sound) (encrypt : Bool) (dst : Bytes)
    (hsize : dst.length < 2 ^ 31) : (∀ iv msg, iv.length = cr.iv_length →
      Sec_lock_msg cr encrypt iv msg dst = .error .fail ∨
      ∃ (n : ℕ) (dst' : Bytes), Sec_lock_msg cr encrypt iv msg dst = .ok ((n : ℤ), dst') ∧
        n ≤ dst.length ∧ dst'.length = dst.length ∧ dst'.drop n = dst.drop n ∧
        ∀ (parts : List Bytes) (buf : Bytes), parts.flatten = dst'.take n → n ≤ buf.length →
          buf.length < 2 ^ 31 →
          ∃ buf', Sec_unlock_msg cr encrypt parts buf = .ok ((msg.flatten.length : ℤ), buf') ∧
            buf'.length = buf.length ∧ buf'.take msg.flatten.length = msg.flatten) ∧
    (∀ parts, Sec_unlock_msg cr encrypt parts dst = .error .fail ∨
      ∃ m dst', Sec_unlock_msg cr encrypt parts dst = .ok ((m.length : ℤ), dst') ∧
        dst'.length = dst.length ∧ dst'.take m.length = m ∧
        ∃ iv sealed, iv.length = cr.iv_length ∧
          Sec_lock_msg cr encrypt iv [m] dst = .ok ((parts.flatten.length : ℤ), sealed) ∧
          sealed.take parts.flatten.length = parts.flatten) ∧
    ∀ parts body other, parts.flatten = body ++ cr.hmac other → body ≠ other →
      (cr.hmac body = cr.hmac other → body = other) →
      Sec_unlock_msg cr encrypt parts dst = .error .fail := by
  refine ⟨?_, ?_, ?_⟩
  · intro iv msg hiv
    rcases lock_spec hcr hiv hsize msg with hfail | ⟨hfits, hlock⟩
    · exact .inl hfail
    · refine .inr ⟨_, _, hlock, hfits, Buffer.length_overlay hfits, Buffer.drop_overlay _ _, ?_⟩
      intro parts buf hparts hroom hbuf
      rw [Buffer.take_overlay] at hparts
      have hopened := (unlock_spec hcr encrypt hbuf parts).2 (hparts ▸ hroom)
      rw [hparts, hcr.opens_seal hiv] at hopened
      exact hopened
  · intro parts
    rcases Nat.lt_or_ge dst.length parts.flatten.length with hfull | hroom
    · exact .inl ((unlock_spec hcr encrypt hsize parts).1 hfull)
    · have hopened := (unlock_spec hcr encrypt hsize parts).2 hroom
      rcases hopens : cr.opens encrypt parts.flatten with _ | m
      · rw [hopens] at hopened
        exact .inl hopened
      · rw [hopens] at hopened
        obtain ⟨dst', hok, hlen, htake⟩ := hopened
        obtain ⟨iv, hiv, hseal⟩ := hcr.seal_of_opens hopens
        have hlock := lock_one hcr hiv hsize m (hseal ▸ hroom)
        rw [hseal] at hlock
        exact .inr ⟨m, dst', hok, hlen, htake, iv, _, hiv, hlock, Buffer.take_overlay _ _⟩
  · intro parts body other hparts hne hdistinct
    rcases Nat.lt_or_ge dst.length parts.flatten.length with hfull | hroom
    · exact (unlock_spec hcr encrypt hsize parts).1 hfull
    · have hopened := (unlock_spec hcr encrypt hsize parts).2 hroom
      rw [hcr.opens_other hparts (fun heq => hne (hdistinct heq))] at hopened
      exact hopened

/-! ### A block cipher that changes nothing -/

def whole (n : ℕ) : ℕ := n / 16 * 16

def padding (n : ℕ) : Bytes := replicate (16 - n % 16) (UInt8.ofNat (16 - n % 16))

def unpad (c : Bytes) : Option ℕ :=
  let p := (c.getLast?.getD 0).toNat
  if c.length % 16 = 0 ∧ 1 ≤ p ∧ p ≤ 16 ∧ p ≤ c.length ∧
      c.drop (c.length - p) = replicate p (UInt8.ofNat p) then some p
  else none

/-- Blocks, buffering and padding are those of AES in CBC mode; the block cipher is the
identity, and the HMAC is the message as a number. -/
def clear_text : Crypto :=
  { block_size := 16
    iv_length := 16
    md_size := 32
    encrypt_update := fun _ fed inp =>
      some (((fed.flatten ++ inp).take (whole (fed.flatten ++ inp).length)).drop
        (whole fed.flatten.length))
    encrypt_final := fun _ fed =>
      some (fed.flatten.drop (whole fed.flatten.length) ++ padding fed.flatten.length)
    decrypt_update := fun _ c =>
      if c.length % 16 = 0 then ⟨true, c, c.length - 16⟩
      else ⟨true, c.take (whole c.length), whole c.length⟩
    decrypt_final := fun _ c =>
      match unpad c with
      | some p => ⟨true, (c.drop (c.length - 16)).take (16 - p), 16 - p⟩
      | none => ⟨false, [], 0⟩
    hmac := fun b => le_bytes 32 (le_value b) }

theorem whole_le : whole n ≤ n := Nat.div_mul_le_self n 16

theorem lt_whole : n < whole n + 16 := by
  simp only [whole]
  omega

theorem clear_outs (iv : Bytes) (els : List Bytes) :
    ∀ fed : List Bytes, fed.flatten.take (whole fed.flatten.length) ++ clear_text.outs iv fed els =
      (fed ++ els).flatten.take (whole (fed ++ els).flatten.length) := by
  induction els with
  | nil =>
    intro fed
    rw [Crypto.outs, append_nil, append_nil]
  | cons el els ih =>
    intro fed
    have hstep : (fed ++ [el]).flatten = fed.flatten ++ el := by
      rw [flatten_append, flatten_singleton]
    have hle : whole fed.flatten.length ≤ whole (fed.flatten ++ el).length := by
      rw [length_append]
      exact Nat.mul_le_mul_right 16 (Nat.div_le_div_right (Nat.le_add_right _ _))
    -- what was put out before is the front of what has been put out now
    have hfront : fed.flatten.take (whole fed.flatten.length) =
        ((fed.flatten ++ el).take (whole (fed.flatten ++ el).length)).take
          (whole fed.flatten.length) := by
      rw [take_take, Nat.min_eq_left hle, take_append_of_le_length (whole_le _)]
    have hall : fed ++ el :: els = fed ++ [el] ++ els := by simp
    have hnext := ih (fed ++ [el])
    rw [hstep] at hnext
    rw [Crypto.outs, hall, ← hnext, ← append_assoc]
    congr 1
    change fed.flatten.take (whole fed.flatten.length) ++
      ((fed.flatten ++ el).take (whole (fed.flatten ++ el).length)).drop
        (whole fed.flatten.length) = _
    rw [hfront, take_append_drop]

theorem clear_cipher (iv : Bytes) (els : List Bytes) :
    clear_text.cipher iv els = els.flatten ++ padding els.flatten.length := by
  have houts := clear_outs iv els []
  rw [nil_append] at houts
  change clear_text.outs iv [] els ++
    (els.flatten.drop (whole els.flatten.length) ++ padding els.flatten.length) = _
  have hnil : ([] : List Bytes).flatten.take (whole ([] : List Bytes).flatten.length) = [] := rfl
  rw [hnil, nil_append] at houts
  rw [houts, ← append_assoc, take_append_drop]

theorem padding_length : (padding n).length = 16 - n % 16 := length_replicate

theorem unpad_some (h : unpad c = some p) :
    c.length % 16 = 0 ∧ 1 ≤ p ∧ p ≤ 16 ∧ p ≤ c.length ∧
      c.drop (c.length - p) = replicate p (UInt8.ofNat p) := by
  rw [unpad] at h
  split at h
  · rename_i hpad
    cases h
    exact hpad
  · cases h

theorem unpad_padding (m : Bytes) : unpad (m ++ padding m.length) = some (16 - m.length % 16) := by
  have hpos : 0 < 16 - m.length % 16 := by omega
  have hlast : (m ++ padding m.length).getLast? = some (UInt8.ofNat (16 - m.length % 16)) := by
    rw [padding, List.getLast?_append, List.getLast?_replicate, if_neg (by omega)]
    rfl
  have hval : (UInt8.ofNat (16 - m.length % 16)).toNat = 16 - m.length % 16 := by
    rw [UInt8.toNat_ofNat']
    omega
  have hlen : (m ++ padding m.length).length = m.length + (16 - m.length % 16) := by
    rw [length_append, padding_length]
  rw [unpad, hlast, getD_some, hval, hlen]
  apply if_pos
  refine ⟨by omega, hpos, by omega, by omega, ?_⟩
  rw [Nat.add_sub_cancel, drop_left]
  rfl

theorem clear_plain (iv c : Bytes) (h : unpad c = some p) :
    clear_text.plain iv c = c.take (c.length - p) := by
  obtain ⟨hmod, hlo, hhi, hle, -⟩ := unpad_some h
  have hsum : c.length - p = c.length - 16 + (16 - p) := by omega
  simp only [Crypto.plain, clear_text, hmod, h, if_true]
  rw [take_take, Nat.min_self, hsum, take_add]

theorem clear_text_sound : clear_text.Sound := by
  constructor
  · rfl
  · decide
  · rfl
  · intro iv fed inp
    refine ⟨_, rfl, ?_⟩
    have hlt := lt_whole fed.flatten.length
    change _ + 1 ≤ inp.length + 16
    rw [length_drop, length_take_of_le (whole_le _), length_append]
    have hle := whole_le (fed.flatten.length + inp.length)
    omega
  · intro iv fed
    refine ⟨_, rfl, ?_⟩
    change _ ≤ 16
    rw [length_append, length_drop, padding_length]
    simp only [whole]
    omega
  · intro iv els
    rw [clear_cipher, clear_cipher, flatten_singleton]
  · intro iv m
    rw [clear_cipher, flatten_singleton, length_append, padding_length]
    change _ ∧ _ ≤ m.length + 16
    omega
  · intro iv c
    simp only [clear_text]
    split
    · exact ⟨Nat.sub_le _ _, Nat.le_add_right _ _⟩
    · have hle := whole_le c.length
      dsimp only
      rw [length_take_of_le hle]
      omega
  · intro iv c
    simp only [clear_text]
    split
    · rename_i p hp
      obtain ⟨-, hlo, hhi, hle, -⟩ := unpad_some hp
      have hmod := (unpad_some hp).1
      dsimp only
      rw [length_take, length_drop]
      omega
    · exact ⟨le_refl _, Nat.zero_le _⟩
  · intro iv c
    have hle := whole_le c.length
    have hlt := lt_whole c.length
    simp only [clear_text]
    rcases hp : unpad c with _ | p
    · split
      · dsimp only
        omega
      · dsimp only
        omega
    · obtain ⟨hmod, hlo, hhi, hle', -⟩ := unpad_some hp
      rw [if_pos hmod]
      dsimp only
      omega
  · intro iv m
    have hunpad := unpad_padding m
    have hlen : (m ++ padding m.length).length = m.length + (16 - m.length % 16) := by
      rw [length_append, padding_length]
    rw [clear_cipher, flatten_singleton, clear_plain iv _ hunpad, hlen, Nat.add_sub_cancel,
      take_left]
    refine ⟨?_, rfl⟩
    have hmod : (m ++ padding m.length).length % 16 = 0 := (unpad_some hunpad).1
    simp only [Crypto.deciphers, clear_text, hunpad, hmod, if_true, Bool.and_self]
  · intro iv c hdec
    rcases hp : unpad c with _ | p
    · simp only [Crypto.deciphers, clear_text, hp, Bool.and_false] at hdec
      cases hdec
    · obtain ⟨hmod, hlo, hhi, hle, hdrop⟩ := unpad_some hp
      have hlen : (c.take (c.length - p)).length = c.length - p :=
        length_take_of_le (Nat.sub_le _ _)
      have hpad : 16 - (c.length - p) % 16 = p := by omega
      rw [clear_plain iv c hp, clear_cipher, flatten_singleton, hlen, padding, hpad, ← hdrop,
        take_append_drop]
  · intro b
    exact le_bytes_length 32 _

theorem sealing_round_trip_clear :
    ∃ (n : ℕ) (sealed opened : Bytes),
      Sec_lock_msg clear_text true (replicate 16 7) [[104, 105], [], [33]]
        (replicate 100 0) = .ok ((n : ℤ), sealed) ∧
      Sec_unlock_msg clear_text true [sealed.take n] (replicate 100 0) = .ok (3, opened) ∧
      opened.take 3 = [104, 105, 33] := by
  obtain ⟨hround, -, -⟩ := sealing_round_trip clear_text clear_text_sound true
    (replicate 100 0) (by decide)
  have hlock := hround (replicate 16 7) [[104, 105], [], [33]] (by decide)
  rcases hlock with hfail | ⟨n, sealed, hlock, hle, -, -, hopen⟩
  · have hnot : Sec_lock_msg clear_text true (replicate 16 7) [[104, 105], [], [33]]
        (replicate 100 0) ≠ .error .fail := by decide +kernel
    exact absurd hfail hnot
  · obtain ⟨opened, hunlock, -, htake⟩ := hopen [sealed.take n] (replicate 100 0)
      (by rw [flatten_singleton]) hle (by decide)
    exact ⟨n, sealed, opened, hlock, hunlock, htake⟩

end Spines.IntruTol.Sealing
