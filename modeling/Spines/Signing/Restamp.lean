/-
Signing a stored message again (`Reliable_Flood_Restamp` of
`daemon/reliable_flood.c`, the part between `Write the superset` and `mark to be
resent`).

The new mask goes into the message before anything is signed, the `ttl` and the
path are set to zero, and the element with the mask is made shorter by the old
signature. A call of `EVP_*`
that fails jumps to `cr_cleanup`, which frees the context and nothing else; and
the flow is left without the second loop, so `next_seq` of the messages restamped
before stays where it was.

`RawBuffer` has the messages as they are in memory; forgetting everything but the
masks it is the buffer of `RelFlood` (`restamp_raw_loop_shows`).
-/
import Spines.Signing.Agreement
import Spines.RelFlood.Restamp

set_option autoImplicit false

namespace Spines.Signing

open Spines.Lib Spines.IntruTol Spines.RelFlood Function Option List

/-! ## 1. One message -/

/-- A data message in a flow buffer: the elements of the client's message, the element
with header, mask and signature, and the tail. -/
structure Stored where
  type : ℕ
  client : Elem
  more : List Elem
  data : Elem
  tail : Elem

def Stored.scat (x : Stored) : Scat := ⟨x.type, x.client :: x.more ++ [x.data, x.tail]⟩

/-- `old_bitmask`. -/
def Stored.mask (cf : Conf) (x : Stored) : Bytes :=
  x.data.buf.bytes SIZEOF_REL_HEADER cf.bitmask_size

def Stored.on_client (f : Mem → Mem) (x : Stored) : Stored :=
  { x with client := { x.client with buf := f x.client.buf } }

def Stored.write_data (pos : ℕ) (bs : Bytes) (x : Stored) : Stored :=
  { x with data := { x.data with buf := x.data.buf.write pos bs } }

def Stored.set_len (len : ℕ) (x : Stored) : Stored := { x with data := { x.data with len := len } }

/-- `MultiPath_Create_Superset`. The size of a mask is a multiple of the 64-bit words
it goes over. -/
def superset (a b : Bytes) : Bytes := zipWith (· ||| ·) a b

structure Evp where
  /-- `EVP_MD_CTX_new` returns a context. -/
  ctx : Bool
  init : Bool
  /-- `EVP_SignUpdate` over element `k`. -/
  update : ℕ → Bool
  final : Bool
  signature : Bytes

inductive Attempt
  | exit
  /-- `error = 1`, with the message left behind. -/
  | failed (x : Stored)
  | signed (x : Stored)

/-- The elements `1, …, num_elements - 2`, which are signed. -/
def Stored.signed_elements (x : Stored) : List ℕ := range' 1 (x.more.length + 2)

/-- `Store non-signed contents on the side`. -/
def Stored.hidden (cf : Conf) (x : Stored) : Stored :=
  let x := x.on_client (fun m => Function.update m TTL 0)
  if cf.path_stamp_debug then x.on_client zero_path else x

/-- The block under `Conf_Rel.Crypto == 1`. The result of the first `EVP_SignUpdate`,
over the type, is not looked at. -/
def restamp_sign (cf : Conf) (evp : Evp) (x : Stored) : Attempt :=
  let temp_ttl := x.client.buf TTL
  let temp_path := path x.client.buf
  let x := x.hidden cf
  if evp.ctx = false then .exit
  else if evp.init = false then .failed x
  else
    let x := x.set_len (sub64 x.data.len cf.rel_signature_len)
    if ∃ k ∈ x.signed_elements, evp.update k = false then .failed x
    else
      let x := x.write_data (SIZEOF_REL_HEADER + cf.bitmask_size) evp.signature
      if evp.final = false ∨ evp.signature.length ≠ cf.rel_signature_len then .failed x
      else
        let x := x.set_len ((x.data.len + cf.rel_signature_len) % 2 ^ 64)
        let x := x.on_client (fun m => Function.update m TTL temp_ttl)
        .signed (if cf.path_stamp_debug then x.on_client (put_path temp_path) else x)

/-- The message `j` of the loop, when `MultiPath_Stamp_Bitmask` gave `stamp`; `none`
where the mask need not change. -/
def restamp_stored (cf : Conf) (evp : Evp) (stamp : Bytes) (x : Stored) : Option Attempt :=
  let temp_bitmask := superset stamp (x.mask cf)
  if x.mask cf = temp_bitmask then none
  else
    let x := x.write_data SIZEOF_REL_HEADER temp_bitmask
    some (if cf.rel_crypto then restamp_sign cf evp x else .signed x)

/-- Mask, lengths, `ttl` and path are the same. -/
structure Intact (cf : Conf) (x x' : Stored) : Prop where
  mask : x'.mask cf = x.mask cf
  lens : x'.scat.elements.map Elem.len = x.scat.elements.map Elem.len
  ttl : x'.client.buf TTL = x.client.buf TTL
  path : ∀ i, i < 8 → path x'.client.buf i = path x.client.buf i

structure Spoiled (cf : Conf) (evp : Evp) (x x' : Stored) : Prop where
  mask : x'.mask cf = x.mask cf
  ttl : x'.client.buf TTL = 0
  path : cf.path_stamp_debug = true → ∀ i, i < 8 → path x'.client.buf i = 0
  len : x'.data.len = if evp.init = false then x.data.len
    else sub64 x.data.len cf.rel_signature_len

section Message

variable {cf : Conf} {evp : Evp} {x x' : Stored}

theorem mask_write {bs : Bytes} (h : bs.length = cf.bitmask_size) :
    (x.write_data SIZEOF_REL_HEADER bs).mask cf = bs :=
  Mem.bytes_write h

theorem mask_signature (bs : Bytes) :
    (x.write_data (SIZEOF_REL_HEADER + cf.bitmask_size) bs).mask cf = x.mask cf :=
  Mem.bytes_write_other (.inl (Nat.le_refl _))

theorem hidden_client (cf : Conf) (x : Stored) :
    (x.hidden cf).client.buf = hide cf x.client.buf := by
  unfold Stored.hidden hide
  split <;> rfl

theorem hidden_data (cf : Conf) (x : Stored) :
    (x.hidden cf).data = x.data ∧ (x.hidden cf).more = x.more := by
  unfold Stored.hidden
  split <;> exact ⟨rfl, rfl⟩

theorem hidden_mask (cf : Conf) (x : Stored) : (x.hidden cf).mask cf = x.mask cf :=
  congrArg (fun e : Elem => e.buf.bytes SIZEOF_REL_HEADER cf.bitmask_size) (hidden_data cf x).1

/-- **Every way to fail**: the new mask, no `ttl`, no path, and a length without the
signature unless `EVP_SignInit` failed already. -/
theorem restamp_sign_failed (h : restamp_sign cf evp x = .failed x') : Spoiled cf evp x x' := by
  have hdata := (hidden_data cf x).1
  have httl : (x.hidden cf).client.buf TTL = 0 := by
    rw [hidden_client]
    exact hide_hidden (.inl rfl)
  have hpath : cf.path_stamp_debug = true → ∀ i, i < 8 →
      path (x.hidden cf).client.buf i = 0 := by
    intro hdebug i hi
    rw [hidden_client]
    exact hide_hidden (.inr ⟨hdebug, Nat.le_add_right _ _, by omega⟩)
  unfold restamp_sign at h
  dsimp only at h
  by_cases hctx : evp.ctx = false
  · rw [if_pos hctx] at h
    exact absurd h (by simp)
  rw [if_neg hctx] at h
  by_cases hinit : evp.init = false
  · rw [if_pos hinit] at h
    obtain rfl := Attempt.failed.inj h
    exact ⟨hidden_mask cf x, httl, hpath, by rw [if_pos hinit, hdata]⟩
  rw [if_neg hinit] at h
  have hlen : sub64 (x.hidden cf).data.len cf.rel_signature_len =
      if evp.init = false then x.data.len else sub64 x.data.len cf.rel_signature_len := by
    rw [if_neg hinit, hdata]
  split at h
  · obtain rfl := Attempt.failed.inj h
    exact ⟨hidden_mask cf x, httl, hpath, hlen⟩
  split at h
  · obtain rfl := Attempt.failed.inj h
    exact ⟨(mask_signature _).trans (hidden_mask cf x), httl, hpath, hlen⟩
  · exact absurd h (by simp)

theorem superset_length {stamp : Bytes} (h : stamp.length = cf.bitmask_size) :
    (superset stamp (x.mask cf)).length = cf.bitmask_size := by
  unfold superset Stored.mask
  rw [length_zipWith, Mem.bytes_length, h, Nat.min_self]

theorem not_intact_of_failed {stamp : Bytes} (hsize : stamp.length = cf.bitmask_size)
    (h : restamp_stored cf evp stamp x = some (.failed x')) : ¬ Intact cf x x' := by
  intro hintact
  unfold restamp_stored at h
  dsimp only at h
  split at h
  · exact absurd h (by simp)
  · rename_i hnew
    -- only a message whose mask changes is signed
    rw [some_inj] at h
    split at h
    · have hmask := (restamp_sign_failed h).mask
      rw [mask_write (superset_length hsize)] at hmask
      exact hnew (hintact.mask.symm.trans hmask)
    · exact absurd h (by simp)

end Message

/-! ## 2. One flow -/

structure RawBuffer where
  msg : ℕ → Option Stored
  status : ℕ → ℕ → Status
  num_paths : ℕ → ℕ
  sow : ℕ
  next_seq : ℕ → ℕ
  head_seq : ℕ
  narrow : head_seq ≤ sow + MAX_MESS_PER_FLOW

/-- What a round of `Reliable_Flood_Restamp` finds in its surroundings. -/
structure RawEnv (cf : Conf) where
  /-- `MultiPath_Stamp_Bitmask(dest, num_paths)`, `none` when it returns `0`. -/
  stamp : ℕ → Option Bytes
  /-- The calls of `EVP_*` for message `j`. -/
  evp : ℕ → Evp
  stamp_size : ∀ n bs, stamp n = some bs → bs.length = cf.bitmask_size

def RawBuffer.put (idx : ℕ) (x : Stored) (b : RawBuffer) : RawBuffer :=
  { b with msg := Function.update b.msg idx (some x) }

/-- The message in slot `idx` is to be sent again to everybody. -/
def RawBuffer.mark (rcf : RelFlood.Conf) (idx : ℕ) (b : RawBuffer) : RawBuffer :=
  { b with
    status := fun i k => if i = idx ∧ rcf.nbr k then .restamped_unsent else b.status i k }

section Flow

variable (cf : Conf) (rcf : RelFlood.Conf) (env : RawEnv cf)

/-- The loop over the stored messages, with `restamp_flow_flag` and `error`; `none` is
`Alarm(EXIT, …)`. -/
def restamp_raw_loop : ℕ → ℕ → RawBuffer → Bool → Option (RawBuffer × Bool × Bool)
  | 0, _, b, flag => some (b, flag, false)
  | cnt + 1, j, b, flag =>
    let idx := slot j
    match env.stamp (b.num_paths idx), b.msg idx with
    | some stamp, some x =>
      match restamp_stored cf (env.evp j) stamp x with
      | none => restamp_raw_loop cnt (j + 1) b flag
      | some .exit => none
      | some (.failed x') => some (b.put idx x', true, true)
      | some (.signed x') => restamp_raw_loop cnt (j + 1) ((b.put idx x').mark rcf idx) true
    | _, _ => some (b, flag, true)

/-- `resend_start` for neighbour `k`. -/
def RawBuffer.resend_start (b : RawBuffer) (k : ℕ) : ℕ :=
  skip_loop b.status b.head_seq k (b.head_seq - b.sow) b.sow

/-- A round of `Reliable_Flood_Restamp`, without the queues. -/
def restamp_raw (b : RawBuffer) : Option RawBuffer :=
  match restamp_raw_loop cf rcf env (b.head_seq - b.sow) b.sow b false with
  | none => none
  | some (b, flag, error) =>
    if error then some b
    else if flag then
      if ∃ k ∈ range' 1 rcf.degree, b.next_seq k < b.resend_start k then none
      else some { b with next_seq := rcf.each b.resend_start b.next_seq }
    else some b

/-- What the loop makes of message `p`, if it gets there. -/
def attempt_at (b : RawBuffer) (p : ℕ) : Option Attempt :=
  match env.stamp (b.num_paths (slot p)), b.msg (slot p) with
  | some stamp, some x => restamp_stored cf (env.evp p) stamp x
  | _, _ => none

/-- The loop comes to message `e` and signing it fails. -/
structure SignFails (b : RawBuffer) (e : ℕ) : Prop where
  lo : b.sow ≤ e
  hi : e < b.head_seq
  before : ∀ p, b.sow ≤ p → p < e → (env.stamp (b.num_paths (slot p))).isSome = true ∧
    (b.msg (slot p)).isSome = true ∧
    (attempt_at cf env b p = none ∨ ∃ x, attempt_at cf env b p = some (.signed x))
  fails : ∃ x, attempt_at cf env b e = some (.failed x)

/-- What the round should leave behind when signing message `e` fails. -/
structure Survives (b b' : RawBuffer) (e : ℕ) : Prop where
  message : ∀ x, b.msg (slot e) = some x → ∃ x', b'.msg (slot e) = some x' ∧ Intact cf x x'
  scheduled : ∀ q, b.sow ≤ q → q < e → attempt_at cf env b q ≠ none → ∀ k, rcf.nbr k →
    b'.next_seq k ≤ q

end Flow

section Rounds

variable {cf : Conf} {rcf : RelFlood.Conf} {env : RawEnv cf}

/-- The loop up to the message that fails, by induction on how far it is. -/
theorem restamp_raw_loop_failed : ∀ (n j cnt : ℕ) (b : RawBuffer) (flag : Bool) (e : ℕ),
    e = j + n → n < cnt → cnt ≤ MAX_MESS_PER_FLOW →
    (∀ p, j ≤ p → p < e → (env.stamp (b.num_paths (slot p))).isSome = true ∧
      (b.msg (slot p)).isSome = true ∧
      (attempt_at cf env b p = none ∨ ∃ x, attempt_at cf env b p = some (.signed x))) →
    ∀ x, attempt_at cf env b e = some (.failed x) →
      ∃ b', restamp_raw_loop cf rcf env cnt j b flag = some (b', true, true) ∧
        b'.msg (slot e) = some x ∧ b'.next_seq = b.next_seq := by
  intro n
  induction n with
  | zero =>
    intro j cnt b flag e he hlt _ _ x hfail
    obtain ⟨cnt, rfl⟩ : ∃ n, cnt = n + 1 := ⟨cnt - 1, by omega⟩
    obtain rfl : e = j := by omega
    unfold attempt_at at hfail
    rw [restamp_raw_loop]
    split at hfail
    · rw [hfail]
      exact ⟨_, rfl, update_self _ _ _, rfl⟩
    · exact absurd hfail (by simp)
  | succ n ih =>
    intro j cnt b flag e he hlt hcnt hbefore x hfail
    obtain ⟨cnt, rfl⟩ : ∃ n, cnt = n + 1 := ⟨cnt - 1, by omega⟩
    obtain ⟨hstamp, hstored, hattempt⟩ := hbefore j (le_refl _) (by omega)
    obtain ⟨stamp, hstamp⟩ := isSome_iff_exists.mp hstamp
    obtain ⟨y, hy⟩ := isSome_iff_exists.mp hstored
    have hat : attempt_at cf env b j = restamp_stored cf (env.evp j) stamp y := by
      unfold attempt_at
      rw [hstamp, hy]
    rw [restamp_raw_loop, hstamp, hy]
    dsimp only
    rcases hattempt with hsame | ⟨y', hsigned⟩
    · rw [hat] at hsame
      rw [hsame]
      exact ih (j + 1) cnt b flag e (by omega) (by omega) (by omega)
        (fun p h1 h2 => hbefore p (by omega) h2) x hfail
    · rw [hat] at hsigned
      rw [hsigned]
      -- the messages after `j` are in other slots
      have hother : ∀ p, j < p → p ≤ e →
          attempt_at cf env ((b.put (slot j) y').mark rcf (slot j)) p = attempt_at cf env b p ∧
            ((b.put (slot j) y').mark rcf (slot j)).msg (slot p) = b.msg (slot p) := by
        intro p h1 h2
        have hne : slot p ≠ slot j := @slot_ne_of_window j _ _ (by omega) (by omega)
          (le_refl _) (by unfold MAX_MESS_PER_FLOW; omega) (by omega)
        have hmsg : ((b.put (slot j) y').mark rcf (slot j)).msg (slot p) = b.msg (slot p) :=
          update_of_ne hne _ _
        refine ⟨?_, hmsg⟩
        unfold attempt_at
        rw [hmsg]
        rfl
      obtain ⟨b', hloop, hmsg, hnext⟩ := ih (j + 1) cnt ((b.put (slot j) y').mark rcf (slot j))
        true e (by omega) (by omega) (by omega) (fun p h1 h2 => by
          obtain ⟨h3, h4, h5⟩ := hbefore p (by omega) h2
          obtain ⟨hsame, hslot⟩ := hother p (by omega) (by omega)
          rw [hsame, hslot]
          exact ⟨h3, h4, h5⟩) x (by rw [(hother e (by omega) (le_refl _)).1]; exact hfail)
      exact ⟨b', hloop, hmsg, hnext⟩

/-- **Wherever signing fails, the message is spoiled**, and no `next_seq` falls back. -/
theorem failed_signature_spoils (cf : Conf) (rcf : RelFlood.Conf) (env : RawEnv cf) (b : RawBuffer)
    {e : ℕ} (h : SignFails cf env b e) :
    ∃ b', restamp_raw cf rcf env b = some b' ∧ b'.next_seq = b.next_seq ∧
      ¬ Survives cf rcf env b b' e := by
  obtain ⟨x', hfail⟩ := h.fails
  have hlo := h.lo
  have hhi := h.hi
  have hnarrow := b.narrow
  obtain ⟨b', hloop, hmsg, hnext⟩ := @restamp_raw_loop_failed cf rcf env (e - b.sow) b.sow
    (b.head_seq - b.sow) b false e (by omega) (by omega) (by omega) h.before x' hfail
  refine ⟨b', ?_, hnext, fun hsurvives => ?_⟩
  · unfold restamp_raw
    rw [hloop]
    rfl
  · unfold attempt_at at hfail
    split at hfail
    · rename_i stamp x hstamp hx
      obtain ⟨y, hy, hintact⟩ := hsurvives.message x hx
      rw [hmsg, some_inj] at hy
      subst hy
      exact not_intact_of_failed (env.stamp_size _ _ hstamp) hfail hintact
    · exact absurd hfail (by simp)

end Rounds

/-! ## 3. The buffer of reliable flooding -/

/-- The buffer of `RelFlood`: of each message it has the mask, as a number. -/
structure Shows (cf : Conf) (b : RawBuffer) (fb : FlowBuffer) : Prop where
  status : fb.status = b.status
  num_paths : fb.num_paths = b.num_paths
  window : fb.sow = b.sow ∧ fb.head_seq = b.head_seq ∧ fb.next_seq = b.next_seq
  masks : ∀ i, (fb.msg i).map Msg.mask = (b.msg i).map (fun x => le_value (x.mask cf))

def Evp.Works (cf : Conf) (evp : Evp) (x : Stored) : Prop :=
  evp.init = true ∧ (∀ k ∈ x.signed_elements, evp.update k = true) ∧ evp.final = true ∧
    evp.signature.length = cf.rel_signature_len

section Shows

variable {cf : Conf} {rcf : RelFlood.Conf} {evp : Evp} {x : Stored}

theorem restamp_sign_cases (hctx : evp.ctx = true) :
    ∃ x', x'.mask cf = x.mask cf ∧
      (evp.Works cf x ∧ restamp_sign cf evp x = .signed x' ∨
        ¬ evp.Works cf x ∧ restamp_sign cf evp x = .failed x') := by
  have helements : ∀ len, ((x.hidden cf).set_len len).signed_elements = x.signed_elements :=
    fun len => congrArg (fun l : List Elem => range' 1 (l.length + 2)) (hidden_data cf x).2
  unfold restamp_sign
  dsimp only
  rw [if_neg (by rw [hctx]; simp)]
  by_cases hinit : evp.init = false
  · rw [if_pos hinit]
    refine ⟨x.hidden cf, hidden_mask cf x, .inr ⟨fun hworks => ?_, rfl⟩⟩
    rw [hworks.1] at hinit
    exact absurd hinit (by simp)
  rw [if_neg hinit, helements]
  by_cases hupdate : ∃ k ∈ x.signed_elements, evp.update k = false
  · rw [if_pos hupdate]
    refine ⟨_, ?mask, .inr ⟨fun hworks => ?_, rfl⟩⟩
    case mask => exact hidden_mask cf x
    obtain ⟨k, hk, hfalse⟩ := hupdate
    rw [hworks.2.1 k hk] at hfalse
    exact absurd hfalse (by simp)
  rw [if_neg hupdate]
  by_cases hfinal : evp.final = false ∨ evp.signature.length ≠ cf.rel_signature_len
  · rw [if_pos hfinal]
    refine ⟨_, ?mask, .inr ⟨fun hworks => ?_, rfl⟩⟩
    case mask => exact (@mask_signature cf (x.hidden cf) evp.signature).trans (hidden_mask cf x)
    rcases hfinal with hfalse | hlen
    · rw [hworks.2.2.1] at hfalse
      exact absurd hfalse (by simp)
    · exact hlen hworks.2.2.2
  rw [if_neg hfinal]
  push Not at hupdate hfinal
  refine ⟨_, ?_, .inl ⟨⟨Bool.eq_true_of_not_eq_false hinit, fun k hk =>
    Bool.eq_true_of_not_eq_false (hupdate k hk), Bool.eq_true_of_not_eq_false hfinal.1,
    hfinal.2⟩, rfl⟩⟩
  have hmask := (@mask_signature cf (x.hidden cf) evp.signature).trans (hidden_mask cf x)
  split <;> exact hmask

theorem restamp_stored_cases {stamp : Bytes} (hctx : evp.ctx = true)
    (hsize : stamp.length = cf.bitmask_size) :
    (restamp_stored cf evp stamp x = none ∧ x.mask cf = superset stamp (x.mask cf)) ∨
      x.mask cf ≠ superset stamp (x.mask cf) ∧
        ∃ x', x'.mask cf = superset stamp (x.mask cf) ∧
          ((cf.rel_crypto = true → evp.Works cf x) ∧
              restamp_stored cf evp stamp x = some (.signed x') ∨
            (cf.rel_crypto = true ∧ ¬ evp.Works cf x) ∧
              restamp_stored cf evp stamp x = some (.failed x')) := by
  unfold restamp_stored
  dsimp only
  by_cases hsame : x.mask cf = superset stamp (x.mask cf)
  · rw [if_pos hsame]
    exact .inl ⟨rfl, hsame⟩
  rw [if_neg hsame]
  refine .inr ⟨hsame, ?_⟩
  have hmask := mask_write (x := x) (superset_length (x := x) hsize)
  by_cases hcrypto : cf.rel_crypto = true
  · rw [if_pos hcrypto]
    obtain ⟨x', hx', ⟨hworks, heq⟩ | ⟨hno, heq⟩⟩ :=
      @restamp_sign_cases cf evp (x.write_data SIZEOF_REL_HEADER (superset stamp (x.mask cf))) hctx
    · exact ⟨x', hx'.trans hmask, .inl ⟨fun _ => hworks, by rw [heq]⟩⟩
    · exact ⟨x', hx'.trans hmask, .inr ⟨⟨hcrypto, hno⟩, by rw [heq]⟩⟩
  · rw [if_neg hcrypto]
    exact ⟨_, hmask, .inl ⟨fun h => absurd h hcrypto, rfl⟩⟩

theorem Shows.put {b : RawBuffer} {fb : FlowBuffer} (h : Shows cf b fb) {idx mask : ℕ} {x' : Stored}
    {m : Msg} (hmask : mask = le_value (x'.mask cf)) : Shows cf (b.put idx x')
      { fb with msg := update fb.msg idx (some { m with mask := mask }) } := by
  refine ⟨h.status, h.num_paths, h.window, fun i => ?_⟩
  simp only [RawBuffer.put]
  by_cases hi : i = idx
  · rw [hi, update_self, update_self, map_some, map_some, hmask]
  · rw [update_of_ne hi, update_of_ne hi]
    exact h.masks i

theorem Shows.mark {b : RawBuffer} {fb : FlowBuffer} (h : Shows cf b fb) (idx : ℕ) :
    Shows cf (b.mark rcf idx) { fb with
      status := fun i k => if i = idx ∧ rcf.nbr k then .restamped_unsent else fb.status i k } := by
  refine ⟨?_, h.num_paths, h.window, h.masks⟩
  simp only [RawBuffer.mark, h.status]

/-- **The loop over the messages is the one of `RelFlood`**, by induction on the number
of messages. -/
theorem restamp_raw_loop_shows (env : RawEnv cf) (senv : StampEnv)
    (hcrypto : rcf.crypto = cf.rel_crypto) (hstamp : ∀ n, senv.stamp n = (env.stamp n).map le_value)
    (hctx : ∀ j, (env.evp j).ctx = true) : ∀ (cnt j : ℕ) (b : RawBuffer) (fb : FlowBuffer)
      (flag : Bool), cnt ≤ MAX_MESS_PER_FLOW → Shows cf b fb →
      (∀ p, j ≤ p → p < j + cnt → ∀ x, b.msg (slot p) = some x →
        (senv.sign_ok p = true ↔ (env.evp p).Works cf x)) →
      ∃ b', restamp_raw_loop cf rcf env cnt j b flag =
          some (b', (restamp_loop rcf senv cnt j fb flag).2) ∧
        Shows cf b' (restamp_loop rcf senv cnt j fb flag).1 := by
  intro cnt
  induction cnt with
  | zero => intro j b fb flag _ h _; exact ⟨b, rfl, h⟩
  | succ cnt ih =>
    intro j b fb flag hcnt h hsign
    have hmasks := h.masks (slot j)
    have hpaths : fb.num_paths (slot j) = b.num_paths (slot j) := congrFun h.num_paths _
    rw [restamp_raw_loop, RelFlood.restamp_loop, hpaths, hstamp]
    cases hst : env.stamp (b.num_paths (slot j)) with
    | none => exact ⟨b, rfl, h⟩
    | some stamp =>
      cases hx : b.msg (slot j) with
      | none =>
        rw [hx, map_none, map_eq_none_iff] at hmasks
        rw [hmasks]
        exact ⟨b, rfl, h⟩
      | some x =>
        rw [hx] at hmasks
        obtain ⟨m, hm, hmask⟩ := map_eq_some_iff.mp hmasks
        rw [hm, map_some]
        dsimp only
        have hsize := env.stamp_size _ _ hst
        have hlen := superset_length (x := x) hsize
        have hsuper : multipath_create_superset (le_value stamp) m.mask =
            le_value (superset stamp (x.mask cf)) := by
          rw [hmask]
          exact (le_value_or _ _ (hsize.trans Mem.bytes_length.symm)).symm
        have hworks := hsign j (le_refl _) (by omega) x hx
        -- what is said about the later messages stays true, they are in other slots
        have hlater : ∀ x', ∀ p, j + 1 ≤ p → p < j + 1 + cnt → ∀ y,
            ((b.put (slot j) x').mark rcf (slot j)).msg (slot p) = some y →
              (senv.sign_ok p = true ↔ (env.evp p).Works cf y) := by
          intro x' p h1 h2 y hy
          have hne : slot p ≠ slot j := @slot_ne_of_window j _ _ (by omega) (by omega)
            (le_refl _) (by unfold MAX_MESS_PER_FLOW; omega) (by omega)
          refine hsign p (by omega) (by omega) y ?_
          rw [← hy]
          exact (update_of_ne hne _ _).symm
        have hdiffers : x.mask cf ≠ superset stamp (x.mask cf) →
            multipath_is_equal (le_value (x.mask cf))
              (le_value (superset stamp (x.mask cf))) = false := by
          intro hne
          refine decide_eq_false fun heq => hne ?_
          -- two masks of one size with one number
          calc x.mask cf
              = le_bytes cf.bitmask_size (le_value (x.mask cf)) :=
                (le_bytes_value Mem.bytes_length).symm
            _ = le_bytes cf.bitmask_size (le_value (superset stamp (x.mask cf))) := by rw [heq]
            _ = superset stamp (x.mask cf) := le_bytes_value hlen
        rw [hsuper, hmask]
        rcases @restamp_stored_cases cf (env.evp j) x stamp (hctx j) hsize with
          ⟨hnone, hsame⟩ | ⟨hnew, x', hx', ⟨hsigned, heq⟩ | ⟨⟨hcr, hno⟩, heq⟩⟩
        · rw [hnone, ← hsame]
          simp only [multipath_is_equal, decide_true, if_true]
          exact ih (j + 1) b fb flag (by omega) h
            (fun p h1 h2 => hsign p (by omega) (by omega))
        · have hsign_ok : ¬ (rcf.crypto = true ∧ ¬ senv.sign_ok j = true) := fun h =>
            h.2 (hworks.mpr (hsigned (hcrypto ▸ h.1)))
          rw [heq, if_neg (by rw [hdiffers hnew]; simp), if_neg hsign_ok]
          exact ih (j + 1) _ _ true (by omega)
            ((h.put (congrArg le_value hx'.symm)).mark (slot j)) (hlater x')
        · have hsign_ok : rcf.crypto = true ∧ ¬ senv.sign_ok j = true :=
            ⟨hcrypto.trans hcr, fun h => hno (hworks.mp h)⟩
          rw [heq, if_neg (by rw [hdiffers hnew]; simp), if_pos hsign_ok]
          exact ⟨_, rfl, h.put (congrArg le_value hx'.symm)⟩

end Shows

def stored_one : Stored where
  type := 0
  client := ⟨fun i => if i = TTL then 9 else 7, SIZEOF_UDP_HEADER + 30⟩
  more := []
  data := ⟨fun _ => 0, SIZEOF_REL_HEADER + 8 + 98⟩
  tail := ⟨fun _ => 0, SIZEOF_REL_TAIL⟩

def stored_conf : Conf := { plain_conf with bitmask_size := 8, sizes_lt := by decide }

/-- The buffer of a flow with the messages `1` and `2`, both sent to neighbour `1`. -/
def stored_two : RawBuffer where
  msg := fun i => if i = 1 ∨ i = 2 then some stored_one else none
  status := fun i _ => if i = 1 ∨ i = 2 then .new_sent else .empty
  num_paths := fun _ => 1
  sow := 1
  next_seq := fun _ => 3
  head_seq := 3
  narrow := by decide

/-- The new mask has one link; `EVP_SignInit` fails for message `2`. -/
def init_fails : RawEnv stored_conf where
  stamp := fun _ => some [1, 0, 0, 0, 0, 0, 0, 0]
  evp := fun j => ⟨true, decide (j ≠ 2), fun _ => true, true, replicate 98 5⟩
  stamp_size := by
    intro n bs h
    rw [← Option.some.inj h]
    rfl

theorem init_fails_at_two : SignFails stored_conf init_fails stored_two 2 := by
  refine ⟨by decide, by decide, fun p h1 h2 => ?_, ⟨_, rfl⟩⟩
  obtain rfl : p = 1 := by
    change 1 ≤ p at h1
    omega
  exact ⟨rfl, rfl, .inr ⟨_, rfl⟩⟩

theorem restamp_raw_loop_shows_two : ∃ b' fb flag, restamp_raw_loop stored_conf source_conf
    init_fails 2 1 stored_two false = some (b', flag) ∧ Shows stored_conf b' fb := by
  let senv : StampEnv := ⟨fun _ => some (le_value [1, 0, 0, 0, 0, 0, 0, 0]), fun p => decide (p ≠ 2)⟩
  let fb : FlowBuffer := { FlowBuffer.init with
    msg := fun i => (stored_two.msg i).map fun x => ⟨1, 3, 0, i, le_value (x.mask stored_conf), []⟩
    status := stored_two.status
    num_paths := stored_two.num_paths
    next_seq := stored_two.next_seq
    head_seq := 3 }
  have hshows : Shows stored_conf stored_two fb :=
    ⟨rfl, rfl, ⟨rfl, rfl, rfl⟩, fun i => by simp [fb, Function.comp_def]⟩
  obtain ⟨b', hrun, hb'⟩ := @restamp_raw_loop_shows _ source_conf init_fails senv rfl
    (fun _ => rfl) (fun _ => rfl) 2 1 stored_two fb false (by decide) hshows fun p h1 h2 x hx => by
      obtain rfl | rfl : p = 1 ∨ p = 2 := by omega
      · exact iff_of_true rfl ⟨rfl, fun _ _ => rfl, rfl, rfl⟩
      · exact iff_of_false (by decide) fun h => absurd h.1 (by decide)
  exact ⟨b', _, _, hrun, hb'⟩

theorem failed_signature_spoils_two :
    ∃ b', restamp_raw stored_conf source_conf init_fails stored_two = some b' ∧
      ¬ Survives stored_conf source_conf init_fails stored_two b' 2 := by
  obtain ⟨b', hb', -, hnot⟩ :=
    failed_signature_spoils stored_conf source_conf init_fails stored_two init_fails_at_two
  exact ⟨b', hb', hnot⟩

/-- **`EVP_SignInit` fails for the second of two messages.** Its mask, its `ttl` and its
path are other than before, and message `1` is not sent again: `next_seq` stays `3`. -/
theorem init_failure_loses_both :
    SignFails stored_conf init_fails stored_two 2 ∧
      ∃ b', restamp_raw stored_conf source_conf init_fails stored_two = some b' ∧
        ¬ Survives stored_conf source_conf init_fails stored_two b' 2 := by
  refine ⟨init_fails_at_two, _, rfl, fun h => ?_⟩
  have hone : attempt_at stored_conf init_fails stored_two 1 ≠ none := by
    intro h
    exact absurd (congrArg Option.isSome h) (by decide)
  have hnext := h.scheduled 1 (by decide) (by decide) hone 1 (by decide)
  exact absurd hnext (by decide)

end Spines.Signing
