/-
The two ends of an intrusion-tolerant link agree on their key.

What holds an end's key in place is that both values it is made of are signed: the
public value comes from a text that the neighbor signed, together with the incarnation
it belongs to (`read_dh_signed`), and no ping changes the incarnation afterwards, since
a ping that unlocks was sealed by the incarnation the key comes from
(`unlocked_ping_incarnation`).

The process ends in `Process_DH_IT` in two ways. `DH_compute_key` may refuse the public
value, which a neighbor can sign whatever it is (`refused_value_exits`), and the timer
`Send_IT_DH` may be gone.
-/
import Spines.IntruTol.KeyExchange

set_option autoImplicit false

namespace Spines.IntruTol.KeyExchange

open Spines.Lib Function Option List

/-! ## 1. Reading what was written -/

section Reading

variable {cf : Conf}

@[simp] theorem Conf.word_length (w v : ℕ) : (cf.word w v).length = w := by
  rw [Conf.word, Endian.order_length, le_bytes_length]

theorem Conf.value_word {w v : ℕ} (h : v < 256 ^ w) : cf.value (cf.word w v) = v := by
  rw [Conf.value, Conf.word, Endian.order_order, le_value_bytes h]

theorem lt_BN_num_bytes (n : ℕ) : n < 256 ^ BN_num_bytes n := by
  by_cases hn : n = 0
  · rw [hn]
    exact Nat.pow_pos (by omega)
  · have hlog : n < 2 ^ (n.log2 + 1) := Nat.lt_log2_self
    have hpow : (256 : ℕ) ^ BN_num_bytes n = 2 ^ (8 * BN_num_bytes n) := by
      rw [Nat.pow_mul]
    have hle : n.log2 + 1 ≤ 8 * BN_num_bytes n := by
      rw [BN_num_bytes, if_neg hn]
      omega
    rw [hpow]
    exact lt_of_lt_of_le hlog (Nat.pow_le_pow_right (by omega) hle)

@[simp] theorem BN_bn2bin_length (n : ℕ) : (BN_bn2bin n).length = BN_num_bytes n := by
  rw [BN_bn2bin, length_reverse, le_bytes_length]

@[simp] theorem BN_bin2bn_bn2bin (n : ℕ) : BN_bin2bn (BN_bn2bin n) = n := by
  rw [BN_bin2bn, BN_bn2bin, reverse_reverse, le_value_bytes (lt_BN_num_bytes n)]

theorem read_eq_some {n : ℕ} {b : Bytes} {r : Bytes × Bytes} (h : read n b = some r) :
    b = r.1 ++ r.2 ∧ r.1.length = n := by
  rw [read] at h
  split at h
  · rename_i hn
    cases h
    refine ⟨(take_append_drop n b).symm, ?_⟩
    rw [length_take, Nat.min_eq_left hn]
  · cases h

variable {Secret Key : Type} {x : Bool} {e : End Secret Key} {pkt : DhPacket} {f : DhFields}

theorem read_dh_pieces (h : read_dh cf x e pkt = some f) :
    ∃ src dst ngbr_inc my_inc bn_size bn : Bytes,
      src.length = 4 ∧ dst.length = 4 ∧ ngbr_inc.length = 4 ∧ my_inc.length = 4 ∧
      bn_size.length = 2 ∧ bn.length = cf.value bn_size ∧
      f.signed = src ++ (dst ++ (ngbr_inc ++ (my_inc ++ (bn_size ++ (bn ++ cf.Conf_Hash))))) ∧
      f.ngbr_inc = cf.value ngbr_inc ∧ f.bn = BN_bin2bn bn ∧
      e.ngbr_incarnation < cf.value ngbr_inc := by
  unfold read_dh at h
  dsimp only at h
  split at h
  · cases h
  simp only [bind_eq_bind, bind_eq_some_iff, guard_eq_some', Option.pure_def,
    Option.some.injEq, exists_const] at h
  obtain ⟨src, hsrc, -, dst, hdst, -, ngbr_inc, hngbr, hlt, my_inc, hmy, -, bn_size, hsize,
    bn, hbn, hash, hhash, heq, -, rfl⟩ := h
  obtain ⟨hb, h1⟩ := read_eq_some hsrc
  obtain ⟨hb1, h2⟩ := read_eq_some hdst
  obtain ⟨hb2, h3⟩ := read_eq_some hngbr
  obtain ⟨hb3, h4⟩ := read_eq_some hmy
  obtain ⟨hb4, h5⟩ := read_eq_some hsize
  obtain ⟨hb5, h6⟩ := read_eq_some hbn
  obtain ⟨hb6, -⟩ := read_eq_some hhash
  refine ⟨src.1, dst.1, ngbr_inc.1, my_inc.1, bn_size.1, bn.1, h1, h2, h3, h4, h5, h6, ?_, rfl, rfl,
    hlt⟩
  -- what is signed is everything but the last piece
  have hall : pkt.body.take pkt.hdr.data_len =
      (src.1 ++ (dst.1 ++ (ngbr_inc.1 ++ (my_inc.1 ++ (bn_size.1 ++ (bn.1 ++ cf.Conf_Hash)))))) ++
        hash.2 := by
    rw [hb, hb1, hb2, hb3, hb4, hb5, hb6, heq]
    simp only [append_assoc]
  rw [hall, length_append, Nat.add_sub_cancel, take_left]

theorem read_dh_signed {i j pub : ℕ} (h : read_dh cf x e pkt = some f)
    (hs : f.signed = dh_body cf (!x) i j pub) (hi : i < 2 ^ 32) (hpub : BN_num_bytes pub < 2 ^ 16) :
    f.ngbr_inc = i ∧ f.bn = pub ∧ e.ngbr_incarnation < i := by
  obtain ⟨src, dst, ngbr_inc, my_inc, bn_size, bn, h1, h2, h3, h4, h5, h6, hsigned, hinc, hbn, hlt⟩ :=
    read_dh_pieces h
  rw [hsigned, dh_body] at hs
  obtain ⟨-, hs⟩ := append_inj hs (by rw [h1, Conf.word_length])
  obtain ⟨-, hs⟩ := append_inj hs (by rw [h2, Conf.word_length])
  obtain ⟨hngbr, hs⟩ := append_inj hs (by rw [h3, Conf.word_length])
  obtain ⟨-, hs⟩ := append_inj hs (by rw [h4, Conf.word_length])
  obtain ⟨hsize, hs⟩ := append_inj hs (by rw [h5, Conf.word_length])
  have hsize' : cf.value bn_size = BN_num_bytes pub := by
    rw [hsize, Conf.value_word (by omega)]
  obtain ⟨hbytes, -⟩ := append_inj hs (by rw [h6, hsize', BN_bn2bin_length])
  have hval : cf.value ngbr_inc = i := by
    rw [hngbr, Conf.value_word (by omega)]
  refine ⟨by rw [hinc, hval], by rw [hbn, hbytes, BN_bin2bn_bn2bin], ?_⟩
  rw [← hval]
  exact hlt

end Reading

section Exchange

variable {Secret Key : Type} {cf : Conf} {c : Crypto Secret Key} {x : Bool} {env : Env}
  {e e' : End Secret Key}

/-! ## 2. What the handlers do -/

/-- What a text of end `x` says: an incarnation and the public value of the secret that
the end had in it. -/
def Says (cf : Conf) (c : Crypto Secret Key) (x : Bool) (t : Text) (l : ℕ × Secret) : Prop :=
  ∃ j, t.2 = dh_body cf x l.1 j (c.pub_key l.2) ∧ BN_num_bytes (c.pub_key l.2) < 2 ^ 16

structure Alike (e e' : End Secret Key) : Prop where
  my_incarnation : e'.my_incarnation = e.my_incarnation
  ngbr_incarnation : e'.ngbr_incarnation = e.ngbr_incarnation
  dh_local : e'.dh_local = e.dh_local
  dh_key : e'.dh_key = e.dh_key
  lives : e'.lives = e.lives

def Honest (e : End Secret Key) : Content → Prop
  | .ping p => p.incarnation = e.my_incarnation
  | .dh _ => False
  | .other => True

structure Quiet (e e' : End Secret Key) : Prop extends Alike e e' where
  dh_key_computed : e'.dh_key_computed = e.dh_key_computed
  signed : e'.signed = e.signed
  exited : e'.exited = e.exited
  sealed : ∀ m ∈ e'.sealed, m ∈ e.sealed ∨
    e.dh_key_computed = 2 ∧ e.dh_key = some m.1 ∧ Honest e m.2

theorem Alike.refl (e : End Secret Key) : Alike e e := ⟨rfl, rfl, rfl, rfl, rfl⟩

theorem Quiet.refl (e : End Secret Key) : Quiet e e :=
  ⟨Alike.refl e, rfl, rfl, rfl, fun _ hm => .inl hm⟩

theorem Quiet.beside (e : End Secret Key) (established : Bool) (pkt : Option DhPacket)
    (queued : Bool) (seq : ℕ) (history : ℕ → ItPingCell) (freq : ℕ) : Quiet e
      { e with
        dh_established := established
        dh_pkt := pkt
        send_queued := queued
        next_ping_seq := seq
        ping_history := history
        pong_freq := freq } :=
  ⟨⟨rfl, rfl, rfl, rfl, rfl⟩, rfl, rfl, rfl, fun _ hm => .inl hm⟩

theorem Honest.of_alike (h : Alike e e') {m : Content} (hm : Honest e' m) : Honest e m := by
  cases m with
  | ping p => exact Eq.trans hm h.my_incarnation
  | dh pkt => exact hm
  | other => exact hm

theorem Quiet.trans {e'' : End Secret Key} (h : Quiet e e') (h' : Quiet e' e'') : Quiet e e'' := by
  refine ⟨⟨h'.my_incarnation.trans h.my_incarnation, h'.ngbr_incarnation.trans h.ngbr_incarnation,
    h'.dh_local.trans h.dh_local, h'.dh_key.trans h.dh_key, h'.lives.trans h.lives⟩,
    h'.dh_key_computed.trans h.dh_key_computed, h'.signed.trans h.signed,
    h'.exited.trans h.exited, ?_⟩
  intro m hm
  rcases h'.sealed m hm with hm | ⟨hcomp, hkey, hhon⟩
  · exact h.sealed m hm
  · right
    exact ⟨h.dh_key_computed ▸ hcomp, h.dh_key ▸ hkey, hhon.of_alike h.toAlike⟩

theorem IT_Link_Send_quiet {m : Content} (hm : Honest e m) : Quiet e (IT_Link_Send m e) := by
  unfold IT_Link_Send
  split
  · exact Quiet.refl e
  rename_i hcomp
  rw [not_not] at hcomp
  split
  · exact Quiet.refl e
  rename_i k hkey
  refine ⟨⟨rfl, rfl, rfl, rfl, rfl⟩, rfl, rfl, rfl, ?_⟩
  intro m' hm'
  rcases mem_append.mp hm' with hm' | hm'
  · exact .inl hm'
  · rw [mem_singleton.mp hm']
    exact .inr ⟨hcomp, hkey, hm⟩

variable {p : ItPing} {pkt : DhPacket}

theorem Send_IT_Ping_quiet (hp : p.incarnation = e.my_incarnation) :
    Quiet e (Send_IT_Ping env p e) := by
  unfold Send_IT_Ping
  split
  · exact Quiet.refl e
  · split
    · exact Quiet.refl e
    · exact IT_Link_Send_quiet hp

theorem Ping_IT_Timeout_quiet : Quiet e (Ping_IT_Timeout env e) := by
  unfold Ping_IT_Timeout
  split
  · refine (Quiet.beside e e.dh_established e.dh_pkt e.send_queued (e.next_ping_seq + 1)
      (update e.ping_history (e.next_ping_seq % MAX_PING_HIST)
        ⟨e.next_ping_seq, env.nonce, false⟩) e.pong_freq).trans ?_
    apply Send_IT_Ping_quiet
    rfl
  · exact Quiet.refl e

theorem DH_established_quiet : Quiet e (DH_established e) := by
  unfold DH_established
  split
  · exact Quiet.beside e _ _ _ _ _ _
  · exact Quiet.refl e

theorem Send_IT_DH_quiet : Quiet e (Send_IT_DH env e) := by
  unfold Send_IT_DH
  dsimp only
  split
  · exact Quiet.beside e _ _ _ _ _ _
  · split
    · exact Quiet.beside e _ _ _ _ _ _
    · split <;>
        exact Quiet.beside e _ _ _ _ _ _

theorem answer_ping_quiet : Quiet e (answer_ping cf env p e) := by
  unfold answer_ping
  split
  · exact Quiet.refl e
  · cases p.ping_type with
    | PING =>
      refine (Quiet.beside e e.dh_established e.dh_pkt e.send_queued e.next_ping_seq
        e.ping_history (env.now + cf.it_ping_timeout / 2)).trans ?_
      apply Send_IT_Ping_quiet
      rfl
    | PONG =>
      dsimp only
      split
      · exact Quiet.beside e _ _ _ _ _ _
      · exact Quiet.refl e
    | unknown => exact Quiet.refl e

theorem Process_intru_tol_ping_quiet (hp : p.incarnation = e.ngbr_incarnation) :
    Quiet e (Process_intru_tol_ping cf env p e) := by
  unfold Process_intru_tol_ping
  split
  · exact Quiet.refl e
  · rw [if_neg (by omega), if_neg (by omega)]
    exact answer_ping_quiet

structure Exchanging (cf : Conf) (c : Crypto Secret Key) (x : Bool) (e e' : End Secret Key) :
    Prop extends Alike e e' where
  sealed : e'.sealed = e.sealed
  said : ∀ t ∈ e'.signed, t ∈ e.signed ∨ Says cf c x t (e.my_incarnation, e.dh_local)
  kept : ∀ t ∈ e.signed, t ∈ e'.signed
  dh_key_computed : e'.dh_key_computed = 1
  pending : e'.exited = e.exited →
    e'.send_queued = true ∧ e'.dh_pkt.isSome = true ∧ e'.dh_established = false
  exited : e'.exited = e.exited ∨ e'.exited = some .key_too_large ∨
    e'.exited = some .hash_does_not_fit ∨ e'.exited = some .signature_too_large

theorem Key_Exchange_IT_spec (he : e.exited = none) :
    Exchanging cf c x e (Key_Exchange_IT cf c x env e) := by
  unfold Key_Exchange_IT
  dsimp only
  split
  · refine ⟨⟨rfl, rfl, rfl, rfl, rfl⟩, rfl, fun t ht => .inl ht, fun t ht => ht, rfl, ?_, ?_⟩
    · intro h
      rw [he] at h
      cases h
    · exact .inr (.inl rfl)
  rename_i hkey
  split
  · refine ⟨⟨rfl, rfl, rfl, rfl, rfl⟩, rfl, fun t ht => .inl ht, fun t ht => ht, rfl, ?_, ?_⟩
    · intro h
      rw [he] at h
      cases h
    · exact .inr (.inr (.inl rfl))
  split
  · refine ⟨⟨rfl, rfl, rfl, rfl, rfl⟩, rfl, fun t ht => .inl ht, fun t ht => ht, rfl, ?_, ?_⟩
    · intro h
      rw [he] at h
      cases h
    · exact .inr (.inr (.inr rfl))
  refine ⟨⟨rfl, rfl, rfl, rfl, rfl⟩, rfl, ?_, ?_, rfl, ?_, .inl rfl⟩
  · intro t ht
    rcases mem_append.mp ht with ht | ht
    · exact .inl ht
    · rw [mem_singleton.mp ht]
      have hbody : SIZEOF_PACKET_BODY = 1452 := rfl
      exact .inr ⟨e.ngbr_incarnation, rfl, by dsimp only; omega⟩
  · intro t ht
    exact mem_append_left _ ht
  · intro _
    exact ⟨rfl, rfl, rfl⟩

theorem accepted_dh_spec {f : DhFields} (h : accepted_dh cf c x env e pkt = some f) :
    read_dh cf x e pkt = some f ∧ c.verify (!x) (signed_text pkt f) f.sig = true := by
  unfold accepted_dh at h
  split at h
  · cases h
  simp only [bind_eq_bind, bind_eq_some_iff, guard_eq_some', Option.pure_def,
    Option.some.injEq, exists_const] at h
  obtain ⟨f', hread, -, hver, rfl⟩ := h
  exact ⟨hread, hver⟩

@[simp] theorem accepted_dh_established :
    accepted_dh cf c x env (DH_established e) pkt = accepted_dh cf c x env e pkt := by
  unfold DH_established
  split
  · rfl
  · rfl

/-- A packet the handler accepts is one whose value `DH_compute_key` takes, on a link
that is up. -/
def Computes (cf : Conf) (c : Crypto Secret Key) (x : Bool) (env : Env) (e : End Secret Key)
    (pkt : DhPacket) : Prop :=
  ∀ f, accepted_dh cf c x env e pkt = some f →
    env.link_up = true ∧ (c.DH_compute_key e.dh_local f.bn).isSome = true

def Sound (cf : Conf) (c : Crypto Secret Key) (x : Bool) (e : End Secret Key) :
    Event Secret → Prop
  | .send_dh env => env.network_flag = true
  | .clear env pkt => Computes cf c x env e pkt
  | .unlocked env (.dh pkt) => Computes cf c x env e pkt
  | _ => True

/-! ## 3. The process does not end -/

/-- While the exchange runs, its timer is queued; without a key no incarnation of the
neighbor is stored; neither of the two alarms of `Process_DH_IT` has been raised. -/
structure Waiting (e : End Secret Key) : Prop where
  pending : e.exited = none → e.dh_key_computed = 1 →
    e.send_queued = true ∧ e.dh_pkt.isSome = true ∧ e.dh_established = false
  stage : e.exited = none → e.dh_key_computed = 2 ∨ e.ngbr_incarnation = 0
  not_missing : e.exited ≠ some .send_event_should_be_queued
  not_failed : e.exited ≠ some .compute_key_failed

theorem Waiting.of_exited (hw : Waiting e) (hexit : e'.exited = e.exited)
    (hcomp : e'.dh_key_computed = 2) : Waiting e' := by
  refine ⟨?_, fun _ => .inl hcomp, ?_, ?_⟩
  · intro _ hone
    rw [hcomp] at hone
    cases hone
  · rw [hexit]
    exact hw.not_missing
  · rw [hexit]
    exact hw.not_failed

theorem Exchanging.waiting (h : Exchanging cf c x e e') (he : e.exited = none)
    (hstage : e'.exited = none → e'.ngbr_incarnation = 0) : Waiting e' := by
  refine ⟨fun hexit _ => h.pending (hexit.trans he.symm), fun hexit => .inr (hstage hexit), ?_, ?_⟩
  · intro hmiss
    rcases h.exited with hexit | hexit | hexit | hexit <;> rw [hexit] at hmiss
    · rw [he] at hmiss
      cases hmiss
    all_goals cases hmiss
  · intro hfail
    rcases h.exited with hexit | hexit | hexit | hexit <;> rw [hexit] at hfail
    · rw [he] at hfail
      cases hfail
    all_goals cases hfail

theorem reply_dh_spec (hw : Waiting e) (he : e.exited = none) :
    Exchanging cf c x e (reply_dh cf c x env e) := by
  unfold reply_dh
  split
  · rename_i hone
    have hp := hw.pending he hone
    rw [if_pos hp.1]
    exact ⟨Alike.refl e, rfl, fun t ht => .inl ht, fun t ht => ht, hone, fun _ => hp, .inl rfl⟩
  · change Exchanging cf c x e (Key_Exchange_IT cf c x env e)
    exact Key_Exchange_IT_spec he

theorem Process_DH_IT_cases (hw : Waiting e) (he : e.exited = none) (hs : Computes cf c x env e pkt) :
    Process_DH_IT cf c x env pkt e = e ∨ ∃ f e', accepted_dh cf c x env e pkt = some f ∧
      Exchanging cf c x e e' ∧
      (e'.exited ≠ none ∧ Process_DH_IT cf c x env pkt e = e' ∨
        e'.exited = none ∧ ∃ k, c.DH_compute_key e.dh_local f.bn = some k ∧
          Process_DH_IT cf c x env pkt e =
            { e' with
              dh_key := some k
              dh_key_computed := 2
              incarnation_response := env.now + cf.it_incarnation_timeout
              ngbr_incarnation := f.ngbr_inc }) := by
  unfold Process_DH_IT
  cases hacc : accepted_dh cf c x env e pkt with
  | none => exact .inl rfl
  | some f =>
    obtain ⟨hup, hsome⟩ := hs f hacc
    have hreply : Exchanging cf c x e (reply_dh cf c x env e) := reply_dh_spec hw he
    right
    refine ⟨f, _, rfl, hreply, ?_⟩
    dsimp only
    cases hexit : (reply_dh cf c x env e).exited with
    | some a =>
      left
      rw [if_pos (by rw [isSome_some])]
      exact ⟨by simp, rfl⟩
    | none =>
      right
      obtain ⟨k, hk⟩ := isSome_iff_exists.mp hsome
      rw [if_neg (by simp)]
      refine ⟨rfl, k, hk, ?_⟩
      have hk' : c.DH_compute_key (reply_dh cf c x env e).dh_local f.bn = some k := by
        rw [hreply.dh_local, hk]
      unfold compute_dh
      rw [hk']
      dsimp only [Incarnation_Change]
      rw [if_neg (by rw [hup]; simp), hexit]

theorem Process_DH_IT_waiting (hw : Waiting e) (he : e.exited = none)
    (hs : Computes cf c x env e pkt) : Waiting (Process_DH_IT cf c x env pkt e) := by
  rcases Process_DH_IT_cases hw he hs with h | ⟨f, e', -, hex, ⟨hexit, h⟩ | ⟨hexit, k, -, h⟩⟩
  · rw [h]
    exact hw
  · rw [h]
    exact hex.waiting he fun hnone => absurd hnone hexit
  · rw [h]
    apply hw.of_exited
    · exact hexit.trans he.symm
    · rfl

theorem Process_intru_tol_ping_kept :
    (Process_intru_tol_ping cf env p e).exited = e.exited ∧
      (Process_intru_tol_ping cf env p e).dh_key_computed = e.dh_key_computed ∧
      (Process_intru_tol_ping cf env p e).lives = e.lives := by
  unfold Process_intru_tol_ping
  split
  · exact ⟨rfl, rfl, rfl⟩
  split
  · exact ⟨rfl, rfl, rfl⟩
  split
  · split
    · exact ⟨rfl, rfl, rfl⟩
    · have hq : Quiet (Incarnation_Change cf env p.incarnation e)
          (answer_ping cf env p (Incarnation_Change cf env p.incarnation e)) := answer_ping_quiet
      rw [hq.exited, hq.dh_key_computed, hq.lives]
      unfold Incarnation_Change
      split
      · exact ⟨rfl, rfl, rfl⟩
      · exact ⟨rfl, rfl, rfl⟩
  · have hq : Quiet e (answer_ping cf env p e) := answer_ping_quiet
    exact ⟨hq.exited, hq.dh_key_computed, hq.lives⟩

theorem Send_IT_DH_waiting (hw : Waiting e) (hnet : env.network_flag = true) :
    Waiting (Send_IT_DH env e) := by
  have hq : Quiet e (Send_IT_DH env e) := Send_IT_DH_quiet
  refine ⟨?_, ?_, ?_, ?_⟩
  · intro hexit hone
    rw [hq.exited] at hexit
    rw [hq.dh_key_computed] at hone
    obtain ⟨hqueued, hpkt, hest⟩ := hw.pending hexit hone
    have hnot : ¬ (e.dh_established = true ∨ e.dh_pkt = none) := by
      rintro (h | h)
      · rw [hest] at h
        cases h
      · rw [h] at hpkt
        cases hpkt
    unfold Send_IT_DH
    rw [if_neg (by rw [hnet]; simp), if_neg hnot]
    split
    · exact ⟨rfl, hpkt, hest⟩
    · exact ⟨rfl, hpkt, hest⟩
  · rw [hq.exited, hq.dh_key_computed, hq.ngbr_incarnation]
    exact hw.stage
  · rw [hq.exited]
    exact hw.not_missing
  · rw [hq.exited]
    exact hw.not_failed

theorem Waiting.step {ev : Event Secret} (hw : Waiting e) (hs : Sound cf c x e ev)
    (hstep : EndStep cf c x e ev e') : Waiting e' := by
  obtain ⟨hen, rfl⟩ := hstep
  cases ev with
  | restart env secret =>
    have hex : Exchanging cf c x (fresh_end cf env secret e) (Create_Link cf c x env secret e) :=
      Key_Exchange_IT_spec rfl
    exact hex.waiting rfl fun _ => hex.ngbr_incarnation
  | clear env pkt => exact Process_DH_IT_waiting hw hen hs
  | unlocked env m =>
    unfold handle Process_unlocked
    dsimp only
    split
    · exact hw
    rename_i htwo
    rw [not_not] at htwo
    have hq : Quiet e (DH_established e) := DH_established_quiet
    have hcomp : (DH_established e).dh_key_computed = 2 := hq.dh_key_computed.trans htwo
    have hw' : Waiting (DH_established e) := by
      exact hw.of_exited hq.exited hcomp
    cases m with
    | ping p =>
      have hping := @Process_intru_tol_ping_kept _ _ cf env (DH_established e) p
      exact hw'.of_exited hping.1 (hping.2.1.trans hcomp)
    | dh pkt =>
      apply Process_DH_IT_waiting hw'
      · exact hq.exited.trans hen
      · intro f hacc
        rw [accepted_dh_established] at hacc
        rw [hq.dh_local]
        exact hs f hacc
    | other => exact hw'
  | send_dh env =>
    unfold handle
    dsimp only
    split
    · exact Send_IT_DH_waiting hw hs
    · exact hw
  | ping_timeout env =>
    by_cases htwo : e.dh_key_computed = 2
    · have hq : Quiet e (Ping_IT_Timeout env e) := Ping_IT_Timeout_quiet
      exact hw.of_exited hq.exited (hq.dh_key_computed.trans htwo)
    · unfold handle Ping_IT_Timeout
      dsimp only
      rw [if_neg htwo]
      exact hw
  | send_other =>
    by_cases htwo : e.dh_key_computed = 2
    · have hq : Quiet e (IT_Link_Send .other e) := IT_Link_Send_quiet trivial
      exact hw.of_exited hq.exited (hq.dh_key_computed.trans htwo)
    · unfold handle IT_Link_Send
      dsimp only
      rw [if_pos htwo]
      exact hw

/-- No event takes an earlier life from an end. -/
theorem lives_kept {ev : Event Secret} (hw : Waiting e) (hs : Sound cf c x e ev)
    (hen : enabled e ev) : ∀ l ∈ e.lives, l ∈ (handle cf c x e ev).lives := by
  have hdh : ∀ {e : End Secret Key} {env : Env} {pkt : DhPacket}, Waiting e → e.exited = none →
      Computes cf c x env e pkt → (Process_DH_IT cf c x env pkt e).lives = e.lives := by
    intro e env pkt hw he hs
    rcases Process_DH_IT_cases hw he hs with h | ⟨f, e', -, hex, ⟨-, h⟩ | ⟨-, k, -, h⟩⟩
    · rw [h]
    · rw [h, hex.lives]
    · rw [h]
      exact hex.lives
  intro l hl
  cases ev with
  | restart env secret =>
    have hex : Exchanging cf c x (fresh_end cf env secret e) (Create_Link cf c x env secret e) :=
      Key_Exchange_IT_spec rfl
    change l ∈ (Create_Link cf c x env secret e).lives
    rw [hex.lives]
    exact mem_cons_of_mem _ hl
  | clear env pkt =>
    change l ∈ (Process_DH_IT cf c x env pkt e).lives
    rwa [hdh hw hen hs]
  | unlocked env m =>
    change l ∈ (Process_unlocked cf c x env m e).lives
    unfold Process_unlocked
    split
    · exact hl
    rename_i htwo
    rw [not_not] at htwo
    have hest : Quiet e (DH_established e) := DH_established_quiet
    cases m with
    | ping p =>
      have hkept := (@Process_intru_tol_ping_kept _ _ cf env (DH_established e) p).2.2
      dsimp only
      rwa [hkept, hest.lives]
    | dh pkt =>
      have hw' : Waiting (DH_established e) :=
        hw.of_exited hest.exited (hest.dh_key_computed.trans htwo)
      dsimp only
      rw [hdh hw' (hest.exited.trans hen), hest.lives]
      · exact hl
      · intro f hacc
        rw [accepted_dh_established] at hacc
        rw [hest.dh_local]
        exact hs f hacc
    | other =>
      dsimp only
      rwa [hest.lives]
  | send_dh env =>
    unfold handle
    dsimp only
    split
    · rwa [(Send_IT_DH_quiet : Quiet e (Send_IT_DH env e)).lives]
    · exact hl
  | ping_timeout env => exact (Ping_IT_Timeout_quiet : Quiet e (Ping_IT_Timeout env e)).lives ▸ hl
  | send_other =>
    exact (IT_Link_Send_quiet trivial : Quiet e (IT_Link_Send .other e)).lives ▸ hl

theorem Created.waiting {secret : Secret} (h : Created cf c x secret e) : Waiting e := by
  obtain ⟨env, old, -, -, -, -, rfl⟩ := h
  have hex : Exchanging cf c x (fresh_end cf env secret old) (Create_Link cf c x env secret old) :=
    Key_Exchange_IT_spec rfl
  exact hex.waiting rfl fun _ => hex.ngbr_incarnation

end Exchange

/-! ## 4. One end against the other -/

section Pairs

variable {Secret Key : Type} {cf : Conf} {c : Crypto Secret Key} {x : Bool} {env : Env}
  {e e' o : End Secret Key}

/-- What Diffie-Hellman is for: where both ends compute a key, it is the same. -/
def Commutes (c : Crypto Secret Key) : Prop :=
  ∀ s t k k', c.DH_compute_key s (c.pub_key t) = some k →
    c.DH_compute_key t (c.pub_key s) = some k' → k = k'

/-- Of the secrets that the two ends have drawn, different pairs have different keys. -/
def KeysDiffer (c : Crypto Secret Key) (e o : End Secret Key) : Prop :=
  ∀ l ∈ e.lives, ∀ r ∈ o.lives, ∀ l' ∈ e.lives, ∀ r' ∈ o.lives, ∀ k,
    c.DH_compute_key l.2 (c.pub_key r.2) = some k →
    c.DH_compute_key r'.2 (c.pub_key l'.2) = some k → l.2 = l'.2 ∧ r.2 = r'.2

theorem KeysDiffer.symm (h : KeysDiffer c e o) : KeysDiffer c o e := by
  intro l hl r hr l' hl' r' hr' k hk hk'
  obtain ⟨h1, h2⟩ := h r' hr' l' hl' r hr l hl k hk' hk
  exact ⟨h2.symm, h1.symm⟩

theorem KeysDiffer.before {o' : End Secret Key} (h : KeysDiffer c e' o')
    (he : ∀ l ∈ e.lives, l ∈ e'.lives) (ho : ∀ r ∈ o.lives, r ∈ o'.lives) : KeysDiffer c e o :=
  fun l hl r hr l' hl' r' hr' => h l (he l hl) r (ho r hr) l' (he l' hl') r' (ho r' hr')

/-- The key of end `x` comes from its own secret and the public value that the other end
signed in the incarnation `x` has stored. -/
def Agreed (cf : Conf) (c : Crypto Secret Key) (x : Bool) (e o : End Secret Key) : Prop :=
  ∃ l ∈ o.lives, l.1 = e.ngbr_incarnation ∧ (∃ t ∈ o.signed, Says cf c (!x) t l) ∧
    ∃ k, e.dh_key = some k ∧ c.DH_compute_key e.dh_local (c.pub_key l.2) = some k

/-- What an end said about itself in the incarnation `l`. -/
def About (l : ℕ × Secret) : Content → Prop
  | .ping p => p.incarnation = l.1
  | .dh _ => False
  | .other => True

/-- Something was sealed under a key of both ends, in an incarnation of the end that sealed it. -/
def SealedBy (c : Crypto Secret Key) (e o : End Secret Key) (m : Key × Content) : Prop :=
  ∃ l ∈ e.lives, ∃ r ∈ o.lives, c.DH_compute_key l.2 (c.pub_key r.2) = some m.1 ∧ About l m.2

/-- What holds of end `x`, `e`, against the other end, `o`. -/
structure Half (cf : Conf) (c : Crypto Secret Key) (x : Bool) (e o : End Secret Key) : Prop where
  current : (e.my_incarnation, e.dh_local) ∈ e.lives
  bound : ∀ l ∈ e.lives, 0 < l.1 ∧ l.1 ≤ e.my_incarnation
  word : e.my_incarnation < 2 ^ 32
  by_inc : ∀ l ∈ e.lives, ∀ l' ∈ e.lives, l.1 = l'.1 → l = l'
  by_secret : ∀ l ∈ e.lives, ∀ l' ∈ e.lives, l.2 = l'.2 → l = l'
  said : ∀ t ∈ e.signed, ∃ l ∈ e.lives, Says cf c x t l
  agreed : e.dh_key_computed = 2 → Agreed cf c x e o
  sealed : ∀ m ∈ e.sealed, SealedBy c e o m

theorem Half.grow {o' : End Secret Key} (h : Half cf c x e o) (hlives : ∀ r ∈ o.lives, r ∈ o'.lives)
    (hsigned : ∀ t ∈ o.signed, t ∈ o'.signed) : Half cf c x e o' := by
  refine ⟨h.current, h.bound, h.word, h.by_inc, h.by_secret, h.said, ?_, ?_⟩
  · intro htwo
    obtain ⟨l, hl, hinc, ⟨t, ht, hsays⟩, hkey⟩ := h.agreed htwo
    exact ⟨l, hlives l hl, hinc, ⟨t, hsigned t ht, hsays⟩, hkey⟩
  · intro m hm
    obtain ⟨l, hl, r, hr, hkey⟩ := h.sealed m hm
    exact ⟨l, hl, r, hlives r hr, hkey⟩

theorem Half.quiet (h : Half cf c x e o) (hq : Quiet e e') : Half cf c x e' o := by
  have hlives : e'.lives = e.lives := hq.lives
  refine ⟨?_, ?_, ?_, ?_, ?_, ?_, ?_, ?_⟩
  · rw [hq.my_incarnation, hq.dh_local, hlives]
    exact h.current
  · rw [hq.my_incarnation, hlives]
    exact h.bound
  · rw [hq.my_incarnation]
    exact h.word
  · rw [hlives]
    exact h.by_inc
  · rw [hlives]
    exact h.by_secret
  · rw [hq.signed, hlives]
    exact h.said
  · intro htwo
    rw [hq.dh_key_computed] at htwo
    unfold Agreed
    rw [hq.ngbr_incarnation, hq.dh_key, hq.dh_local]
    exact h.agreed htwo
  · intro m hm
    unfold SealedBy
    rw [hlives]
    rcases hq.sealed m hm with hm | ⟨htwo, hkey, hhon⟩
    · exact h.sealed m hm
    -- sealed just now: under the key that the end has agreed on
    obtain ⟨l, hl, -, -, k, hk, hcomp⟩ := h.agreed htwo
    rw [hkey] at hk
    cases hk
    refine ⟨_, h.current, l, hl, hcomp, ?_⟩
    revert hhon
    cases m.2 with
    | ping p => exact id
    | dh pkt => exact id
    | other => exact id

theorem Half.exchanging (h : Half cf c x e o) (hex : Exchanging cf c x e e') :
    Half cf c x e' o := by
  have hlives : e'.lives = e.lives := hex.lives
  refine ⟨?_, ?_, ?_, ?_, ?_, ?_, ?_, ?_⟩
  · rw [hex.my_incarnation, hex.dh_local, hlives]
    exact h.current
  · rw [hex.my_incarnation, hlives]
    exact h.bound
  · rw [hex.my_incarnation]
    exact h.word
  · rw [hlives]
    exact h.by_inc
  · rw [hlives]
    exact h.by_secret
  · intro t ht
    rw [hlives]
    rcases hex.said t ht with ht | ht
    · exact h.said t ht
    · exact ⟨_, h.current, ht⟩
  · intro htwo
    rw [hex.dh_key_computed] at htwo
    cases htwo
  · rw [hex.sealed]
    unfold SealedBy
    rw [hlives]
    exact h.sealed

theorem accepted_dh_says {pkt : DhPacket} {f : DhFields} (h' : Half cf c (!x) o e)
    (hacc : accepted_dh cf c x env e pkt = some f) (hgen : ∀ f, read_dh cf x e pkt = some f →
      c.verify (!x) (signed_text pkt f) f.sig = true → signed_text pkt f ∈ o.signed) :
    ∃ l ∈ o.lives, l.1 = f.ngbr_inc ∧ f.bn = c.pub_key l.2 ∧ ∃ t ∈ o.signed, Says cf c (!x) t l := by
  obtain ⟨hread, hver⟩ := accepted_dh_spec hacc
  have hmem : signed_text pkt f ∈ o.signed := hgen f hread hver
  obtain ⟨l, hl, j, hbody, hsize⟩ := h'.said _ hmem
  have hinc : l.1 < 2 ^ 32 := lt_of_le_of_lt (h'.bound l hl).2 h'.word
  obtain ⟨h1, h2, -⟩ := read_dh_signed hread hbody hinc hsize
  exact ⟨l, hl, h1.symm, h2, _, hmem, j, hbody, hsize⟩

theorem Half.process_dh {pkt : DhPacket} (h : Half cf c x e o) (h' : Half cf c (!x) o e)
    (hw : Waiting e) (he : e.exited = none) (hs : Computes cf c x env e pkt)
    (hgen : ∀ f, read_dh cf x e pkt = some f →
      c.verify (!x) (signed_text pkt f) f.sig = true → signed_text pkt f ∈ o.signed) :
    Half cf c x (Process_DH_IT cf c x env pkt e) o := by
  rcases Process_DH_IT_cases hw he hs with hp | ⟨f, e', hacc, hex, ⟨-, hp⟩ | ⟨-, k, hk, hp⟩⟩
  · rw [hp]
    exact h
  · rw [hp]
    exact h.exchanging hex
  · obtain ⟨l, hl, hinc, hbn, hsays⟩ := accepted_dh_says h' hacc hgen
    have hx : Half cf c x e' o := h.exchanging hex
    rw [hp]
    refine ⟨hx.current, hx.bound, hx.word, hx.by_inc, hx.by_secret, hx.said, ?_, hx.sealed⟩
    intro _
    refine ⟨l, hl, hinc, hsays, k, rfl, ?_⟩
    change c.DH_compute_key e'.dh_local (c.pub_key l.2) = some k
    rw [hex.dh_local, ← hbn]
    exact hk

theorem unlocked_ping_incarnation (hd : KeysDiffer c e o) (h : Half cf c x e o) (h' : Half cf c (!x) o e)
    (htwo : e.dh_key_computed = 2) {k : Key} (hkey : e.dh_key = some k) {p : ItPing}
    (hsealed : (k, Content.ping p) ∈ o.sealed) : p.incarnation = e.ngbr_incarnation := by
  obtain ⟨l, hl, hinc, -, k', hk', hcomp⟩ := h.agreed htwo
  rw [hkey] at hk'
  cases hk'
  obtain ⟨s, hs, r, hr, hcomp', hp⟩ := h'.sealed _ hsealed
  -- the key of another pair of secrets would be another one
  obtain ⟨-, hother⟩ := hd _ h.current l hl r hr s hs k hcomp hcomp'
  have hls : l = s := h'.by_secret l hl s hs hother
  rw [← hinc, hls]
  exact hp

theorem Half.fresh {secret : Secret} (h : Half cf c x e o)
    (hlater : e.my_incarnation < env.now / 1000000 % 2 ^ 32)
    (hfresh : ∀ l ∈ e.lives, secret ≠ l.2) :
    Half cf c x (fresh_end cf env secret e) o := by
  have hold : ∀ l ∈ e.lives, l.1 < env.now / 1000000 % 2 ^ 32 :=
    fun l hl => lt_of_le_of_lt (h.bound l hl).2 hlater
  refine ⟨mem_cons_self, ?_, Nat.mod_lt _ (by decide), ?_, ?_, ?_, ?_, ?_⟩
  · intro l hl
    rcases mem_cons.mp hl with rfl | hl
    · exact ⟨Nat.zero_lt_of_lt hlater, le_refl _⟩
    · exact ⟨(h.bound l hl).1, le_of_lt (hold l hl)⟩
  · intro l hl l' hl' heq
    rcases mem_cons.mp hl with rfl | hl <;> rcases mem_cons.mp hl' with rfl | hl'
    · rfl
    · exact absurd heq.symm (ne_of_lt (hold l' hl'))
    · exact absurd heq (ne_of_lt (hold l hl))
    · exact h.by_inc l hl l' hl' heq
  · intro l hl l' hl' heq
    rcases mem_cons.mp hl with rfl | hl <;> rcases mem_cons.mp hl' with rfl | hl'
    · rfl
    · exact absurd heq (hfresh l' hl')
    · exact absurd heq.symm (hfresh l hl)
    · exact h.by_secret l hl l' hl' heq
  · intro t ht
    obtain ⟨l, hl, hsays⟩ := h.said t ht
    exact ⟨l, mem_cons_of_mem _ hl, hsays⟩
  · intro htwo
    cases htwo
  · intro m hm
    obtain ⟨l, hl, hrest⟩ := h.sealed m hm
    exact ⟨l, mem_cons_of_mem _ hl, hrest⟩

variable {w : Bool → End Secret Key}

theorem Half.handled {ev : Event Secret} (h : ∀ y, Half cf c y (w y) (w (!y)))
    (hw : ∀ y, Waiting (w y)) (hd : KeysDiffer c (w x) (w (!x))) (hs : Sound cf c x (w x) ev) (hen : enabled (w x) ev)
    (hgen : genuine cf c x w ev) :
    Half cf c x (handle cf c x (w x) ev) (w (!x)) ∧
      Half cf c (!x) (w (!x)) (handle cf c x (w x) ev) := by
  have hx : Half cf c x (w x) (w (!x)) := h x
  have hy : Half cf c (!x) (w (!x)) (w x) := by
    have hflip := h (!x)
    rwa [Bool.not_not] at hflip
  have hquiet : ∀ e' : End Secret Key, Quiet (w x) e' →
      Half cf c x e' (w (!x)) ∧ Half cf c (!x) (w (!x)) e' := by
    intro e' hq
    refine ⟨hx.quiet hq, hy.grow ?_ ?_⟩
    · intro r hr
      rw [hq.lives]
      exact hr
    · intro t ht
      rw [hq.signed]
      exact ht
  cases ev with
  | restart env secret =>
    obtain ⟨hlater, hsecret⟩ := hgen
    have hfresh : Half cf c x (fresh_end cf env secret (w x)) (w (!x)) :=
      hx.fresh hlater (hsecret x)
    have hex : Exchanging cf c x (fresh_end cf env secret (w x))
        (Create_Link cf c x env secret (w x)) := Key_Exchange_IT_spec rfl
    refine ⟨hfresh.exchanging hex, hy.grow ?_ hex.kept⟩
    intro r hr
    change r ∈ (Create_Link cf c x env secret (w x)).lives
    rw [hex.lives]
    exact mem_cons_of_mem _ hr
  | clear env pkt =>
    refine ⟨hx.process_dh hy (hw x) hen hs hgen, ?_⟩
    change Half cf c (!x) (w (!x)) (Process_DH_IT cf c x env pkt (w x))
    rcases Process_DH_IT_cases (hw x) hen hs with hp | ⟨f, e', -, hex, ⟨-, hp⟩ | ⟨-, k, -, hp⟩⟩
    · rw [hp]
      exact hy
    all_goals
      rw [hp]
      refine hy.grow ?_ hex.kept
      intro r hr
      change r ∈ e'.lives
      rw [hex.lives]
      exact hr
  | unlocked env m =>
    obtain ⟨k, hkey, hsealed⟩ := hgen
    apply hquiet
    change Quiet (w x) (Process_unlocked cf c x env m (w x))
    unfold Process_unlocked
    split
    · exact Quiet.refl _
    rename_i htwo
    rw [not_not] at htwo
    have hest : Quiet (w x) (DH_established (w x)) := DH_established_quiet
    cases m with
    | ping p =>
      have hp : p.incarnation = (w x).ngbr_incarnation :=
        unlocked_ping_incarnation hd hx hy htwo hkey hsealed
      apply hest.trans
      apply Process_intru_tol_ping_quiet
      rw [hest.ngbr_incarnation]
      exact hp
    | dh pkt =>
      -- a correct end does not seal key-exchange packets
      obtain ⟨_, _, _, _, _, habout⟩ := hy.sealed _ hsealed
      exact habout.elim
    | other => exact hest
  | send_dh env =>
    apply hquiet
    unfold handle
    dsimp only
    split
    · exact Send_IT_DH_quiet
    · exact Quiet.refl _
  | ping_timeout env =>
    apply hquiet
    exact Ping_IT_Timeout_quiet
  | send_other =>
    apply hquiet
    exact IT_Link_Send_quiet trivial

/-! ## 5. Agreement -/

theorem not_ne (x : Bool) : (!x) ≠ x := by
  cases x <;> decide

/-- What one end does keeps what holds of both, if it keeps it at that end and at the other. -/
theorem forall_update {P : Bool → End Secret Key → End Secret Key → Prop} (x : Bool)
    (hx : P x e' (w (!x))) (hy : P (!x) (w (!x)) e') :
    ∀ y, P y (update w x e' y) (update w x e' (!y)) := by
  intro y
  by_cases hyx : y = x
  · subst hyx
    rwa [update_self, update_of_ne (not_ne y)]
  · have hy' : y = !x := Bool.eq_not.mpr hyx
    subst hy'
    rwa [Bool.not_not, update_self, update_of_ne (not_ne x)]

/-- What holds in a run: no alarm is near, and the halves fit as long as the keys differ. -/
structure Good (cf : Conf) (c : Crypto Secret Key) (w : Bool → End Secret Key) : Prop where
  half : KeysDiffer c (w true) (w false) → ∀ y, Half cf c y (w y) (w (!y))
  waiting : ∀ y, Waiting (w y)

theorem KeysDiffer.both (h : KeysDiffer c (w true) (w false)) (x : Bool) :
    KeysDiffer c (w x) (w (!x)) := by
  cases x
  · exact h.symm
  · exact h

theorem Good.step {w' : Bool → End Secret Key} {l : Bool × Event Secret}
    (h : Good cf c w) (hs : Sound cf c l.1 (w l.1) l.2) (hstep : PairStep cf c w l w') :
    Good cf c w' := by
  obtain ⟨x, ev⟩ := l
  obtain ⟨hen, hgen, rfl⟩ := hstep
  have hwait : Waiting (handle cf c x (w x) ev) := (h.waiting x).step hs ⟨hen, rfl⟩
  constructor
  · intro hd
    have hlives : ∀ y, ∀ l ∈ (w y).lives, l ∈ (update w x (handle cf c x (w x) ev) y).lives := by
      intro y
      by_cases hyx : y = x
      · subst hyx
        rw [update_self]
        exact lives_kept (h.waiting y) hs hen
      · rw [update_of_ne hyx]
        exact fun l hl => hl
    have hbefore : KeysDiffer c (w true) (w false) := hd.before (hlives true) (hlives false)
    obtain ⟨hx, hy⟩ := Half.handled (h.half hbefore) h.waiting (hbefore.both x) hs hen hgen
    exact forall_update x hx hy
  · exact forall_update (P := fun _ e _ => Waiting e) x hwait (h.waiting (!x))

theorem Start.good (h : Start cf c w) : Good cf c w := by
  obtain ⟨secret, -, hcreated⟩ := h
  constructor
  · intro _ y
    obtain ⟨env, old, hlives, hsigned, hsealed, hpos, hw⟩ := hcreated y
    have hex : Exchanging cf c y (fresh_end cf env (secret y) old) (w y) := by
      rw [hw]
      exact Key_Exchange_IT_spec rfl
    refine Half.exchanging ?_ hex
    refine ⟨mem_cons_self, ?_, Nat.mod_lt _ (by decide), ?_, ?_, ?_, ?_, ?_⟩
    all_goals rw [fresh_end]; dsimp only
    · rw [hlives]
      intro l hl
      rw [mem_singleton.mp hl]
      exact ⟨hpos, le_refl _⟩
    · rw [hlives]
      intro l hl l' hl' _
      rw [mem_singleton.mp hl, mem_singleton.mp hl']
    · rw [hlives]
      intro l hl l' hl' _
      rw [mem_singleton.mp hl, mem_singleton.mp hl']
    · rw [hsigned]
      intro t ht
      cases ht
    · intro htwo
      cases htwo
    · rw [hsealed]
      intro m hm
      cases hm
  · intro y
    exact (hcreated y).waiting

theorem Good.same_key (hc : Commutes c) (h : Good cf c w) (hd : KeysDiffer c (w true) (w false))
    (hlive : ∀ y, (w y).exited = none)
    (hstore : ∀ y, (w y).ngbr_incarnation = (w (!y)).my_incarnation) :
    ∃ k, ∀ y, (w y).dh_key = some k := by
  have half : ∀ y, Half cf c y (w y) (w (!y)) := h.half hd
  have hkey : ∀ y, ∃ k, (w y).dh_key = some k ∧
      c.DH_compute_key (w y).dh_local (c.pub_key (w (!y)).dh_local) = some k := by
    intro y
    have hpos : 0 < (w (!y)).my_incarnation :=
      ((half (!y)).bound _ (half (!y)).current).1
    have htwo : (w y).dh_key_computed = 2 := by
      rcases (h.waiting y).stage (hlive y) with htwo | hzero
      · exact htwo
      · rw [hstore y] at hzero
        omega
    obtain ⟨l, hl, hinc, -, k, hk, hcomp⟩ := (half y).agreed htwo
    have hcur : l = ((w (!y)).my_incarnation, (w (!y)).dh_local) := by
      apply (half (!y)).by_inc l hl _ (half (!y)).current
      rw [hinc, hstore y]
    rw [hcur] at hcomp
    exact ⟨k, hk, hcomp⟩
  obtain ⟨k, hk, hcomp⟩ := hkey true
  obtain ⟨k', hk', hcomp'⟩ := hkey false
  have hkk : k = k' := hc _ _ k k' hcomp hcomp'
  subst hkk
  refine ⟨k, fun y => ?_⟩
  cases y
  · exact hk'
  · exact hk

/-- Neither of the alarms of `Process_DH_IT` has been raised. -/
def NoAlarm (e : End Secret Key) : Prop :=
  e.exited ≠ some .send_event_should_be_queued ∧ e.exited ≠ some .compute_key_failed

/-- The key of end `x` is the one derived from its own secret and a public value; the
other end signed that value in the incarnation that `x` has stored. -/
def DerivedKey (cf : Conf) (c : Crypto Secret Key) (x : Bool) (w : Bool → End Secret Key) : Prop :=
  ∃ pub j, (∃ hdr, (hdr, dh_body cf (!x) (w x).ngbr_incarnation j pub) ∈ (w (!x)).signed) ∧
    ∃ k, (w x).dh_key = some k ∧ c.DH_compute_key (w x).dh_local pub = some k

theorem Agreed.derived (h : Agreed cf c x (w x) (w (!x))) : DerivedKey cf c x w := by
  obtain ⟨l, -, hinc, ⟨t, ht, j, hbody, -⟩, hkey⟩ := h
  refine ⟨c.pub_key l.2, j, ⟨t.1, ?_⟩, hkey⟩
  rw [← hinc, ← hbody]
  exact ht

end Pairs

/-- As long as `DH_compute_key` takes the values that arrive, the link is up where they
are accepted and the network is switched on, the process does not end in `Process_DH_IT`,
even if the neighbor sends what it likes. If moreover no two pairs of the secrets drawn so
far have a key in common, an end that has a key has derived it from its own secret and the
public value its neighbor signed in the incarnation it has stored, and two ends that store
each other's incarnation have the same key. -/
theorem key_agreement {Secret Key : Type} (cf : Conf) (c : Crypto Secret Key) :
    (∀ w w' : Bool → End Secret Key, Start cf c w →
      Run (fun w l w' => Sound cf c l.1 (w l.1) l.2 ∧ PairStep cf c w l w') w w' →
        (∀ x, NoAlarm (w' x)) ∧ (KeysDiffer c (w' true) (w' false) →
          (∀ x, (w' x).dh_key_computed = 2 → DerivedKey cf c x w') ∧
          (Commutes c → (∀ x, (w' x).exited = none) →
            (∀ x, (w' x).ngbr_incarnation = (w' (!x)).my_incarnation) →
              ∃ k, ∀ x, (w' x).dh_key = some k))) ∧
      ∀ x secret (e e' : End Secret Key), Created cf c x secret e →
        Run (fun e ev e' => Sound cf c x e ev ∧ EndStep cf c x e ev e') e e' → NoAlarm e' := by
  constructor
  · intro w w' hstart hrun
    have hgood : Good cf c w' := by
      apply Run.invariant (Good cf c) hstart.good _ hrun
      intro t l t' ht hstep
      exact ht.step hstep.1 hstep.2
    refine ⟨fun x => ⟨(hgood.waiting x).not_missing, (hgood.waiting x).not_failed⟩, fun hd => ?_⟩
    exact ⟨fun x htwo => ((hgood.half hd x).agreed htwo).derived, fun hc => hgood.same_key hc hd⟩
  · intro x secret e e' hcreated hrun
    have hwait : Waiting e' := by
      apply Run.invariant Waiting hcreated.waiting _ hrun
      intro t ev t' ht hstep
      exact ht.step hstep.1 hstep.2
    exact ⟨hwait.not_missing, hwait.not_failed⟩

/-! ## 6. Runs -/

def plain_conf : Conf where
  order := .little
  My_Address := fun x => if x then 10 else 20
  iid := fun x => if x then 1 else 2
  in_config := fun _ => true
  HMAC_Key_Len := 1
  Signature_Len := 2
  Conf_Hash := [7]
  it_incarnation_timeout := 100
  it_ping_timeout := 100
  conf_hash_length := rfl

/-- Diffie-Hellman with the prime 23 and the generator 5; the public values 0, 1 and 22 are
refused, as the library refuses them. A signature names the end that made it. -/
def plain_crypto : Crypto ℕ ℕ where
  pub_key := fun s => 5 ^ s % 23
  DH_compute_key := fun s p => if p ≤ 1 ∨ 22 ≤ p then none else some (p ^ s % 23)
  sign := fun x t => [if x then 1 else 0, t.2.foldl (· + ·) 0]
  verify := fun x t sig => decide (sig = [if x then 1 else 0, t.2.foldl (· + ·) 0])

theorem plain_crypto_commutes : Commutes plain_crypto := by
  intro s t k k' h h'
  simp only [plain_crypto] at h h'
  split at h
  · cases h
  split at h'
  · cases h'
  rw [Option.some.injEq] at h h'
  rw [← h, ← h', ← Nat.pow_mod, ← Nat.pow_mod, ← pow_mul, ← pow_mul, Nat.mul_comm]

def plain_env (now : ℕ) : Env := ⟨now, true, true, 5, 0⟩

def plain_end (x : Bool) : End ℕ ℕ :=
  Create_Link plain_conf plain_crypto x (plain_env 1000000) (if x then 3 else 4)
    ⟨0, 0, 0, 0, none, 0, false, none, false, 0, fun _ => ⟨0, 0, true⟩, 0, none, [], [], []⟩

theorem plain_live (x : Bool) : (plain_end x).exited = none := by
  revert x
  decide +kernel

theorem plain_created (x : Bool) :
    Created plain_conf plain_crypto x (if x then 3 else 4) (plain_end x) :=
  ⟨plain_env 1000000, _, rfl, rfl, rfl, by decide, rfl⟩

theorem plain_start : Start plain_conf plain_crypto plain_end :=
  ⟨fun x => if x then 3 else 4, by decide, plain_created⟩

def plain_pkt (x : Bool) : DhPacket := (plain_end x).dh_pkt.getD ⟨⟨0, 0, 0, 0, 0⟩, []⟩

def plain_half : Bool → End ℕ ℕ :=
  Function.update plain_end true
    (handle plain_conf plain_crypto true (plain_end true) (.clear (plain_env 1000200) (plain_pkt false)))

def plain_both : Bool → End ℕ ℕ :=
  Function.update plain_half false
    (handle plain_conf plain_crypto false (plain_half false)
      (.clear (plain_env 1000200) (plain_pkt true)))

theorem clear_step {Secret Key : Type} (cf : Conf) (c : Crypto Secret Key) (x : Bool)
    (w : Bool → End Secret Key) (env : Env) (pkt : DhPacket) (hen : (w x).exited = none)
    (hs : (accepted_dh cf c x env (w x) pkt).all (fun f =>
      env.link_up && (c.DH_compute_key (w x).dh_local f.bn).isSome) = true)
    (hg : (read_dh cf x (w x) pkt).all (fun f => !c.verify (!x) (signed_text pkt f) f.sig ||
        decide (signed_text pkt f ∈ (w (!x)).signed)) = true) :
    Sound cf c x (w x) (.clear env pkt) ∧ PairStep cf c w (x, .clear env pkt)
      (update w x (handle cf c x (w x) (.clear env pkt))) := by
  refine ⟨?_, hen, ?_, rfl⟩
  · intro f hf
    rw [hf] at hs
    simpa using hs
  · intro f hf hver
    rw [hf] at hg
    simpa [hver] using hg

theorem plain_run : Run (fun w l w' => Sound plain_conf plain_crypto l.1 (w l.1) l.2 ∧
    PairStep plain_conf plain_crypto w l w') plain_end plain_both := by
  have hfirst : Run (fun w l w' => Sound plain_conf plain_crypto l.1 (w l.1) l.2 ∧
      PairStep plain_conf plain_crypto w l w') plain_end plain_half := by
    apply (Run.refl plain_end).tail (e := (true, .clear (plain_env 1000200) (plain_pkt false)))
    exact clear_step plain_conf plain_crypto true plain_end (plain_env 1000200) (plain_pkt false)
      (plain_live true) (by decide +kernel) (by decide +kernel)
  apply hfirst.tail (e := (false, .clear (plain_env 1000200) (plain_pkt true)))
  exact clear_step plain_conf plain_crypto false plain_half (plain_env 1000200) (plain_pkt true)
    (by decide +kernel) (by decide +kernel) (by decide +kernel)

theorem plain_lives (x : Bool) : (plain_both x).lives = [(1, if x then 3 else 4)] := by
  revert x
  decide +kernel

theorem plain_keys_differ : KeysDiffer plain_crypto (plain_both true) (plain_both false) := by
  rw [KeysDiffer, plain_lives, plain_lives]
  intro l hl r hr l' hl' r' hr' k _ _
  rw [mem_singleton.mp hl, mem_singleton.mp hl', mem_singleton.mp hr, mem_singleton.mp hr']
  exact ⟨rfl, rfl⟩

theorem key_agreement_plain :
    (∃ k, ∀ x, (plain_both x).dh_key = some k) ∧
      ∀ x, DerivedKey plain_conf plain_crypto x plain_both := by
  obtain ⟨-, hkeys⟩ := (key_agreement plain_conf plain_crypto).1 plain_end plain_both plain_start
    plain_run
  obtain ⟨hkey, hsame⟩ := hkeys plain_keys_differ
  exact ⟨hsame plain_crypto_commutes (by decide +kernel) (by decide +kernel),
    fun x => hkey x (by revert x; decide +kernel)⟩

def zero_pkt : DhPacket :=
  let t : Text := (⟨20, 5, 21, 0, 0⟩, dh_body plain_conf false 1 0 0)
  signed_pkt plain_crypto false t

/-- A neighbor that signs a value which `DH_compute_key` refuses ends the process. -/
theorem refused_value_exits :
    ∃ e', Run (EndStep plain_conf plain_crypto true) (plain_end true) e' ∧
      e'.exited = some .compute_key_failed := by
  refine ⟨handle plain_conf plain_crypto true (plain_end true)
    (.clear (plain_env 1000200) zero_pkt), ?_, by decide +kernel⟩
  apply (Run.refl _).tail (e := .clear (plain_env 1000200) zero_pkt)
  exact ⟨plain_live true, rfl⟩

end Spines.IntruTol.KeyExchange
