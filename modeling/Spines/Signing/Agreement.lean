/-
What is signed is what is verified.

The signed string is a function of what a `Message` holds: the elements of the client's
message with the `ttl` and the path at zero, the dissemination header and the mask.
`Carries` relates a scatter to it. The scatter of `Session_Send_Message` carries it
(`carries_sent`), a change of the `ttl`, a stamp, another tail and a crossing of a link
keep that (`Carries.set_ttl`, `Carries.stamped`, `Carries.sends`, `Carries.crosses`), and
who is handed a scatter that carries it puts the same string together and accepts it
(`Carries.recomputed`, `Carries.disseminate`). `signed_string_agrees` is the induction
over the way of the message.
-/
import Spines.Signing.Scatter

set_option autoImplicit false

namespace Spines.Signing

open Spines.Lib Spines.IntruTol Function Option List

/-! ## 1. The loops over the path -/

theorem foldl_update (v : ℕ → UInt8) (m : Mem) (n j : ℕ) :
    (range n).foldl (fun m i => update m (PATH + i) (v i)) m j =
      if PATH ≤ j ∧ j < PATH + n then v (j - PATH) else m j := by
  induction n with
  | zero =>
    rw [range_zero, foldl_nil, if_neg (by omega)]
  | succ n ih =>
    rw [range_succ, foldl_append, foldl_cons, foldl_nil,
      update_apply, ih]
    by_cases hj : j = PATH + n
    · subst hj
      rw [if_pos rfl, if_pos (by omega), Nat.add_sub_cancel_left]
    · rw [if_neg hj]
      by_cases hin : PATH ≤ j ∧ j < PATH + n
      · rw [if_pos hin, if_pos (by omega)]
      · rw [if_neg hin, if_neg (by omega)]

theorem zero_path_apply (m : Mem) (j : ℕ) :
    zero_path m j = if PATH ≤ j ∧ j < PATH + 8 then 0 else m j :=
  foldl_update (fun _ => 0) m 8 j

theorem put_path_apply (temp_path : ℕ → UInt8) (m : Mem) (j : ℕ) :
    put_path temp_path m j = if PATH ≤ j ∧ j < PATH + 8 then temp_path (j - PATH) else m j :=
  foldl_update temp_path m 8 j

def first_zero (temp_path : ℕ → UInt8) (n : ℕ) : ℕ :=
  ((range n).find? fun i => temp_path i = 0).getD 8

def stamp (my_id : ℕ) (m : Mem) : Mem :=
  match (range 8).find? fun i => path m i = 0 with
  | some i => Function.update m (PATH + i) (UInt8.ofNat my_id)
  | none => m

def Scat.stamped (cf : Conf) (my_id : ℕ) (s : Scat) : Scat :=
  if cf.path_stamp_debug then s.on_hdr (stamp my_id) else s

theorem find_range_lt {p : ℕ → Bool} {n i : ℕ} (h : (range n).find? p = some i) : i < n :=
  mem_range.mp (mem_of_find?_eq_some h)

theorem put_path_rounds (temp_path : ℕ → UInt8) (m : Mem) {n : ℕ} (hn : n ≤ 8) :
    (range n).foldl (put_path_round temp_path) (m, 8) =
      ((range n).foldl (fun m i => update m (PATH + i) (temp_path i)) m,
        first_zero temp_path n) := by
  induction n with
  | zero => rfl
  | succ n ih =>
    rw [range_succ, foldl_append, foldl_append, ih (by omega)]
    simp only [foldl_cons, foldl_nil, put_path_round, update_self]
    congr 1
    unfold first_zero
    rw [range_succ, List.find?_append]
    cases hfind : (range n).find? fun i => decide (temp_path i = 0) with
    | none =>
      by_cases hzero : temp_path n = 0
      · simp [hzero]
      · simp [hzero]
    | some i =>
      -- a byte found earlier stays
      have hlt := find_range_lt hfind
      have hne : ¬(i = 8 ∧ temp_path n = 0) := by omega
      simp [hne]

theorem put_zero_path (m : Mem) : put_path (path m) (zero_path m) = m := by
  funext j
  rw [put_path_apply, zero_path_apply]
  by_cases hj : PATH ≤ j ∧ j < PATH + 8
  · rw [if_pos hj, path]
    congr 1
    omega
  · rw [if_neg hj, if_neg hj]

theorem stamp_path_eq (my_id : ℕ) (m : Mem) :
    stamp_path my_id (path m) (zero_path m) = stamp my_id m := by
  have hput : (range 8).foldl
      (fun m' i => update m' (PATH + i) (path m i)) (zero_path m) = m := put_zero_path m
  unfold stamp_path stamp
  rw [put_path_rounds _ _ (le_refl 8), hput]
  unfold first_zero
  cases hfind : (range 8).find? fun i => decide (path m i = 0) with
  | none => rfl
  | some i =>
    have hlt := find_range_lt hfind
    rw [getD_some, if_pos (by omega)]

/-! ## 2. What the signature covers -/

/-- The `ttl` and, where paths are stamped, the path at zero. -/
def hide (cf : Conf) (m : Mem) : Mem :=
  let m := Function.update m TTL 0
  if cf.path_stamp_debug then zero_path m else m

variable {cf : Conf}

def Hidden (cf : Conf) (i : ℕ) : Prop :=
  i = TTL ∨ cf.path_stamp_debug = true ∧ PATH ≤ i ∧ i < PATH + 8

theorem hide_hidden {m : Mem} {i : ℕ} (h : Hidden cf i) : hide cf m i = 0 := by
  unfold hide
  obtain rfl | ⟨hdebug, hi⟩ := h
  · by_cases hdebug : cf.path_stamp_debug = true
    · rw [if_pos hdebug, zero_path_apply]
      split
      · rfl
      · exact update_self ..
    · rw [if_neg hdebug]
      exact update_self ..
  · rw [if_pos hdebug, zero_path_apply, if_pos hi]

theorem hide_other {m : Mem} {i : ℕ} (h : ¬Hidden cf i) : hide cf m i = m i := by
  unfold Hidden at h
  push Not at h
  unfold hide
  by_cases hdebug : cf.path_stamp_debug = true
  · have hpath := h.2 hdebug
    rw [if_pos hdebug, zero_path_apply, if_neg (by omega), update_of_ne h.1]
  · rw [if_neg hdebug, update_of_ne h.1]

theorem hide_congr {m m' : Mem} {n : ℕ} (h : ∀ i < n, ¬Hidden cf i → m i = m' i) {i : ℕ}
    (hi : i < n) : hide cf m i = hide cf m' i := by
  by_cases hhidden : Hidden cf i
  · rw [hide_hidden hhidden, hide_hidden hhidden]
  · rw [hide_other hhidden, hide_other hhidden, h i hi hhidden]

theorem hide_set_ttl (m : Mem) (ttl : UInt8) : hide cf (update m TTL ttl) = hide cf m := by
  funext i
  apply hide_congr (n := i + 1) _ (by omega)
  intro j _ hj
  apply update_of_ne
  intro heq
  exact hj (.inl heq)

theorem hide_stamp (hdebug : cf.path_stamp_debug = true) (my_id : ℕ) (m : Mem) :
    hide cf (stamp my_id m) = hide cf m := by
  funext i
  apply hide_congr (n := i + 1) _ (by omega)
  intro j _ hj
  unfold stamp
  cases hfind : (range 8).find? fun i => decide (path m i = 0) with
  | none => rfl
  | some k =>
    have hlt := find_range_lt hfind
    apply update_of_ne
    intro heq
    exact hj (.inr ⟨hdebug, by omega⟩)

theorem not_hidden {i : ℕ} (hi : i < SIZEOF_UDP_HEADER) (httl : i ≠ TTL) : ¬Hidden cf i := by
  unfold Hidden PATH
  omega

theorem load_hide {m : Mem} {e : Endian} {pos w : ℕ} (h : pos + w ≤ TTL) :
    (hide cf m).load e pos w = m.load e pos w := by
  apply Mem.load_congr
  intro i _ hi
  exact hide_other (not_hidden (by unfold TTL SIZEOF_UDP_HEADER at *; omega) (by omega))

/-! ## 3. The message -/

theorem Elem.bytes_eq_iff {x y : Elem} :
    x.bytes = y.bytes ↔ x.len = y.len ∧ ∀ i < x.len, x.buf i = y.buf i := by
  constructor
  · intro h
    have hlen : x.len = y.len := by
      have := congrArg List.length h
      simpa [Elem.bytes] using this
    refine ⟨hlen, ?_⟩
    intro i hi
    have hget : x.bytes[i]? = y.bytes[i]? := by rw [h]
    simpa [Elem.bytes, Mem.bytes, hi, ← hlen] using hget
  · rintro ⟨hlen, hbuf⟩
    unfold Elem.bytes
    rw [← hlen]
    apply Mem.bytes_congr
    intro i _ hi
    exact hbuf i (by omega)

def Elem.hidden (cf : Conf) (x : Elem) : Elem := ⟨hide cf x.buf, x.len⟩

theorem Elem.hidden_congr {x y : Elem} (h : x.bytes = y.bytes) :
    (x.hidden cf).bytes = (y.hidden cf).bytes := by
  rw [Elem.bytes_eq_iff] at h ⊢
  exact ⟨h.1, fun i hi => hide_congr (fun j hj _ => h.2 j hj) hi⟩

def header_size (routing : UInt8) : ℕ :=
  if routing = 1 then SIZEOF_PRIO_HEADER else SIZEOF_REL_HEADER

def Conf.crypto (cf : Conf) (routing : UInt8) : Bool :=
  if routing = 1 then cf.prio_crypto else cf.rel_crypto

def Conf.sig_len (cf : Conf) (routing : UInt8) : ℕ :=
  if routing = 1 then cf.prio_signature_len else cf.rel_signature_len

/-- A message as its source signs it: its data with the hidden bytes at zero, in
elements, and the element with the dissemination header, the mask and the signature. -/
structure Message where
  first : Elem
  middle : List Elem
  last : Elem

def Message.routing (M : Message) : UInt8 := M.first.buf ROUTING

def Message.header (M : Message) (cf : Conf) : Bytes :=
  M.last.buf.bytes 0 (header_size M.routing + cf.bitmask_size)

def Message.input (M : Message) (cf : Conf) : Bytes :=
  cf.endian.order (le_bytes 4 (data_type cf)) ++ M.first.bytes ++ M.middle.flatMap Elem.bytes ++
    M.header cf

structure Message.Signed (M : Message) (cf : Conf) (sch : Scheme) (my_id : ℕ) : Prop where
  routing : M.routing = 1 ∨ M.routing = 2
  header_in_first : SIZEOF_UDP_HEADER ≤ M.first.len
  size : M.first.len + (M.middle.map Elem.len).sum =
    SIZEOF_UDP_HEADER + M.first.buf.load cf.endian LEN 2
  last_len : M.last.len = header_size M.routing + cf.bitmask_size + cf.sig_len M.routing
  source : M.routing = 1 → cf.lookup (M.first.buf.load cf.endian SOURCE 4) = some my_id
  src_id : M.routing = 2 → M.last.buf 16 = 1 ∧ M.last.buf.load cf.endian 0 2 = my_id
  my_id_range : 1 ≤ my_id ∧ my_id ≤ RelFlood.MAX_NODES
  verifies : cf.crypto M.routing = true →
    sch.verify my_id (M.input cf) (M.last.buf.bytes (M.last.len - cf.sig_len M.routing)
      (cf.sig_len M.routing)) = true

def GoodTail (cf : Conf) (z : Elem) : Prop :=
  z.len = SIZEOF_REL_TAIL + z.buf.load cf.endian 0 4 ∧
    z.buf.load cf.endian 0 4 % SIZEOF_HBH_ACK = 0

/-- The elements of a scatter that carries the message: the hidden bytes may be
anything, and a reliable message has some tail. -/
structure Carried (cf : Conf) (M : Message) (s : Scat) (x : Elem) (mid : List Elem) (y : Elem)
    (tail : List Elem) : Prop where
  elements : s.elements = x :: mid ++ y :: tail
  type : s.type = data_type cf
  first : (x.hidden cf).bytes = M.first.bytes
  middle : mid.map Elem.bytes = M.middle.map Elem.bytes
  last : y.bytes = M.last.bytes
  prio_tail : M.routing = 1 → tail = []
  rel_tail : M.routing = 2 → ∃ z, tail = [z] ∧ GoodTail cf z

def Carries (cf : Conf) (M : Message) (s : Scat) : Prop :=
  ∃ x mid y tail, Carried cf M s x mid y tail

/-! ## 4. Changes on the way -/

theorem on_hdr_cons {s : Scat} {x : Elem} {l : List Elem} (h : s.elements = x :: l)
    (f : Mem → Mem) : s.on_hdr f = { s with elements := ⟨f x.buf, x.len⟩ :: l } := by
  unfold Scat.on_hdr
  rw [h]

theorem hdr_cons {s : Scat} {x : Elem} {l : List Elem} (h : s.elements = x :: l) :
    s.hdr = x.buf := by
  unfold Scat.hdr
  rw [h]

theorem on_hdr_on_hdr (s : Scat) (f g : Mem → Mem) :
    (s.on_hdr f).on_hdr g = s.on_hdr fun m => g (f m) := by
  cases hs : s.elements <;> simp [Scat.on_hdr, hs]

theorem Elem.bytes_len {x y : Elem} (h : x.bytes = y.bytes) : x.len = y.len :=
  (Elem.bytes_eq_iff.mp h).1

theorem map_len_of_bytes {l k : List Elem} (h : l.map Elem.bytes = k.map Elem.bytes) :
    l.map Elem.len = k.map Elem.len := by
  have hlen := congrArg (List.map List.length) h
  simpa [Function.comp_def, Elem.bytes] using hlen

theorem flatMap_of_bytes {l k : List Elem} (h : l.map Elem.bytes = k.map Elem.bytes) :
    l.flatMap Elem.bytes = k.flatMap Elem.bytes := by
  rw [flatMap_def, flatMap_def, h]

section Carry

variable {M : Message} {s t : Scat} {x y : Elem} {mid tail : List Elem}

theorem Carries.on_hdr (h : Carries cf M s) {f : Mem → Mem} (hf : ∀ m, hide cf (f m) = hide cf m) :
    Carries cf M (s.on_hdr f) := by
  obtain ⟨x, mid, y, tail, h⟩ := h
  refine ⟨⟨f x.buf, x.len⟩, mid, y, tail, ?_⟩
  rw [on_hdr_cons h.elements]
  exact { elements := rfl, type := h.type, middle := h.middle, last := h.last,
          prio_tail := h.prio_tail, rel_tail := h.rel_tail
          first := by rw [← h.first, Elem.hidden, hf, Elem.hidden] }

theorem Carries.set_ttl (h : Carries cf M s) (ttl : UInt8) : Carries cf M (s.set_ttl ttl) :=
  h.on_hdr fun m => hide_set_ttl m ttl

theorem Carries.stamped (h : Carries cf M s) (my_id : ℕ) : Carries cf M (s.stamped cf my_id) := by
  unfold Scat.stamped
  by_cases hdebug : cf.path_stamp_debug = true
  · rw [if_pos hdebug]
    exact h.on_hdr (hide_stamp hdebug my_id)
  · rwa [if_neg hdebug]

theorem Carries.retail (h : Carries cf M s) (hrouting : M.routing = 2) {z : Elem}
    (hz : GoodTail cf z) : Carries cf M { s with elements := s.elements.dropLast ++ [z] } := by
  obtain ⟨x, mid, y, tail, h⟩ := h
  obtain ⟨z0, rfl, -⟩ := h.rel_tail hrouting
  have hdrop : s.elements.dropLast = x :: mid ++ [y] := by
    rw [h.elements, show x :: mid ++ [y, z0] = x :: mid ++ [y] ++ [z0] by simp,
      dropLast_concat]
  refine ⟨x, mid, y, [z], ?_⟩
  exact { h with
          elements := by rw [hdrop]; simp
          prio_tail := by intro h1; rw [hrouting] at h1; exact absurd h1 (by decide)
          rel_tail := fun _ => ⟨z, rfl, hz⟩ }

theorem Carries.of_bodies (h : Carries cf M s) (hbodies : t.bodies = s.bodies)
    (htype : t.type = data_type cf) : Carries cf M t := by
  obtain ⟨x, mid, y, tail, h⟩ := h
  unfold Scat.bodies at hbodies
  rw [h.elements, cons_append, map_cons, map_append, map_cons] at hbodies
  obtain ⟨x', l, ht, hx, hl⟩ := map_eq_cons_iff.mp hbodies
  obtain ⟨mid', l', rfl, hmid, hl'⟩ := map_eq_append_iff.mp hl
  obtain ⟨y', tail', rfl, hy, htail⟩ := map_eq_cons_iff.mp hl'
  refine ⟨x', mid', y', tail', ?_⟩
  exact
    { elements := by rw [ht]; rfl
      type := htype
      first := (Elem.hidden_congr hx).trans h.first
      middle := hmid.trans h.middle
      last := hy.trans h.last
      prio_tail := by
        intro h1
        rw [h.prio_tail h1, map_nil, map_eq_nil_iff] at htail
        exact htail
      rel_tail := by
        intro h2
        obtain ⟨z, rfl, hz⟩ := h.rel_tail h2
        obtain ⟨z', rest, rfl, hbytes, hrest⟩ := map_eq_cons_iff.mp htail
        rw [map_eq_nil_iff.mp hrest]
        obtain ⟨hlen, hbuf⟩ := Elem.bytes_eq_iff.mp hbytes
        have hload : z'.buf.load cf.endian 0 4 = z.buf.load cf.endian 0 4 := by
          apply Mem.load_congr
          intro i _ hi
          apply hbuf
          rw [hlen, hz.1]
          unfold SIZEOF_REL_TAIL
          omega
        refine ⟨z', rfl, ?_, ?_⟩
        · rw [hload, hlen, hz.1]
        · rw [hload, hz.2] }

theorem Crosses.bodies_eq (h : Crosses cf s t) : t.bodies = s.bodies ∧ t.type = data_type cf := by
  obtain ⟨hdr, e, e', packets, hfits, hwaiting, hcalls, hdone, hdelivered, htype⟩ := h
  have hround := (fragments_round_trip cf.link ⟨hdr, s.bodies⟩ ⟨hfits.pos, hfits.le, hfits.elem⟩ e
    hwaiting).1 packets e' hcalls hdone
  rw [hdelivered] at hround
  exact ⟨singleton_inj.mp hround.2.2.1, htype⟩

theorem Carries.crosses (h : Carries cf M s) (hcrosses : Crosses cf s t) : Carries cf M t :=
  h.of_bodies hcrosses.bodies_eq.1 hcrosses.bodies_eq.2

theorem rel_tail_good (buf : Mem) {acks : List RelFlood.HbhAck}
    (h : acks.length * SIZEOF_HBH_ACK < 2 ^ 16) : GoodTail cf (rel_tail cf buf acks) := by
  have hload : (rel_tail cf buf acks).buf.load cf.endian 0 4 = acks.length * SIZEOF_HBH_ACK := by
    have hlt : acks.length * SIZEOF_HBH_ACK < 256 ^ 4 := by omega
    unfold rel_tail
    dsimp only
    exact Mem.load_store hlt
  refine ⟨?_, ?_⟩
  · rw [hload]
    rfl
  · rw [hload, Nat.mul_mod_left]

end Carry

/-! ## 5. What the verifiers read -/

theorem hide_path_set_ttl (s : Scat) : (s.hide_path cf).set_ttl 0 = s.on_hdr (hide cf) := by
  have hcomm : ∀ m, update (zero_path m) TTL 0 = zero_path (update m TTL 0) := by
    intro m
    funext j
    rw [zero_path_apply, update_apply, update_apply, zero_path_apply]
    by_cases hj : j = TTL
    · rw [if_pos hj, if_pos hj, ite_self]
    · rw [if_neg hj, if_neg hj]
  unfold Scat.hide_path Scat.set_ttl hide
  by_cases hdebug : cf.path_stamp_debug = true
  · simp only [if_pos hdebug, on_hdr_on_hdr, hcomm]
  · simp only [if_neg hdebug]

theorem set_ttl_hide_path (s : Scat) : (s.set_ttl 0).hide_path cf = s.on_hdr (hide cf) := by
  unfold Scat.hide_path Scat.set_ttl hide
  by_cases hdebug : cf.path_stamp_debug = true
  · simp only [if_pos hdebug, on_hdr_on_hdr]
  · simp only [if_neg hdebug]

theorem on_hdr_congr {s : Scat} {f g : Mem → Mem} (h : f s.hdr = g s.hdr) :
    s.on_hdr f = s.on_hdr g := by
  cases hs : s.elements with
  | nil => simp [Scat.on_hdr, hs]
  | cons x l =>
    rw [hdr_cons hs] at h
    rw [on_hdr_cons hs, on_hdr_cons hs, h]

theorem on_hdr_id {s : Scat} {f : Mem → Mem} (h : f s.hdr = s.hdr) : s.on_hdr f = s := by
  rw [on_hdr_congr (g := id) h]
  obtain ⟨type, elements⟩ := s
  cases elements <;> rfl

theorem hide_stamped (s : Scat) (my_id : ℕ) :
    (s.hide_path cf).stamp_path cf my_id (path s.hdr) = s.stamped cf my_id := by
  unfold Scat.stamp_path Scat.hide_path Scat.stamped
  by_cases hdebug : cf.path_stamp_debug = true
  · simp only [if_pos hdebug]
    rw [on_hdr_on_hdr]
    exact on_hdr_congr (stamp_path_eq my_id s.hdr)
  · simp only [if_neg hdebug]

theorem restore_stamped (s : Scat) (my_id : ℕ) :
    ((((s.hide_path cf).set_ttl 0).set_ttl ((s.hide_path cf).hdr TTL)).stamp_path cf my_id
      (path s.hdr)) = s.stamped cf my_id := by
  have hback : ((s.hide_path cf).set_ttl 0).set_ttl ((s.hide_path cf).hdr TTL) =
      s.hide_path cf := by
    unfold Scat.set_ttl
    rw [on_hdr_on_hdr]
    apply on_hdr_id
    rw [update_idem, Function.update_eq_self]
  rw [hback, hide_stamped]

theorem reliable_flood_verify_eq {sch : Scheme} {src_id : ℕ} {s t : Scat}
    (h : reliable_flood_verify cf sch src_id s = some t) : t = s := by
  unfold reliable_flood_verify at h
  split at h
  · exact (some.inj h).symm
  · split at h
    · cases h
    · dsimp only at h
      split at h
      · cases h
      · rw [← some.inj h]
        unfold Scat.set_ttl
        rw [on_hdr_on_hdr]
        apply on_hdr_id
        rw [update_idem, Function.update_eq_self]

theorem disseminate_stamped {sch : Scheme} {my_id : ℕ} {s t : Scat}
    (h : disseminate cf sch my_id s = some t) : t = s.stamped cf my_id := by
  unfold disseminate at h
  split at h
  · -- priority flooding
    unfold priority_flood_disseminate at h
    split at h
    · cases h
    · split at h
      · cases h
      · dsimp only at h
        split at h
        · split at h
          · cases h
          · split at h
            · cases h
            · rw [map_some] at h
              rw [← some.inj h, restore_stamped]
        · rw [map_some] at h
          rw [← some.inj h, hide_stamped]
  · split at h
    · -- reliable flooding
      unfold reliable_flood_disseminate at h
      split at h
      · dsimp only at h
        split at h
        · cases h
        · split at h
          · cases h
          · split at h
            · cases h
            · obtain ⟨u, hu, rfl⟩ := map_eq_some_iff.mp h
              rw [reliable_flood_verify_eq hu, hide_stamped]
      · cases h
    · cases h

/-! ## 6. A scatter that carries a message is accepted -/

section Accept

variable {M : Message} {s : Scat} {x y : Elem} {mid tail : List Elem} {sch : Scheme} {my_id : ℕ}

theorem Carried.field (h : Carried cf M s x mid y tail) {i : ℕ} (hi : i < M.first.len)
    (hhidden : ¬Hidden cf i) : s.hdr i = M.first.buf i := by
  have hother : hide cf x.buf i = x.buf i := hide_other hhidden
  rw [hdr_cons (h.elements.trans (cons_append ..)), ← hother]
  have hfirst := Elem.bytes_eq_iff.mp h.first
  exact hfirst.2 i (by rwa [hfirst.1])

theorem Carried.load (h : Carried cf M s x mid y tail) (hM : M.Signed cf sch my_id) {pos w : ℕ}
    (hpos : pos + w ≤ TTL) : s.hdr.load cf.endian pos w = M.first.buf.load cf.endian pos w := by
  have hfirst := hM.header_in_first
  unfold SIZEOF_UDP_HEADER at hfirst
  unfold TTL at hpos
  apply Mem.load_congr
  intro i _ hi
  apply h.field (by omega) (not_hidden _ _)
  · unfold SIZEOF_UDP_HEADER; omega
  · unfold TTL; omega

theorem Carried.routing (h : Carried cf M s x mid y tail) (hM : M.Signed cf sch my_id) :
    s.hdr ROUTING = M.routing := by
  have hfirst := hM.header_in_first
  unfold SIZEOF_UDP_HEADER at hfirst
  apply h.field
  · unfold ROUTING; omega
  · exact not_hidden (by decide) (by decide)

theorem Carried.covered (h : Carried cf M s x mid y tail) (hM : M.Signed cf sch my_id) :
    (if M.routing = 1 then s.elements else s.elements.dropLast) = x :: mid ++ [y] := by
  rw [h.elements]
  obtain h1 | h2 := hM.routing
  · rw [if_pos h1, h.prio_tail h1]
  · have hne : M.routing ≠ 1 := by rw [h2]; decide
    obtain ⟨z, rfl, -⟩ := h.rel_tail h2
    rw [if_neg hne, show x :: mid ++ [y, z] = x :: mid ++ [y] ++ [z] by simp, dropLast_concat]

theorem Carried.last_len (h : Carried cf M s x mid y tail) (hM : M.Signed cf sch my_id) :
    y.len = header_size M.routing + cf.bitmask_size + cf.sig_len M.routing :=
  (Elem.bytes_len h.last).trans hM.last_len

theorem header_size_le (routing : UInt8) : header_size routing ≤ 40 := by
  unfold header_size
  split <;> decide

theorem sig_len_lt (cf : Conf) (routing : UInt8) : cf.sig_len routing < 2 ^ 16 := by
  have hlt := cf.sizes_lt.2
  unfold Conf.sig_len Conf.prio_signature_len Conf.rel_signature_len
  split <;> split <;> omega

theorem sub32_eq {a b : ℕ} (ha : a < 2 ^ 32) (hb : b ≤ a) : sub32 a b = a - b := by
  unfold sub32
  omega

theorem sub64_eq {a b : ℕ} (ha : a < 2 ^ 64) (hb : b ≤ a) : sub64 a b = a - b := by
  unfold sub64
  omega

theorem Carried.verify_input (h : Carried cf M s x mid y tail) (hM : M.Signed cf sch my_id)
    {t : Scat} (ht : t.type = s.type) :
    verify_input cf (cf.sig_len M.routing) t (x.hidden cf :: mid ++ [y]) = M.input cf := by
  have hlast := h.last_len hM
  have hheader := header_size_le M.routing
  have hsig := sig_len_lt cf M.routing
  have hmask := cf.sizes_lt.1
  have hsub : sub32 y.len (cf.sig_len M.routing) = header_size M.routing + cf.bitmask_size := by
    rw [sub32_eq (by omega) (by omega)]
    omega
  have hbuf : y.buf.bytes 0 (header_size M.routing + cf.bitmask_size) = M.header cf := by
    unfold Message.header
    apply Mem.bytes_congr
    intro i _ hi
    exact (Elem.bytes_eq_iff.mp h.last).2 i (by omega)
  unfold Signing.verify_input Message.input type_bytes
  rw [dropLast_concat, List.getLast?_concat, elim_some, hsub, hbuf, ht, h.type,
    flatMap_cons, h.first, flatMap_of_bytes h.middle, append_assoc _ M.first.bytes]

theorem Carried.signature_of (h : Carried cf M s x mid y tail) (hM : M.Signed cf sch my_id)
    (x' : Elem) : signature_of (cf.sig_len M.routing) (x' :: mid ++ [y]) =
      M.last.buf.bytes (M.last.len - cf.sig_len M.routing) (cf.sig_len M.routing) := by
  have hlast := h.last_len hM
  unfold Signing.signature_of
  rw [List.getLast?_concat, elim_some, Elem.bytes_len h.last]
  apply Mem.bytes_congr
  intro i _ hi
  have hM' := hM.last_len
  exact (Elem.bytes_eq_iff.mp h.last).2 i (by omega)

theorem Carried.msg_size (h : Carried cf M s x mid y tail) (hM : M.Signed cf sch my_id) :
    s.msg_size = SIZEOF_PACKET_HEADER + SIZEOF_UDP_HEADER + s.hdr.load cf.endian LEN 2 +
      header_size M.routing + (tail.map Elem.len).sum + (cf.bitmask_size + cf.sig_len M.routing) := by
  have hload : s.hdr.load cf.endian LEN 2 = M.first.buf.load cf.endian LEN 2 :=
    h.load hM (by decide)
  have hsize := hM.size
  have hlast := h.last_len hM
  have hfirst : x.len = M.first.len := by
    have hlen : (x.hidden cf).len = M.first.len := Elem.bytes_len h.first
    exact hlen
  unfold Scat.msg_size
  rw [h.elements, hload, cons_append, map_cons, map_append, map_cons,
    sum_cons, sum_append, sum_cons, map_len_of_bytes h.middle]
  omega

theorem Carried.hidden_covered (h : Carried cf M s x mid y tail) (hM : M.Signed cf sch my_id) :
    (if M.routing = 1 then (s.on_hdr (hide cf)).elements
      else (s.on_hdr (hide cf)).elements.dropLast) = x.hidden cf :: mid ++ [y] := by
  have hcovered := h.covered hM
  rw [h.elements] at hcovered
  rw [on_hdr_cons (h.elements.trans (cons_append ..))]
  obtain h1 | h2 := hM.routing
  · rw [h.prio_tail h1]
    rw [if_pos h1]
    rfl
  · have hne : M.routing ≠ 1 := by rw [h2]; decide
    obtain ⟨z, rfl, -⟩ := h.rel_tail h2
    rw [if_neg hne]
    have hsplit : (⟨hide cf x.buf, x.len⟩ :: (mid ++ [y, z]) : List Elem) =
        (x.hidden cf :: mid ++ [y]) ++ [z] := by simp [Elem.hidden]
    rw [hsplit, dropLast_concat]

theorem Carries.recomputed (h : Carries cf M s) (hM : M.Signed cf sch my_id) :
    recomputed cf s = M.input cf := by
  obtain ⟨x, mid, y, tail, h⟩ := h
  have hcovered := h.hidden_covered hM
  have hinput := h.verify_input hM (t := s.on_hdr (hide cf)) rfl
  unfold Signing.recomputed prio_input rel_input
  rw [h.routing hM]
  dsimp only
  rw [hide_path_set_ttl]
  unfold Conf.sig_len at hinput
  by_cases h1 : M.routing = 1
  · rw [if_pos h1] at hcovered hinput ⊢
    rw [hcovered, hinput]
  · rw [if_neg h1] at hcovered hinput ⊢
    rw [hcovered, hinput]

theorem Carried.prio (h : Carried cf M s x mid y tail) (hM : M.Signed cf sch my_id)
    (h1 : M.routing = 1) (id : ℕ) :
    priority_flood_disseminate cf sch id s = some (s.stamped cf id) := by
  have hsize := h.msg_size hM
  have hsource : cf.lookup (s.hdr.load cf.endian SOURCE 4) = some my_id := by
    rw [h.load hM (by decide), hM.source h1]
  have hcovered := h.hidden_covered hM
  have hlast := h.last_len hM
  have hmask := cf.sizes_lt.1
  have hsig := sig_len_lt cf M.routing
  have hinput := h.verify_input hM (t := s.on_hdr (hide cf)) rfl
  have hsignature := h.signature_of hM (x.hidden cf)
  have hverifies := hM.verifies
  have hheader : header_size M.routing = SIZEOF_PRIO_HEADER := if_pos h1
  have hlen : cf.sig_len M.routing = cf.prio_signature_len := if_pos h1
  have hcrypto : cf.crypto M.routing = cf.prio_crypto := if_pos h1
  have hforty : SIZEOF_PRIO_HEADER = 40 := rfl
  rw [if_pos h1] at hcovered
  rw [hheader, hlen] at hlast
  rw [hlen] at hinput hsignature hverifies hsig
  rw [hcrypto] at hverifies
  rw [h.prio_tail h1, hheader, hlen, map_nil, sum_nil] at hsize
  have hnotsmall : ¬sub64 (sub64 y.len SIZEOF_PRIO_HEADER) cf.bitmask_size <
      cf.prio_signature_len := by
    rw [sub64_eq (b := SIZEOF_PRIO_HEADER) (by omega) (by omega), sub64_eq (by omega) (by omega)]
    omega
  unfold priority_flood_disseminate
  rw [if_neg (by omega), hsource]
  dsimp only
  rw [hide_path_set_ttl, hcovered, List.getLast?_concat, elim_some, if_neg hnotsmall,
    hinput, hsignature]
  by_cases hcr : cf.prio_crypto = true
  · rw [if_pos hcr, hverifies hcr, if_neg (by decide), map_some, ← hide_path_set_ttl,
      restore_stamped]
  · rw [if_neg hcr, map_some, hide_stamped]

theorem Carried.rel (h : Carried cf M s x mid y tail) (hM : M.Signed cf sch my_id)
    (h2 : M.routing = 2) (id : ℕ) :
    reliable_flood_disseminate cf sch id s = some (s.stamped cf id) := by
  have hne : M.routing ≠ 1 := by rw [h2]; decide
  have hsize := h.msg_size hM
  have hcovered := h.hidden_covered hM
  have hplain := h.covered hM
  have hlast := h.last_len hM
  have hmask := cf.sizes_lt.1
  have hsig := sig_len_lt cf M.routing
  have hinput := h.verify_input hM (t := s.on_hdr (hide cf)) rfl
  have hsignature := h.signature_of hM (x.hidden cf)
  have hverifies := hM.verifies
  have hheader : header_size M.routing = SIZEOF_REL_HEADER := if_neg hne
  have hlen : cf.sig_len M.routing = cf.rel_signature_len := if_neg hne
  have hcrypto : cf.crypto M.routing = cf.rel_crypto := if_neg hne
  have hsizeof : SIZEOF_REL_HEADER = 24 := rfl
  obtain ⟨z, rfl, hz⟩ := h.rel_tail h2
  rw [if_neg hne] at hcovered hplain
  rw [hheader, hlen] at hlast
  rw [hlen] at hinput hsignature hverifies hsig
  rw [hcrypto] at hverifies
  rw [hheader, hlen, map_singleton, sum_singleton, hz.1] at hsize
  have hbuf := (Elem.bytes_eq_iff.mp h.last).2
  have htype : y.buf 16 = 1 := by rw [hbuf 16 (by omega), (hM.src_id h2).1]
  have hsrc : y.buf.load cf.endian 0 2 = my_id := by
    rw [← (hM.src_id h2).2]
    apply Mem.load_congr
    intro i _ hi
    exact hbuf i (by omega)
  have htail : s.elements.getLast? = some z := by
    rw [h.elements, show x :: mid ++ [y, z] = x :: mid ++ [y] ++ [z] by simp, List.getLast?_concat]
  have hbefore : s.elements.dropLast.getLast? = some y := by
    rw [hplain, List.getLast?_concat]
  have hrange := hM.my_id_range
  have hverify : reliable_flood_verify cf sch my_id (s.hide_path cf) = some (s.hide_path cf) := by
    unfold reliable_flood_verify
    by_cases hcr : cf.rel_crypto = false
    · rw [if_pos hcr]
    · rw [Bool.not_eq_false] at hcr
      rw [hcr, if_neg (by decide), if_neg (by omega)]
      dsimp only
      rw [hide_path_set_ttl, hcovered, hinput, hsignature, hverifies hcr, if_neg (by decide),
        ← hide_path_set_ttl]
      unfold Scat.set_ttl
      rw [on_hdr_on_hdr, on_hdr_id]
      rw [update_idem, Function.update_eq_self]
  unfold reliable_flood_disseminate
  rw [htail, hbefore]
  dsimp only
  rw [if_neg (by rw [htype]; decide), if_neg (by omega), if_neg (by rw [hz.2]; decide), hsrc,
    hverify, map_some, hide_stamped]

theorem Carries.disseminate (h : Carries cf M s) (hM : M.Signed cf sch my_id) (id : ℕ) :
    disseminate cf sch id s = some (s.stamped cf id) := by
  obtain ⟨x, mid, y, tail, h⟩ := h
  unfold Signing.disseminate
  rw [h.routing hM]
  obtain h1 | h2 := hM.routing
  · rw [if_pos h1, h.prio hM h1]
  · have hne : M.routing ≠ 1 := by rw [h2]; decide
    rw [if_neg hne, if_pos h2, h.rel hM h2]

theorem Carries.sends (h : Carries cf M s) (hM : M.Signed cf sch my_id) {t : Scat}
    (hsends : Sends cf s t) : Carries cf M t := by
  have hrouting : s.hdr ROUTING = M.routing := by
    obtain ⟨x, mid, y, tail, hc⟩ := h
    exact hc.routing hM
  unfold Sends at hsends
  rw [hrouting] at hsends
  obtain h1 | h2 := hM.routing
  · rw [if_pos h1] at hsends
    rwa [hsends]
  · have hne : M.routing ≠ 1 := by rw [h2]; decide
    rw [if_neg hne] at hsends
    obtain ⟨buf, acks, hlt, rfl⟩ := hsends
    exact h.retail h2 (rel_tail_good buf hlt)

theorem Travels.carries (hM : M.Signed cf sch my_id) {s0 : Scat} (h0 : Carries cf M s0) {id : ℕ}
    {s : Scat} (h : Travels cf sch my_id s0 id s) : Carries cf M s := by
  induction h with
  | source => exact h0
  | @link id id' s t u v _ _ haccepted hsends hcrosses ih =>
    have hhop : Carries cf M s.hop := ih.set_ttl _
    rw [disseminate_stamped haccepted] at hsends
    exact ((hhop.stamped id).sends hM hsends).crosses hcrosses

end Accept

/-! ## 7. What the source sends -/

section Sent

variable {s t : Scat} {x y : Elem} {mid : List Elem} {sch : Scheme} {my_id : ℕ} {input : Bytes}

theorem append_nil (x : Elem) : x.append [] = x := by
  unfold Elem.append Mem.write
  simp

theorem append_bytes (x : Elem) (bs : Bytes) {n : ℕ} (h : n ≤ x.len) :
    (x.append bs).buf.bytes 0 n = x.buf.bytes 0 n := by
  apply Mem.bytes_congr
  intro i _ hi
  exact Mem.write_other (by omega)

theorem restore_hidden (cf : Conf) (m : Mem) :
    (if cf.path_stamp_debug then put_path (path m) (update (hide cf m) TTL (m TTL))
      else update (hide cf m) TTL (m TTL)) = m := by
  by_cases hdebug : cf.path_stamp_debug = true
  · rw [if_pos hdebug]
    funext j
    rw [put_path_apply]
    by_cases hj : PATH ≤ j ∧ j < PATH + 8
    · rw [if_pos hj, path]
      congr 1
      omega
    · rw [if_neg hj, update_apply]
      split
      · next heq => rw [heq]
      · next hne => exact hide_other (by unfold Hidden; omega)
  · rw [if_neg hdebug]
    funext j
    rw [update_apply]
    split
    · next heq => rw [heq]
    · next hne =>
        apply hide_other
        intro hhidden
        obtain heq | ⟨hdebug', -⟩ := hhidden
        · exact hne heq
        · exact hdebug hdebug'

theorem sign_message_eq {crypto : Bool} (hs : s.elements = x :: mid ++ [y])
    (h : sign_message cf sch crypto my_id s = some (t, input)) :
    input = type_bytes cf s ++ (x.hidden cf :: mid ++ [y]).flatMap Elem.bytes ∧
      ∃ signature : Bytes, signature.length = (if crypto then cf.signature_len else 0) ∧
        (crypto = true → sch.sign my_id input = some signature) ∧
        t = { s with elements := x :: mid ++ [y.append signature] } := by
  have hcons : s.elements = x :: (mid ++ [y]) := hs.trans (cons_append ..)
  have hinput : sign_input cf ((s.set_ttl 0).hide_path cf) =
      type_bytes cf s ++ (x.hidden cf :: mid ++ [y]).flatMap Elem.bytes := by
    rw [set_ttl_hide_path, on_hdr_cons hcons]
    rfl
  unfold sign_message at h
  dsimp only at h
  rw [hinput] at h
  by_cases hcrypto : crypto = true
  · rw [if_pos hcrypto] at h
    cases hsign : sch.sign my_id
        (type_bytes cf s ++ (x.hidden cf :: mid ++ [y]).flatMap Elem.bytes) with
    | none => rw [hsign] at h; cases h
    | some signature =>
      rw [hsign] at h
      dsimp only at h
      split at h
      · cases h
      · next hlen =>
          push Not at hlen
          obtain ⟨ht, rfl⟩ := Prod.mk.inj (some.inj h)
          refine ⟨rfl, signature, ?_, fun _ => hsign, ?_⟩
          · rw [if_pos hcrypto, hlen]
          · rw [← ht, set_ttl_hide_path, on_hdr_cons hcons]
            have hrestored := restore_hidden cf x.buf
            have hlast : Scat.on_last (fun x => x.append signature)
                { s with elements := (⟨hide cf x.buf, x.len⟩ : Elem) :: (mid ++ [y]) } =
                { s with elements := (⟨hide cf x.buf, x.len⟩ : Elem) ::
                  (mid ++ [y.append signature]) } := by
              unfold Scat.on_last
              rw [← cons_append, dropLast_concat, List.getLast?_concat]
              rfl
            rw [hlast, hdr_cons hcons]
            unfold Scat.put_path Scat.set_ttl
            by_cases hdebug : cf.path_stamp_debug = true
            · rw [if_pos hdebug] at hrestored ⊢
              rw [on_hdr_on_hdr, on_hdr_cons rfl, hrestored]
              rfl
            · rw [if_neg hdebug] at hrestored ⊢
              rw [on_hdr_cons rfl, hrestored]
              rfl
  · rw [if_neg hcrypto] at h
    obtain ⟨rfl, rfl⟩ := Prod.mk.inj (some.inj h)
    refine ⟨rfl, [], ?_, ?_, ?_⟩
    · rw [if_neg hcrypto]
      rfl
    · intro hcrypto'
      exact absurd hcrypto' hcrypto
    · rw [append_nil, ← hs]

structure Draft (cf : Conf) (my_id : ℕ) (s : Scat) (x : Elem) (mid : List Elem) (y : Elem) :
    Prop where
  elements : s.elements = x :: mid ++ [y]
  type : s.type = data_type cf
  routing : x.buf ROUTING = 1 ∨ x.buf ROUTING = 2
  header_in_first : SIZEOF_UDP_HEADER ≤ x.len
  size : x.len + (mid.map Elem.len).sum = SIZEOF_UDP_HEADER + x.buf.load cf.endian LEN 2
  last_len : y.len = header_size (x.buf ROUTING) + cf.bitmask_size
  source : x.buf ROUTING = 1 → cf.lookup (x.buf.load cf.endian SOURCE 4) = some my_id
  src_id : x.buf ROUTING = 2 → y.buf 16 = 1 ∧ y.buf.load cf.endian 0 2 = my_id
  my_id_range : 1 ≤ my_id ∧ my_id ≤ RelFlood.MAX_NODES

theorem Draft.signed (hd : Draft cf my_id s x mid y) (hsch : sch.Exact)
    (h : sign_message cf sch (cf.crypto (x.buf ROUTING)) my_id s = some (t, input)) :
    ∃ M : Message, M.Signed cf sch my_id ∧ M.routing = x.buf ROUTING ∧ M.input cf = input ∧
      ∃ y', t.elements = x :: mid ++ [y'] ∧ t.type = data_type cf ∧
        (x.hidden cf).bytes = M.first.bytes ∧ mid = M.middle ∧ y' = M.last := by
  obtain ⟨hinput, signature, hlen, hsign, rfl⟩ := sign_message_eq hd.elements h
  have hrouting : (hide cf x.buf) ROUTING = x.buf ROUTING :=
    hide_other (not_hidden (by decide) (by decide))
  have hsig : signature.length = cf.sig_len (x.buf ROUTING) := by
    rw [hlen]
    unfold Conf.crypto Conf.sig_len Conf.prio_signature_len Conf.rel_signature_len
    split <;> rfl
  have hheader : (y.append signature).buf.bytes 0 (header_size (x.buf ROUTING) + cf.bitmask_size) =
      y.bytes := by
    rw [append_bytes _ _ (by rw [hd.last_len]), ← hd.last_len]
    rfl
  have hlarge : 24 ≤ y.len := by
    have hlast := hd.last_len
    have hsizes : 24 ≤ header_size (x.buf ROUTING) := by
      unfold header_size
      split <;> decide
    omega
  refine ⟨⟨x.hidden cf, mid, y.append signature⟩, ?_, hrouting, ?_, _, rfl, hd.type, rfl, rfl, rfl⟩
  · have hM : Message.routing ⟨x.hidden cf, mid, y.append signature⟩ = x.buf ROUTING := hrouting
    have hinput' : Message.input ⟨x.hidden cf, mid, y.append signature⟩ cf = input := by
      rw [hinput]
      unfold Message.input Message.header type_bytes
      rw [hM, hheader, hd.type]
      simp
    exact
      { routing := by rw [hM]; exact hd.routing
        header_in_first := hd.header_in_first
        size := by
          have hload : (hide cf x.buf).load cf.endian LEN 2 = x.buf.load cf.endian LEN 2 :=
            load_hide (by decide)
          have hsize := hd.size
          rw [← hload] at hsize
          exact hsize
        last_len := by
          rw [hM, ← hsig, ← hd.last_len]
          rfl
        source := by
          have hload : (hide cf x.buf).load cf.endian SOURCE 4 = x.buf.load cf.endian SOURCE 4 :=
            load_hide (by decide)
          have hsource := hd.source
          rw [← hload] at hsource
          rw [hM]
          exact hsource
        src_id := by
          rw [hM]
          intro h2
          obtain ⟨htype, hid⟩ := hd.src_id h2
          refine ⟨?_, ?_⟩
          · rw [← htype]
            exact Mem.write_other (by omega)
          · rw [← hid]
            apply Mem.load_congr
            intro i _ hi
            exact Mem.write_other (by omega)
        my_id_range := hd.my_id_range
        verifies := by
          rw [hM, hinput']
          intro hcrypto
          have hback : (y.append signature).buf.bytes
              ((y.append signature).len - cf.sig_len (x.buf ROUTING))
              (cf.sig_len (x.buf ROUTING)) = signature := by
            unfold Elem.append
            rw [← hsig, Nat.add_sub_cancel]
            exact Mem.bytes_write rfl
          rw [hback]
          exact (hsch _ _ _ (hsign hcrypto) _ _).mpr ⟨rfl, rfl⟩ }
  · rw [hinput]
    unfold Message.input Message.header type_bytes
    have hM : Message.routing ⟨x.hidden cf, mid, y.append signature⟩ = x.buf ROUTING := hrouting
    rw [hM, hheader, hd.type]
    simp

/-- What `Process_Session_Packet` hands on. -/
structure Accepted (cf : Conf) (src : Source cf) (s : Scat) (x : Elem) (l : List Elem) : Prop where
  elements : s.elements = x :: l
  type : s.type = data_type cf
  header_in_first : SIZEOF_UDP_HEADER ≤ x.len
  size : x.len + (l.map Elem.len).sum = SIZEOF_UDP_HEADER + x.buf.load cf.endian LEN 2
  source : x.buf.load cf.endian SOURCE 4 = src.my_address

theorem split_packet_len (cf : Conf) (fresh : ℕ → Mem) (data : Mem) (fuel i pos remaining : ℕ)
    (h : remaining ≤ fuel) :
    ((split_packet cf fresh data fuel i pos remaining).map Elem.len).sum = remaining := by
  have hlink := cf.link_header_le
  induction fuel generalizing i pos remaining with
  | zero =>
    have hzero : remaining = 0 := by omega
    subst hzero
    rfl
  | succ fuel ih =>
    unfold split_packet
    split
    · next hzero =>
        subst hzero
        rfl
    · dsimp only
      rw [map_cons, sum_cons]
      dsimp only
      unfold MAX_PACKET_SIZE SIZEOF_FRAGMENT_HEADER
      split
      · rw [ih _ _ _ (by omega)]
        omega
      · rw [ih _ _ _ (by omega)]
        omega

theorem process_session_packet_eq {src : Source cf} {env : SendEnv} {data : Mem} {read_len : ℕ}
    (h : process_session_packet cf src env data read_len = some s) :
    ∃ x l, Accepted cf src s x l := by
  have hlink := cf.link_header_le
  unfold process_session_packet at h
  dsimp only at h
  generalize hdata : (data.store cf.endian SOURCE 4 src.my_address).store cf.endian SOURCE_PORT 2
    env.source_port = data' at h
  have hsource : data'.load cf.endian SOURCE 4 = src.my_address := by
    rw [← hdata, Mem.load_store_other (by decide), Mem.load_store]
    exact src.address_lt
  split at h
  · cases h
  · next hlen =>
      push Not at hlen
      split at h
      · cases h
      · obtain rfl := some.inj h
        have hsum := split_packet_len cf env.fresh data' read_len 1 0 read_len
          (le_refl _)
        obtain ⟨fuel, rfl⟩ : ∃ fuel, read_len = fuel + 1 :=
          ⟨read_len - 1, by unfold SIZEOF_UDP_HEADER at hlen; omega⟩
        unfold split_packet at hsum ⊢
        rw [if_neg (by omega)] at hsum ⊢
        dsimp only at hsum ⊢
        generalize hx : (if MAX_PACKET_SIZE < fuel + 1 + cf.link.link_header_size +
          SIZEOF_FRAGMENT_HEADER then MAX_PACKET_SIZE - cf.link.link_header_size -
            SIZEOF_FRAGMENT_HEADER else fuel + 1) = len at hsum ⊢
        have hlarge : SIZEOF_UDP_HEADER ≤ len := by
          rw [← hx]
          unfold MAX_PACKET_SIZE SIZEOF_FRAGMENT_HEADER SIZEOF_UDP_HEADER at *
          split <;> omega
        have hbuf : ∀ i < len, (env.fresh 1).write 0 (data'.bytes 0 len) i = data' i := by
          intro i hi
          simp [Mem.write, Mem.bytes, hi]
        have hload : ∀ pos w, pos + w ≤ SIZEOF_UDP_HEADER →
            ((env.fresh 1).write 0 (data'.bytes 0 len)).load cf.endian pos w =
              data'.load cf.endian pos w := by
          intro pos w hpos
          apply Mem.load_congr
          intro i _ hi
          exact hbuf i (by omega)
        refine ⟨_, _, ⟨rfl, rfl, hlarge, ?_, ?_⟩⟩
        · rw [hload _ _ (by decide)]
          rw [map_cons, sum_cons] at hsum
          omega
        · rw [hload _ _ (by decide), hsource]

theorem Accepted.on_hdr {src : Source cf} {l : List Elem} (h : Accepted cf src s x l) {f : Mem → Mem}
    (hlen : (f x.buf).load cf.endian LEN 2 = x.buf.load cf.endian LEN 2)
    (hsource : (f x.buf).load cf.endian SOURCE 4 = x.buf.load cf.endian SOURCE 4) :
    Accepted cf src (s.on_hdr f) ⟨f x.buf, x.len⟩ l := by
  refine ⟨?_, h.type, h.header_in_first, ?_, ?_⟩
  · rw [on_hdr_cons h.elements]
  · rw [hlen]
    exact h.size
  · rw [hsource, h.source]

theorem Accepted.draft {src : Source cf} {l : List Elem} (h : Accepted cf src s x l) {y : Elem}
    (hrouting : x.buf ROUTING = 1 ∨ x.buf ROUTING = 2)
    (hlast : y.len = header_size (x.buf ROUTING) + cf.bitmask_size)
    (hsrc : x.buf ROUTING = 2 → y.buf 16 = 1 ∧ y.buf.load cf.endian 0 2 = src.my_id) :
    Draft cf src.my_id { s with elements := s.elements ++ [y] } x l y :=
  { elements := by rw [h.elements]
    type := h.type
    routing := hrouting
    header_in_first := h.header_in_first
    size := h.size
    last_len := hlast
    source := fun _ => by rw [h.source, src.lookup_my_address]
    src_id := hsrc
    my_id_range := cf.lookup_range _ _ src.lookup_my_address }

theorem rel_elem_src {src_id : ℕ} (hid : src_id < 2 ^ 16) (env : SendEnv) (buf mask : Mem) :
    (rel_elem cf src_id env buf mask).buf 16 = 1 ∧
      (rel_elem cf src_id env buf mask).buf.load cf.endian 0 2 = src_id := by
  have hwrite : ∀ (m : Mem) (i : ℕ), i < SIZEOF_REL_HEADER →
      m.write SIZEOF_REL_HEADER (mask.bytes 0 cf.bitmask_size) i = m i := by
    intro m i hi
    exact Mem.write_other (.inl hi)
  unfold rel_elem
  dsimp only
  refine ⟨?_, ?_⟩
  · rw [hwrite _ 16 (by decide)]
    unfold Mem.store Mem.write
    cases cf.endian <;> simp [Endian.order, le_bytes]
  · have hlt : src_id < 256 ^ 2 := by omega
    have hcopy : ∀ m : Mem, (m.write SIZEOF_REL_HEADER (mask.bytes 0 cf.bitmask_size)).load
        cf.endian 0 2 = m.load cf.endian 0 2 := by
      intro m
      apply Mem.load_congr
      intro i _ hi
      exact hwrite m i (by unfold SIZEOF_REL_HEADER; omega)
    rw [hcopy, Mem.load_store_other (by omega), Mem.load_store_other (by omega),
      Mem.load_store_other (by omega), Mem.load_store_other (by omega), Mem.load_store hlt]

theorem carries_sent {src : Source cf} {env : SendEnv} {data : Mem} {read_len : ℕ} {s0 : Scat}
    (hsch : sch.Exact) (haccepted : process_session_packet cf src env data read_len = some s)
    (hsent : session_send_message cf sch src env s = some (s0, input)) :
    ∃ M : Message, M.Signed cf sch src.my_id ∧ Carries cf M s0 ∧ M.input cf = input := by
  obtain ⟨x, l, hx⟩ := process_session_packet_eq haccepted
  unfold session_send_message at hsent
  split at hsent
  · cases hsent
  · next mask _ =>
    dsimp only at hsent
    rw [hdr_cons hx.elements] at hsent
    split at hsent
    · -- priority flooding; the destination may have been overwritten
      next h1 =>
      generalize hs' : (if is_group_addr (x.buf.load cf.endian DEST 4) ∧ cf.overwrite_ip ≠ 0 then
          s.on_hdr (fun m => m.store cf.endian DEST 4 cf.overwrite_ip)
        else s) = s' at hsent
      obtain ⟨x', hx', h1'⟩ : ∃ x', Accepted cf src s' x' l ∧ x'.buf ROUTING = 1 := by
        rw [← hs']
        split
        · refine ⟨_, hx.on_hdr ?_ ?_, ?_⟩
          · exact Mem.load_store_other (by decide)
          · exact Mem.load_store_other (by decide)
          · rw [← h1]
            exact Mem.store_other (.inr (by decide : DEST + 4 ≤ ROUTING))
        · exact ⟨x, hx, h1⟩
      have hdraft := hx'.draft (y := prio_elem cf env (env.fresh (s.elements.length + 1)) mask)
        (.inl h1') (by rw [h1']; rfl) (by rw [h1']; intro h; exact absurd h (by decide))
      have hcrypto : cf.crypto (x'.buf ROUTING) = cf.prio_crypto := by rw [h1']; rfl
      rw [← hcrypto] at hsent
      obtain ⟨M, hM, hrouting, hinput, y', helements, htype, hfirst, hmid, hlast⟩ :=
        hdraft.signed hsch hsent
      refine ⟨M, hM, ⟨x', l, y', [], ?_⟩, hinput⟩
      exact { elements := helements, type := htype, first := hfirst, middle := by rw [hmid]
              last := by rw [hlast]
              prio_tail := fun _ => rfl
              rel_tail := by
                rw [hrouting, h1']
                intro h
                exact absurd h (by decide) }
    · split at hsent
      · -- reliable flooding
        next h2 =>
        generalize hs' : (if cf.path_stamp_debug then
            s.on_hdr (fun m => (m.store .big (SIZEOF_UDP_HEADER + 4) 4 env.sec).store .big
              (SIZEOF_UDP_HEADER + 8) 4 env.usec)
          else s) = s' at hsent
        obtain ⟨x', hx', h2'⟩ : ∃ x', Accepted cf src s' x' l ∧ x'.buf ROUTING = 2 := by
          rw [← hs']
          split
          · refine ⟨_, hx.on_hdr ?_ ?_, ?_⟩
            · rw [Mem.load_store_other (by decide), Mem.load_store_other (by decide)]
            · rw [Mem.load_store_other (by decide), Mem.load_store_other (by decide)]
            · rw [← h2]
              dsimp only
              rw [Mem.store_other (by decide), Mem.store_other (by decide)]
          · exact ⟨x, hx, h2⟩
        have hne : x'.buf ROUTING ≠ 1 := by rw [h2']; decide
        have hid : src.my_id < 2 ^ 16 := by
          have hrange := (cf.lookup_range _ _ src.lookup_my_address).2
          unfold RelFlood.MAX_NODES at hrange
          omega
        have hdraft := hx'.draft
          (y := rel_elem cf src.my_id env (env.fresh (s.elements.length + 1)) mask)
          (.inr h2') (by rw [h2']; rfl) (fun _ => rel_elem_src hid env _ mask)
        have hcrypto : cf.crypto (x'.buf ROUTING) = cf.rel_crypto := by rw [h2']; rfl
        rw [← hcrypto] at hsent
        obtain ⟨⟨t, input'⟩, hsigned, heq⟩ := map_eq_some_iff.mp hsent
        obtain ⟨rfl, rfl⟩ := Prod.mk.inj heq
        obtain ⟨M, hM, hrouting, hinput, y', helements, htype, hfirst, hmid, hlast⟩ :=
          hdraft.signed hsch hsigned
        have htail : ((env.fresh (s.elements.length + 1 + 1)).store cf.endian 0 4 0).load
            cf.endian 0 4 = 0 := Mem.load_store (by decide)
        refine ⟨M, hM, ⟨x', l, y', [⟨(env.fresh (s.elements.length + 1 + 1)).store cf.endian 0 4 0,
          SIZEOF_REL_TAIL⟩], ?_⟩, hinput⟩
        exact { elements := by
                  dsimp only
                  rw [helements]
                  exact append_assoc (x' :: l) [y'] _
                type := htype
                first := hfirst
                middle := by rw [hmid]
                last := by rw [hlast]
                prio_tail := by
                  rw [hrouting]
                  intro h
                  exact absurd h hne
                rel_tail := by
                  intro _
                  refine ⟨_, rfl, ?_, ?_⟩
                  · dsimp only
                    rw [htail, add_zero]
                  · rw [htail]
                    rfl }
      · cases hsent

end Sent

/-! ## 8. Signer and verifier agree -/

/-- **Signer and verifier agree.** For every message a client may send: wherever it
arrives over correct daemons, whatever the paths, the tails and the packets of the links
between, the string that is verified is the one that was signed, and the message is
accepted. What a daemon has accepted is as it was received, with its own stamp. -/
theorem signed_string_agrees (cf : Conf) (sch : Scheme) (hsch : sch.Exact) (src : Source cf)
    (env : SendEnv) (data : Mem) (read_len : ℕ) (s s₀ : Scat) (input : Bytes)
    (haccepted : process_session_packet cf src env data read_len = some s)
    (hsent : session_send_message cf sch src env s = some (s₀, input)) (id : ℕ) (s' : Scat)
    (htravels : Travels cf sch src.my_id s₀ id s') :
    recomputed cf s'.hop = input ∧ disseminate cf sch id s'.hop = some (s'.hop.stamped cf id) := by
  obtain ⟨M, hM, hcarries, rfl⟩ := carries_sent hsch haccepted hsent
  have hhop : Carries cf M s'.hop := (htravels.carries hM hcarries).set_ttl _
  exact ⟨hhop.recomputed hM, hhop.disseminate hM id⟩

theorem crosses_refl {u : Scat} (hfits : Fits cf.link.link_header_size ⟨[], u.bodies⟩)
    (htype : u.type = data_type cf) : Crosses cf u u := by
  let m : SysScatter := ⟨[], u.bodies⟩
  let e : LinkEnd :=
    { LinkEnd.create cf.link 7 with
      outb.out_message := some m, outb.out_frag_idx := 1
      outb.out_frag_total := m.num_elements - 1 }
  have hwaiting : Waiting m e := ⟨rfl, rfl, rfl⟩
  have hround := fragments_round_trip cf.link m ⟨hfits.pos, hfits.le, hfits.elem⟩ e hwaiting
  obtain ⟨packets, e', hcalls, hdone⟩ := hround.2
  exact ⟨[], e, e', packets, hfits, hwaiting, hcalls, hdone, (hround.1 _ _ hcalls hdone).2.2.1, htype⟩

def plain_scheme : Scheme where
  sign s bytes := if s < 256 then some (UInt8.ofNat s :: bytes) else none
  verify s bytes signature := decide (s < 256 ∧ signature = UInt8.ofNat s :: bytes)

theorem plain_scheme_exact : plain_scheme.Exact := by
  intro s bytes signature hsign s' bytes'
  unfold plain_scheme at hsign ⊢
  dsimp only at hsign ⊢
  split at hsign
  · next hs =>
      rw [← some.inj hsign, decide_eq_true_iff]
      constructor
      · intro ⟨hs', heq⟩
        obtain ⟨hid, rfl⟩ := List.cons.inj heq
        have hnat := congrArg UInt8.toNat hid
        rw [UInt8.toNat_ofNat', UInt8.toNat_ofNat'] at hnat
        exact ⟨by omega, rfl⟩
      · rintro ⟨rfl, rfl⟩
        exact ⟨hs, rfl⟩
  · cases hsign

def plain_conf : Conf where
  endian := .little
  path_stamp_debug := true
  bitmask_size := 1
  signature_len := 98
  prio_crypto := true
  rel_crypto := true
  lookup a := if a = 1 ∨ a = 2 then some a else none
  link := IntruTol.plain_conf
  overwrite_ip := 0
  lookup_range := by
    intro a s h
    split at h
    · rw [← Option.some.inj h]
      unfold RelFlood.MAX_NODES
      omega
    · cases h
  link_header_le := by decide
  sizes_lt := by decide

theorem plain_address_lt : 1 < 2 ^ 32 := by decide

def plain_source : Source plain_conf := ⟨1, 1, plain_address_lt, rfl⟩

def plain_send : SendEnv where
  fresh := fun _ _ => 0
  source_port := 8100
  sec := 1000
  usec := 0
  mask := some fun _ => 255
  dst_id := 2
  epoch := 1
  seq_num := 1
  priority := 1
  expire := (1100, 0)

def plain_data : Mem := fun i =>
  if i = LEN then 24 else if i = DEST then 2 else if i = TTL then 255 else if i = ROUTING then 1
  else 0

def plain_accepted : Scat :=
  (process_session_packet plain_conf plain_source plain_send plain_data 52).get (by decide +kernel)

def plain_sent : Scat × Bytes :=
  (session_send_message plain_conf plain_scheme plain_source plain_send plain_accepted).get
    (by decide +kernel)

def plain_stamped : Scat := plain_sent.1.hop.stamped plain_conf 1

theorem signed_string_agrees_plain :
    plain_sent.2.length = 97 ∧ plain_stamped.hdr TTL = 254 ∧ plain_stamped.hdr PATH = 1 ∧
      recomputed plain_conf plain_stamped.hop = plain_sent.2 ∧
      disseminate plain_conf plain_scheme 2 plain_stamped.hop =
        some (plain_stamped.hop.stamped plain_conf 2) := by
  have haccepted : process_session_packet plain_conf plain_source plain_send plain_data 52 =
      some plain_accepted := (some_get _).symm
  have hsent : session_send_message plain_conf plain_scheme plain_source plain_send plain_accepted =
      some plain_sent := (some_get _).symm
  have hagrees := signed_string_agrees plain_conf plain_scheme plain_scheme_exact plain_source
    plain_send plain_data 52 plain_accepted plain_sent.1 plain_sent.2 haccepted hsent
  have hfirst := (hagrees 1 plain_sent.1 .source).2
  have hcrosses : Crosses plain_conf plain_stamped plain_stamped :=
    crosses_refl ⟨by decide +kernel, by decide +kernel, by decide +kernel⟩ (by decide +kernel)
  have hsends : Sends plain_conf plain_stamped plain_stamped := by
    unfold Sends
    rw [if_pos (by decide +kernel)]
  have htravels : Travels plain_conf plain_scheme plain_source.my_id plain_sent.1 2 plain_stamped :=
    .link .source (by decide +kernel) hfirst hsends hcrosses
  have hsecond := hagrees 2 plain_stamped htravels
  exact ⟨by decide +kernel, by decide +kernel, by decide +kernel, hsecond⟩

end Spines.Signing
