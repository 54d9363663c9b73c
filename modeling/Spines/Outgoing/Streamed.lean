/-
The stream to a client is the frames of the messages, one after the other, whatever its
socket takes and when.

What is still to be written is a pattern of its own (`remaining`): the first cell from
`sent_bytes` on, and of the others their frames, the later fragments of a packet without
length and header. For this the cells of one packet must follow each other in
`rel_deliver_buff` (`Linked`), and `Session_Write` must take a fragment for one.

It does not on a session of `SOURCE_BASED_ROUTING`: fragments that had to wait go out as
packets of their own. And when the socket takes nothing at all in `Session_Write`, nobody
waits for the socket any more. `Session.Meets` leaves out both.
-/
import Spines.Outgoing.Stream

set_option autoImplicit false

namespace Spines.Outgoing

open Spines.Lib Option List

/-! ## 1. Frames of cells -/

section Frames

variable {e : Endian} {r : Routing} {c : UDP_Cell} {buff first : Bytes} {junk : Mem}
  {total_len : ℕ}

theorem int32_length (x : ℕ) : (int32 e x).length = SIZEOF_INT32 := by
  simp [int32, SIZEOF_INT32]

theorem forall₂_fits (l : Bytes) : List.Forall₂ Fits l (l.map some) := by
  induction l with
  | nil => exact .nil
  | cons x l ih =>
    refine .cons ?_ ih
    intro y hy
    exact some.inj hy

theorem forall₂_unset (l : Bytes) : List.Forall₂ Fits l (replicate l.length none) := by
  induction l with
  | nil => exact .nil
  | cons x l ih => exact .cons nofun ih

theorem first_frag_udp_hdr_eq (hlen : SIZEOF_UDP_HEADER ≤ buff.length) :
    first_frag_udp_hdr e junk buff total_len =
      buff.take 8 ++ junk.bytes 8 4 ++ (buff.drop 12).take 4 ++
        e.order (le_bytes 2 (total_len - SIZEOF_UDP_HEADER)) ++ (buff.drop 18).take 8 ++
        junk.bytes 26 2 := by
  simp only [SIZEOF_UDP_HEADER] at hlen
  have hsplit : (buff.drop 12).take 14 =
      (buff.drop 12).take 4 ++ ((buff.drop 16).take 2 ++ (buff.drop 18).take 8) := by
    have hfour : (buff.drop 12).take (4 + 10) = (buff.drop 12).take 4 ++ (buff.drop 16).take 10 := by
      rw [take_add, drop_drop]
    have htwo : (buff.drop 16).take (2 + 8) = (buff.drop 16).take 2 ++ (buff.drop 18).take 8 := by
      rw [take_add, drop_drop]
    exact hfour.trans (congrArg _ htwo)
  have hfront : (buff.take 8 ++ junk.bytes 8 4 ++ (buff.drop 12).take 4).length = 16 := by
    simp only [length_append, length_take, length_drop, Mem.bytes_length]
    omega
  have htwo : ((buff.drop 16).take 2).length = 2 := by
    rw [length_take, length_drop]
    omega
  have hcopy : Copy_udp_header junk buff =
      (buff.take 8 ++ junk.bytes 8 4 ++ (buff.drop 12).take 4) ++
        ((buff.drop 16).take 2 ++ ((buff.drop 18).take 8 ++ junk.bytes 26 2)) := by
    rw [Copy_udp_header, hsplit]
    simp only [append_assoc]
  have htake : (Copy_udp_header junk buff).take 16 =
      buff.take 8 ++ junk.bytes 8 4 ++ (buff.drop 12).take 4 := by
    rw [hcopy, take_left' hfront]
  have hdrop : (Copy_udp_header junk buff).drop 18 =
      (buff.drop 18).take 8 ++ junk.bytes 26 2 := by
    have hsum : (Copy_udp_header junk buff).drop (16 + 2) =
        ((Copy_udp_header junk buff).drop 16).drop 2 := by
      rw [drop_drop]
    rw [hsum, hcopy, drop_left' hfront, drop_left' htwo]
  rw [first_frag_udp_hdr, set_len, htake, hdrop]
  simp only [append_assoc]

theorem first_frag_udp_hdr_length (hlen : SIZEOF_UDP_HEADER ≤ buff.length) :
    (first_frag_udp_hdr e junk buff total_len).length = SIZEOF_UDP_HEADER := by
  rw [first_frag_udp_hdr_eq hlen]
  simp only [SIZEOF_UDP_HEADER] at hlen ⊢
  simp only [length_append, length_take, length_drop, Mem.bytes_length,
    Endian.order_length, le_bytes_length]
  omega

theorem copied_header_fits (hlen : SIZEOF_UDP_HEADER ≤ buff.length) :
    List.Forall₂ Fits (first_frag_udp_hdr e junk buff total_len)
      (copied_header e buff total_len) := by
  have hjunk : ∀ p w, List.Forall₂ Fits (junk.bytes p w) (replicate w none) := by
    intro p w
    have hunset := forall₂_unset (junk.bytes p w)
    rwa [Mem.bytes_length] at hunset
  rw [first_frag_udp_hdr_eq hlen, copied_header]
  apply rel_append _ (hjunk 26 2)
  apply rel_append _ (forall₂_fits _)
  apply rel_append _ (forall₂_fits _)
  apply rel_append _ (forall₂_fits _)
  exact rel_append (forall₂_fits _) (hjunk 8 4)

def UDP_Cell.frame (e : Endian) (r : Routing) (c : UDP_Cell) : Pattern :=
  (int32 e (c.send_bytes r)).map some ++
    (if c.first r then copied_header e c.buff c.total_len
      else (c.buff.take SIZEOF_UDP_HEADER).map some) ++
    (payload c.buff).map some

def UDP_Cell.raw (e : Endian) (r : Routing) (junk : Mem) (c : UDP_Cell) : Bytes :=
  int32 e (c.send_bytes r) ++ c.send_hdr e r junk ++ payload c.buff

theorem UDP_Cell.raw_fits (hlen : SIZEOF_UDP_HEADER ≤ c.buff.length) :
    List.Forall₂ Fits (c.raw e r junk) (c.frame e r) := by
  apply rel_append _ (forall₂_fits _)
  apply rel_append (forall₂_fits _)
  rw [UDP_Cell.send_hdr]
  split
  · exact copied_header_fits hlen
  · exact forall₂_fits _

theorem UDP_Cell.send_hdr_length (hlen : SIZEOF_UDP_HEADER ≤ c.buff.length) :
    (c.send_hdr e r junk).length = SIZEOF_UDP_HEADER := by
  rw [UDP_Cell.send_hdr]
  split
  · exact first_frag_udp_hdr_length hlen
  · rw [length_take]
    omega

theorem UDP_Cell.raw_length (hlen : SIZEOF_UDP_HEADER ≤ c.buff.length) :
    (c.raw e r junk).length = SIZEOF_INT32 + c.buff.length := by
  rw [UDP_Cell.raw, length_append, length_append, int32_length, send_hdr_length hlen,
    payload, length_drop]
  omega

theorem drop_frame {x hdr rest : Bytes} (s : ℕ) (hx : x.length = SIZEOF_INT32)
    (hhdr : hdr.length = SIZEOF_UDP_HEADER) :
    (x ++ hdr ++ rest).drop s =
      if s < SIZEOF_INT32 then x.drop s ++ hdr ++ rest
      else if s < SIZEOF_UDP_HEADER + SIZEOF_INT32 then hdr.drop (s - SIZEOF_INT32) ++ rest
      else rest.drop (s - SIZEOF_INT32 - SIZEOF_UDP_HEADER) := by
  rw [append_assoc, drop_append, hx, drop_append, hhdr]
  by_cases hlen : s < SIZEOF_INT32
  · have hzero : s - SIZEOF_INT32 = 0 := by omega
    rw [if_pos hlen, hzero, drop_zero, Nat.zero_sub, drop_zero, append_assoc]
  · have hnil : x.drop s = [] := drop_eq_nil_of_le (by omega)
    rw [if_neg hlen, hnil, nil_append]
    by_cases hheader : s < SIZEOF_UDP_HEADER + SIZEOF_INT32
    · have hzero : s - SIZEOF_INT32 - SIZEOF_UDP_HEADER = 0 := by omega
      rw [if_pos hheader, hzero, drop_zero]
    · have hnil' : hdr.drop (s - SIZEOF_INT32) = [] := drop_eq_nil_of_le (by omega)
      rw [if_neg hheader, hnil', nil_append]

theorem UDP_Cell.offer_eq (hlen : SIZEOF_UDP_HEADER ≤ c.buff.length) (s : ℕ) :
    c.offer e r junk s = (c.raw e r junk).drop s := by
  rw [UDP_Cell.raw, drop_frame s (int32_length _) (send_hdr_length hlen), UDP_Cell.offer]

theorem offer_packet_eq (s : ℕ) : offer_packet e buff s = (int32 e buff.length ++ buff).drop s := by
  rw [offer_packet, drop_append, int32_length]
  split
  · have hzero : s - SIZEOF_INT32 = 0 := by omega
    rw [hzero, drop_zero]
  · have hnil : (int32 e buff.length).drop s = [] :=
      drop_eq_nil_of_le (by rw [int32_length]; omega)
    rw [hnil, nil_append]

theorem offer_frag_eq {hdr : Bytes} (hhdr : hdr.length = SIZEOF_UDP_HEADER) (s : ℕ)
    (hfirst : SIZEOF_UDP_HEADER + SIZEOF_INT32 ≤ s ∨ first = buff) :
    offer_frag e total_len hdr first buff s =
      (int32 e total_len ++ hdr ++ payload buff).drop s := by
  rw [drop_frame s (int32_length _) hhdr, offer_frag]
  have hrest : buff.drop (s - SIZEOF_INT32) =
      if s < SIZEOF_UDP_HEADER + SIZEOF_INT32 then buff.drop (s - SIZEOF_INT32)
      else (payload buff).drop (s - SIZEOF_INT32 - SIZEOF_UDP_HEADER) := by
    split
    · rfl
    · rw [payload, drop_drop]
      congr 1
      omega
  rcases hfirst with hle | rfl
  · have hno : ¬s < SIZEOF_INT32 := by
      simp only [SIZEOF_INT32] at hle ⊢
      omega
    have hno' : ¬s < SIZEOF_UDP_HEADER + SIZEOF_INT32 := by omega
    rw [if_neg hno, if_neg hno', if_neg hno, if_neg hno', hrest, if_neg hno']
  · split
    · rfl
    · split
      · rfl
      · rw [hrest, if_neg (by assumption)]

end Frames

/-! ## 2. What waits -/

def UDP_Cell.later (r : Routing) (c : UDP_Cell) : Bool :=
  r = .min_weight ∧ frag_num c.buff > 1 ∧ frag_idx c.buff > 0

def UDP_Cell.start (r : Routing) (c : UDP_Cell) : ℕ :=
  if c.later r then SIZEOF_UDP_HEADER + SIZEOF_INT32 else 0

/-- Cells of one packet follow each other; `b` says whether one more has to follow. -/
def Linked (r : Routing) (b : Bool) : List UDP_Cell → Prop
  | [] => True
  | [c] => c.more r = b
  | c :: c' :: cs => c.more r = c'.later r ∧ Linked r b (c' :: cs)

def remaining (e : Endian) (r : Routing) (cells : List UDP_Cell) (sent_bytes : ℕ) : Pattern :=
  match cells with
  | [] => []
  | c :: cs => (c.frame e r).drop sent_bytes ++ cs.flatMap fun c => (c.frame e r).drop (c.start r)

structure Waiting (r : Routing) (b : Bool) (cells : List UDP_Cell) (sent_bytes : ℕ)
    (write_desc : Bool) : Prop where
  header : ∀ c ∈ cells, SIZEOF_UDP_HEADER ≤ c.buff.length
  linked : Linked r b cells
  begun : ∀ c cs, cells = c :: cs →
    c.start r ≤ sent_bytes ∧ sent_bytes ≤ SIZEOF_INT32 + c.buff.length
  attached : cells ≠ [] → write_desc = true

def Session.Waiting (b : Bool) (ses : Session) : Prop :=
  Outgoing.Waiting ses.routing_used b ses.rel_deliver_buff ses.sent_bytes ses.write_desc

def Session.remaining (e : Endian) (ses : Session) : Pattern :=
  Outgoing.remaining e ses.routing_used ses.rel_deliver_buff ses.sent_bytes

section Queue

variable {e : Endian} {r : Routing} {b : Bool} {c : UDP_Cell} {cells cs : List UDP_Cell}
  {s : ℕ} {ses : Session} {write_desc : Bool}

theorem Linked.push (h : Linked r b cells) (hc : cells ≠ [] → c.later r = b) :
    Linked r (c.more r) (cells ++ [c]) := by
  induction cells with
  | nil => rfl
  | cons c1 cs ih =>
    cases cs with
    | nil =>
      have heq : c1.more r = b := h
      refine ⟨?_, rfl⟩
      rw [heq, hc (cons_ne_nil _ _)]
    | cons c2 cs => exact ⟨h.1, ih h.2 fun _ => hc (cons_ne_nil _ _)⟩

theorem Linked.tail (h : Linked r b (c :: cs)) : Linked r b cs := by
  cases cs with
  | nil => trivial
  | cons c' cs => exact h.2

theorem Linked.next {c' : UDP_Cell} (h : Linked r b (c :: c' :: cs)) :
    c'.start r = if c.more r then SIZEOF_UDP_HEADER + SIZEOF_INT32 else 0 := by
  rw [UDP_Cell.start, h.1]

theorem remaining_push (hne : cells ≠ []) :
    remaining e r (cells ++ [c]) s = remaining e r cells s ++ (c.frame e r).drop (c.start r) := by
  cases cells with
  | nil => exact absurd rfl hne
  | cons c1 cs =>
    simp only [remaining, cons_append, flatMap_append, flatMap_cons,
      flatMap_nil, append_nil, append_assoc]

theorem Session.remaining_push (hne : ses.rel_deliver_buff ≠ []) : (ses.push c).remaining e =
      ses.remaining e ++ (c.frame e ses.routing_used).drop (c.start ses.routing_used) :=
  Outgoing.remaining_push hne

theorem Waiting.push (h : Waiting r b cells s write_desc) (hne : cells ≠ [])
    (hheader : SIZEOF_UDP_HEADER ≤ c.buff.length) (hc : c.later r = b) :
    Waiting r (c.more r) (cells ++ [c]) s write_desc := by
  refine ⟨?_, h.linked.push fun _ => hc, ?_, fun _ => h.attached hne⟩
  · intro c' hmem
    rcases mem_append.mp hmem with hmem | hmem
    · exact h.header c' hmem
    · rw [mem_singleton.mp hmem]
      exact hheader
  · intro c' cs' heq
    cases cells with
    | nil => exact absurd rfl hne
    | cons c1 cs =>
      cases heq
      exact h.begun _ _ rfl

theorem Waiting.single (hheader : SIZEOF_UDP_HEADER ≤ c.buff.length) (hle : c.start r ≤ s)
    (hlen : s ≤ SIZEOF_INT32 + c.buff.length) : Waiting r (c.more r) [c] s true := by
  refine ⟨?_, rfl, ?_, fun _ => rfl⟩
  · intro c' hmem
    rw [mem_singleton.mp hmem]
    exact hheader
  · intro c' cs' heq
    cases heq
    exact ⟨hle, hlen⟩

theorem waiting_nil : Waiting r b [] s write_desc :=
  ⟨nofun, trivial, nofun, fun h => absurd rfl h⟩

theorem packet_cell {buff : Bytes} {total_len : ℕ} (h : r = .min_weight → frag_num buff ≤ 1) :
    (UDP_Cell.mk buff total_len).first r = false ∧ (UDP_Cell.mk buff total_len).later r = false ∧
      (UDP_Cell.mk buff total_len).more r = false := by
  refine ⟨?_, ?_, ?_⟩ <;> rw [← Bool.not_eq_true] <;> intro htrue <;>
    simp only [UDP_Cell.first, UDP_Cell.later, UDP_Cell.more, decide_eq_true_eq] at htrue <;>
    exact absurd (h htrue.1) (by omega)

theorem frame_of_not_first (hc : c.first r = false) : c.frame e r = packet_frame e c.buff := by
  have hsplit : c.buff.take SIZEOF_UDP_HEADER ++ payload c.buff = c.buff :=
    take_append_drop ..
  rw [UDP_Cell.frame, UDP_Cell.send_bytes, hc, if_neg Bool.false_ne_true,
    if_neg Bool.false_ne_true, packet_frame, append_assoc, ← map_append,
    ← map_append, hsplit]

end Queue

/-! ## 3. `Session_Write` -/

section Write

variable {e : Endian} {b : Bool} {cells : List UDP_Cell} {ses : Session} {rets : List Ret}
  {junk : ℕ → Mem} {w : Written}

structure Writes (e : Endian) (before : Pattern) (w : Written) : Prop where
  split : ∃ part, before = part ++ w.ses.remaining e ∧ List.Forall₂ Fits w.out part
  waiting : w.ses.Waiting false

theorem Writes.prepend {before after part : Pattern} {out : Bytes} (h : Writes e after w)
    (hsplit : before = part ++ after) (hout : List.Forall₂ Fits out part) :
    Writes e before { w with out := out ++ w.out } := by
  obtain ⟨part', heq, hfits⟩ := h.split
  refine ⟨⟨part ++ part', ?_, rel_append hout hfits⟩, h.waiting⟩
  rw [hsplit, heq, append_assoc]

/-- By induction on the queue: a cell goes out, or the loop stops in it. -/
theorem write_loop_spec (ses : Session) (hw : Waiting ses.routing_used false cells ses.sent_bytes true)
    (hzero : Ret.wrote 0 ∉ rets) (herror : Ret.error ∉ rets)
    (h : Session.write_loop e junk cells ses rets = some w) :
    Writes e (remaining e ses.routing_used cells ses.sent_bytes) w := by
  induction cells generalizing ses rets w with
  | nil =>
    cases h
    exact ⟨⟨[], rfl, .nil⟩, waiting_nil⟩
  | cons c cs ih =>
    obtain ⟨d, hdrain, h⟩ := bind_eq_some_iff.mp h
    have hlen := hw.header c mem_cons_self
    obtain ⟨hstart, hend⟩ := hw.begun c cs rfl
    have hraw : (c.raw e ses.routing_used (junk cs.length)).length =
        SIZEOF_INT32 + c.buff.length := UDP_Cell.raw_length hlen
    rw [← hraw] at hdrain hend
    have hd := drain_spec (fun s _ _ => UDP_Cell.offer_eq hlen s) (Nat.zero_le _) hend hdrain
    obtain ⟨part, hpart, hfits⟩ := hd.forall₂ (UDP_Cell.raw_fits hlen)
    have hrest : ∀ r ∈ d.rest, r ∈ rets := drain_rest_subset hdrain
    -- what is left when the loop stops in this cell
    have hstopped : remaining e ses.routing_used (c :: cs) ses.sent_bytes =
        part ++ remaining e ses.routing_used (c :: cs) d.pos := by
      simp only [remaining]
      rw [hpart, append_assoc]
    have hpos : d.pos ≤ SIZEOF_INT32 + c.buff.length := by
      have hle := hd.le_length
      rwa [UDP_Cell.raw_length hlen] at hle
    cases hstop : d.stop with
    | blocked =>
      rw [hstop] at h
      cases h
      refine ⟨⟨part, hstopped, hfits⟩, ⟨hw.header, hw.linked, ?_, fun _ => rfl⟩⟩
      intro c' cs' heq
      cases heq
      exact ⟨hstart.trans hd.le, hpos⟩
    | zero => exact absurd (drain_zero hdrain hstop).2 hzero
    | broken => exact absurd (drain_broken hdrain hstop) herror
    | done =>
      rw [hstop] at h
      obtain ⟨w', hloop, hret⟩ := bind_eq_some_iff.mp h
      cases hret
      have hall : d.pos = (c.frame e ses.routing_used).length := by
        rw [hd.done.mp hstop]
        exact (UDP_Cell.raw_fits hlen).length_eq
      have hnone : (c.frame e ses.routing_used).drop d.pos = [] := by
        rw [hall, drop_length]
      have hnext : ∀ s', (∀ c' cs', cs = c' :: cs' → s' = c'.start ses.routing_used) →
          remaining e ses.routing_used (c :: cs) ses.sent_bytes =
            part ++ remaining e ses.routing_used cs s' := by
        intro s' hs'
        rw [hstopped]
        congr 1
        simp only [remaining]
        rw [hnone, nil_append]
        cases cs with
        | nil => rfl
        | cons c' cs' => rw [hs' c' cs' rfl, flatMap_cons]
      have hw' : Waiting ses.routing_used false cs
          (if c.more ses.routing_used then SIZEOF_UDP_HEADER + SIZEOF_INT32 else 0) true := by
        refine ⟨fun c' hmem => hw.header c' (mem_cons_of_mem _ hmem), hw.linked.tail, ?_,
          fun _ => rfl⟩
        intro c' cs' heq
        subst heq
        have hc' := hw.header c' (mem_cons_of_mem _ mem_cons_self)
        have hstart' := hw.linked.next
        refine ⟨hstart'.le, ?_⟩
        split
        · omega
        · omega
      have hloop' := ih _ hw' (fun hmem => hzero (hrest _ hmem))
        (fun hmem => herror (hrest _ hmem)) hloop
      apply hloop'.prepend _ hfits
      apply hnext
      intro c' cs' heq
      subst heq
      exact hw.linked.next.symm

theorem Session_Write_spec (hw : ses.Waiting false) (hzero : Ret.wrote 0 ∉ rets)
    (herror : Ret.error ∉ rets) (h : Session_Write e junk ses rets = some w) :
    Writes e (ses.remaining e) w := by
  unfold Session_Write at h
  split at h
  · exact write_loop_spec { ses with write_desc := false }
      ⟨hw.header, hw.linked, hw.begun, fun _ => rfl⟩ hzero herror h
  · cases h

end Write

/-! ## 4. `Session_Deliver_Data` -/

section Deliver

variable {e : Endian} {ses : Session} {buff first : Bytes} {frags : List Bytes}
  {rets : List Ret} {w : Written} {flags i total_len n : ℕ} {junk : Mem}

theorem full_spec (h : ses.full flags rets = some w) :
    w.ses = ses ∧ w.status = .BUFF_DROP ∧ w.out = [] ∨
      w.ses = ses.close ∧ w.status = .NO_BUFF ∧ w.out = [] := by
  unfold Session.full at h
  split at h
  · split at h
    · cases h
      exact .inl ⟨rfl, rfl, rfl⟩
    · split at h
      · cases h
        exact .inr ⟨rfl, rfl, rfl⟩
      · cases h
  · cases h

theorem deliver_packet_spec (hw : ses.Waiting false) (hp : Packet ses.routing_used buff)
    (herror : Ret.error ∉ rets) (h : ses.deliver_packet e flags buff rets = some w) :
    ses.full flags rets = some w ∨
      Writes e (ses.remaining e ++ packet_frame e buff) w ∧ w.status ≠ .BUFF_DROP := by
  set c : UDP_Cell := ⟨buff, buff.length⟩ with hc
  obtain ⟨hfirst, hlater, hmore⟩ : c.first ses.routing_used = false ∧
      c.later ses.routing_used = false ∧ c.more ses.routing_used = false :=
    packet_cell fun hr => hp.whole (.inl hr)
  have hstart : c.start ses.routing_used = 0 := by
    rw [UDP_Cell.start, hlater]
    rfl
  have hframe : c.frame e ses.routing_used = packet_frame e buff := frame_of_not_first hfirst
  unfold Session.deliver_packet at h
  rw [← hc] at h
  by_cases hne : ses.rel_deliver_buff ≠ []
  · rw [if_pos hne] at h
    cases hfull : ses.full flags rets with
    | some w' =>
      rw [hfull] at h
      exact .inl h
    | none =>
      rw [hfull] at h
      cases h
      have hrem : (ses.push c).remaining e = ses.remaining e ++ packet_frame e buff := by
        rw [Session.remaining_push hne, hstart, drop_zero, hframe]
      refine .inr ⟨⟨⟨[], hrem.symm, .nil⟩, ?_⟩, nofun⟩
      · have hpush := hw.push hne hp.header hlater
        rwa [hmore] at hpush
  · rw [if_neg hne] at h
    have hnil : ses.rel_deliver_buff = [] := not_not.mp hne
    obtain ⟨d, hdrain, hret⟩ := map_eq_some_iff.mp h
    have hraw : (int32 e buff.length ++ buff).length = SIZEOF_INT32 + buff.length := by
      rw [length_append, int32_length]
    rw [← hraw] at hdrain
    have hd := drain_spec (fun s _ _ => offer_packet_eq s) (Nat.zero_le _) (Nat.zero_le _) hdrain
    obtain ⟨part, hpart, hfits⟩ := hd.forall₂ (forall₂_fits _)
    have hbefore : ses.remaining e ++ packet_frame e buff =
        part ++ (packet_frame e buff).drop d.pos := by
      rw [Session.remaining, hnil]
      exact hpart
    have hpos := hd.le_length
    rw [hraw] at hpos
    cases hstop : d.stop with
    | done =>
      rw [hstop] at hret
      cases hret
      refine .inr ⟨⟨⟨part, ?_, hfits⟩, ?_⟩, nofun⟩
      · rw [hbefore, Session.remaining, hnil, hd.done.mp hstop, packet_frame]
        congr 1
        exact drop_eq_nil_of_le (length_map _).le
      · rw [Session.Waiting, hnil]
        exact waiting_nil
    | blocked =>
      rw [hstop] at hret
      cases hret
      have hcells : (ses.block c d.pos).rel_deliver_buff = [c] := by
        rw [Session.block, Session.push, hnil]
        rfl
      refine .inr ⟨⟨⟨part, ?_, hfits⟩, ?_⟩, nofun⟩
      · rw [hbefore, Session.remaining, hcells]
        simp only [Outgoing.remaining, flatMap_nil, append_nil]
        congr 1
        exact congrArg (List.drop d.pos) hframe.symm
      · rw [Session.Waiting, hcells]
        have hsingle := Waiting.single (r := ses.routing_used) hp.header (hstart.le.trans
          (Nat.zero_le d.pos)) hpos
        rwa [hmore] at hsingle
    | zero => exact absurd (drain_zero hdrain hstop).1 Bool.false_ne_true
    | broken => exact absurd (drain_broken hdrain hstop) herror

/-! A packet in fragments. -/

def pieces (e : Endian) (total_len : ℕ) (first : Bytes) : ℕ → List Bytes → Pattern
  | _, [] => []
  | i, buff :: frags =>
    (if i = 0 then (int32 e total_len).map some ++ copied_header e first total_len else []) ++
      (payload buff).map some ++ pieces e total_len first (i + 1) frags

theorem pieces_succ : pieces e total_len first (i + 1) frags = (frags.flatMap payload).map some := by
  induction frags generalizing i with
  | nil => rfl
  | cons buff frags ih =>
    rw [pieces, if_neg (Nat.succ_ne_zero i), ih, nil_append, flatMap_cons,
      map_append]

theorem pieces_zero (hne : frags ≠ []) :
    pieces e (sum_len frags) (frags.headD []) 0 frags = fragmented_frame e frags := by
  cases frags with
  | nil => exact absurd rfl hne
  | cons buff frags =>
    rw [pieces, if_pos rfl, pieces_succ, fragmented_frame, headD_cons, flatMap_cons,
      map_append]
    simp only [append_assoc]

def frag_frame (e : Endian) (total_len : ℕ) (first buff : Bytes) : Pattern :=
  (int32 e total_len).map some ++ copied_header e first total_len ++ (payload buff).map some

theorem copied_header_length (hlen : SIZEOF_UDP_HEADER ≤ first.length) :
    (copied_header e first total_len).length = SIZEOF_UDP_HEADER := by
  have hfits : List.Forall₂ Fits (first_frag_udp_hdr e (fun _ => 0) first total_len)
      (copied_header e first total_len) := copied_header_fits hlen
  rw [← hfits.length_eq, first_frag_udp_hdr_length hlen]

theorem drop_payload {α : Type} {x hdr rest : List α} (s : ℕ) (hx : x.length = SIZEOF_INT32)
    (hhdr : hdr.length = SIZEOF_UDP_HEADER) (hs : SIZEOF_UDP_HEADER + SIZEOF_INT32 ≤ s) :
    (x ++ hdr ++ rest).drop s = rest.drop (s - (SIZEOF_UDP_HEADER + SIZEOF_INT32)) := by
  have hlen : (x ++ hdr).length = SIZEOF_UDP_HEADER + SIZEOF_INT32 := by
    rw [length_append, hx, hhdr, add_comm]
  have hnil : (x ++ hdr).drop s = [] := drop_eq_nil_of_le (by omega)
  rw [drop_append, hnil, nil_append, hlen]

theorem drop_frag_frame (hlen : SIZEOF_UDP_HEADER ≤ first.length) :
    (frag_frame e total_len first buff).drop (frag_start i) =
      (if i = 0 then (int32 e total_len).map some ++ copied_header e first total_len else []) ++
        (payload buff).map some := by
  by_cases hi : i = 0
  · rw [frag_start, if_pos hi, if_pos hi, drop_zero, frag_frame]
  · rw [frag_start, if_neg hi, if_neg hi, frag_frame, drop_payload _ _ _ le_rfl, Nat.sub_self,
      drop_zero, nil_append]
    · rw [length_map, int32_length]
    · exact copied_header_length hlen

theorem drop_cell_frame {r : Routing} {c : UDP_Cell} {s : ℕ}
    (hc : SIZEOF_UDP_HEADER ≤ c.buff.length) (hs : SIZEOF_UDP_HEADER + SIZEOF_INT32 ≤ s) :
    (c.frame e r).drop s =
      ((payload c.buff).map some).drop (s - (SIZEOF_UDP_HEADER + SIZEOF_INT32)) := by
  apply drop_payload _ _ _ hs
  · rw [length_map, int32_length]
  · split
    · exact copied_header_length hc
    · rw [length_map, length_take]
      omega

theorem frag_frame_cell {r : Routing} {s : ℕ} (hfirst : SIZEOF_UDP_HEADER ≤ first.length)
    (hbuff : SIZEOF_UDP_HEADER ≤ buff.length) (hs : SIZEOF_UDP_HEADER + SIZEOF_INT32 ≤ s ∨
      first = buff ∧ (UDP_Cell.mk buff total_len).first r = true) :
    ((UDP_Cell.mk buff total_len).frame e r).drop s =
      (frag_frame e total_len first buff).drop s := by
  rcases hs with hs | ⟨rfl, htrue⟩
  · rw [drop_cell_frame hbuff hs, frag_frame, drop_payload _ _ _ hs]
    · rw [length_map, int32_length]
    · exact copied_header_length hfirst
  · rw [UDP_Cell.frame, UDP_Cell.send_bytes, if_pos htrue, if_pos htrue, frag_frame]

theorem frag_drained {d : Drained UInt8} (hbuff : SIZEOF_UDP_HEADER ≤ buff.length)
    (hfirst : SIZEOF_UDP_HEADER ≤ first.length) (hhead : i = 0 → first = buff)
    (h : drain false (offer_frag e total_len (first_frag_udp_hdr e junk first total_len) first buff)
      (SIZEOF_INT32 + buff.length) rets (frag_start i) = some d) :
    frag_start i ≤ d.pos ∧ d.pos ≤ SIZEOF_INT32 + buff.length ∧
      (d.stop = .done ↔ d.pos = SIZEOF_INT32 + buff.length) ∧
      ∃ part, (frag_frame e total_len first buff).drop (frag_start i) =
        part ++ (frag_frame e total_len first buff).drop d.pos ∧ List.Forall₂ Fits d.out part := by
  have hhdr : (first_frag_udp_hdr e junk first total_len).length = SIZEOF_UDP_HEADER :=
    first_frag_udp_hdr_length hfirst
  set raw := int32 e total_len ++ first_frag_udp_hdr e junk first total_len ++ payload buff
    with hraw
  have hraw_len : raw.length = SIZEOF_INT32 + buff.length := by
    rw [hraw, length_append, length_append, int32_length, hhdr, payload,
      length_drop]
    omega
  have hfits : List.Forall₂ Fits raw (frag_frame e total_len first buff) := by
    apply rel_append _ (forall₂_fits _)
    exact rel_append (forall₂_fits _) (copied_header_fits hfirst)
  have hoffer : ∀ s, frag_start i ≤ s → s < raw.length →
      offer_frag e total_len (first_frag_udp_hdr e junk first total_len) first buff s =
        raw.drop s := by
    intro s hs _
    apply offer_frag_eq hhdr s
    by_cases hi : i = 0
    · exact .inr (hhead hi)
    · rw [frag_start, if_neg hi] at hs
      exact .inl hs
  have hstart : frag_start i ≤ raw.length := by
    rw [hraw_len, frag_start]
    split
    · omega
    · omega
  rw [← hraw_len] at h
  have hd := drain_spec hoffer le_rfl hstart h
  rw [← hraw_len]
  exact ⟨hd.le, hd.le_length, hd.done, hd.forall₂ hfits⟩

theorem frag_frame_length (hbuff : SIZEOF_UDP_HEADER ≤ buff.length)
    (hfirst : SIZEOF_UDP_HEADER ≤ first.length) :
    (frag_frame e total_len first buff).length = SIZEOF_INT32 + buff.length := by
  rw [frag_frame, length_append, length_append, length_map, int32_length,
    copied_header_length hfirst, length_map, payload, length_drop]
  omega

theorem frag_cell (r : Routing) (total_len : ℕ) (hnum : frag_num buff = n)
    (hidx : frag_idx buff = i) (hn : 2 ≤ n) :
    (UDP_Cell.mk buff total_len).first r = decide (r = .min_weight ∧ i = 0) ∧
      (UDP_Cell.mk buff total_len).later r = decide (r = .min_weight ∧ 0 < i) ∧
      (UDP_Cell.mk buff total_len).more r = decide (r = .min_weight ∧ i + 1 < n) := by
  refine ⟨?_, ?_, ?_⟩ <;>
    simp only [UDP_Cell.first, UDP_Cell.later, UDP_Cell.more, hnum, hidx, decide_eq_decide] <;>
    constructor <;>
    rintro ⟨hr, h⟩ <;>
    exact ⟨hr, by omega⟩

theorem frag_cell_start {r : Routing} {c : UDP_Cell} {s : ℕ}
    (hlater : c.later r = decide (r = .min_weight ∧ 0 < i)) (hs : frag_start i ≤ s) :
    c.start r ≤ s := by
  rw [UDP_Cell.start, hlater]
  split
  · rename_i htrue
    have hi : i ≠ 0 := (of_decide_eq_true htrue).2.ne'
    rwa [frag_start, if_neg hi] at hs
  · exact Nat.zero_le _

theorem frag_cell_frame {r : Routing} {s : ℕ} (hfirst : SIZEOF_UDP_HEADER ≤ first.length)
    (hbuff : SIZEOF_UDP_HEADER ≤ buff.length) (hhead : i = 0 → first = buff)
    (hkind : (UDP_Cell.mk buff total_len).first r = decide (r = .min_weight ∧ i = 0))
    (hr : r = .min_weight ∨ i ≠ 0) (hs : frag_start i ≤ s) :
    ((UDP_Cell.mk buff total_len).frame e r).drop s =
      (frag_frame e total_len first buff).drop s := by
  apply frag_frame_cell hfirst hbuff
  by_cases hi : i = 0
  · have hmw := hr.resolve_right fun hne => hne hi
    exact .inr ⟨hhead hi, hkind.trans (decide_eq_true ⟨hmw, hi⟩)⟩
  · rw [frag_start, if_neg hi] at hs
    exact .inl hs

def frag_need (i : ℕ) (frags : List Bytes) : ℕ :=
  SIZEOF_UDP_HEADER + SIZEOF_INT32 - frag_start i +
    (frags.dropLast.map fun x => (payload x).length).sum

theorem frag_need_cons (hbuff : SIZEOF_UDP_HEADER ≤ buff.length) (hne : frags ≠ []) :
    frag_start i + frag_need i (buff :: frags) =
      max (frag_start i) (SIZEOF_UDP_HEADER + SIZEOF_INT32) - SIZEOF_UDP_HEADER + buff.length +
        frag_need (i + 1) frags := by
  have hpayload : (payload buff).length + SIZEOF_UDP_HEADER = buff.length := by
    rw [payload, length_drop]
    omega
  have hstart : frag_start (i + 1) = SIZEOF_UDP_HEADER + SIZEOF_INT32 :=
    if_neg (Nat.succ_ne_zero i)
  rw [frag_need, frag_need, hstart, dropLast_cons_of_ne_nil hne, map_cons, sum_cons]
  omega

structure Tail (n i : ℕ) (frags : List Bytes) : Prop where
  header : ∀ buff ∈ frags, SIZEOF_UDP_HEADER ≤ buff.length
  numbered : ∀ (k : ℕ) buff, frags[k]? = some buff →
    frag_num buff = n ∧ frag_idx buff = (i + k : ℕ)
  count : i + frags.length = n

theorem Tail.tail (h : Tail n i (buff :: frags)) : Tail n (i + 1) frags := by
  refine ⟨fun x hx => h.header x (mem_cons_of_mem _ hx), ?_, ?_⟩
  · intro k x hx
    obtain ⟨hnum, hidx⟩ := h.numbered (k + 1) x hx
    refine ⟨hnum, ?_⟩
    rw [hidx]
    congr 1
    omega
  · have hcount := h.count
    rw [length_cons] at hcount
    omega

/-- The queue while a packet is delivered, before fragment `i` of `n`. -/
abbrev Session.Between (ses : Session) (n i : ℕ) : Prop :=
  ses.Waiting (decide (ses.routing_used = .min_weight ∧ 0 < i ∧ i < n))

theorem Session.between_empty (hnil : ses.rel_deliver_buff = []) : ses.Between n i := by
  rw [Session.Between, Session.Waiting, hnil]
  exact waiting_nil

theorem Session.between_waiting (hlast : ¬(0 < i ∧ i < n)) (hw : ses.Between n i) :
    ses.Waiting false := by
  have hfalse : decide (ses.routing_used = .min_weight ∧ 0 < i ∧ i < n) = false :=
    decide_eq_false fun hand => hlast hand.2
  rwa [Session.Between, hfalse] at hw

theorem Session.waiting_between (hlast : ¬(0 < i ∧ i < n)) (hw : ses.Waiting false) :
    ses.Between n i := by
  have hfalse : decide (ses.routing_used = .min_weight ∧ 0 < i ∧ i < n) = false :=
    decide_eq_false fun hand => hlast hand.2
  rwa [Session.Between, hfalse]

/-- Fragments that wait are in order on a session of `MIN_WEIGHT_ROUTING`; else only the
last one may have to wait. -/
def Session.Orderly (ses : Session) (i : ℕ) (frags : List Bytes) (rets : List Ret) : Prop :=
  frags ≠ [] → ses.routing_used = .min_weight ∨
    ses.rel_deliver_buff = [] ∧ frag_need i frags ≤ taken rets

/-- The loop over the fragments, by induction on what is left of them. -/
theorem deliver_frags_spec (hw : ses.Between n i) (ht : Tail n i frags)
    (hfirst : SIZEOF_UDP_HEADER ≤ first.length) (hzero : i = 0 → ∀ buff ∈ frags.head?, first = buff)
    (htwo : 2 ≤ n) (hmode : ses.Orderly i frags rets) (herror : Ret.error ∉ rets)
    (h : ses.deliver_frags e junk total_len first i frags rets = some w) :
    Writes e (ses.remaining e ++ pieces e total_len first i frags) w ∧ w.status ≠ .BUFF_DROP := by
  induction frags generalizing i ses rets w with
  | nil =>
    cases h
    have hcount := ht.count
    rw [length_nil, add_zero] at hcount
    refine ⟨⟨⟨[], by rw [pieces, append_nil, nil_append], .nil⟩, ?_⟩, ?_⟩
    · exact ses.between_waiting (by omega) hw
    · dsimp only
      split
      · exact nofun
      · exact nofun
  | cons buff frags ih =>
    set c : UDP_Cell := ⟨buff, total_len⟩ with hc
    obtain ⟨hnum, hidx⟩ := ht.numbered 0 buff rfl
    rw [add_zero] at hidx
    have hbuff := ht.header buff mem_cons_self
    have hhead : i = 0 → first = buff := fun hi => hzero hi buff rfl
    have hzero' : i + 1 = 0 → ∀ x ∈ frags.head?, first = x :=
      fun habs => absurd habs (Nat.succ_ne_zero i)
    have hlt : i < n := by
      have hcount := ht.count
      rw [length_cons] at hcount
      omega
    obtain ⟨hkind, hlater, hmore⟩ := frag_cell ses.routing_used total_len hnum hidx htwo
    have hlater' : c.later ses.routing_used =
        decide (ses.routing_used = .min_weight ∧ 0 < i ∧ i < n) :=
      hlater.trans (decide_eq_decide.mpr (by rw [and_iff_left hlt]))
    have hmore' : c.more ses.routing_used =
        decide (ses.routing_used = .min_weight ∧ 0 < i + 1 ∧ i + 1 < n) :=
      hmore.trans (decide_eq_decide.mpr (by rw [and_iff_right (Nat.succ_pos i)]))
    have hpiece : pieces e total_len first i (buff :: frags) =
        (frag_frame e total_len first buff).drop (frag_start i) ++
          pieces e total_len first (i + 1) frags := by
      rw [pieces, drop_frag_frame hfirst]
    unfold Session.deliver_frags at h
    rw [← hc] at h
    by_cases hne : ses.rel_deliver_buff ≠ []
    · rw [if_pos hne] at h
      have hmw : ses.routing_used = .min_weight :=
        (hmode (cons_ne_nil _ _)).resolve_right fun hother => hne hother.1
      have hpush : (ses.push c).Between n (i + 1) := by
        have hpush := hw.push hne hbuff hlater'
        rwa [hmore'] at hpush
      obtain ⟨hwrites, hstatus⟩ := ih hpush ht.tail hzero' (fun _ => .inl hmw) herror h
      refine ⟨?_, hstatus⟩
      have hstart : c.start ses.routing_used = frag_start i := by
        rw [UDP_Cell.start, frag_start, hlater]
        by_cases hi : i = 0
        · rw [if_pos hi, if_neg (by simp [hi])]
        · rw [if_neg hi, if_pos (decide_eq_true ⟨hmw, Nat.pos_of_ne_zero hi⟩)]
      have hcell : (c.frame e ses.routing_used).drop (frag_start i) =
          (frag_frame e total_len first buff).drop (frag_start i) :=
        frag_cell_frame hfirst hbuff hhead hkind (.inl hmw) le_rfl
      rw [hpiece, ← hcell, ← hstart, ← append_assoc, ← Session.remaining_push hne]
      exact hwrites
    · rw [if_neg hne] at h
      have hnil : ses.rel_deliver_buff = [] := not_not.mp hne
      obtain ⟨d, hdrain, hret⟩ := bind_eq_some_iff.mp h
      obtain ⟨hle, hle_len, hdone, part, hpart, hout⟩ := frag_drained hbuff hfirst hhead hdrain
      have hrest : Ret.error ∉ d.rest := fun hmem => herror (drain_rest_subset hdrain _ hmem)
      obtain ⟨htaken_done, htaken_stop⟩ := drain_taken hdrain
      have hbefore : ses.remaining e ++ pieces e total_len first i (buff :: frags) =
          part ++ ((frag_frame e total_len first buff).drop d.pos ++
            pieces e total_len first (i + 1) frags) := by
        rw [hpiece, hpart, Session.remaining, hnil, append_assoc]
        rfl
      -- away from `MIN_WEIGHT_ROUTING` nothing waits before the last fragment
      have hneed : ses.routing_used ≠ .min_weight → frags ≠ [] →
          SIZEOF_INT32 + buff.length + frag_need (i + 1) frags ≤ frag_start i + taken rets := by
        intro hr hfrags
        obtain ⟨-, hle⟩ := (hmode (cons_ne_nil _ _)).resolve_left hr
        have hcons := frag_need_cons (i := i) hbuff hfrags
        omega
      cases hstop : d.stop with
      | done =>
        rw [hstop] at hret
        obtain ⟨w', hloop, hret⟩ := bind_eq_some_iff.mp hret
        cases hret
        have hall : (frag_frame e total_len first buff).drop d.pos = [] := by
          apply drop_eq_nil_of_le
          rw [frag_frame_length hbuff hfirst, hdone.mp hstop]
        set ses' := { ses with sent_bytes := if frags = [] then 0 else frag_start (i + 1) }
        have hmode' : ses'.Orderly (i + 1) frags d.rest := by
          intro hfrags
          by_cases hr : ses.routing_used = .min_weight
          · exact .inl hr
          · have hle := hneed hr hfrags
            have heq := htaken_done hstop
            have hpos := hdone.mp hstop
            exact .inr ⟨hnil, by omega⟩
        obtain ⟨hwrites, hstatus⟩ :=
          ih (ses'.between_empty hnil) ht.tail hzero' hmode' hrest hloop
        refine ⟨?_, hstatus⟩
        apply hwrites.prepend _ hout
        have hrem : ses'.remaining e = [] := by
          rw [Session.remaining, hnil]
          rfl
        rw [hbefore, hall, hrem]
      | blocked =>
        rw [hstop] at hret
        obtain ⟨w', hloop, hret⟩ := bind_eq_some_iff.mp hret
        cases hret
        have hlt' : d.pos < SIZEOF_INT32 + buff.length := by
          have hnd : d.pos ≠ SIZEOF_INT32 + buff.length := by
            intro heq
            rw [hdone.mpr heq] at hstop
            cases hstop
          omega
        have hpos := htaken_stop (by rw [hstop]; exact nofun)
        have hlast : ses.routing_used ≠ .min_weight → frags = [] := by
          intro hr
          by_contra hfrags
          have hle := hneed hr hfrags
          omega
        have hcells : (ses.block c d.pos).rel_deliver_buff = [c] := by
          rw [Session.block, Session.push, hnil]
          rfl
        have hw' : (ses.block c d.pos).Between n (i + 1) := by
          rw [Session.Between, Session.Waiting, hcells]
          exact hmore' ▸ Waiting.single hbuff (frag_cell_start hlater hle) hle_len
        have hmode' : (ses.block c d.pos).Orderly (i + 1) frags d.rest := by
          intro hfrags
          by_cases hr : ses.routing_used = .min_weight
          · exact .inl hr
          · exact absurd (hlast hr) hfrags
        obtain ⟨hwrites, hstatus⟩ := ih hw' ht.tail hzero' hmode' hrest hloop
        refine ⟨?_, hstatus⟩
        apply hwrites.prepend _ hout
        have hknown : ses.routing_used = .min_weight ∨ i ≠ 0 := by
          by_cases hr : ses.routing_used = .min_weight
          · exact .inl hr
          · have hcount := ht.count
            rw [hlast hr, length_singleton] at hcount
            exact .inr (by omega)
        have hrem : (ses.block c d.pos).remaining e =
            (frag_frame e total_len first buff).drop d.pos := by
          rw [Session.remaining, hcells]
          simp only [Outgoing.remaining, flatMap_nil, append_nil]
          exact frag_cell_frame hfirst hbuff hhead hkind hknown hle
        rw [hbefore, hrem]
      | zero => exact absurd (drain_zero hdrain hstop).1 Bool.false_ne_true
      | broken => exact absurd (drain_broken hdrain hstop) herror

end Deliver

/-! ## 5. Runs -/

/-- The socket is never found to take nothing in `Session_Write`. On a session of
`SOURCE_BASED_ROUTING` a packet in fragments finds nothing waiting, and at most its last
fragment has to wait; or it finds the buffer full. -/
def Session.Meets (ses : Session) : Event → Prop
  | .deliver _ _ _ => True
  | .deliver_fragmented _ frags _ rets =>
    ses.routing_used = .source_based →
      ses.rel_deliver_buff = [] ∧ frag_need 0 frags ≤ taken rets ∨
      3 * MAX_BUFF_SESS ≤ ses.rel_deliver_buff.length
  | .write _ rets => Ret.wrote 0 ∉ rets

def World.Inv (e : Endian) (w : World) : Prop :=
  ∃ front rest, w.expected = front ++ rest ∧ List.Forall₂ Fits w.written front ∧
    (w.ses.closed = false → rest = w.ses.remaining e ∧ w.ses.Waiting false)

section Worlds

variable {e : Endian} {w w' : World} {ses : Session} {frags : List Bytes} {rets : List Ret}
  {flags : ℕ} {junk : Mem} {r : Written}

theorem World.Initial.inv (e : Endian) (h : w.Initial) : w.Inv e := by
  refine ⟨[], [], h.expected, ?_, ?_⟩
  · rw [h.written]
    exact .nil
  · intro _
    rw [Session.remaining, Session.Waiting, h.buff]
    exact ⟨rfl, waiting_nil⟩

theorem World.Inv.inOrder (h : w.Inv e) : w.InOrder := by
  obtain ⟨front, rest, heq, hfits, -⟩ := h
  exact ⟨front, rest, heq, hfits⟩

theorem World.Inv.attached (h : w.Inv e) (hopen : w.ses.closed = false)
    (hne : w.ses.rel_deliver_buff ≠ []) : w.ses.write_desc = true := by
  obtain ⟨front, rest, -, -, hwaiting⟩ := h
  exact (hwaiting hopen).2.attached hne

theorem deliver_fragmented_spec (hw : ses.Waiting false) (hc : Complete ses.routing_used frags)
    (hmeets : ses.Meets (.deliver_fragmented flags frags junk rets)) (herror : Ret.error ∉ rets)
    (hflags : flags = 1 ∨ flags = 2 ∨ flags = 3)
    (h : ses.deliver_fragmented e flags junk frags rets = some r) :
    ses.full flags rets = some r ∨
      Writes e (ses.remaining e ++ fragmented_frame e frags) r ∧ r.status ≠ .BUFF_DROP := by
  unfold Session.deliver_fragmented at h
  cases hfull : ses.full flags rets with
  | some r' =>
    rw [hfull] at h
    exact .inl h
  | none =>
    rw [hfull] at h
    have hne : frags ≠ [] := by
      intro hnil
      have hseveral := hc.several
      rw [hnil, length_nil] at hseveral
      omega
    have hnot_full : ¬3 * MAX_BUFF_SESS ≤ ses.rel_deliver_buff.length := by
      intro hle
      rw [Session.full, if_pos hle] at hfull
      split at hfull
      · cases hfull
      · rw [if_pos (by omega)] at hfull
        cases hfull
    have hmode : ses.Orderly 0 frags rets := by
      intro _
      rcases hc.routing with hr | hr
      · exact .inl hr
      · exact .inr ((hmeets hr).resolve_right hnot_full)
    have hfirst : SIZEOF_UDP_HEADER ≤ (frags.headD []).length := by
      cases frags with
      | nil => exact absurd rfl hne
      | cons buff frags => exact hc.header buff mem_cons_self
    have hhead : 0 = 0 → ∀ buff ∈ frags.head?, frags.headD [] = buff := by
      intro _ buff hbuff
      cases frags with
      | nil => exact absurd rfl hne
      | cons x frags => exact some.inj hbuff
    have htail : Tail frags.length 0 frags := by
      refine ⟨hc.header, ?_, zero_add _⟩
      intro k buff hk
      rw [zero_add]
      exact hc.numbered k buff hk
    have hspec := deliver_frags_spec (ses.waiting_between (by omega) hw) htail hfirst hhead
      hc.several hmode herror h
    rw [pieces_zero hne] at hspec
    exact .inr hspec

theorem World.Inv.writes {frame : Pattern} (hw : w.Inv e) (hopen : w.ses.closed = false)
    (hses : w'.ses = r.ses) (hwritten : w'.written = w.written ++ r.out)
    (hexp : w'.expected = w.expected ++ frame) (h : Writes e (w.ses.remaining e ++ frame) r) :
    w'.Inv e := by
  obtain ⟨front, rest, heq, hfits, hwaiting⟩ := hw
  obtain ⟨hrest, -⟩ := hwaiting hopen
  obtain ⟨part, hpart, hout⟩ := h.split
  refine ⟨front ++ part, r.ses.remaining e, ?_, ?_, ?_⟩
  · rw [hexp, heq, hrest, append_assoc, hpart, append_assoc]
  · rw [hwritten]
    exact rel_append hfits hout
  · intro _
    rw [hses]
    exact ⟨rfl, h.waiting⟩

theorem World.Inv.full {frame : Pattern} (hw : w.Inv e) (hses : w'.ses = r.ses)
    (hwritten : w'.written = w.written ++ r.out) (hexp : w'.expected =
      if r.status = .BUFF_DROP then w.expected else w.expected ++ frame)
    (h : w.ses.full flags rets = some r) : w'.Inv e := by
  obtain ⟨front, rest, heq, hfits, hwaiting⟩ := hw
  rcases full_spec h with ⟨hsame, hstatus, hout⟩ | ⟨hclosed, hstatus, hout⟩
  · rw [hstatus, if_pos rfl] at hexp
    rw [hout, append_nil] at hwritten
    refine ⟨front, rest, hexp.trans heq, hwritten ▸ hfits, ?_⟩
    rw [hses, hsame]
    exact hwaiting
  · rw [hstatus, if_neg nofun] at hexp
    rw [hout, append_nil] at hwritten
    refine ⟨front, rest ++ frame, ?_, hwritten ▸ hfits, ?_⟩
    · rw [hexp, heq, append_assoc]
    · intro hopen
      rw [hses, hclosed] at hopen
      cases hopen

/-- With room in the buffer nothing is dropped. -/
theorem World.Inv.step {ev : Event} (hw : w.Inv e) (hstep : World.Step e w ev w')
    (hmeets : w.ses.Meets ev) : w'.Inv e ∧
      (w.ses.rel_deliver_buff.length < 3 * MAX_BUFF_SESS →
        w'.expected = w.expected ++ ev.frame e) := by
  obtain ⟨hen, herror, r, hr, -, hses, hwritten, hexp⟩ := hstep
  have hwaiting : w.ses.closed = false → w.ses.Waiting false := by
    intro hopen
    obtain ⟨front, rest, -, -, h⟩ := hw
    exact (h hopen).2
  have hroom : ∀ {flags rets}, w.ses.full flags rets = some r →
      ¬w.ses.rel_deliver_buff.length < 3 * MAX_BUFF_SESS := by
    intro flags rets hfull hroom
    rw [Session.full, if_neg (by omega)] at hfull
    cases hfull
  cases ev with
  | deliver flags buff rets =>
    obtain ⟨hopen, -, hp⟩ := hen
    rcases deliver_packet_spec (hwaiting hopen) hp herror hr with hfull | ⟨hwrites, hstatus⟩
    · exact ⟨hw.full hses hwritten hexp hfull, fun h => absurd h (hroom hfull)⟩
    · rw [if_neg hstatus] at hexp
      exact ⟨hw.writes hopen hses hwritten hexp hwrites, fun _ => hexp⟩
  | deliver_fragmented flags frags junk rets =>
    obtain ⟨hopen, hflags, hc⟩ := hen
    rcases deliver_fragmented_spec (hwaiting hopen) hc hmeets herror hflags hr with
      hfull | ⟨hwrites, hstatus⟩
    · exact ⟨hw.full hses hwritten hexp hfull, fun h => absurd h (hroom hfull)⟩
    · rw [if_neg hstatus] at hexp
      exact ⟨hw.writes hopen hses hwritten hexp hwrites, fun _ => hexp⟩
  | write junk rets =>
    have hopen := hen.1
    have hwrites := Session_Write_spec (hwaiting hopen) hmeets herror hr
    rw [← append_nil (w.ses.remaining e)] at hwrites
    have hsame : w'.expected = w.expected ++ [] := by
      rw [hexp]
      dsimp only [Event.frame]
      rw [append_nil, ite_self]
    exact ⟨hw.writes hopen hses hwritten hsame hwrites, fun _ => hsame⟩

/-- In a run that meets the condition the client gets the beginning of all frames in
order, and as long as something waits, somebody waits for the socket. -/
theorem stream_in_order (hinit : w.Initial)
    (hrun : Run (fun w ev w' => World.Step e w ev w' ∧ w.ses.Meets ev) w w') :
    w'.InOrder ∧ (w'.ses.closed = false → w'.ses.rel_deliver_buff ≠ [] →
      w'.ses.write_desc = true) := by
  have hinv : w'.Inv e :=
    Run.invariant (World.Inv e) (hinit.inv e) (fun _ _ _ hw h => (hw.step h.1 h.2).1) hrun
  exact ⟨hinv.inOrder, hinv.attached⟩

end Worlds

/-! A run with a packet in two fragments on a session of `MIN_WEIGHT_ROUTING`; the first
fragment has to wait. -/

def idle (r : Routing) : World := ⟨⟨r, [], 0, false, false⟩, [], []⟩

def two_fragments : List Bytes :=
  [replicate 22 0 ++ [2, 0] ++ replicate 4 0 ++ [7],
    replicate 22 0 ++ [2, 1] ++ replicate 4 0 ++ [8]]

def World.next (e : Endian) (w : World) (ev : Event) : World :=
  match w.ses.step e ev with
  | none => w
  | some r => ⟨r.ses, w.written ++ r.out,
      if r.status = .BUFF_DROP then w.expected else w.expected ++ ev.frame e⟩

theorem World.step_next {e : Endian} {w : World} {ev : Event} (hen : w.ses.Enabled ev)
    (herror : Ret.error ∉ ev.rets) (h : ((w.ses.step e ev).map Written.rest) = some []) :
    World.Step e w ev (w.next e ev) := by
  obtain ⟨r, hr, hrest⟩ := map_eq_some_iff.mp h
  refine ⟨hen, herror, r, hr, hrest, ?_, ?_, ?_⟩ <;> rw [World.next, hr]

def first_waits : Event := .deliver_fragmented 1 two_fragments (fun _ => 9) [.wrote 5, .again]

def rest_goes : Event := .write (fun _ _ => 9) [.wrote 28, .wrote 1]

theorem two_fragments_complete {r : Routing} (h : r.Fragments) : Complete r two_fragments := by
  refine ⟨h, by decide, by decide, ?_⟩
  intro i buff hi
  match i, hi with
  | 0, hi =>
    cases hi
    decide
  | 1, hi =>
    cases hi
    decide

theorem stream_in_order_two_fragments :
    let w := ((idle .min_weight).next .little first_waits).next .little rest_goes
    w.written.length = 34 ∧ w.InOrder ∧ (w.ses.closed = false → w.ses.rel_deliver_buff ≠ [] →
      w.ses.write_desc = true) := by
  refine ⟨by decide, ?_⟩
  have hfirst : World.Step .little (idle .min_weight) first_waits _ :=
    World.step_next ⟨rfl, .inl rfl, two_fragments_complete (.inl rfl)⟩ (by decide) (by decide)
  have hsecond : World.Step .little ((idle .min_weight).next .little first_waits) rest_goes _ :=
    World.step_next ⟨by decide, by decide⟩ (by decide) (by decide)
  have hmeets : (idle .min_weight).ses.Meets first_waits := nofun
  have hmeets' : ((idle .min_weight).next .little first_waits).ses.Meets rest_goes := by
    unfold Session.Meets rest_goes
    decide
  exact stream_in_order ⟨rfl, rfl, rfl⟩
    (((Run.refl _).tail ⟨hfirst, hmeets⟩).tail ⟨hsecond, hmeets'⟩)

/-! On a session of `SOURCE_BASED_ROUTING` the two fragments that had to wait are two
packets for `Session_Write`. -/

def both_wait : Event := .deliver_fragmented 1 two_fragments (fun _ => 9) [.again]

def both_go : Event := .write (fun _ _ => 9) [.wrote 33, .wrote 33]

theorem World.not_inOrder {w : World} {x y : UInt8} (hx : w.written.head? = some x)
    (hy : w.expected.head? = some (some y)) (hne : x ≠ y) : ¬w.InOrder := by
  rintro ⟨front, rest, heq, hfits⟩
  generalize w.written = written at hx hfits
  cases hfits with
  | nil => cases hx
  | cons hfit _ =>
    rw [heq] at hy
    cases hx
    cases hy
    exact hne (hfit _ rfl)

theorem source_based_frames_broken :
    ∃ w w', w.Initial ∧ Run (World.Step .little) w w' ∧ ¬w'.InOrder := by
  have hfirst : World.Step .little (idle .source_based) both_wait _ :=
    World.step_next ⟨rfl, .inl rfl, two_fragments_complete (.inr rfl)⟩ (by decide) (by decide)
  have hsecond : World.Step .little ((idle .source_based).next .little both_wait) both_go _ :=
    World.step_next ⟨by decide, by decide⟩ (by decide) (by decide)
  refine ⟨idle .source_based, _, ⟨rfl, rfl, rfl⟩, ((Run.refl _).tail hfirst).tail hsecond, ?_⟩
  -- the first length is that of a fragment, not that of the packet
  apply World.not_inOrder (x := 29) (y := 30)
  · decide
  · decide
  · decide

end Spines.Outgoing
