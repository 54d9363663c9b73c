/-
A client that is disconnected because its stream is complete has got all of it.

What has been accepted for the client is what was written, and what remains: the rest of
the first packet in `rel_deliver_buff` and all packets behind it (`Handled.Good`). The
window holds packets from `recv_tail` on (`Ordered`), so those that are accepted have the
numbers 0, 1, 2 and so on. `Deliver_Rel_UDP_Data` and `Session_Write` disconnect the client
when nothing remains. The handler of the announcement does not look whether something
does: it must find `rel_deliver_buff` empty (`Session.Meets`).
-/
import Spines.Reliable.Receive

set_option autoImplicit false

namespace Spines.Reliable

open Spines.Lib Function Option List
open Spines.Outgoing (Bytes SIZEOF_INT32 SIZEOF_UDP_HEADER MAX_BUFF_SESS)

/-! ## 1. The window -/

def Numbered (data : List Packet) : Prop :=
  ∀ (k : ℕ) p, data[k]? = some p → p.seq_no = k % 2 ^ 32

structure Ordered (recv_tail : ℕ) (window : ℕ → Recv_Cell) (data : List Packet) : Prop where
  tail : recv_tail = data.length % 2 ^ 32
  numbered : Numbered data
  window : ∀ i p, (window i).buff = some p →
    p.type = .data ∧ recv_tail ≤ p.seq_no ∧ p.seq_no < recv_tail + MAX_WINDOW ∧
      p.seq_no % MAX_WINDOW = i

section Window

variable {tail : ℕ} {window window' : ℕ → Recv_Cell} {data : List Packet} {p : Packet}
  {ses : Session}

theorem Numbered.push (h : Numbered data) (hp : p.seq_no = data.length % 2 ^ 32) :
    Numbered (data ++ [p]) := by
  intro k q hq
  rcases lt_trichotomy k data.length with hk | hk | hk
  · rw [List.getElem?_append_left hk] at hq
    exact h k q hq
  · rw [hk, List.getElem?_append_right le_rfl, Nat.sub_self] at hq
    cases hq
    rw [hk, hp]
  · rw [List.getElem?_eq_none] at hq
    · cases hq
    · rw [length_append, length_singleton]
      omega

theorem Ordered.marked (h : Ordered tail window data)
    (heq : ∀ i, (window' i).buff = (window i).buff) : Ordered tail window' data :=
  ⟨h.tail, h.numbered, fun i p hp => h.window i p ((heq i).symm.trans hp)⟩

theorem Ordered.store (h : Ordered tail window data) (htype : p.type = .data)
    (hle : tail ≤ p.seq_no) (hlt : p.seq_no < tail + MAX_WINDOW) :
    Ordered tail (update window (p.seq_no % MAX_WINDOW) ⟨true, some p⟩) data := by
  refine ⟨h.tail, h.numbered, ?_⟩
  intro i q hq
  by_cases hi : i = p.seq_no % MAX_WINDOW
  · rw [hi, update_self] at hq
    cases hq
    exact ⟨htype, hle, hlt, hi.symm⟩
  · rw [update_of_ne hi] at hq
    exact h.window i q hq

theorem Ordered.at_tail (h : Ordered tail window data)
    (hp : (window (tail % MAX_WINDOW)).buff = some p) : p.type = .data ∧ p.seq_no = tail := by
  obtain ⟨htype, hle, hlt, hmod⟩ := h.window _ p hp
  refine ⟨htype, ?_⟩
  -- two numbers in one window with the same place
  obtain ⟨d, hd⟩ := Nat.exists_eq_add_of_le hle
  have hsmall : d < MAX_WINDOW := by omega
  have hzero : (tail + d) % MAX_WINDOW = (tail + 0) % MAX_WINDOW := by
    rw [← hd, hmod, add_zero]
  have hmod' : d % MAX_WINDOW = 0 % MAX_WINDOW := Nat.ModEq.add_left_cancel' tail hzero
  rw [Nat.mod_eq_of_lt hsmall, Nat.zero_mod] at hmod'
  omega

theorem Ordered.take (h : Ordered tail window data) (hp : p.seq_no = tail) :
    Ordered ((tail + 1) % 2 ^ 32)
      (update window (tail % MAX_WINDOW) ⟨false, none⟩) (data ++ [p]) := by
  refine ⟨?_, h.numbered.push (hp.trans h.tail), ?_⟩
  · rw [h.tail, length_append, length_singleton, Nat.mod_add_mod]
  · intro i q hq
    by_cases hi : i = tail % MAX_WINDOW
    · rw [hi, update_self] at hq
      cases hq
    · rw [update_of_ne hi] at hq
      obtain ⟨htype, hle, hlt, hmod⟩ := h.window i q hq
      have hne : q.seq_no ≠ tail := by
        intro heq
        apply hi
        rw [← hmod, heq]
      have hbound := q.seq_no_lt
      have hnext : (tail + 1) % 2 ^ 32 = tail + 1 := Nat.mod_eq_of_lt (by omega)
      rw [hnext]
      exact ⟨htype, by omega, by omega, hmod⟩

/-- Only the flags of the window and `recv_head` change, and a packet that is needed is
not an acknowledgement and belongs into the window. -/
theorem Process_Sess_Ack_spec (ses : Session) (p : Packet) :
    ∃ recv_head window, (Process_Sess_Ack ses p).1 =
        { ses with recv_head := recv_head, recv_window := window } ∧
      (∀ i, (window i).buff = (ses.recv_window i).buff) ∧
      ((Process_Sess_Ack ses p).2 ≠ -1 → (Process_Sess_Ack ses p).2 ≠ 0 →
        p.type ≠ .link_ack ∧ ses.recv_tail ≤ p.seq_no ∧
          p.seq_no < ses.recv_tail + MAX_WINDOW) := by
  unfold Process_Sess_Ack
  split
  · exact ⟨_, _, rfl, fun _ => rfl, fun _ h => absurd rfl h⟩
  split
  · exact ⟨_, _, rfl, fun _ => rfl, fun h => absurd rfl h⟩
  split
  · exact ⟨_, _, rfl, fun _ => rfl, fun _ h => absurd rfl h⟩
  dsimp only
  split
  · exact ⟨_, _, rfl, fun _ => rfl, fun _ h => absurd rfl h⟩
  · rename_i hack hwin hold
    have hle : ses.recv_tail ≤ p.seq_no := not_lt.mp (not_or.mp hold).2
    have hlt : p.seq_no < ses.recv_tail + MAX_WINDOW := by
      clear hold
      simp only [MAX_WINDOW] at hwin ⊢
      omega
    refine ⟨_, _, rfl, ?_, fun _ _ => ⟨hack, hle, hlt⟩⟩
    intro i
    by_cases hi : i = p.seq_no % MAX_WINDOW
    · rw [hi, update_self]
    · rw [update_of_ne hi]

end Window

/-! ## 2. What remains -/

/-- The bytes of a packet as the writers count them; of the first ones nothing is written. -/
def Packet.frame (p : Packet) : Bytes := replicate SIZEOF_INT32 0 ++ p.data

def remaining (cells : List Packet) (sent_bytes : ℕ) : Bytes :=
  match cells with
  | [] => []
  | p :: ps => p.frame.drop sent_bytes ++ ps.flatMap Packet.payload

section Remaining

variable {p : Packet} {cells ps : List Packet} {s : ℕ} {halt : Bool} {rets : List Ret}
  {d : Drained UInt8}

theorem Packet.frame_length : p.frame.length = p.total := by
  rw [frame, length_append, length_replicate, Packet.total]

theorem Packet.frame_drop (hs : SIZEOF_INT32 ≤ s) : p.frame.drop s = p.offer s := by
  rw [frame, drop_append, length_replicate, Packet.offer]
  have hnil : (replicate SIZEOF_INT32 (0 : UInt8)).drop s = [] :=
    drop_eq_nil_of_le (by rwa [length_replicate])
  rw [hnil, nil_append]

theorem int32_le_start : SIZEOF_INT32 ≤ START := by decide

theorem Packet.frame_drop_start : p.frame.drop START = p.payload := by
  rw [Packet.frame_drop int32_le_start, Packet.offer, Packet.payload]
  rfl

theorem remaining_push (hne : cells ≠ []) :
    remaining (cells ++ [p]) s = remaining cells s ++ p.payload := by
  cases cells with
  | nil => exact absurd rfl hne
  | cons q qs =>
    simp only [remaining, cons_append, flatMap_append, flatMap_cons,
      flatMap_nil, append_nil, append_assoc]

theorem remaining_start : remaining cells START = cells.flatMap Packet.payload := by
  cases cells with
  | nil => rfl
  | cons p ps =>
    rw [flatMap_cons, ← Packet.frame_drop_start]
    rfl

theorem packet_drained (hs : START ≤ s) (h : drain halt p.offer p.total rets s = some d) :
    s ≤ d.pos ∧ p.frame.drop s = d.out ++ p.frame.drop d.pos ∧
      (d.stop = .done → p.frame.drop d.pos = []) ∧ (d.stop ≠ .done → d.pos < p.total) := by
  have hint := int32_le_start.trans hs
  rw [← Packet.frame_length] at h ⊢
  by_cases hle : s ≤ p.frame.length
  · have hoffer : ∀ t, SIZEOF_INT32 ≤ t → t < p.frame.length → p.offer t = p.frame.drop t :=
      fun t ht _ => (Packet.frame_drop ht).symm
    have hd := drain_spec hoffer hint hle h
    refine ⟨hd.le, hd.split, ?_, ?_⟩
    · intro hdone
      rw [hd.done.mp hdone, drop_length]
    · intro hne
      exact lt_of_le_of_ne hd.le_length fun heq => hne (hd.done.mpr heq)
  · have hpast : drain halt p.offer p.frame.length rets s = some ⟨.done, s, [], rets⟩ :=
      drain_past (not_le.mp hle).le
    rw [h] at hpast
    cases hpast
    have hnil : p.frame.drop s = [] := drop_eq_nil_of_le (not_le.mp hle).le
    exact ⟨le_rfl, by rw [hnil]; rfl, fun _ => hnil, fun hne => absurd rfl hne⟩

end Remaining

/-! ## 3. Sessions with a client -/

def Session.remaining (ses : Session) : Bytes :=
  Reliable.remaining ses.rel_deliver_buff ses.sent_bytes

/-- The client is there, `data` has been accepted for it, nothing waits before the handshake
is completed, and the first packet that waits has come some way. -/
structure Session.Live (ses : Session) (announcements : List ℕ) (data : List Packet) : Prop where
  client : ses.client_stat = .on
  greeted : ses.flags = .connected ∨ ses.rel_deliver_buff = []
  begun : ∀ p ps, ses.rel_deliver_buff = p :: ps →
    START ≤ ses.sent_bytes ∧ ses.sent_bytes < p.total
  ordered : Ordered ses.recv_tail ses.recv_window data
  announced : ses.connect_state = true → ses.last_seq_sent ∈ announcements

def Handled.data (h : Handled) : List Packet := h.accepted.filter (·.type = .data)

/-- What a handler may do when `data` was accepted before, and the bytes `before` remained:
what was accepted is what went out, and what remains; a stream that was taken for complete
is. -/
structure Handled.Good (announcements : List ℕ) (data : List Packet) (before : Bytes)
    (h : Handled) : Prop where
  live : h.cause = none → h.ses.Live announcements (data ++ h.data)
  bytes : h.cause = none →
    before ++ h.accepted.flatMap Packet.payload = h.out ++ h.ses.remaining
  complete : h.cause = some .announced →
    (∃ n ∈ announcements, (data ++ h.data).length % 2 ^ 32 = n) ∧ Numbered (data ++ h.data) ∧
      before ++ h.accepted.flatMap Packet.payload = h.out
  gone : h.cause ≠ none → h.ses.client_stat = .orphan ∨ h.ses.closed = true

section Handlers

variable {ses : Session} {ann : List ℕ} {data : List Packet} {before : Bytes}
  {p : Packet} {rets : List Ret} {h h' : Handled}

theorem Session.remaining_nil (hnil : ses.rel_deliver_buff = []) : ses.remaining = [] := by
  rw [Session.remaining, hnil]
  rfl

theorem good_unchanged (hl : ses.Live ann data) :
    (ses.unchanged rets).Good ann data ses.remaining := by
  refine ⟨fun _ => ?_, fun _ => append_nil _, nofun, fun hne => absurd rfl hne⟩
  have hdata : data ++ (ses.unchanged rets).data = data := append_nil _
  rw [hdata]
  exact hl

theorem good_gone (hcause : h.cause ≠ none) (hother : h.cause ≠ some .announced)
    (hgone : h.ses.client_stat = .orphan ∨ h.ses.closed = true) :
    h.Good ann data before :=
  ⟨fun hnone => absurd hnone hcause, fun hnone => absurd hnone hcause,
    fun hann => absurd hann hother, fun _ => hgone⟩

theorem Handled.Good.check (hg : h.Good ann data before) :
    h.check.Good ann data before := by
  unfold Handled.check
  split
  · rename_i hcond
    obtain ⟨hnone, hstate, htail, hnil⟩ := hcond
    have hlive := hg.live hnone
    refine ⟨nofun, nofun, fun _ => ⟨⟨_, hlive.announced hstate, ?_⟩, hlive.ordered.numbered, ?_⟩,
      fun _ => .inl rfl⟩
    · exact hlive.ordered.tail.symm.trans htail
    · have hbytes := hg.bytes hnone
      rwa [Session.remaining_nil hnil, append_nil] at hbytes
  · exact hg

theorem Handled.Good.append (hg : h.Good ann data before) (hcause : h.cause = none)
    (hg' : h'.Good ann (data ++ h.data) h.ses.remaining) :
    Handled.Good ann data before
      { h' with out := h.out ++ h'.out, accepted := h.accepted ++ h'.accepted } := by
  have hdata : data ++ Handled.data
      { h' with out := h.out ++ h'.out, accepted := h.accepted ++ h'.accepted } =
        data ++ h.data ++ h'.data := by
    rw [Handled.data, filter_append, append_assoc]
    rfl
  have hbytes := hg.bytes hcause
  have hsum : before ++ (h.accepted ++ h'.accepted).flatMap Packet.payload =
      h.out ++ (h.ses.remaining ++ h'.accepted.flatMap Packet.payload) := by
    rw [flatMap_append, ← append_assoc, hbytes, append_assoc]
  refine ⟨?_, ?_, ?_, hg'.gone⟩
  · intro hnone
    rw [hdata]
    exact hg'.live hnone
  · intro hnone
    rw [hsum, hg'.bytes hnone, append_assoc]
  · intro hann
    obtain ⟨hcount, hnum, heq⟩ := hg'.complete hann
    rw [hdata]
    exact ⟨hcount, hnum, hsum.trans (congrArg _ heq)⟩

theorem Handled.Good.prepend {out : Bytes} (hg : h.Good ann data before) :
    Handled.Good ann data (out ++ before) { h with out := out ++ h.out } := by
  refine ⟨hg.live, ?_, ?_, hg.gone⟩
  · intro hnone
    rw [append_assoc, append_assoc, hg.bytes hnone]
  · intro hann
    obtain ⟨hcount, hnum, heq⟩ := hg.complete hann
    refine ⟨hcount, hnum, ?_⟩
    rw [append_assoc, heq]

theorem Net_Rel_Sess_Send_spec (hon : ses.client_stat = .on) (hnil : ses.rel_deliver_buff = [])
    (h_eq : ses.Net_Rel_Sess_Send p rets = some h) :
    (h.cause = none ∧ h.accepted = [p] ∧ p.payload = h.out ++ h.ses.remaining ∧
      (∃ cells s write_desc, h.ses =
        { ses with rel_deliver_buff := cells, sent_bytes := s, write_desc := write_desc }) ∧
      ∀ q qs, h.ses.rel_deliver_buff = q :: qs →
        START ≤ h.ses.sent_bytes ∧ h.ses.sent_bytes < q.total) ∨
    h.cause = some .broken ∧ h.ses.client_stat = .orphan := by
  unfold Session.Net_Rel_Sess_Send at h_eq
  split at h_eq
  · rename_i hoff
    rw [hon] at hoff
    cases hoff
  · cases h_eq
  obtain ⟨d, hdrain, rfl⟩ := map_eq_some_iff.mp h_eq
  obtain ⟨hle, hsplit, hdone, hstop⟩ := packet_drained le_rfl hdrain
  rw [Packet.frame_drop_start] at hsplit
  have hwaits : d.stop ≠ .done → ∀ q qs, ses.rel_deliver_buff ++ [p] = q :: qs →
      START ≤ d.pos ∧ d.pos < q.total := by
    intro hne q qs heq
    rw [hnil] at heq
    cases heq
    exact ⟨hle, hstop hne⟩
  have hrest : Reliable.remaining (ses.rel_deliver_buff ++ [p]) d.pos = p.frame.drop d.pos := by
    rw [hnil]
    exact append_nil _
  cases hd : d.stop with
  | done =>
    refine .inl ⟨rfl, rfl, ?_, ⟨_, _, _, rfl⟩, ?_⟩
    · dsimp only [Session.remaining]
      rw [hsplit, hdone hd, hnil]
      rfl
    · intro q qs heq
      dsimp only at heq
      rw [hnil] at heq
      cases heq
  | blocked =>
    have hne : d.stop ≠ .done := by
      rw [hd]
      exact nofun
    refine .inl ⟨rfl, rfl, ?_, ⟨_, _, _, rfl⟩, hwaits hne⟩
    dsimp only [Session.remaining]
    rw [hrest, hsplit]
  | zero =>
    have hne : d.stop ≠ .done := by
      rw [hd]
      exact nofun
    refine .inl ⟨rfl, rfl, ?_, ⟨_, _, _, rfl⟩, hwaits hne⟩
    dsimp only [Session.remaining]
    rw [hrest, hsplit]
  | broken => exact .inr ⟨rfl, rfl⟩

/-- The loop of `Session_Write`, by induction on what waits. -/
theorem write_loop_spec {cells : List Packet} (ses : Session) (hon : ses.client_stat = .on)
    (hflags : ses.flags = .connected ∨ cells = [])
    (hord : Ordered ses.recv_tail ses.recv_window data)
    (hann : ses.connect_state = true → ses.last_seq_sent ∈ ann)
    (hpos : ses.sent_bytes = 0 ∨ START ≤ ses.sent_bytes)
    (h_eq : Session.write_loop cells ses rets = some h) :
    h.Good ann data (Reliable.remaining cells
      (if ses.sent_bytes = 0 then START else ses.sent_bytes)) := by
  induction cells generalizing ses rets h with
  | nil =>
    cases h_eq
    have hlive : Session.Live { ses with rel_deliver_buff := [] } ann data :=
      ⟨hon, .inr rfl, nofun, hord, hann⟩
    exact (good_unchanged hlive).check
  | cons p ps ih =>
    have hconn := hflags.resolve_right (cons_ne_nil p ps)
    set s := if ses.sent_bytes = 0 then START else ses.sent_bytes with hs
    have hle : START ≤ s := by
      rw [hs]
      split
      · exact le_rfl
      · exact hpos.resolve_left (by assumption)
    obtain ⟨d, hdrain, h_eq⟩ := bind_eq_some_iff.mp h_eq
    obtain ⟨hle', hsplit, hdone, hstop⟩ := packet_drained hle hdrain
    have hbefore : Reliable.remaining (p :: ps) s =
        d.out ++ Reliable.remaining (p :: ps) d.pos := by
      simp only [Reliable.remaining]
      rw [hsplit, append_assoc]
    -- the loop stops in this packet
    have hstopped : d.stop ≠ .done → ∀ write_desc, Handled.Good ann data
        (Reliable.remaining (p :: ps) s)
        ⟨{ ses with rel_deliver_buff := p :: ps, sent_bytes := d.pos,
                    write_desc := write_desc }, d.out, [], none, d.rest⟩ := by
      intro hne write_desc
      refine ⟨fun _ => ⟨hon, .inl hconn, ?_, ?_, hann⟩, fun _ => ?_, nofun, fun hne => absurd rfl hne⟩
      · intro q qs heq
        cases heq
        exact ⟨hle.trans hle', hstop hne⟩
      · rw [Handled.data, filter_nil, append_nil]
        exact hord
      · rw [flatMap_nil, append_nil]
        exact hbefore
    cases hd : d.stop with
    | blocked =>
      rw [hd] at h_eq
      cases h_eq
      apply hstopped
      rw [hd]
      exact nofun
    | zero =>
      rw [hd] at h_eq
      cases h_eq
      apply hstopped
      rw [hd]
      exact nofun
    | broken =>
      rw [hd] at h_eq
      cases h_eq
      exact good_gone nofun nofun (.inl rfl)
    | done =>
      rw [hd] at h_eq
      obtain ⟨h', hloop, hret⟩ := bind_eq_some_iff.mp h_eq
      cases hret
      have hgood := ih { ses with sent_bytes := 0 } hon (.inl hconn) hord hann (.inl rfl) hloop
      have hnext : Reliable.remaining (p :: ps) d.pos = Reliable.remaining ps START := by
        simp only [Reliable.remaining]
        rw [hdone hd, nil_append]
        exact remaining_start.symm
      rw [hbefore, hnext]
      exact hgood.prepend

theorem Session_Write_spec (hl : ses.Live ann data)
    (h_eq : Session_Write ses rets = some h) : h.Good ann data ses.remaining := by
  unfold Session_Write at h_eq
  split at h_eq
  · rw [Session.remaining]
    cases hcells : ses.rel_deliver_buff with
    | nil =>
      rw [hcells] at h_eq
      cases h_eq
      have hlive : Session.Live { ses with write_desc := false, rel_deliver_buff := [] }
          ann data := ⟨hl.client, .inr rfl, nofun, hl.ordered, hl.announced⟩
      exact (good_unchanged hlive).check
    | cons p ps =>
      have hstart := (hl.begun p ps hcells).1
      have hne : ses.sent_bytes ≠ 0 := by
        have hpos : 0 < START := by decide
        omega
      have hgood := write_loop_spec { ses with write_desc := false } hl.client hl.greeted
        hl.ordered hl.announced (.inr hstart) h_eq
      dsimp only at hgood
      rwa [if_neg hne, hcells] at hgood
  · cases h_eq

/-! ## 4. Packets that are received -/

theorem deliver_spec (hl : ses.Live ann data) (hconn : ses.flags = .connected)
    (htype : p.type = .data) (hp : p.seq_no = ses.recv_tail) (h_eq : ses.deliver p rets = some h) :
    h.Good ann data ses.remaining ∧ (h.cause = none → h.ses.flags = .connected) := by
  have hdata : [p].filter (·.type = .data) = [p] := by
    rw [filter_singleton, htype]
    rfl
  unfold Session.deliver at h_eq
  split at h_eq
  · rename_i hne
    cases h_eq
    refine ⟨⟨fun _ => ⟨hl.client, .inl hconn, ?_, ?_, hl.announced⟩, fun _ => ?_, nofun,
      fun hne => absurd rfl hne⟩, fun _ => hconn⟩
    · intro q qs heq
      cases hcells : ses.rel_deliver_buff with
      | nil => exact absurd hcells hne
      | cons q' qs' =>
        dsimp only [Session.take] at heq
        rw [hcells] at heq
        cases heq
        exact hl.begun _ _ hcells
    · rw [Handled.data, hdata]
      exact hl.ordered.take hp
    · rw [flatMap_singleton]
      exact (remaining_push hne).symm
  · rename_i hnil
    obtain ⟨h', hsend, rfl⟩ := map_eq_some_iff.mp h_eq
    rcases Net_Rel_Sess_Send_spec hl.client (not_not.mp hnil) hsend with
      ⟨hcause, hacc, hbytes, ⟨cells, s, write_desc, hses⟩, hbegun⟩ | ⟨hcause, horphan⟩
    · rw [if_pos hcause]
      have hflags : h'.ses.flags = .connected := by
        rw [hses]
        exact hconn
      refine ⟨⟨fun _ => ⟨?_, .inl hflags, hbegun, ?_, ?_⟩, fun _ => ?_, ?_,
        fun hne => absurd hcause hne⟩, fun _ => hflags⟩
      · dsimp only [Session.take]
        rw [hses]
        exact hl.client
      · dsimp only [Session.take, Handled.data]
        rw [hses, hacc, hdata]
        exact hl.ordered.take hp
      · dsimp only [Session.take]
        rw [hses]
        exact hl.announced
      · dsimp only
        rw [hacc, flatMap_singleton, Session.remaining_nil (not_not.mp hnil)]
        exact hbytes
      · intro hann
        rw [hcause] at hann
        cases hann
    · have hne : h'.cause ≠ none := by
        rw [hcause]
        exact nofun
      rw [if_neg hne]
      exact ⟨good_gone hne (by rw [hcause]; exact nofun) (.inl horphan), fun hnone =>
        absurd hnone hne⟩

theorem deliver_rest_spec (n : ℕ) (hl : ses.Live ann data)
    (hconn : ses.flags = .connected) (h_eq : ses.deliver_rest n rets = some h) : h.Good ann data ses.remaining := by
  induction n generalizing ses data rets h with
  | zero =>
    cases h_eq
    exact good_unchanged hl
  | succ n ih =>
    unfold Session.deliver_rest at h_eq
    dsimp only at h_eq
    split at h_eq
    · obtain ⟨p, hcell, h_eq⟩ := bind_eq_some_iff.mp h_eq
      obtain ⟨h1, hdeliver, h_eq⟩ := bind_eq_some_iff.mp h_eq
      obtain ⟨htype, hp⟩ := hl.ordered.at_tail hcell
      obtain ⟨hgood, hflags⟩ := deliver_spec hl hconn htype hp hdeliver
      split at h_eq
      · cases h_eq
        exact hgood
      · rename_i hcause
        obtain ⟨h2, hrest, hret⟩ := bind_eq_some_iff.mp h_eq
        cases hret
        have hnone := not_not.mp hcause
        exact hgood.append hnone (ih (hgood.live hnone) (hflags hnone) hrest)
    · cases h_eq
      exact good_unchanged hl

theorem deliver_in_order_spec (hl : ses.Live ann data)
    (hconn : ses.flags = .connected) (htype : p.type = .data) (hp : p.seq_no = ses.recv_tail)
    (h_eq : ses.deliver_in_order p rets = some h) : h.Good ann data ses.remaining := by
  obtain ⟨h1, hdeliver, h_eq⟩ := bind_eq_some_iff.mp h_eq
  obtain ⟨hgood, hflags⟩ := deliver_spec hl hconn htype hp hdeliver
  split at h_eq
  · cases h_eq
    exact hgood
  · rename_i hcause
    obtain ⟨h2, hrest, hret⟩ := bind_eq_some_iff.mp h_eq
    cases hret
    have hnone := not_not.mp hcause
    have hrest' := deliver_rest_spec _ (hgood.live hnone) (hflags hnone) hrest
    exact (hgood.append hnone hrest').check

structure Session.Announces (ses : Session) (p : Packet) : Prop where
  type : p.type = .hello_discnct
  length : p.buff.length = SIZEOF_HELLO
  port : ses.rel_orig_port = p.orig_port
  flags : ses.flags = .connected
  client : ses.client_stat = .on
  first : ses.connect_state = false

/-- When the announced number is the one that is waited for, nothing waits for the
client. -/
def Session.Meets (ses : Session) : Event → Prop
  | .receive p _ => ses.Announces p → p.seq_no = ses.recv_tail → ses.rel_deliver_buff = []
  | _ => True

theorem Process_Rel_Ses_Hello_spec (hl : ses.Live ann data)
    (hmem : p.type = .hello_discnct → ses.flags = .connected ∧ p.seq_no ∈ ann)
    (hmeets : ses.Meets (.receive p rets)) (h_eq : ses.Process_Rel_Ses_Hello p rets = some h) :
    h.Good ann data ses.remaining := by
  unfold Session.Process_Rel_Ses_Hello at h_eq
  split at h_eq
  · cases h_eq
    exact good_unchanged hl
  rename_i hlen
  split at h_eq
  · cases h_eq
    exact good_unchanged hl
  rename_i hport
  cases htype : p.type with
  | hello =>
    rw [htype] at h_eq
    dsimp only at h_eq
    split at h_eq
    · rename_i hwait
      have hnil : ses.rel_deliver_buff = [] := by
        apply hl.greeted.resolve_left
        intro hconn
        rw [hconn] at hwait
        rcases hwait with hwait | hwait
        · cases hwait
        · cases hwait
      have hdata : [p].filter (·.type = .data) = [] := by
        rw [filter_singleton, htype]
        rfl
      have hon : Session.client_stat { ses with flags := .connected } = .on := hl.client
      rcases Net_Rel_Sess_Send_spec hon hnil h_eq with
        ⟨hcause, hacc, hbytes, ⟨cells, s, write_desc, hses⟩, hbegun⟩ | ⟨hcause, horphan⟩
      · refine ⟨fun _ => ⟨?_, .inl ?_, hbegun, ?_, ?_⟩, fun _ => ?_, ?_,
          fun hne => absurd hcause hne⟩
        · rw [hses]
          exact hl.client
        · rw [hses]
        · rw [hses, Handled.data, hacc, hdata, append_nil]
          exact hl.ordered
        · rw [hses]
          exact hl.announced
        · rw [hacc, flatMap_singleton, Session.remaining_nil hnil]
          exact hbytes
        · intro hann
          rw [hcause] at hann
          cases hann
      · exact good_gone (by rw [hcause]; exact nofun) (by rw [hcause]; exact nofun)
          (.inl horphan)
    · cases h_eq
      exact good_unchanged hl
  | hello_discnct =>
    rw [htype] at h_eq
    dsimp only at h_eq
    obtain ⟨hconn, hann⟩ := hmem htype
    split at h_eq
    · cases h_eq
      exact good_unchanged hl
    rename_i hfirst
    rw [if_pos hl.client] at h_eq
    split at h_eq
    · rename_i hseq
      cases h_eq
      have hnil : ses.rel_deliver_buff = [] :=
        hmeets ⟨htype, not_not.mp hlen, not_not.mp hport, hconn, hl.client,
          Bool.eq_false_of_not_eq_true hfirst⟩ hseq
      refine ⟨nofun, nofun, fun _ => ⟨⟨_, hann, ?_⟩, ?_, ?_⟩, fun _ => .inl rfl⟩
      · rw [hseq, hl.ordered.tail, Handled.data, filter_nil, append_nil]
      · rw [Handled.data, filter_nil, append_nil]
        exact hl.ordered.numbered
      · rw [Session.remaining_nil hnil]
        rfl
    · cases h_eq
      have hlive : Session.Live { ses with connect_state := true, last_seq_sent := p.seq_no }
          ann data := ⟨hl.client, hl.greeted, hl.begun, hl.ordered, fun _ => hann⟩
      exact good_unchanged hlive
  | hello_close =>
    rw [htype] at h_eq
    dsimp only at h_eq
    split at h_eq
    · cases h_eq
      exact good_gone nofun nofun (.inr rfl)
    · cases h_eq
      exact good_unchanged hl
  | data =>
    rw [htype] at h_eq
    cases h_eq
    exact good_unchanged hl
  | link_ack =>
    rw [htype] at h_eq
    cases h_eq
    exact good_unchanged hl

theorem Deliver_Rel_UDP_Data_spec (hl : ses.Live ann data)
    (hmem : p.type = .hello_discnct → p.seq_no ∈ ann)
    (hmeets : ses.Meets (.receive p rets)) (h_eq : Deliver_Rel_UDP_Data ses p rets = some h) :
    h.Good ann data ses.remaining := by
  unfold Deliver_Rel_UDP_Data at h_eq
  split at h_eq
  · rename_i htype
    split at h_eq
    · cases h_eq
      exact good_unchanged hl
    · refine Process_Rel_Ses_Hello_spec hl (fun hdis => ?_) hmeets h_eq
      rw [htype] at hdis
      cases hdis
  split at h_eq
  · split at h_eq
    · cases h_eq
      exact good_unchanged hl
    · rename_i hconn
      exact Process_Rel_Ses_Hello_spec hl (fun hdis => ⟨not_not.mp hconn, hmem hdis⟩) hmeets h_eq
  split at h_eq
  · cases h_eq
    exact good_unchanged hl
  rename_i hhello hother hconn
  -- a data packet or an acknowledgement
  obtain ⟨recv_head, window, hses, hsame, hneeded⟩ := Process_Sess_Ack_spec ses p
  rw [← Prod.mk.eta (p := Process_Sess_Ack ses p), hses] at h_eq
  dsimp only at h_eq
  have hlive : Session.Live { ses with recv_head := recv_head, recv_window := window }
      ann data :=
    ⟨hl.client, hl.greeted, hl.begun, hl.ordered.marked hsame, hl.announced⟩
  rw [if_neg (not_not.mpr hl.client)] at h_eq
  split at h_eq
  · cases h_eq
    exact good_unchanged hlive
  rename_i hack
  split at h_eq
  · cases h_eq
    exact good_gone nofun nofun (.inl rfl)
  split at h_eq
  · cases h_eq
    exact good_unchanged hlive
  rename_i hzero
  obtain ⟨hnot_ack, hle, hlt⟩ := hneeded hack hzero
  have htype : p.type = .data := by
    cases htype : p.type with
    | data => rfl
    | link_ack => exact absurd htype hnot_ack
    | hello => exact absurd htype hhello
    | hello_discnct => exact absurd (.inl htype) hother
    | hello_close => exact absurd (.inr htype) hother
  have hstored : Session.Live
      (Session.store { ses with recv_head := recv_head, recv_window := window } p)
      ann data :=
    ⟨hl.client, hl.greeted, hl.begun, hlive.ordered.store htype hle hlt, hl.announced⟩
  split at h_eq
  · cases h_eq
    exact good_unchanged hstored
  · rename_i hseq
    have hgood := deliver_in_order_spec hstored (not_not.mp hconn) htype (not_not.mp hseq) h_eq
    exact hgood

end Handlers

/-! ## 5. Runs -/

/-- As long as the client is there, what was written and what remains are what was
accepted. -/
structure World.Inv (w : World) : Prop where
  live : w.cause = none → w.ses.Live w.announcements w.data
  bytes : w.cause = none → w.written ++ w.ses.remaining = w.accepted.flatMap Packet.payload
  gone : w.cause ≠ none → w.ses.client_stat = .orphan ∨ w.ses.closed = true
  complete : w.Complete

section Worlds

variable {w w' w'' : World} {ses : Session} {ev : Event} {h : Handled} {p : Packet}
  {rets : List Ret} {ann : List ℕ} {data : List Packet}

theorem World.Initial.inv (hinit : w.Initial) (hfresh : w.ses.connect_state = false) : w.Inv := by
  have hdata : w.data = [] := by
    rw [World.data, hinit.accepted]
    rfl
  refine ⟨fun _ => ⟨hinit.client, .inr hinit.buff, ?_, ?_, ?_⟩, fun _ => ?_, ?_, ?_⟩
  · intro p ps heq
    rw [hinit.buff] at heq
    cases heq
  · rw [hdata]
    refine ⟨hinit.tail, nofun, ?_⟩
    intro i p hp
    rw [hinit.window] at hp
    cases hp
  · intro hstate
    rw [hfresh] at hstate
    cases hstate
  · rw [hinit.written, hinit.accepted, Session.remaining_nil hinit.buff]
    rfl
  · intro hne
    exact absurd hinit.cause hne
  · intro hann
    rw [hinit.cause] at hann
    cases hann

theorem step_good (hl : ses.Live ann data) (hen : ses.Enabled ev)
    (hmem : ∀ n ∈ ev.announcement, n ∈ ann) (hmeets : ses.Meets ev)
    (hstep : ses.step ev = some h) : h.Good ann data ses.remaining := by
  cases ev with
  | receive p rets =>
    apply Deliver_Rel_UDP_Data_spec hl _ hmeets hstep
    intro htype
    apply hmem
    rw [Event.announcement, if_pos htype]
    exact mem_singleton_self _
  | write rets => exact Session_Write_spec hl hstep
  | leave =>
    cases hstep
    exact good_gone nofun nofun (.inl rfl)
  | send head =>
    cases hstep
    have hlive : Session.Live { ses with head := head } ann data :=
      ⟨hl.client, hl.greeted, hl.begun, hl.ordered, hl.announced⟩
    exact good_unchanged hlive

structure Handled.Idle (h : Handled) : Prop where
  out : h.out = []
  accepted : h.accepted = []
  gone : h.ses.client_stat = .orphan ∨ h.ses.closed = true

theorem idle_unchanged (hgone : ses.client_stat = .orphan) : (ses.unchanged rets).Idle :=
  ⟨rfl, rfl, .inl hgone⟩

theorem hello_orphan (hgone : ses.client_stat = .orphan)
    (h_eq : ses.Process_Rel_Ses_Hello p rets = some h) : h.Idle := by
  unfold Session.Process_Rel_Ses_Hello at h_eq
  split at h_eq
  · cases h_eq
    exact idle_unchanged hgone
  split at h_eq
  · cases h_eq
    exact idle_unchanged hgone
  split at h_eq
  · split at h_eq
    · unfold Session.Net_Rel_Sess_Send at h_eq
      dsimp only at h_eq
      split at h_eq
      · cases h_eq
        exact ⟨rfl, rfl, .inl hgone⟩
      · cases h_eq
      · rename_i hon
        rw [hgone] at hon
        cases hon
    · cases h_eq
      exact idle_unchanged hgone
  · split at h_eq
    · cases h_eq
      exact idle_unchanged hgone
    · split at h_eq
      · rename_i hon
        rw [hgone] at hon
        cases hon
      · cases h_eq
        exact ⟨rfl, rfl, .inr rfl⟩
  · split at h_eq
    · cases h_eq
      exact ⟨rfl, rfl, .inr rfl⟩
    · cases h_eq
      exact idle_unchanged hgone
  · cases h_eq
    exact idle_unchanged hgone

theorem step_orphan (hgone : ses.client_stat = .orphan) (hen : ses.Enabled ev)
    (hstep : ses.step ev = some h) : h.Idle := by
  cases ev with
  | receive p rets =>
    dsimp only [Session.step] at hstep
    unfold Deliver_Rel_UDP_Data at hstep
    split at hstep
    · split at hstep
      · cases hstep
        exact idle_unchanged hgone
      · exact hello_orphan hgone hstep
    split at hstep
    · split at hstep
      · cases hstep
        exact idle_unchanged hgone
      · exact hello_orphan hgone hstep
    split at hstep
    · cases hstep
      exact idle_unchanged hgone
    · obtain ⟨recv_head, window, hses, -, -⟩ := Process_Sess_Ack_spec ses p
      have hnot_on : (Process_Sess_Ack ses p).1.client_stat ≠ .on := by
        rw [hses, hgone]
        exact nofun
      rw [← Prod.mk.eta (p := Process_Sess_Ack ses p)] at hstep
      dsimp only at hstep
      rw [if_pos hnot_on] at hstep
      cases hstep
      apply idle_unchanged
      rw [hses]
      exact hgone
  | write rets =>
    have hon := hen.2.1
    rw [hgone] at hon
    cases hon
  | leave =>
    have hon := hen.2
    rw [hgone] at hon
    cases hon
  | send head =>
    cases hstep
    exact ⟨rfl, rfl, .inl hgone⟩

theorem Session.Live.mono {announcements' : List ℕ} (hl : ses.Live ann data)
    (hsub : ∀ n ∈ ann, n ∈ announcements') : ses.Live announcements' data :=
  ⟨hl.client, hl.greeted, hl.begun, hl.ordered, fun hstate => hsub _ (hl.announced hstate)⟩

theorem Session.Enabled.opened (hen : ses.Enabled ev) : ses.closed = false := by
  cases ev with
  | receive p rets => exact hen
  | write rets => exact hen.1
  | leave => exact hen.1
  | send head => exact hen

theorem World.Inv.step (hw : w.Inv) (hstep : World.Step w ev w') (hmeets : w.ses.Meets ev) :
    w'.Inv := by
  obtain ⟨hen, h, hh, -, hses, hwritten, hacc, hcause, hann⟩ := hstep
  have hdata : w'.data = w.data ++ h.data := by
    rw [World.data, hacc, filter_append]
    rfl
  cases hbefore : w.cause with
  | none =>
    have hnow : w'.cause = h.cause := by
      rw [hcause, hbefore]
      rfl
    have hlive := (hw.live hbefore).mono fun n hn =>
      mem_append_left ev.announcement hn
    have hgood := step_good hlive hen (fun n hn => mem_append_right _ hn) hmeets hh
    rw [← hann] at hgood
    have hbytes : ∀ rest : Bytes,
        w.ses.remaining ++ h.accepted.flatMap Packet.payload = h.out ++ rest →
          w'.written ++ rest = w'.accepted.flatMap Packet.payload := by
      intro rest heq
      rw [hwritten, hacc, flatMap_append, ← hw.bytes hbefore, append_assoc,
        append_assoc, heq]
    refine ⟨?_, ?_, ?_, ?_⟩
    · intro hnone
      rw [hses, hdata]
      exact hgood.live (hnow.symm.trans hnone)
    · intro hnone
      rw [hses]
      exact hbytes _ (hgood.bytes (hnow.symm.trans hnone))
    · intro hne
      rw [hses]
      exact hgood.gone fun hnone => hne (hnow.trans hnone)
    · intro hdone
      obtain ⟨hcount, hnum, heq⟩ := hgood.complete (hnow.symm.trans hdone)
      rw [hdata]
      refine ⟨hcount, hnum, ?_⟩
      have hall := hbytes [] (heq.trans (append_nil _).symm)
      rwa [append_nil] at hall
  | some cause =>
    -- the client has gone
    have hgone : w.ses.client_stat = .orphan := by
      rcases hw.gone (by rw [hbefore]; exact nofun) with hgone | hclosed
      · exact hgone
      · rw [hen.opened] at hclosed
        cases hclosed
    have hidle := step_orphan hgone hen hh
    have hsame : w'.cause = w.cause := by
      rw [hcause, hbefore]
      rfl
    have hne : w'.cause ≠ none := by
      rw [hsame, hbefore]
      exact nofun
    rw [hidle.accepted, append_nil] at hacc
    rw [hidle.out, append_nil] at hwritten
    refine ⟨fun hnone => absurd hnone hne, fun hnone => absurd hnone hne, fun _ => ?_, ?_⟩
    · rw [hses]
      exact hidle.gone
    · intro hdone
      obtain ⟨⟨n, hn, hcount⟩, hnum, heq⟩ := hw.complete (hsame.symm.trans hdone)
      have hsame_data : w'.data = w.data := by
        rw [World.data, hacc]
        rfl
      rw [hsame_data, hwritten, hacc, hann]
      exact ⟨⟨n, mem_append_left _ hn, hcount⟩, hnum, heq⟩

theorem Session.Live.remaining_ne (hl : ses.Live ann data)
    (hne : ses.rel_deliver_buff ≠ []) : ses.remaining ≠ [] := by
  cases hcells : ses.rel_deliver_buff with
  | nil => exact absurd hcells hne
  | cons p ps =>
    have hlt := (hl.begun p ps hcells).2
    rw [Session.remaining, hcells]
    intro hnil
    have hlen := congrArg List.length (append_eq_nil_iff.mp hnil).1
    rw [length_drop, Packet.frame_length, length_nil] at hlen
    omega

theorem World.Inv.lost (hw : w.Inv) (hstep : World.Step w (.receive p rets) w')
    (hann : w.ses.Announces p) (hseq : p.seq_no = w.ses.recv_tail)
    (hne : w.ses.rel_deliver_buff ≠ []) : ¬w'.Complete := by
  obtain ⟨hen, h, hh, -, hses, hwritten, hacc, hcause, -⟩ := hstep
  have hnone : w.cause = none := by
    by_contra hsome
    rcases hw.gone hsome with hgone | hclosed
    · rw [hann.client] at hgone
      cases hgone
    · rw [hen.opened] at hclosed
      cases hclosed
  have hresult : h = ⟨{ w.ses with connect_state := true }.disconnect, [], [],
      some .announced, rets⟩ := by
    have hhello : p.type ≠ .hello := by
      rw [hann.type]
      exact nofun
    dsimp only [Session.step] at hh
    rw [Deliver_Rel_UDP_Data, if_neg hhello, if_pos (.inl hann.type),
      if_neg (not_not.mpr hann.flags), Session.Process_Rel_Ses_Hello,
      if_neg (not_not.mpr hann.length), if_neg (not_not.mpr hann.port), hann.type] at hh
    dsimp only at hh
    rw [hann.first, if_neg Bool.false_ne_true, if_pos hann.client, if_pos hseq] at hh
    exact (some.inj hh).symm
  rw [hresult] at hcause hwritten hacc
  rw [hnone] at hcause
  rw [append_nil] at hwritten hacc
  intro hcomplete
  obtain ⟨-, -, heq⟩ := hcomplete hcause
  rw [hwritten, hacc, ← hw.bytes hnone] at heq
  have hnil : w.ses.remaining = [] := (self_eq_append_right.mp heq)
  exact (hw.live hnone).remaining_ne hne hnil

/-- In a run that meets the condition, a client that is disconnected because its stream is
complete has got all of it; and the next step keeps this only if it meets the condition. -/
theorem close_delivers_everything (hinit : w.Initial) (hfresh : w.ses.connect_state = false)
    (hrun : Run (fun w ev w' => World.Step w ev w' ∧ w.ses.Meets ev) w w') :
    w'.Complete ∧ ∀ ev w'', World.Step w' ev w'' → (w''.Complete ↔ w'.ses.Meets ev) := by
  have hinv : w'.Inv :=
    Run.invariant World.Inv (hinit.inv hfresh) (fun _ _ _ hw h => hw.step h.1 h.2) hrun
  refine ⟨hinv.complete, ?_⟩
  intro ev w'' hstep
  constructor
  · intro hcomplete
    cases ev with
    | receive p rets =>
      intro hann hseq
      by_contra hne
      exact hinv.lost hstep hann hseq hne hcomplete
    | write rets => trivial
    | leave => trivial
    | send head => trivial
  · intro hmeets
    exact (hinv.step hstep hmeets).complete

end Worlds

/-! A run: the handshake, a packet that has to wait after its first byte, and the end of the
stream. -/

def fresh (connect_state : Bool) : World where
  ses :=
    { client_stat := .on, rel_orig_port := 7, flags := .accept_wait,
      connect_state := connect_state, last_seq_sent := 1, head := 0, recv_head := 0,
      recv_tail := 0, recv_window := fun _ => ⟨false, none⟩, rel_deliver_buff := [],
      sent_bytes := 0, write_desc := false, closed := false }
  written := []
  accepted := []
  cause := none
  announcements := []

theorem fresh_initial (connect_state : Bool) : (fresh connect_state).Initial :=
  ⟨rfl, .inr rfl, rfl, fun _ => rfl, rfl, rfl, rfl, rfl, rfl⟩

def greeting : Event :=
  .receive ⟨replicate 52 0, .hello, 0, 2, 0, 7, by decide⟩ [.wrote 16]

def first_packet (rets : List Ret) : Event :=
  .receive ⟨replicate 36 0 ++ [1, 2] ++ replicate 12 0, .data, 12, 0, 0, 7, by decide⟩ rets

def announcement : Event :=
  .receive ⟨replicate 52 0, .hello_discnct, 0, 1, 0, 7, by decide⟩ []

def World.next (w : World) (ev : Event) : World :=
  match w.ses.step ev with
  | none => w
  | some h => ⟨h.ses, w.written ++ h.out, w.accepted ++ h.accepted, w.cause <|> h.cause,
      w.announcements ++ ev.announcement⟩

theorem World.step_next {w : World} {ev : Event} (hen : w.ses.Enabled ev)
    (h : (w.ses.step ev).map Handled.rest = some []) : World.Step w ev (w.next ev) := by
  obtain ⟨r, hr, hrest⟩ := map_eq_some_iff.mp h
  refine ⟨hen, r, hr, hrest, ?_, ?_, ?_, ?_, ?_⟩ <;> rw [World.next, hr]

def waiting : World := ((fresh false).next greeting).next (first_packet [.wrote 1, .again])

theorem waiting_run :
    Run (fun w ev w' => World.Step w ev w' ∧ w.ses.Meets ev) (fresh false) waiting := by
  have hgreeting : World.Step (fresh false) greeting _ := World.step_next rfl (by decide)
  have hfirst : World.Step ((fresh false).next greeting) (first_packet [.wrote 1, .again]) _ :=
    World.step_next rfl (by decide)
  refine ((Run.refl _).tail ⟨hgreeting, ?_⟩).tail ⟨hfirst, ?_⟩
  · intro hann
    cases hann.type
  · intro hann
    cases hann.type

theorem close_delivers_everything_written :
    let w := (waiting.next (.write [.wrote 1])).next announcement
    w.cause = some .announced ∧ w.written.length = 18 ∧ w.Complete := by
  have hwrite : World.Step waiting (.write [.wrote 1]) _ :=
    World.step_next ⟨by decide, by decide, by decide⟩ (by decide)
  have hann : World.Step (waiting.next (.write [.wrote 1])) announcement _ :=
    World.step_next (by unfold announcement Session.Enabled; decide) (by decide)
  have hmeets : (waiting.next (.write [.wrote 1])).ses.Meets announcement := fun _ _ => by
    have hnil : (waiting.next (.write [.wrote 1])).ses.rel_deliver_buff.length = 0 := by decide
    exact length_eq_zero_iff.mp hnil
  have hrun := (waiting_run.tail ⟨hwrite, trivial⟩).tail ⟨hann, hmeets⟩
  exact ⟨by decide, by decide, (close_delivers_everything (fresh_initial false) rfl hrun).1⟩

/-- The announcement arrives while the last byte has to wait. -/
theorem announcement_discards :
    ∃ w w', w.Initial ∧ w.ses.connect_state = false ∧ Run World.Step w w' ∧ ¬w'.Complete := by
  have hann : World.Step waiting announcement _ :=
    World.step_next (by unfold announcement Session.Enabled; decide) (by decide)
  have hrun : Run World.Step (fresh false) waiting := Run.mono (fun _ _ _ h => h.1) waiting_run
  refine ⟨fresh false, _, fresh_initial false, rfl, hrun.tail hann, ?_⟩
  intro hcomplete
  obtain ⟨-, -, heq⟩ := hcomplete (by decide)
  have hlen := congrArg List.length heq
  revert hlen
  decide

end Spines.Reliable
