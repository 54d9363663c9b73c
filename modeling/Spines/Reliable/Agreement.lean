/-
Reliable sessions agree on their other sides, as long as a waiting session acts only on
hellos of its own handshake.

`Process_Rel_Ses_Hello` looks at the original port only. A hello of a session that
connects to the port of a session that is itself connecting completes the wrong handshake
(`stranger_connects`), and so does an old hello that reaches a session with the port of an
earlier one. Without those, every session that has been connected is on one side of a
handshake (`SesOk`), and what a hello says of its sender stays true (`PktOk`), because a
session never changes its other side again.
-/
import Spines.Reliable.Handshake

set_option autoImplicit false

namespace Spines.Reliable.Handshake

open Spines.Lib Function Option List

variable {w : World} {s : Sid} {ses ses' : Session} {p : Hello} {env : Env}

/-! ## 1. The table of sessions -/

theorem World.live_eq_some : w.live s = some ses ↔ w.sessions s = some ses ∧ ses.closed = false := by
  rw [World.live, filter_eq_some_iff]
  simp

@[simp] theorem World.set_sessions_self : (w.set s ses).sessions s = some ses :=
  update_self ..

theorem World.set_sessions_ne {t : Sid} (h : t ≠ s) : (w.set s ses).sessions t = w.sessions t :=
  update_of_ne h ..

/-! ## 2. What holds of sessions and hellos -/

structure SesOk (w : World) (s : Sid) (ses : Session) : Prop where
  port : ses.port ≠ 0
  unset : ses.flags = none → ses.request = none
  wait : ses.flags = some .accept_wait → ses.request ≠ none
  request : ∀ l p, ses.request = some (l, p) → (l, p) ∈ w.delivered ∧ l.1 = s.1 ∧
    p.type = .hello ∧ p.seq_no = 0 ∧ ses.rel_otherside_addr = p.source ∧
    ses.rel_otherside_port = p.my_port ∧ ses.rel_otherside_id = p.my_sess_id ∧
    ses.flags ≠ some .connect_wait
  forward : ses.request = none → ses.reached → ∃ a l p,
    w.sessions (ses.rel_otherside_addr, ses.rel_otherside_id) = some a ∧
    a.request = some (l, p) ∧ p.sender = s ∧ a.port = ses.rel_otherside_port
  back : ∀ l p, ses.request = some (l, p) → ses.reached → ∃ c, w.sessions p.sender = some c ∧
    c.request = none ∧ c.reached ∧ c.peer = some s

structure PktOk (w : World) (p : Hello) (ses : Session) : Prop where
  sender : w.sessions p.sender = some ses
  flags : ses.flags ≠ none
  my_port : p.my_port = ses.port
  peer : ∀ q, p.peer = some q → ses.peer = some q
  connect : p.type = .hello → p.seq_no = 0 → ses.request = none ∧ p.dest = ses.rel_otherside_addr

structure Core (w : World) : Prop where
  ses : ∀ s ses, w.sessions s = some ses → SesOk w s ses
  sent : ∀ p ∈ w.sent, ∃ ses, PktOk w p ses
  delivered : ∀ d ∈ w.delivered, d.2 ∈ w.sent ∧ d.2.dest = d.1.1

structure Keeps (ses ses' : Session) : Prop where
  fixed : ses.flags ≠ none → ses'.flags ≠ none ∧ ses'.port = ses.port ∧
    ses'.request = ses.request ∧ ses'.rel_otherside_addr = ses.rel_otherside_addr ∧
    ses'.rel_orig_port = ses.rel_orig_port
  peer : ∀ q, ses.peer = some q → ses'.peer = some q
  reached : ses.reached → ses'.reached

theorem Session.reached.flags (h : ses.reached) : ses.flags ≠ none := by
  rcases h with h | h <;> rw [h] <;> simp

theorem Core.set (h : Core w) (hs : w.sessions s = some ses) (hk : Keeps ses ses')
    (hok : SesOk w s ses') : Core (w.set s ses') := by
  have hlook : ∀ t a, w.sessions t = some a → a.flags ≠ none → ∃ a',
      (w.set s ses').sessions t = some a' ∧ Keeps a a' := by
    intro t a ha hflags
    by_cases hts : t = s
    · subst hts
      rw [hs] at ha
      cases ha
      exact ⟨ses', World.set_sessions_self, hk⟩
    · refine ⟨a, ?_, ⟨fun hf => ⟨hf, rfl, rfl, rfl, rfl⟩, fun _ hq => hq, fun hr => hr⟩⟩
      rw [World.set_sessions_ne hts]
      exact ha
  have hlift : ∀ t a, SesOk w t a → SesOk (w.set s ses') t a := by
    intro t a ha
    refine ⟨ha.port, ha.unset, ha.wait, ha.request, ?_, ?_⟩
    · intro hreq hreached
      obtain ⟨b, l, p, hb, hbreq, hsend, hport⟩ := ha.forward hreq hreached
      have hbflags : b.flags ≠ none := by
        intro hnone
        have hbnone := (h.ses _ _ hb).unset hnone
        rw [hbreq] at hbnone
        cases hbnone
      obtain ⟨b', hb', hkeep⟩ := hlook _ _ hb hbflags
      obtain ⟨-, hport', hreq', -⟩ := hkeep.fixed hbflags
      exact ⟨b', l, p, hb', hreq'.trans hbreq, hsend, hport'.trans hport⟩
    · intro l p hreq hreached
      obtain ⟨b, hb, hbreq, hbreached, hpeer⟩ := ha.back l p hreq hreached
      obtain ⟨b', hb', hkeep⟩ := hlook _ _ hb hbreached.flags
      obtain ⟨-, -, hreq', -⟩ := hkeep.fixed hbreached.flags
      exact ⟨b', hb', hreq'.trans hbreq, hkeep.reached hbreached, hkeep.peer _ hpeer⟩
  refine ⟨?_, ?_, h.delivered⟩
  · intro t a ha
    by_cases hts : t = s
    · subst hts
      rw [World.set_sessions_self] at ha
      cases ha
      exact hlift _ _ hok
    · rw [World.set_sessions_ne hts] at ha
      exact hlift t a (h.ses t a ha)
  · intro p hp
    obtain ⟨a, ha⟩ := h.sent p hp
    obtain ⟨a', ha', hkeep⟩ := hlook _ _ ha.sender ha.flags
    obtain ⟨hflags, hport, hreq, haddr, -⟩ := hkeep.fixed ha.flags
    refine ⟨a', ha', hflags, ?_, ?_, ?_⟩
    · rw [hport]
      exact ha.my_port
    · intro q hq
      exact hkeep.peer q (ha.peer q hq)
    · rw [hreq, haddr]
      exact ha.connect

theorem Core.congr {w' : World} (h : Core w) (hses : w'.sessions = w.sessions)
    (hsent : w'.sent = w.sent) (hdel : w'.delivered = w.delivered) : Core w' := by
  obtain ⟨sessions, rel, sent, delivered⟩ := w'
  dsimp only at hses hsent hdel
  subst hses hsent hdel
  refine ⟨?_, ?_, h.delivered⟩
  · intro t a ha
    have hok := h.ses t a ha
    exact ⟨hok.port, hok.unset, hok.wait, hok.request, hok.forward, hok.back⟩
  · intro p hp
    obtain ⟨a, ha⟩ := h.sent p hp
    exact ⟨a, ha.sender, ha.flags, ha.my_port, ha.peer, ha.connect⟩

structure Registered (w : World) : Prop where
  live : ∀ n, ∀ r ∈ w.Rel_Sessions_Port n, ∃ ses, w.live (n, r.2) = some ses ∧
    ses.rel_orig_port = r.1 ∧ ses.flags ≠ none
  nodup : ∀ n, (w.Rel_Sessions_Port n).Nodup

theorem Registered.other (h : Registered w) (s : Sid) (ses' : Session) :
    ∀ n, ∀ r ∈ w.Rel_Sessions_Port n, (n, r.2) ≠ s → ∃ a, (w.set s ses').live (n, r.2) = some a ∧
      a.rel_orig_port = r.1 ∧ a.flags ≠ none := by
  intro n r hr hne
  obtain ⟨a, ha, hport, hflags⟩ := h.live n r hr
  refine ⟨a, ?_, hport, hflags⟩
  rw [World.live_eq_some, World.set_sessions_ne hne]
  exact World.live_eq_some.mp ha

structure Inv (w : World) : Prop where
  core : Core w
  registered : Registered w

theorem Registered.set (h : Registered w) (hs : w.live s = some ses) (hopen : ses'.closed = false)
    (hk : ses.flags ≠ none → ses'.flags ≠ none ∧ ses'.rel_orig_port = ses.rel_orig_port) :
    Registered (w.set s ses') := by
  refine ⟨?_, h.nodup⟩
  intro n r hr
  obtain ⟨a, ha, hport, hflags⟩ := h.live n r hr
  by_cases hns : (n, r.2) = s
  · subst hns
    rw [hs] at ha
    cases ha
    obtain ⟨hflags', hport'⟩ := hk hflags
    refine ⟨ses', ?_, hport'.trans hport, hflags'⟩
    exact World.live_eq_some.mpr ⟨World.set_sessions_self, hopen⟩
  · exact h.other s ses' n r hr hns

theorem Inv.set (h : Inv w) (hs : w.live s = some ses) (hk : Keeps ses ses')
    (hopen : ses'.closed = false) (hok : SesOk w s ses') : Inv (w.set s ses') := by
  refine ⟨h.core.set (World.live_eq_some.mp hs).1 hk hok, h.registered.set hs hopen ?_⟩
  intro hflags
  obtain ⟨hflags', -, -, -, hport⟩ := hk.fixed hflags
  exact ⟨hflags', hport⟩

structure Beside (ses ses' : Session) : Prop where
  flags : ses'.flags = ses.flags
  request : ses'.request = ses.request
  addr : ses'.rel_otherside_addr = ses.rel_otherside_addr
  otherside_port : ses'.rel_otherside_port = ses.rel_otherside_port
  otherside_id : ses'.rel_otherside_id = ses.rel_otherside_id
  orig_port : ses'.rel_orig_port = ses.rel_orig_port
  port : ses.flags ≠ none → ses'.port = ses.port
  nonzero : ses'.port ≠ 0

theorem Beside.keeps (h : Beside ses ses') : Keeps ses ses' := by
  refine ⟨?_, ?_, ?_⟩
  · intro hflags
    refine ⟨?_, h.port hflags, h.request, h.addr, h.orig_port⟩
    rw [h.flags]
    exact hflags
  · intro q hq
    unfold Session.peer at hq ⊢
    rw [h.flags, h.addr, h.otherside_id]
    exact hq
  · unfold Session.reached
    rw [h.flags]
    exact id

theorem Beside.ok (h : Beside ses ses') (hok : SesOk w s ses) : SesOk w s ses' := by
  have hreached : ses'.reached ↔ ses.reached := by
    unfold Session.reached
    rw [h.flags]
  refine ⟨h.nonzero, ?_, ?_, ?_, ?_, ?_⟩
  · rw [h.flags, h.request]
    exact hok.unset
  · rw [h.flags, h.request]
    exact hok.wait
  · rw [h.flags, h.request, h.addr, h.otherside_port, h.otherside_id]
    exact hok.request
  · rw [h.request, h.addr, h.otherside_port, h.otherside_id, hreached]
    exact hok.forward
  · rw [h.request, hreached]
    exact hok.back

theorem Inv.beside (h : Inv w) (hs : w.live s = some ses) (hb : Beside ses ses')
    (hopen : ses'.closed = false) : Inv (w.set s ses') :=
  h.set hs hb.keeps hopen (hb.ok (h.core.ses s ses (World.live_eq_some.mp hs).1))

/-! ## 3. Closing and sending -/

theorem Session_Close_inv (h : Inv w) : Inv (w.Session_Close s) := by
  unfold World.Session_Close
  cases hs : w.live s with
  | none => exact h
  | some ses =>
    obtain ⟨hlook, hopen⟩ := World.live_eq_some.mp hs
    have hok : SesOk w s ses := h.core.ses s ses hlook
    have hb : Beside ses { ses with closed := true } :=
      ⟨rfl, rfl, rfl, rfl, rfl, rfl, fun _ => rfl, hok.port⟩
    have hcore : Core (w.set s { ses with closed := true }) :=
      h.core.set hlook hb.keeps (hb.ok hok)
    -- whoever is still registered is another session
    have hother := h.registered.other s { ses with closed := true }
    have hself : ∀ r ∈ w.Rel_Sessions_Port s.1, r.2 = s.2 →
        r = (ses.rel_orig_port, s.2) ∧ ses.flags ≠ none := by
      intro r hr hid
      obtain ⟨a, ha, hport, hflags⟩ := h.registered.live s.1 r hr
      rw [hid] at ha
      rw [Prod.mk.eta, hs] at ha
      cases ha
      exact ⟨Prod.ext hport.symm hid, hflags⟩
    dsimp only
    split
    · refine ⟨hcore.congr rfl rfl rfl, ?_, ?_⟩
      · intro n r hr
        by_cases hn : n = s.1
        · subst hn
          change r ∈ update w.Rel_Sessions_Port s.1
            ((w.Rel_Sessions_Port s.1).erase (ses.rel_orig_port, s.2)) s.1 at hr
          rw [update_self, (h.registered.nodup s.1).mem_erase_iff] at hr
          obtain ⟨hne, hmem⟩ := hr
          apply hother s.1 r hmem
          intro heq
          exact hne (hself r hmem (Prod.ext_iff.mp heq).2).1
        · change r ∈ update w.Rel_Sessions_Port s.1
            ((w.Rel_Sessions_Port s.1).erase (ses.rel_orig_port, s.2)) n at hr
          rw [update_of_ne hn] at hr
          apply hother n r hr
          rintro rfl
          exact hn rfl
      · intro n
        change (update w.Rel_Sessions_Port s.1
          ((w.Rel_Sessions_Port s.1).erase (ses.rel_orig_port, s.2)) n).Nodup
        by_cases hn : n = s.1
        · subst hn
          rw [update_self]
          exact (h.registered.nodup s.1).erase _
        · rw [update_of_ne hn]
          exact h.registered.nodup n
    · rename_i hnone
      refine ⟨hcore, ?_, h.registered.nodup⟩
      intro n r hr
      apply hother n r hr
      rintro rfl
      have hflags := (hself r hr rfl).2
      exact hnone (isSome_iff_ne_none.mpr hflags)

theorem Session.hello_ok {flags : Link_Flags} {seq : ℕ} (hs : w.sessions s = some ses)
    (hok : SesOk w s ses) (hf : ses.flags = some flags) : PktOk w (ses.hello s flags seq) ses := by
  refine ⟨hs, ?_, rfl, fun q hq => hq, ?_⟩
  · rw [hf]
    simp
  · intro htype hseq
    have hwait : flags = .connect_wait := by
      change (ses.hello_type flags seq).1 = .hello at htype
      change (ses.hello_type flags seq).2 = 0 at hseq
      unfold Session.hello_type at htype hseq
      cases flags with
      | connect_wait => rfl
      | accept_wait => cases hseq
      | connected =>
        dsimp only at htype hseq
        split at htype
        · rename_i hon
          rw [if_pos hon] at hseq
          cases hseq
        · cases htype
      | disconnect => cases htype
    refine ⟨?_, rfl⟩
    cases hreq : ses.request with
    | none => rfl
    | some lp =>
      obtain ⟨-, -, -, -, -, -, -, hnot⟩ := hok.request lp.1 lp.2 hreq
      rw [hf, hwait] at hnot
      exact absurd rfl hnot

theorem Core.send (h : Core w) (hp : PktOk w p ses) : Core { w with sent := p :: w.sent } := by
  refine ⟨?_, ?_, ?_⟩
  · intro t a ha
    have hok := h.ses t a ha
    exact ⟨hok.port, hok.unset, hok.wait, hok.request, hok.forward, hok.back⟩
  · intro q hq
    rcases mem_cons.mp hq with rfl | hq
    · exact ⟨ses, hp.sender, hp.flags, hp.my_port, hp.peer, hp.connect⟩
    · obtain ⟨a, ha⟩ := h.sent q hq
      exact ⟨a, ha.sender, ha.flags, ha.my_port, ha.peer, ha.connect⟩
  · intro d hd
    obtain ⟨hsent, hdest⟩ := h.delivered d hd
    exact ⟨mem_cons_of_mem _ hsent, hdest⟩

theorem Ses_Send_Rel_Hello_inv (h : Inv w) : Inv (w.Ses_Send_Rel_Hello env s) := by
  unfold World.Ses_Send_Rel_Hello
  cases hs : w.live s with
  | none => exact h
  | some ses =>
    obtain ⟨hlook, hopen⟩ := World.live_eq_some.mp hs
    have hok : SesOk w s ses := h.core.ses s ses hlook
    dsimp only
    split
    · exact h
    rename_i flags hf
    split
    · split
      · exact h
      · exact Session_Close_inv h
    split
    · exact h
    have hb : Beside ses { ses with rel_hello_cnt := ses.rel_hello_cnt + 1 } :=
      ⟨rfl, rfl, rfl, rfl, rfl, rfl, fun _ => rfl, hok.port⟩
    have hset : Inv (w.set s { ses with rel_hello_cnt := ses.rel_hello_cnt + 1 }) :=
      h.beside hs hb hopen
    split
    · have hpkt : PktOk (w.set s { ses with rel_hello_cnt := ses.rel_hello_cnt + 1 })
          (ses.hello s flags env.seq_no) { ses with rel_hello_cnt := ses.rel_hello_cnt + 1 } :=
        Session.hello_ok World.set_sessions_self (hset.core.ses s _ World.set_sessions_self) hf
      exact ⟨hset.core.send hpkt, hset.registered.live, hset.registered.nodup⟩
    · exact Session_Close_inv hset

theorem Disconnect_Reliable_Session_inv (h : Inv w) : Inv (w.Disconnect_Reliable_Session env s) := by
  unfold World.Disconnect_Reliable_Session
  cases hs : w.live s with
  | none => exact h
  | some ses =>
    obtain ⟨hlook, hopen⟩ := World.live_eq_some.mp hs
    have hb : Beside ses { ses with client_stat := .orphan } :=
      ⟨rfl, rfl, rfl, rfl, rfl, rfl, fun _ => rfl, (h.core.ses s ses hlook).port⟩
    dsimp only
    split
    · exact h
    · exact Ses_Send_Rel_Hello_inv (h.beside hs hb hopen)

theorem Net_Rel_Sess_Send_inv (h : Inv w) : Inv (w.Net_Rel_Sess_Send env s) := by
  unfold World.Net_Rel_Sess_Send
  split
  · exact Disconnect_Reliable_Session_inv h
  · exact h

/-! ## 4. Commands -/

theorem bind_inv {port : ℕ} {used : Bool} (h : Inv w) : Inv (w.bind s port used) := by
  unfold World.bind
  cases hs : w.live s with
  | none => exact h
  | some ses =>
    dsimp only
    split
    · exact Session_Close_inv h
    rename_i hnot
    rw [not_or, not_or, not_or, not_not] at hnot
    obtain ⟨hzero, -, hflags, -⟩ := hnot
    have hb : Beside ses { ses with port := port } :=
      ⟨rfl, rfl, rfl, rfl, rfl, rfl, fun hf => absurd hflags hf, hzero⟩
    exact h.beside hs hb (World.live_eq_some.mp hs).2

theorem listen_inv (h : Inv w) : Inv (w.listen s) := by
  unfold World.listen
  cases hs : w.live s with
  | none => exact h
  | some ses =>
    obtain ⟨hlook, hopen⟩ := World.live_eq_some.mp hs
    dsimp only
    split
    · exact Session_Close_inv h
    · have hb : Beside ses { ses with type := .LISTEN_SES_TYPE } :=
        ⟨rfl, rfl, rfl, rfl, rfl, rfl, fun _ => rfl, (h.core.ses s ses hlook).port⟩
      exact h.beside hs hb hopen

theorem Keeps.of_unset (hf : ses.flags = none) : Keeps ses ses' := by
  refine ⟨fun h => absurd hf h, ?_, ?_⟩
  · intro q hq
    unfold Session.peer at hq
    rw [hf] at hq
    cases hq
  · intro hr
    exact absurd hf hr.flags

theorem connect_inv {dest dest_port : ℕ} (h : Inv w) : Inv (w.connect env s dest dest_port) := by
  unfold World.connect
  cases hs : w.live s with
  | none => exact h
  | some ses =>
    obtain ⟨hlook, hopen⟩ := World.live_eq_some.mp hs
    have hok : SesOk w s ses := h.core.ses s ses hlook
    dsimp only
    split
    · exact Session_Close_inv h
    rename_i hnot
    rw [not_or, not_not] at hnot
    have hreq : ses.request = none := hok.unset hnot.1
    split
    · exact Session_Close_inv h
    apply Ses_Send_Rel_Hello_inv
    refine h.set hs (Keeps.of_unset hnot.1) hopen ?_
    -- the new session waits, and nobody has answered
    refine ⟨hok.port, ?_, ?_, ?_, ?_, ?_⟩
    · intro hflags
      cases hflags
    · intro hflags
      cases hflags
    · intro l p hlp
      change ses.request = some (l, p) at hlp
      rw [hreq] at hlp
      cases hlp
    · intro _ hreached
      rcases hreached with hflags | hflags <;> cases hflags
    · intro l p hlp
      change ses.request = some (l, p) at hlp
      rw [hreq] at hlp
      cases hlp

theorem accept_inv {l : Sid} (h : Inv w) (hnode : l.1 = s.1) (hdel : (l, p) ∈ w.delivered)
    (htype : p.type = .hello) : Inv (w.accept env s l p) := by
  unfold World.accept
  cases hs : w.live s with
  | none => exact h
  | some ses =>
    obtain ⟨hlook, hopen⟩ := World.live_eq_some.mp hs
    have hok : SesOk w s ses := h.core.ses s ses hlook
    dsimp only
    split
    · exact Session_Close_inv h
    rename_i hnot
    rw [not_not] at hnot
    split
    · exact h
    rename_i hseq
    rw [not_not] at hseq
    rw [if_neg hok.port]
    apply Ses_Send_Rel_Hello_inv
    constructor
    · have hreg : Core (w.register s p.orig_port) := h.core.congr rfl rfl rfl
      refine hreg.set hlook (Keeps.of_unset hnot) ⟨hok.port, ?_, ?_, ?_, ?_, ?_⟩
      · intro hflags
        cases hflags
      · intro _ hnone
        cases hnone
      · intro l' p' hlp
        cases hlp
        exact ⟨hdel, hnode, htype, hseq, rfl, rfl, rfl,
          by simp [Session.accepted, Session.Init_Reliable_Session]⟩
      · intro hnone
        cases hnone
      · intro l' p' _ hreached
        rcases hreached with hflags | hflags <;> cases hflags
    · have hfresh : ∀ r ∈ w.Rel_Sessions_Port s.1, r.2 ≠ s.2 := by
        intro r hr hid
        obtain ⟨a, ha, -, hflags⟩ := h.registered.live s.1 r hr
        rw [hid, Prod.mk.eta, hs] at ha
        cases ha
        exact hflags hnot
      have hself : ((w.register s p.orig_port).set s (ses.accepted env l p)).live s =
          some (ses.accepted env l p) :=
        World.live_eq_some.mpr ⟨World.set_sessions_self, hopen⟩
      have hother := h.registered.other s (ses.accepted env l p)
      constructor
      · intro n r hr
        change r ∈ update w.Rel_Sessions_Port s.1
          ((p.orig_port, s.2) :: w.Rel_Sessions_Port s.1) n at hr
        by_cases hn : n = s.1
        · subst hn
          rw [update_self] at hr
          rcases mem_cons.mp hr with rfl | hr
          · exact ⟨_, hself, rfl, by simp [Session.accepted, Session.Init_Reliable_Session]⟩
          · apply hother s.1 r hr
            intro heq
            exact hfresh r hr (Prod.ext_iff.mp heq).2
        · rw [update_of_ne hn] at hr
          apply hother n r hr
          intro heq
          exact hn (Prod.ext_iff.mp heq).1
      · intro n
        change (update w.Rel_Sessions_Port s.1
          ((p.orig_port, s.2) :: w.Rel_Sessions_Port s.1) n).Nodup
        by_cases hn : n = s.1
        · subst hn
          rw [update_self]
          refine nodup_cons.mpr ⟨?_, h.registered.nodup s.1⟩
          intro hmem
          exact hfresh _ hmem rfl
        · rw [update_of_ne hn]
          exact h.registered.nodup n

/-! ## 5. Packets -/

theorem Session.peer_eq_some {q : Sid} (h : ses.peer = some q) :
    (ses.rel_otherside_addr, ses.rel_otherside_id) = q ∧ (ses.flags = some .accept_wait ∨ ses.reached) := by
  unfold Session.peer at h
  split at h
  · cases h
  · cases h
  rename_i flags hnot hflags
  refine ⟨some.inj h, ?_⟩
  cases flags with
  | connect_wait => exact absurd rfl hnot
  | accept_wait => exact .inl hflags
  | connected => exact .inr (.inl hflags)
  | disconnect => exact .inr (.inr hflags)

theorem Session.reached.peer (h : ses.reached) :
    ses.peer = some (ses.rel_otherside_addr, ses.rel_otherside_id) := by
  unfold Session.peer
  rcases h with h | h <;> rw [h]

theorem Core.request_none (h : Core w) (hs : w.sessions s = some ses)
    (hwait : ses.flags = some .connect_wait) : ses.request = none := by
  cases hreq : ses.request with
  | none => rfl
  | some lp =>
    obtain ⟨-, -, -, -, -, -, -, hnot⟩ := (h.ses s ses hs).request lp.1 lp.2 hreq
    exact absurd hwait hnot

theorem Core.forward {x : Sid} {a : Session} {t : Sid} (h : Core w) (hx : w.sessions x = some a)
    (hpeer : a.peer = some t) (hreq : a.request = none) : a.reached ∧ ∃ b l q,
      w.sessions t = some b ∧ b.request = some (l, q) ∧ q.sender = x ∧
        b.port = a.rel_otherside_port := by
  obtain ⟨hplace, hflags⟩ := Session.peer_eq_some hpeer
  have hreached : a.reached := by
    rcases hflags with hflags | hreached
    · exact absurd hreq ((h.ses x a hx).wait hflags)
    · exact hreached
  refine ⟨hreached, ?_⟩
  obtain ⟨b, l, q, hb, hbreq, hsend, hport⟩ := (h.ses x a hx).forward hreq hreached
  rw [hplace] at hb
  exact ⟨b, l, q, hb, hbreq, hsend, hport⟩

theorem Core.request_sender {x : Sid} {a : Session} {t l : Sid} {q : Hello} (h : Core w)
    (hx : w.sessions x = some a) (hpeer : a.peer = some t) (hreq : a.request = some (l, q)) :
    q.sender = t ∧ ∃ b, w.sessions t = some b ∧ b.request = none ∧ b.rel_otherside_addr = x.1 ∧
      b.port = a.rel_otherside_port := by
  obtain ⟨hplace, -⟩ := Session.peer_eq_some hpeer
  obtain ⟨hdel, hnode, htype, hseq, haddr, hport, hid, -⟩ := (h.ses x a hx).request l q hreq
  have hsender : q.sender = t := by
    rw [← hplace, Hello.sender, haddr, hid]
  obtain ⟨hqsent, hqdest⟩ := h.delivered _ hdel
  obtain ⟨b, hb⟩ := h.sent q hqsent
  obtain ⟨hbreq, hbdest⟩ := hb.connect htype hseq
  refine ⟨hsender, b, hsender ▸ hb.sender, hbreq, ?_, ?_⟩
  · rw [← hbdest, ← hnode]
    exact hqdest
  · rw [hport]
    exact hb.my_port.symm

theorem Core.answered (h : Core w) (hs : w.sessions s = some ses)
    (hwait : ses.flags = some .connect_wait) (hp : p ∈ w.sent) (hpeer : p.peer = some s) :
    ∃ a l q, w.sessions (ses.rel_otherside_addr, p.my_sess_id) = some a ∧
      a.request = some (l, q) ∧ q.sender = s ∧ a.port = p.my_port := by
  obtain ⟨x, hx⟩ := h.sent p hp
  have hxpeer : x.peer = some s := hx.peer s hpeer
  cases hreq : x.request with
  | some lq =>
    obtain ⟨l, q⟩ := lq
    obtain ⟨hsender, b, hb, -, hnode, -⟩ := h.request_sender hx.sender hxpeer hreq
    rw [hs] at hb
    cases hb
    refine ⟨x, l, q, ?_, hreq, hsender, hx.my_port.symm⟩
    rw [hnode]
    exact hx.sender
  | none =>
    -- then this session would itself have been accepted
    exfalso
    obtain ⟨-, a, l, q, ha, hareq, -⟩ := h.forward hx.sender hxpeer hreq
    rw [hs] at ha
    cases ha
    rw [h.request_none hs hwait] at hareq
    cases hareq

theorem Core.completed {l : Sid} {q : Hello} (h : Core w) (hs : w.sessions s = some ses)
    (hreq : ses.request = some (l, q)) (hp : p ∈ w.sent) (hpeer : p.peer = some s) :
    ∃ c, w.sessions q.sender = some c ∧ c.request = none ∧ c.reached ∧ c.peer = some s := by
  obtain ⟨x, hx⟩ := h.sent p hp
  have hxpeer : x.peer = some s := hx.peer s hpeer
  cases hxreq : x.request with
  | some lq =>
    -- a session that was accepted is answered by one that was not
    obtain ⟨-, b, hb, hbreq, -⟩ := h.request_sender hx.sender hxpeer hxreq
    rw [hs] at hb
    cases hb
    rw [hbreq] at hreq
    cases hreq
  | none =>
    obtain ⟨hreached, a, l', q', ha, hareq, hsend, -⟩ := h.forward hx.sender hxpeer hxreq
    rw [hs] at ha
    cases ha
    rw [hreq] at hareq
    cases hareq
    refine ⟨x, ?_, hxreq, hreached, hxpeer⟩
    rw [hsend]
    exact hx.sender

theorem Process_Rel_Ses_Hello_inv (h : Inv w) (hs : w.live s = some ses) (hp : p ∈ w.sent)
    (hsound : ses.flags = some .connect_wait ∨
      ses.flags = some .accept_wait → p.type = .hello → ses.rel_orig_port = p.orig_port →
        p.peer = some s) (hdone : p.type ≠ .hello → ses.flags = some .connected) :
    Inv (w.Process_Rel_Ses_Hello env s ses p) := by
  obtain ⟨hlook, hopen⟩ := World.live_eq_some.mp hs
  have hok : SesOk w s ses := h.core.ses s ses hlook
  unfold World.Process_Rel_Ses_Hello
  split
  · exact h
  rename_i hport
  rw [not_not] at hport
  cases htype : p.type with
  | hello =>
    dsimp only
    split
    · rename_i hwait
      have hpeer : p.peer = some s := hsound (.inl hwait) htype hport
      obtain ⟨a, l, q, ha, hareq, hsend, haport⟩ := h.core.answered hlook hwait hp hpeer
      have hreq : ses.request = none := h.core.request_none hlook hwait
      apply Net_Rel_Sess_Send_inv
      apply Ses_Send_Rel_Hello_inv
      refine h.set hs ⟨?_, ?_, ?_⟩ hopen ⟨hok.port, ?_, ?_, ?_, ?_, ?_⟩
      · intro _
        exact ⟨by simp, rfl, rfl, rfl, rfl⟩
      · intro t ht
        obtain ⟨-, hacc | hreached⟩ := Session.peer_eq_some ht
        · rw [hwait] at hacc
          cases hacc
        · rcases hreached with hcon | hcon <;> rw [hwait] at hcon <;> cases hcon
      · intro _
        exact .inl rfl
      · intro hnone
        cases hnone
      · intro hacc
        cases hacc
      · intro l' q' hlq
        change ses.request = some (l', q') at hlq
        rw [hreq] at hlq
        cases hlq
      · intro _ _
        exact ⟨a, l, q, ha, hareq, hsend, haport⟩
      · intro l' q' hlq
        change ses.request = some (l', q') at hlq
        rw [hreq] at hlq
        cases hlq
    · split
      · rename_i hwait
        have hpeer : p.peer = some s := hsound (.inr hwait) htype hport
        apply Net_Rel_Sess_Send_inv
        refine h.set hs ⟨?_, ?_, ?_⟩ hopen ⟨hok.port, ?_, ?_, ?_, ?_, ?_⟩
        · intro _
          exact ⟨by simp, rfl, rfl, rfl, rfl⟩
        · intro t ht
          obtain ⟨hplace, -⟩ := Session.peer_eq_some ht
          exact congrArg some hplace
        · intro _
          exact .inl rfl
        · intro hnone
          cases hnone
        · intro hacc
          cases hacc
        · intro l q hlq
          obtain ⟨h1, h2, h3, h4, h5, h6, h7, -⟩ := hok.request l q hlq
          exact ⟨h1, h2, h3, h4, h5, h6, h7, by simp⟩
        · intro hreq _
          exact absurd hreq (hok.wait hwait)
        · intro l q hlq _
          exact h.core.completed hlook hlq hp hpeer
      · have hb : Beside ses { ses with rel_hello_cnt := 0 } :=
          ⟨rfl, rfl, rfl, rfl, rfl, rfl, fun _ => rfl, hok.port⟩
        exact h.beside hs hb hopen
  | hello_discnct =>
    dsimp only
    split
    · exact h
    split
    · have hb : Beside ses { ses with connect_state := true } :=
        ⟨rfl, rfl, rfl, rfl, rfl, rfl, fun _ => rfl, hok.port⟩
      split
      · exact Disconnect_Reliable_Session_inv (h.beside hs hb hopen)
      · exact h.beside hs hb hopen
    · have hcon : ses.flags = some .connected := hdone (by rw [htype]; decide)
      have hreached : ses.reached := .inl hcon
      apply Session_Close_inv
      apply Ses_Send_Rel_Hello_inv
      refine h.set hs ⟨?_, ?_, ?_⟩ hopen ⟨hok.port, ?_, ?_, ?_, ?_, ?_⟩
      · intro _
        exact ⟨by simp, rfl, rfl, rfl, rfl⟩
      · intro t ht
        obtain ⟨hplace, -⟩ := Session.peer_eq_some ht
        exact congrArg some hplace
      · intro _
        exact .inr rfl
      · intro hnone
        cases hnone
      · intro hacc
        cases hacc
      · intro l q hlq
        obtain ⟨h1, h2, h3, h4, h5, h6, h7, -⟩ := hok.request l q hlq
        exact ⟨h1, h2, h3, h4, h5, h6, h7, by simp⟩
      · intro hreq _
        exact hok.forward hreq hreached
      · intro l q hlq _
        exact hok.back l q hlq hreached
  | hello_close =>
    dsimp only
    split
    · exact Session_Close_inv h
    · exact h
  | data => exact h
  | link_ack => exact h

theorem Deliver_UDP_Data_inv (h : Inv w) (hp : p ∈ w.sent) (hdest : p.dest = s.1)
    (hsound : ∀ ses, w.live s = some ses → ses.flags = some .connect_wait ∨
      ses.flags = some .accept_wait → p.type = .hello → ses.rel_orig_port = p.orig_port →
        p.peer = some s) : Inv (w.Deliver_UDP_Data env s p) := by
  unfold World.Deliver_UDP_Data
  cases hs : w.live s with
  | none => exact h
  | some ses =>
    dsimp only
    split
    · unfold World.Deliver_Rel_UDP_Data
      split
      · rename_i htype
        split
        · exact Process_Rel_Ses_Hello_inv h hs hp (hsound ses hs) fun hne => absurd htype hne
        · exact h
      · split
        · rename_i hcon
          exact Process_Rel_Ses_Hello_inv h hs hp (hsound ses hs) fun _ => hcon
        · exact h
      · split
        · rename_i hcon
          exact Process_Rel_Ses_Hello_inv h hs hp (hsound ses hs) fun _ => hcon
        · exact h
      · exact h
    · split
      · exact h
      split
      · exact h
      -- the request is now with the client
      refine ⟨⟨?_, ?_, ?_⟩, h.registered.live, h.registered.nodup⟩
      · intro t a ha
        have hok := h.core.ses t a ha
        refine ⟨hok.port, hok.unset, hok.wait, ?_, hok.forward, hok.back⟩
        intro l q hlq
        obtain ⟨hdel, hrest⟩ := hok.request l q hlq
        exact ⟨mem_cons_of_mem _ hdel, hrest⟩
      · intro q hq
        obtain ⟨a, ha⟩ := h.core.sent q hq
        exact ⟨a, ha.sender, ha.flags, ha.my_port, ha.peer, ha.connect⟩
      · intro d hd
        rcases mem_cons.mp hd with rfl | hd
        · exact ⟨hp, hdest⟩
        · exact h.core.delivered d hd
    · exact h

/-! ## 6. Runs -/

theorem Inv.new {port : ℕ} {links : Bool} (h : Inv w) (hs : w.sessions s = none) (hport : port ≠ 0) :
    Inv (w.set s (Session.new port links)) := by
  have hother : ∀ t a, w.sessions t = some a → t ≠ s := by
    rintro t a ha rfl
    rw [hs] at ha
    cases ha
  have hlook : ∀ t a, w.sessions t = some a →
      (w.set s (Session.new port links)).sessions t = some a := by
    intro t a ha
    rw [World.set_sessions_ne (hother t a ha)]
    exact ha
  refine ⟨⟨?_, ?_, h.core.delivered⟩, ?_, h.registered.nodup⟩
  · intro t a ha
    by_cases hts : t = s
    · subst hts
      rw [World.set_sessions_self] at ha
      cases ha
      refine ⟨hport, fun _ => rfl, ?_, ?_, ?_, ?_⟩
      · intro hflags
        cases hflags
      · intro l p hlp
        cases hlp
      · intro _ hreached
        exact absurd rfl hreached.flags
      · intro l p hlp
        cases hlp
    · rw [World.set_sessions_ne hts] at ha
      have hok := h.core.ses t a ha
      refine ⟨hok.port, hok.unset, hok.wait, hok.request, ?_, ?_⟩
      · intro hreq hreached
        obtain ⟨b, l, p, hb, hrest⟩ := hok.forward hreq hreached
        exact ⟨b, l, p, hlook _ _ hb, hrest⟩
      · intro l p hreq hreached
        obtain ⟨c, hc, hrest⟩ := hok.back l p hreq hreached
        exact ⟨c, hlook _ _ hc, hrest⟩
  · intro p hp
    obtain ⟨a, ha⟩ := h.core.sent p hp
    exact ⟨a, hlook _ _ ha.sender, ha.flags, ha.my_port, ha.peer, ha.connect⟩
  · intro n r hr
    obtain ⟨a, ha, hrest⟩ := h.registered.live n r hr
    obtain ⟨ha, hopen⟩ := World.live_eq_some.mp ha
    exact ⟨a, World.live_eq_some.mpr ⟨hlook _ _ ha, hopen⟩, hrest⟩

theorem Inv.step {w' : World} {e : Sid × Event} (h : Inv w) (hs : Sound w e.1 e.2)
    (hstep : Step w e w') : Inv w' := by
  obtain ⟨s, ev⟩ := e
  obtain ⟨hen, rfl⟩ := hstep
  cases ev with
  | session_accept port links => exact h.new hen.1 hen.2
  | bind port used => exact bind_inv h
  | listen => exact listen_inv h
  | connect env dest dest_port => exact connect_inv h
  | accept env l p => exact accept_inv h hen.1 hen.2.1 hen.2.2
  | timer env => exact Ses_Send_Rel_Hello_inv h
  | deliver env p => exact Deliver_UDP_Data_inv h hen.1 hen.2.1 hs
  | data =>
    unfold World.handle
    dsimp only
    cases hlive : w.live s with
    | none => exact h
    | some ses =>
      obtain ⟨hlook, hopen⟩ := World.live_eq_some.mp hlive
      have hb : Beside ses { ses with rel_hello_cnt := -1 } :=
        ⟨rfl, rfl, rfl, rfl, rfl, rfl, fun _ => rfl, (h.core.ses s ses hlook).port⟩
      dsimp only
      split
      · exact h.beside hlive hb hopen
      · exact h
  | disconnect env => exact Disconnect_Reliable_Session_inv h
  | close => exact Session_Close_inv h

theorem empty_inv : Inv World.empty := by
  refine ⟨⟨?_, ?_, ?_⟩, ?_, fun _ => nodup_nil⟩
  · intro s ses hs
    cases hs
  · intro p hp
    cases hp
  · intro d hd
    cases hd
  · intro n r hr
    cases hr

/-- The connecting session `s` and the session `t` are the two sides of one handshake: `t` was
accepted for the request of `s` that a listening session on its node had got. -/
def Accepted (w : World) (s t : Sid) : Prop :=
  ∃ a l p, w.sessions t = some a ∧ a.request = some (l, p) ∧ (l, p) ∈ w.delivered ∧ l.1 = t.1 ∧
    p.sender = s

/-- As long as a waiting session acts only on hellos from a session whose other side it is:
of the sessions that were accepted, at most one that has been connected has a given session
for its other side; a session that connected has the port and the number of a session that
was accepted for it; one that was accepted has the address, the port and the number of the
session it was accepted for; and the registered sessions are live. -/
theorem handshake_agreement {w : World}
    (h : Run (fun w e w' => Sound w e.1 e.2 ∧ Step w e w') World.empty w) :
    (∀ s t a b, w.sessions s = some a → w.sessions t = some b → a.request ≠ none →
      b.request ≠ none → a.reached → b.reached → a.peer = b.peer → s = t) ∧
    (∀ s ses, w.sessions s = some ses → ses.request = none → ses.reached → ∃ a,
      w.sessions (ses.rel_otherside_addr, ses.rel_otherside_id) = some a ∧
        a.port = ses.rel_otherside_port ∧
        Accepted w s (ses.rel_otherside_addr, ses.rel_otherside_id)) ∧
    (∀ s ses, w.sessions s = some ses → ses.request ≠ none → ses.reached → ∃ c,
      w.sessions (ses.rel_otherside_addr, ses.rel_otherside_id) = some c ∧
        c.port = ses.rel_otherside_port ∧
        Accepted w (ses.rel_otherside_addr, ses.rel_otherside_id) s) ∧
    ∀ n, ∀ r ∈ w.Rel_Sessions_Port n, ∃ ses, w.live (n, r.2) = some ses := by
  have hinv : Inv w := by
    apply Run.invariant Inv empty_inv _ h
    intro t e t' ht hstep
    exact ht.step hstep.1 hstep.2
  refine ⟨?_, ?_, ?_, ?_⟩
  · intro s t a b ha hb hareq hbreq hra hrb hpeer
    obtain ⟨⟨l, p⟩, hlp⟩ := ne_none_iff_exists'.mp hareq
    obtain ⟨⟨l', p'⟩, hlp'⟩ := ne_none_iff_exists'.mp hbreq
    obtain ⟨c, hc, -, -, hcs⟩ := (hinv.core.ses s a ha).back l p hlp hra
    obtain ⟨c', hc', -, -, hct⟩ := (hinv.core.ses t b hb).back l' p' hlp' hrb
    have hsend : p.sender = (a.rel_otherside_addr, a.rel_otherside_id) :=
      (hinv.core.request_sender ha hra.peer hlp).1
    have hsend' : p'.sender = (a.rel_otherside_addr, a.rel_otherside_id) := by
      apply (hinv.core.request_sender hb _ hlp').1
      rw [← hpeer]
      exact hra.peer
    -- both were completed by the same session, which has one other side
    rw [hsend] at hc
    rw [hsend', hc] at hc'
    cases hc'
    rw [hcs] at hct
    exact some.inj hct
  · intro s ses hs hreq hreached
    obtain ⟨a, l, p, ha, hlp, hsend, hport⟩ := (hinv.core.ses s ses hs).forward hreq hreached
    obtain ⟨hdel, hnode, -⟩ := (hinv.core.ses _ a ha).request l p hlp
    exact ⟨a, ha, hport, a, l, p, ha, hlp, hdel, hnode, hsend⟩
  · intro s ses hs hreq hreached
    obtain ⟨⟨l, p⟩, hlp⟩ := ne_none_iff_exists'.mp hreq
    obtain ⟨hsend, c, hc, -, -, hport⟩ := hinv.core.request_sender hs hreached.peer hlp
    obtain ⟨hdel, hnode, -⟩ := (hinv.core.ses s ses hs).request l p hlp
    exact ⟨c, hc, hport, ses, l, p, hs, hlp, hdel, hnode, hsend⟩
  · intro n r hr
    obtain ⟨a, ha, -⟩ := hinv.registered.live n r hr
    exact ⟨a, ha⟩

/-! ## 7. Runs on given events -/

instance (w : World) (s : Sid) (ev : Event) : Decidable (w.enabled s ev) :=
  match ev with
  | .session_accept port _ => inferInstanceAs (Decidable (w.sessions s = none ∧ port ≠ 0))
  | .accept _ l p =>
    inferInstanceAs (Decidable (l.1 = s.1 ∧ (l, p) ∈ w.delivered ∧ p.type = .hello))
  | .deliver _ p =>
    decidable_of_iff (p ∈ w.sent ∧ p.dest = s.1 ∧ (w.live s).all (fun ses => ses.port = p.dest_port))
      (by cases h : w.live s <;> simp [World.enabled, h])
  | .bind .. | .listen | .connect .. | .timer _ | .data | .disconnect _ | .close => isTrue trivial

instance (w : World) (s : Sid) (ev : Event) : Decidable (Sound w s ev) :=
  match ev with
  | .deliver _ p =>
    decidable_of_iff ((w.live s).all fun ses => decide (ses.flags = some .connect_wait ∨
      ses.flags = some .accept_wait → p.type = .hello → ses.rel_orig_port = p.orig_port →
        p.peer = some s)) (by
      constructor
      · intro hall ses hses
        rw [hses] at hall
        exact of_decide_eq_true hall
      · intro hs
        cases hses : w.live s with
        | none => rfl
        | some ses => exact decide_eq_true (hs ses hses))
  | .session_accept .. | .bind .. | .listen | .connect .. | .accept .. | .timer _ | .data
  | .disconnect _ | .close => isTrue trivial

def plain_env : Env := ⟨true, 0, false, false, false⟩

def plain_request (s : Sid) (port dest dest_port : ℕ) : Hello :=
  ⟨s.1, port, dest, dest_port, .hello, 0, s.2, port, dest_port, none⟩

def plain_events : List (Sid × Event) :=
  let req := plain_request (1, 1) 40000 2 5555
  let ack : Hello := ⟨2, 40000, 1, 40000, .hello, 1, 2, 40000, 5555, some (1, 1)⟩
  [((1, 1), .session_accept 40000 true), ((2, 1), .session_accept 40001 true),
   ((2, 1), .bind 5555 false), ((2, 1), .listen), ((1, 1), .connect plain_env 2 5555),
   ((2, 1), .deliver plain_env req), ((2, 2), .session_accept 40000 true),
   ((2, 2), .accept plain_env (2, 1) req), ((1, 1), .deliver plain_env ack),
   ((2, 2), .deliver plain_env ⟨1, 40000, 2, 40000, .hello, 2, 1, 40000, 5555, some (2, 2)⟩)]

theorem handshake_agreement_plain : ∃ w a b, w.sessions (1, 1) = some a ∧
    w.sessions (2, 2) = some b ∧ a.reached ∧ b.reached ∧ a.rel_otherside_port = b.port ∧
      Accepted w (1, 1) (2, 2) := by
  have hplay : (play (fun w (e : Sid × Event) => Sound w e.1 e.2 ∧ w.enabled e.1 e.2)
      (fun w e => w.handle e.1 e.2) World.empty plain_events).any (fun w =>
        (w.sessions (1, 1)).any (fun a => a.flags = some .connected && a.request = none &&
          (a.rel_otherside_addr, a.rel_otherside_id) = (2, 2)) &&
        (w.sessions (2, 2)).any (fun b => b.flags = some .connected)) = true := by
    decide +kernel
  obtain ⟨w, hrun, hP⟩ := Run.of_play hplay
  rw [Bool.and_eq_true, Option.any_eq_true, Option.any_eq_true] at hP
  obtain ⟨⟨a, ha, hA⟩, b, hb, hB⟩ := hP
  simp only [Bool.and_eq_true, decide_eq_true_eq] at hA hB
  obtain ⟨⟨hcon, hreq⟩, hpeer⟩ := hA
  have hrun' : Run (fun w e w' => Sound w e.1 e.2 ∧ Step w e w') World.empty w :=
    hrun.mono fun _ _ _ h => ⟨h.1.1, h.1.2, h.2⟩
  obtain ⟨-, hforward, -, -⟩ := handshake_agreement hrun'
  obtain ⟨b', hb', hport, hacc⟩ := hforward (1, 1) a ha hreq (.inl hcon)
  rw [hpeer] at hb' hacc
  rw [hb] at hb'
  cases hb'
  exact ⟨w, a, b, ha, hb, .inl hcon, .inl hB, hport.symm, hacc⟩

def stranger_events : List (Sid × Event) :=
  [((1, 1), .session_accept 40000 true), ((1, 1), .bind 5555 false),
   ((2, 1), .session_accept 40000 true), ((2, 1), .bind 5555 false), ((2, 1), .listen),
   ((3, 1), .session_accept 40001 true), ((3, 1), .connect plain_env 1 5555),
   ((1, 1), .connect plain_env 2 5555),
   ((1, 1), .deliver plain_env (plain_request (3, 1) 40001 1 5555))]

/-- The session is connected, but what it has for its other side was not accepted. -/
theorem stranger_connects : ∃ w a l, Run Step World.empty w ∧ w.sessions (1, 1) = some a ∧
    a.flags = some .connected ∧ w.sessions (a.rel_otherside_addr, a.rel_otherside_id) = some l ∧
      l.request = none ∧ l.port ≠ a.rel_otherside_port := by
  have hplay : (play (fun w (e : Sid × Event) => w.enabled e.1 e.2)
      (fun w e => w.handle e.1 e.2) World.empty stranger_events).any (fun w =>
        (w.sessions (1, 1)).any (fun a => a.flags = some .connected &&
          (w.sessions (a.rel_otherside_addr, a.rel_otherside_id)).any (fun l =>
            l.request = none && l.port ≠ a.rel_otherside_port))) = true := by
    decide +kernel
  obtain ⟨w, hrun, hP⟩ := Run.of_play hplay
  obtain ⟨a, ha, hA⟩ := (Option.any_eq_true _ _).mp hP
  rw [Bool.and_eq_true, Option.any_eq_true] at hA
  obtain ⟨hcon, l, hl, hL⟩ := hA
  rw [Bool.and_eq_true] at hL
  exact ⟨w, a, l, hrun, ha, of_decide_eq_true hcon, hl, of_decide_eq_true hL.1,
    of_decide_eq_true hL.2⟩

end Spines.Reliable.Handshake
