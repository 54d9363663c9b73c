/-
Back-pressure loses nothing.

Between events every session either waits with its one message, in one list, or does not
wait and has got everything into its flow (`Host.LosesNothing`). What can break this is a
message that takes the place of the one that waits: `Resume_All_Sessions` reads from
sessions that wait, and clients with a UDP socket are read anyway. `Host.Meets` says when
neither happens, and when a flow that can send accepts the message it is given.
-/
import Spines.RelFlood.Sessions
import Spines.RelFlood.Window

set_option autoImplicit false

namespace Spines.RelFlood

open Spines.Lib Option List
open Function (update update_self update_of_ne)

/-! ## 1. A message that the flow accepts -/

structure Synced (cf : Conf) (dst : ℕ) (D : Daemon) : Prop where
  seq : D.flow_seq_no dst = (D.fb cf.my_id dst).head_seq
  window : (D.fb cf.my_id dst).sow ≤ (D.fb cf.my_id dst).head_seq
  epoch : (D.fb cf.my_id dst).src_epoch ≠ 0

/-- The message is not dropped between its header and the flow. -/
def SignEnv.Signs (cf : Conf) (env : SignEnv) : Prop :=
  0 < env.stamp.ttl ∧ (cf.crypto = true → env.sign_ok = true)

section Accept

variable {cf : Conf} {env : SignEnv} {m : ClientMsg} {D : Daemon}

theorem hbh_move_up_fields (cf : Conf) (fb : FlowBuffer) (aru : ℕ → ℕ) (hpos : 0 < fb.head_seq)
    (hlt : fb.head_seq < 2 ^ 64) (hle : fb.sow ≤ fb.head_seq) :
    (fb.hbh_move_up cf (fun n => n) false aru).sow ≤ fb.head_seq ∧
      (fb.hbh_move_up cf (fun n => n) false aru).head_seq = fb.head_seq ∧
      (fb.hbh_move_up cf (fun n => n) false aru).src_epoch = fb.src_epoch := by
  obtain ⟨hsow, hhead, -, hepoch⟩ :=
    advance_loop_fields cf false (hbh_min (fun n => n) cf fb aru + 1 - fb.sow) fb
  have hmin := hbh_min_le_head cf fb aru
  rw [int64u_pred_of_pos hpos hlt] at hmin
  refine ⟨?_, hhead, hepoch⟩
  calc (fb.hbh_move_up cf (fun n => n) false aru).sow
      = fb.sow + (hbh_min (fun n => n) cf fb aru + 1 - fb.sow) := hsow
    _ ≤ fb.head_seq := by omega

theorem accept_fields (cf : Conf) (fb : FlowBuffer) (x : Msg) (np : ℕ) (aru : ℕ → ℕ)
    (hlt : fb.head_seq + 1 < 2 ^ 64) (hle : fb.sow ≤ fb.head_seq) :
    (fb.accept cf 0 x false np aru).sow ≤ fb.head_seq + 1 ∧
      (fb.accept cf 0 x false np aru).head_seq = fb.head_seq + 1 ∧
      (fb.accept cf 0 x false np aru).src_epoch = fb.src_epoch := by
  by_cases hd : x.dest = cf.my_id
  · rw [accept_deliver_eq 0 fb np aru hd]
    exact ⟨Nat.succ_le_succ hle, rfl, rfl⟩
  · obtain ⟨hsow, hhead, hepoch⟩ := with_fresh_fields cf fb x 0 np
    rw [accept_fresh_eq 0 np hd]
    split
    · have hmove := hbh_move_up_fields cf (fb.with_fresh cf 0 x np) aru (by omega) (by omega)
        (by omega)
      rw [hhead, hepoch] at hmove
      exact hmove
    · exact ⟨by omega, hhead, hepoch⟩

theorem Synced.fresh {dst : ℕ} (h : Synced cf dst D) (hcan : reliable_flood_can_flow_send cf dst D)
    (num_paths mask : ℕ) (body : List UInt8) : data_verdict (D.fb cf.my_id dst)
      (fill_packet_header_reliable_flood cf dst num_paths mask body D).2 = .fresh := by
  obtain ⟨-, hspace, hepoch⟩ := hcan
  set x := (fill_packet_header_reliable_flood cf dst num_paths mask body D).2
  have hseq : x.seq_num = (D.fb cf.my_id dst).head_seq := h.seq
  have hsrc : x.src_epoch = (D.fb cf.my_id dst).src_epoch := hepoch
  unfold data_verdict
  rw [hseq, hsrc, if_neg (lt_irrefl _), if_neg (lt_irrefl _), if_neg h.epoch,
    if_neg (not_lt.mpr h.window), if_neg (lt_irrefl _), if_neg (not_not.mpr rfl),
    if_neg (not_le.mpr hspace)]

theorem session_send_message_accepted (hid : 1 ≤ cf.my_id ∧ cf.my_id ≤ MAX_NODES)
    (hcan : reliable_flood_can_flow_send cf m.dst D) (hsync : Synced cf m.dst D)
    (henv : env.Signs cf) :
    client_accepted cf env m D ∧
      ∃ D', session_send_message cf env.sec m.dst m.num_paths env.stamp env.sign_ok m.body D =
          D' ∧
        D'.handshake_complete = D.handshake_complete ∧
        D'.flow_source_epoch = D.flow_source_epoch ∧ D'.halt = D.halt ∧
        (D'.fb cf.my_id m.dst).src_epoch = (D.fb cf.my_id m.dst).src_epoch ∧
        Synced cf m.dst D' := by
  have hfresh := hsync.fresh hcan m.num_paths env.stamp.mask m.body
  obtain ⟨hdst, hspace, hepoch⟩ := hcan
  have hsigned : ¬(env.stamp.ttl = 0 ∨ (cf.crypto ∧ env.sign_ok = false)) := by
    rintro (hnone | ⟨hcrypto, hfail⟩)
    · exact henv.1.ne' hnone
    · rw [henv.2 hcrypto] at hfail
      cases hfail
  set filled :=
    fill_packet_header_reliable_flood cf m.dst m.num_paths env.stamp.mask m.body D with hfilled
  set D1 : Daemon := { filled.1 with rf_state_change := false, e2e_stop := filled.1.e2e_stop || !cf.e2e_opt }
  have hbound : (D.fb cf.my_id m.dst).head_seq + 1 < 2 ^ 64 := by
    have hlt : int64u ((D.fb cf.my_id m.dst).sow + MAX_MESS_PER_FLOW) < 2 ^ 64 := by
      unfold int64u
      exact Nat.mod_lt _ (by decide)
    omega
  have hdata : reliable_flood_process_data cf 0 filled.2 { filled.1 with rf_state_change := false } =
      (accept_data cf 0 filled.2 false D1, .buff_ok) := by
    rw [reliable_flood_process_data]
    dsimp only
    rw [show data_verdict (filled.1.fb filled.2.src filled.2.dest) filled.2 = .fresh from hfresh]
  have hdiss : reliable_flood_disseminate cf env.sec 0 true ⟨.data filled.2, []⟩ filled.1 =
      (accept_data cf 0 filled.2 false D1, .buff_ok) := by
    have hsrc_ok : ¬(filled.2.src < 1 ∨ MAX_NODES < filled.2.src) := by
      have hmy : filled.2.src = cf.my_id := rfl
      omega
    have hdst_ok : ¬(filled.2.dest < 1 ∨ MAX_NODES < filled.2.dest) := by
      have hto : filled.2.dest = m.dst := rfl
      omega
    rw [reliable_flood_disseminate]
    dsimp only
    rw [if_neg (by decide), reliable_flood_process_acks, if_neg hsrc_ok, if_neg hdst_ok, hdata]
    rfl
  refine ⟨⟨hsigned, ?_⟩, accept_data cf 0 filled.2 false D1, ?_, rfl, rfl, rfl, ?_⟩
  · rw [client_ret, ← hfilled, hdiss]
  · rw [session_send_message, if_pos ⟨hdst, hspace, hepoch⟩, ← hfilled, if_neg hsigned, hdiss]
  · have hbuffer := accept_fields cf (D.fb cf.my_id m.dst) filled.2 D1.num_paths_snapshot
      (fun j => (D1.edge j).flow_aru cf.my_id m.dst) hbound hsync.window
    have hfb : (accept_data cf 0 filled.2 false D1).fb cf.my_id m.dst =
        (D.fb cf.my_id m.dst).accept cf 0 filled.2 false D1.num_paths_snapshot
          (fun j => (D1.edge j).flow_aru cf.my_id m.dst) := set2_self _ _ _ _
    obtain ⟨hsow, hhead, hep⟩ := hbuffer
    refine ⟨by rw [hfb, hep], ?_, ?_, ?_⟩
    · have hnext : (accept_data cf 0 filled.2 false D1).flow_seq_no m.dst =
          int64u (D.flow_seq_no m.dst + 1) := update_self ..
      rw [hnext, hfb, hhead, hsync.seq]
      unfold int64u
      exact Nat.mod_eq_of_lt hbound
    · rw [hfb, hhead]
      exact hsow
    · rw [hfb, hep]
      exact hsync.epoch

end Accept

/-! ## 2. One session -/

/-- Session `sid` waits with one message, or does not wait. -/
def Host.Fine (H : Host) (sid : ℕ) : Prop :=
  ∀ ses, H.session sid = some ses →
    (ses.blocked = true → ∃ m, Pending H sid ses m) ∧ (ses.blocked = false → Idle H sid ses)

section Sessions

variable {cf : Conf} {env : SignEnv} {envs : List SignEnv} {m : ClientMsg} {H H' : Host}
  {sid sid' dst : ℕ} {ses : Session} {rest : List ℕ}

theorem Host.Fine.of_same (h : H.Fine sid) (hses : H'.session sid = H.session sid)
    (hlist : ∀ d, (H'.sess_list d).count sid = (H.sess_list d).count sid)
    (hread : H'.read sid = H.read sid) (hinj : H'.injected sid = H.injected sid) : H'.Fine sid := by
  have hnowhere : ∀ d, sid ∉ H.sess_list d → sid ∉ H'.sess_list d := by
    intro d hd
    rw [← count_eq_zero, hlist d, count_eq_zero]
    exact hd
  intro ses hsome
  obtain ⟨hblocked, hfree⟩ := h ses (hses.symm.trans hsome)
  refine ⟨fun hb => ?_, fun hb => ?_⟩
  · obtain ⟨m, hp⟩ := hblocked hb
    refine ⟨m, hp.scat, (hlist m.dst).trans hp.once, fun d hd => hnowhere d (hp.only d hd),
      hp.detached, ?_⟩
    rw [hread, hinj]
    exact hp.injected
  · have hi := hfree hb
    refine ⟨hi.scat, fun d => hnowhere d (hi.nowhere d), ?_⟩
    rw [hread, hinj]
    exact hi.injected

theorem Host.fine_idle (hses : H.session sid = some ses) (hblocked : ses.blocked = false)
    (hi : Idle H sid ses) : H.Fine sid := by
  intro ses' hsome
  rw [hses] at hsome
  cases hsome
  refine ⟨fun hb => ?_, fun _ => hi⟩
  rw [hblocked] at hb
  cases hb

theorem Host.fine_pending (hses : H.session sid = some ses) (hblocked : ses.blocked = true)
    (hp : Pending H sid ses m) : H.Fine sid := by
  intro ses' hsome
  rw [hses] at hsome
  cases hsome
  refine ⟨fun _ => ⟨m, hp⟩, fun hb => ?_⟩
  rw [hblocked] at hb
  cases hb

theorem send_goes (hses : H.session sid = some ses) (hscat : ses.scat = some m)
    (hblocked : ses.blocked = false) (hcan : reliable_flood_can_flow_send cf m.dst H.daemon) :
    H.send cf env sid = some { H.set_session sid { ses with scat := none } with
      daemon :=
        session_send_message cf env.sec m.dst m.num_paths env.stamp env.sign_ok m.body H.daemon
      injected :=
        if client_accepted cf env m H.daemon then
          update H.injected sid (H.injected sid ++ [m])
        else H.injected } := by
  rw [Host.send, hses]
  dsimp only [bind_eq_bind, bind_some]
  rw [hscat]
  dsimp only [bind_some]
  rw [if_pos ⟨hblocked, hcan⟩]
  rfl

theorem send_accepts (hses : H.session sid = some ses) (hscat : ses.scat = some m)
    (hblocked : ses.blocked = false) (hcan : reliable_flood_can_flow_send cf m.dst H.daemon)
    (hacc : client_accepted cf env m H.daemon) :
    H.send cf env sid = some { H.set_session sid { ses with scat := none } with
      daemon :=
        session_send_message cf env.sec m.dst m.num_paths env.stamp env.sign_ok m.body H.daemon
      injected := update H.injected sid (H.injected sid ++ [m]) } := by
  rw [send_goes hses hscat hblocked hcan, if_pos hacc]

theorem send_held (hses : H.session sid = some ses) (hscat : ses.scat = some m)
    (hno : ¬ (ses.blocked = false ∧ reliable_flood_can_flow_send cf m.dst H.daemon)) :
    H.send cf env sid = some (reliable_flood_block_session cf sid m.dst ses H) := by
  rw [Host.send, hses]
  dsimp only [bind_eq_bind, bind_some]
  rw [hscat]
  dsimp only [bind_some]
  rw [if_neg hno]
  rfl

theorem send_blocks (hses : H.session sid = some ses) (hscat : ses.scat = some m)
    (hblocked : ses.blocked = false) (hcan : ¬reliable_flood_can_flow_send cf m.dst H.daemon) :
    H.send cf env sid =
      some { H.set_session sid { ses with blocked := true, read_desc := false } with
        sess_list := update H.sess_list m.dst (H.sess_list m.dst ++ [sid]) } := by
  have hdst : ¬(m.dst < 1 ∨ MAX_NODES < m.dst) := by
    have hok := m.dst_ok
    omega
  rw [send_held hses hscat fun hand => hcan hand.2, reliable_flood_block_session, if_neg hdst,
    if_neg (by rw [hblocked]; exact Bool.false_ne_true), if_neg hcan]

theorem process_session_packet_fine (hid : 1 ≤ cf.my_id ∧ cf.my_id ≤ MAX_NODES)
    (hl : H.LosesNothing) (hfree : ∀ ses, H.session sid = some ses → ses.blocked = false)
    (hready : reliable_flood_can_flow_send cf m.dst H.daemon →
      Synced cf m.dst H.daemon ∧ env.Signs cf)
    (h_eq : H.process_session_packet cf env sid m = some H') : H'.LosesNothing := by
  obtain ⟨ses, hses, h_eq⟩ := bind_eq_some_iff.mp h_eq
  have hblocked := hfree ses hses
  have hi : Idle H sid ses := (hl sid ses hses).2 hblocked
  set G : Host := { H.set_session sid { ses with scat := some m } with
    read := update H.read sid (H.read sid ++ [m]) }
  have hget : G.session sid = some { ses with scat := some m } := update_self ..
  have hother : ∀ sid', sid' ≠ sid → G.session sid' = H.session sid' :=
    fun _ hne => update_of_ne hne ..
  have hread : G.read sid = H.injected sid ++ [m] := by
    rw [← hi.injected]
    exact update_self ..
  by_cases hcan : reliable_flood_can_flow_send cf m.dst H.daemon
  · obtain ⟨hsync, hsigns⟩ := hready hcan
    obtain ⟨hacc, -⟩ := session_send_message_accepted hid hcan hsync hsigns
    have hsend : G.send cf env sid = some _ := send_accepts hget rfl hblocked hcan hacc
    rw [hsend] at h_eq
    cases h_eq
    intro sid'
    by_cases hne : sid' = sid
    · subst hne
      refine Host.fine_idle (update_self ..) hblocked ⟨rfl, hi.nowhere, ?_⟩
      dsimp only
      rw [update_self]
      exact hread
    · refine Host.Fine.of_same (hl sid') ?_ (fun _ => rfl) ?_ ?_
      · exact (update_of_ne hne ..).trans (hother sid' hne)
      · exact update_of_ne hne ..
      · exact update_of_ne hne ..
  · have hsend : G.send cf env sid = some _ := send_blocks hget rfl hblocked hcan
    rw [hsend] at h_eq
    cases h_eq
    intro sid'
    by_cases hne : sid' = sid
    · subst hne
      refine Host.fine_pending (update_self ..) rfl ⟨rfl, ?_, ?_, rfl, hread⟩
      · have hzero : (G.sess_list m.dst).count sid' = 0 :=
          count_eq_zero.mpr (hi.nowhere m.dst)
        dsimp only
        rw [update_self, count_append, count_singleton_self, hzero]
      · intro d hd
        dsimp only
        rw [update_of_ne hd]
        exact hi.nowhere d
    · refine Host.Fine.of_same (hl sid') ?_ ?_ ?_ rfl
      · exact (update_of_ne hne ..).trans (hother sid' hne)
      · intro d
        dsimp only
        by_cases hd : d = m.dst
        · rw [hd, update_self, count_append, count_singleton,
            if_neg (by simpa using Ne.symm hne), add_zero]
          rfl
        · rw [update_of_ne hd]
          rfl
      · exact update_of_ne hne ..

/-! ## 3. Resuming -/

/-- When the handshake with `dst` is complete, the flow has its epoch and would accept the
next message. -/
def Ready (cf : Conf) (dst : ℕ) (D : Daemon) : Prop :=
  D.handshake_complete dst = true →
    D.flow_source_epoch dst = (D.fb cf.my_id dst).src_epoch ∧ Synced cf dst D

theorem resume_first_spec (hid : 1 ≤ cf.my_id ∧ cf.my_id ≤ MAX_NODES)
    (hdst : 1 ≤ dst ∧ dst ≤ MAX_NODES) (hl : H.LosesNothing) (hlist : H.sess_list dst = sid :: rest)
    (hspace : flow_space cf dst H.daemon) (hdone : H.daemon.handshake_complete dst = true)
    (hready : Ready cf dst H.daemon) (hsigns : env.Signs cf) :
    ∃ H', H.resume_first cf env sid = some H' ∧ (H'.drop_first dst).LosesNothing ∧
      (H'.drop_first dst).sess_list dst = rest ∧ Ready cf dst H'.daemon := by
  have hdrop : ∀ G : Host, G.sess_list = H.sess_list → ∀ sid', sid' ≠ sid → ∀ d,
      ((G.drop_first dst).sess_list d).count sid' = (H.sess_list d).count sid' := by
    intro G hG sid' hne d
    by_cases hd : d = dst
    · rw [hd, Host.drop_first]
      dsimp only
      rw [update_self, hG, hlist, tail_cons, count_cons_of_ne (Ne.symm hne)]
    · rw [Host.drop_first]
      dsimp only
      rw [update_of_ne hd, hG]
  have hrest : ∀ G : Host, G.sess_list = H.sess_list → (G.drop_first dst).sess_list dst = rest := by
    intro G hG
    rw [Host.drop_first]
    dsimp only
    rw [update_self, hG, hlist, tail_cons]
  cases hses : H.session sid with
  | none =>
    -- the session has been closed
    refine ⟨H, by rw [Host.resume_first, hses], ?_, hrest H rfl, hready⟩
    intro sid'
    by_cases hne : sid' = sid
    · subst hne
      intro ses hsome
      rw [show (H.drop_first dst).session sid' = H.session sid' from rfl, hses] at hsome
      cases hsome
    · exact Host.Fine.of_same (hl sid') rfl (hdrop H rfl sid' hne) rfl rfl
  | some ses =>
    have hmem : sid ∈ H.sess_list dst := by
      rw [hlist]
      exact mem_cons_self
    have hblocked : ses.blocked = true := by
      by_contra hfree
      exact ((hl sid ses hses).2 (Bool.eq_false_of_not_eq_true hfree)).nowhere dst hmem
    obtain ⟨m, hp⟩ := (hl sid ses hses).1 hblocked
    obtain rfl : dst = m.dst := by
      by_contra hne
      exact hp.only dst hne hmem
    obtain ⟨hepoch, hsync⟩ := hready hdone
    have hcan : reliable_flood_can_flow_send cf m.dst H.daemon := ⟨hdst, hspace, hepoch⟩
    obtain ⟨hacc, D', hD', hhand, hsource, -, hsrc, hsync'⟩ :=
      session_send_message_accepted hid hcan hsync hsigns
    set G : Host := H.set_session sid { ses with blocked := false }
    have hget : G.session sid = some { ses with blocked := false } := update_self ..
    set F : Host := { G.set_session sid ⟨false, none, ses.read_desc⟩ with
      daemon := D'
      injected := update H.injected sid (H.injected sid ++ [m]) }
    have hsend : G.send cf env sid = some F := by
      have hsent : session_send_message cf env.sec m.dst m.num_paths env.stamp env.sign_ok m.body
          G.daemon = D' := hD'
      have haccepts : G.send cf env sid = some _ := send_accepts hget hp.scat rfl hcan hacc
      rw [haccepts, hsent]
      rfl
    have hfirst : H.resume_first cf env sid = some (F.resume_session sid) := by
      rw [Host.resume_first, hses]
      exact congrArg (Option.map (·.resume_session sid)) hsend
    refine ⟨F.resume_session sid, hfirst, ?_, hrest _ rfl, ?_⟩
    · intro sid'
      by_cases hne : sid' = sid
      · subst hne
        have hsession : ((F.resume_session sid').drop_first m.dst).session sid' =
            some ⟨false, none, true⟩ := by
          have hF : F.session sid' = some ⟨false, none, ses.read_desc⟩ := update_self ..
          have hresumed : (F.resume_session sid').session sid' =
              (F.session sid').map fun ses => { ses with read_desc := true } :=
            update_self ..
          rw [hF] at hresumed
          exact hresumed
        refine Host.fine_idle hsession rfl ⟨rfl, ?_, ?_⟩
        · intro d
          by_cases hd : d = m.dst
          · have honce := hp.once
            rw [hlist, count_cons_self] at honce
            rw [hd, hrest (F.resume_session sid') rfl, ← count_eq_zero]
            omega
          · have hsame : ((F.resume_session sid').drop_first m.dst).sess_list d =
                H.sess_list d := update_of_ne hd ..
            rw [hsame]
            exact hp.only d hd
        · have hnow : ((F.resume_session sid').drop_first m.dst).injected sid' =
              H.injected sid' ++ [m] := update_self ..
          rw [hnow]
          exact hp.injected
      · refine Host.Fine.of_same (hl sid') ?_ (hdrop _ rfl sid' hne) rfl ?_
        · have hF : F.session sid' = H.session sid' :=
            (update_of_ne hne ..).trans (update_of_ne hne ..)
          exact (update_of_ne hne ..).trans hF
        · exact update_of_ne hne ..
    · intro _
      refine ⟨?_, hsync'⟩
      have hsame : D'.flow_source_epoch m.dst = (D'.fb cf.my_id m.dst).src_epoch := by
        rw [hsource, hsrc]
        exact hepoch
      exact hsame

/-- The whole loop, by induction on the rounds: nothing is lost, and with a round for every
session in the list it is over. -/
theorem resume_sessions_spec (hid : 1 ≤ cf.my_id ∧ cf.my_id ≤ MAX_NODES)
    (hdst : 1 ≤ dst ∧ dst ≤ MAX_NODES) (hl : H.LosesNothing)
    (hready : H.sess_list dst ≠ [] → flow_space cf dst H.daemon → Ready cf dst H.daemon)
    (hsigns : ∀ env ∈ envs, env.Signs cf) :
    (∀ H', reliable_flood_resume_sessions cf dst envs H = some H' → H'.LosesNothing) ∧
      ((H.sess_list dst).length ≤ envs.length →
        (reliable_flood_resume_sessions cf dst envs H).isSome) := by
  induction envs generalizing H with
  | nil =>
    unfold reliable_flood_resume_sessions
    cases hlist : H.sess_list dst with
    | nil =>
      refine ⟨fun H' h => ?_, fun _ => rfl⟩
      cases h
      exact hl
    | cons sid rest =>
      dsimp only
      split
      · exact ⟨nofun, nofun⟩
      · refine ⟨fun H' h => ?_, fun _ => rfl⟩
        cases h
        exact hl
  | cons env envs ih =>
    unfold reliable_flood_resume_sessions
    cases hlist : H.sess_list dst with
    | nil =>
      refine ⟨fun H' h => ?_, fun _ => rfl⟩
      cases h
      exact hl
    | cons sid rest =>
      dsimp only
      split
      · rename_i hcond
        have hready' := hready (by rw [hlist]; exact cons_ne_nil _ _) hcond.1
        obtain ⟨H1, hfirst, hl1, hlist1, hready1⟩ := resume_first_spec hid hdst hl hlist
          hcond.1 hcond.2 hready' (hsigns env mem_cons_self)
        obtain ⟨hkeep, hover⟩ := ih hl1 (fun _ _ => hready1)
          fun env' hmem => hsigns env' (mem_cons_of_mem _ hmem)
        rw [hfirst]
        refine ⟨hkeep, fun hlen => hover ?_⟩
        rw [hlist1]
        rw [length_cons, length_cons] at hlen
        omega
      · refine ⟨fun H' h => ?_, fun _ => rfl⟩
        cases h
        exact hl

/-! ## 4. Runs -/

/-- A message that is read finds no message that waits, and on a flow that can send it has a
`ttl`, can be signed and is the next one of the flow. Nobody waits when all sessions are
resumed. A flow that resumes is `Ready`. A new session has an id that waits nowhere. -/
def Host.Meets (cf : Conf) (H : Host) : HostEvent → Prop
  | .connect sid => ∀ d, sid ∉ H.sess_list d
  | .message _ m env =>
    reliable_flood_can_flow_send cf m.dst H.daemon → Synced cf m.dst H.daemon ∧ env.Signs cf
  | .datagram sid m env =>
    (∀ ses, H.session sid = some ses → ses.blocked = false) ∧
      (reliable_flood_can_flow_send cf m.dst H.daemon →
        Synced cf m.dst H.daemon ∧ env.Signs cf)
  | .resume_all => ∀ sid ses, H.session sid = some ses → ses.blocked = false
  | .resume dst envs =>
    (H.sess_list dst ≠ [] → flow_space cf dst H.daemon → Ready cf dst H.daemon) ∧
      ∀ env ∈ envs, env.Signs cf
  | _ => True

theorem not_blocked_of_read (hl : H.LosesNothing) (hses : H.session sid = some ses)
    (hread : ses.read_desc = true) : ses.blocked = false := by
  by_contra hblocked
  obtain ⟨m, hp⟩ := (hl sid ses hses).1 (Bool.eq_true_of_not_eq_false hblocked)
  rw [hp.detached] at hread
  cases hread

theorem read_all_fine (on : Bool) (hl : H.LosesNothing)
    (hfree : on = true → ∀ sid ses, H.session sid = some ses → ses.blocked = false) :
    (H.read_all on).LosesNothing := by
  intro sid ses hses
  obtain ⟨old, hold, rfl⟩ := map_eq_some_iff.mp hses
  obtain ⟨hblocked, hidle⟩ := hl sid old hold
  refine ⟨fun hb => ?_, fun hb => ?_⟩
  · obtain ⟨m, hp⟩ := hblocked hb
    cases on with
    | false => exact ⟨m, hp.scat, hp.once, hp.only, rfl, hp.injected⟩
    | true =>
      have hnot := hfree rfl sid old hold
      have hyes : old.blocked = true := hb
      rw [hnot] at hyes
      cases hyes
  · have hi := hidle hb
    exact ⟨hi.scat, hi.nowhere, hi.injected⟩

theorem Host.LosesNothing.step (hid : 1 ≤ cf.my_id ∧ cf.my_id ≤ MAX_NODES) {e : HostEvent}
    (hl : H.LosesNothing) (hstep : Host.Step cf H e H') (hmeets : H.Meets cf e) :
    H'.LosesNothing := by
  obtain ⟨-, hen, h_eq⟩ := hstep
  cases e with
  | connect sid =>
    cases h_eq
    intro sid'
    by_cases hne : sid' = sid
    · subst hne
      refine Host.fine_idle (update_self ..) rfl ⟨rfl, hmeets, ?_⟩
      dsimp only
      rw [update_self, update_self]
    · exact Host.Fine.of_same (hl sid') (update_of_ne hne ..) (fun _ => rfl)
        (update_of_ne hne ..) (update_of_ne hne ..)
  | close sid =>
    cases h_eq
    intro sid'
    by_cases hne : sid' = sid
    · subst hne
      intro ses hses
      dsimp only at hses
      rw [update_self] at hses
      cases hses
    · exact Host.Fine.of_same (hl sid') (update_of_ne hne ..) (fun _ => rfl) rfl rfl
  | message sid m env =>
    obtain ⟨ses, hses, hread⟩ := hen
    refine process_session_packet_fine hid hl ?_ hmeets h_eq
    intro ses' hses'
    rw [hses] at hses'
    cases hses'
    exact not_blocked_of_read hl hses hread
  | datagram sid m env => exact process_session_packet_fine hid hl hmeets.1 hmeets.2 h_eq
  | block_all =>
    cases h_eq
    exact read_all_fine false hl nofun
  | resume_all =>
    cases h_eq
    exact read_all_fine true hl fun _ => hmeets
  | resume dst envs =>
    dsimp only [Host.handle] at h_eq
    split at h_eq
    · cases h_eq
      exact hl
    · exact (resume_sessions_spec hid (by omega) hl hmeets.1 hmeets.2).1 H' h_eq
  | flooding e =>
    cases h_eq
    intro sid'
    exact Host.Fine.of_same (hl sid') rfl (fun _ => rfl) rfl rfl

/-- In a run that meets the condition every session loses nothing; no message is read from
one that waits, and resuming a flow ends. -/
theorem backpressure_loses_nothing (hid : 1 ≤ cf.my_id ∧ cf.my_id ≤ MAX_NODES) (sec : ℕ)
    (hrun : Run (fun H e H' => Host.Step cf H e H' ∧ H.Meets cf e) (init_host cf sec) H) :
    H.LosesNothing ∧
      (∀ sid ses m env, (HostEvent.message sid m env).Enabled cf H → H.session sid = some ses →
        ses.blocked = false) ∧
      ∀ dst envs, H.Meets cf (.resume dst envs) → (H.sess_list dst).length ≤ envs.length →
        (H.handle cf (.resume dst envs)).isSome := by
  have hinit : (init_host cf sec).LosesNothing := by
    intro sid ses hses
    cases hses
  have hl : H.LosesNothing :=
    Run.invariant Host.LosesNothing hinit (fun _ _ _ h hstep => h.step hid hstep.1 hstep.2) hrun
  refine ⟨hl, ?_, ?_⟩
  · rintro sid ses m env ⟨ses', hses', hread⟩ hses
    rw [hses] at hses'
    cases hses'
    exact not_blocked_of_read hl hses hread
  · intro dst envs hmeets hlen
    dsimp only [Host.handle]
    split
    · rfl
    · exact (resume_sessions_spec hid (by omega) hl hmeets.1 hmeets.2).2 hlen

end Sessions

/-! A client of the source sends before the handshake with destination `3` is complete. -/

def Host.next (cf : Conf) (H : Host) (e : HostEvent) : Host := (H.handle cf e).getD H

theorem Host.step_next {cf : Conf} {H : Host} {e : HostEvent} (hrun : H.daemon.halt = .running)
    (hen : e.Enabled cf H) (h : (H.handle cf e).isSome) : Host.Step cf H e (H.next cf e) := by
  obtain ⟨H', hH'⟩ := isSome_iff_exists.mp h
  refine ⟨hrun, hen, ?_⟩
  rw [Host.next, hH']
  rfl

def to_three (x : UInt8) : ClientMsg := ⟨3, 1, [x], by decide⟩

def open_path : SignEnv := ⟨110, ⟨64, 1⟩, true⟩

def three_answers : HostEvent := .flooding (.packet 100 1 true ⟨.e2e (source_ack 7), []⟩)

def first_waits : Host :=
  ((init_host source_conf 7).next source_conf (.connect 9)).next source_conf
    (.message 9 (to_three 1) open_path)

theorem first_waits_steps :
    Host.Step source_conf (init_host source_conf 7) (.connect 9)
        ((init_host source_conf 7).next source_conf (.connect 9)) ∧
      Host.Step source_conf ((init_host source_conf 7).next source_conf (.connect 9))
        (.message 9 (to_three 1) open_path) first_waits :=
  ⟨Host.step_next rfl rfl rfl,
    Host.step_next rfl ⟨⟨false, none, true⟩, rfl, rfl⟩ (by decide +kernel)⟩

theorem first_waits_run : Run (fun H e H' => Host.Step source_conf H e H' ∧ H.Meets source_conf e)
      (init_host source_conf 7) first_waits := by
  obtain ⟨hconnect, hmessage⟩ := first_waits_steps
  refine ((Run.refl _).tail ⟨hconnect, nofun⟩).tail ⟨hmessage, ?_⟩
  intro hcan
  exact absurd hcan (by decide +kernel)

theorem backpressure_loses_nothing_resumed :
    let H := (first_waits.next source_conf three_answers).next source_conf
      (.resume 3 [open_path])
    (H.injected 9).length = 1 ∧ H.LosesNothing := by
  have hanswer : Host.Step source_conf first_waits three_answers _ :=
    Host.step_next (by decide +kernel) ⟨by decide, nofun⟩ rfl
  have hresume : Host.Step source_conf (first_waits.next source_conf three_answers)
      (.resume 3 [open_path]) _ :=
    Host.step_next (by decide +kernel) trivial (by decide +kernel)
  have hmeets : (first_waits.next source_conf three_answers).Meets source_conf
      (.resume 3 [open_path]) := by
    refine ⟨fun _ _ _ => ⟨by decide +kernel, by decide +kernel, by decide +kernel,
      by decide +kernel⟩, ?_⟩
    intro env henv
    rw [mem_singleton.mp henv]
    exact ⟨by decide, fun _ => rfl⟩
  refine ⟨by decide +kernel, ?_⟩
  exact (backpressure_loses_nothing (by decide) 7
    ((first_waits_run.tail ⟨hanswer, trivial⟩).tail ⟨hresume, hmeets⟩)).1

/-- All sessions are resumed while session 9 waits, and its second message takes the place
of the first one. -/
theorem resume_all_loses_message :
    ∃ H, Run (Host.Step source_conf) (init_host source_conf 7) H ∧ ¬H.LosesNothing := by
  have hall : Host.Step source_conf first_waits .resume_all _ :=
    Host.step_next (by decide +kernel) trivial rfl
  have hmessage : Host.Step source_conf (first_waits.next source_conf .resume_all)
      (.message 9 (to_three 2) open_path) _ :=
    Host.step_next (by decide +kernel) ⟨⟨true, some (to_three 1), true⟩, by decide +kernel, rfl⟩
      (by decide +kernel)
  have hrun : Run (Host.Step source_conf) (init_host source_conf 7) first_waits :=
    Run.mono (fun _ _ _ h => h.1) first_waits_run
  refine ⟨_, (hrun.tail hall).tail hmessage, ?_⟩
  intro hl
  obtain ⟨m, hp⟩ := (hl 9 ⟨true, some (to_three 2), true⟩ (by decide +kernel)).1 rfl
  have hdetached := hp.detached
  cases hdetached

end Spines.RelFlood
