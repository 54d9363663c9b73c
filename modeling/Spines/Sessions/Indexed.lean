/-
The tables index the live sessions.

`Indexed` is the invariant: each table holds exactly the live sessions, by number, by
port and, as long as the client is there, by socket. What keeps two sessions from one
socket is that an open descriptor has one owner (`Owns`), so a descriptor is closed by
who has it.

Three steps break it. A session closed with `PORT_IN_USE` leaves its port behind, and a
second `Disconnect_Reliable_Session`, or one without a control channel, closes a
descriptor that is not its own; and the number of a session comes back after `2 ^ 32`
sessions. `Meets` leaves them out, together with the state in which the search for a
port passes over the only free one.
-/
import Spines.Sessions.Index

set_option autoImplicit false

namespace Spines.Sessions

open Spines.Lib Function List
open Option hiding max_eq_left

/-! ## 1. The property -/

structure Sound (d : Daemon) : Prop where
  id_live : ∀ k s, s ∈ d.sessions_id k → d.sessions s ≠ none
  port_live : ∀ k s, s ∈ d.sessions_port k → ∃ ses, d.sessions s = some ses ∧ ses.port = k
  sock_live : ∀ k s, s ∈ d.sessions_sock k → d.sessions s ≠ none
  found : ∀ s ses, d.sessions s = some ses → ses.port ≠ 0 → d.sessions_port.find ses.port = some s
  one_port : ∀ s t ses ses', d.sessions s = some ses → d.sessions t = some ses' → ses.port ≠ 0 →
    ses.port = ses'.port → s = t
  has_port : d.exit ≠ some .bind_no_port
  ports_full : d.exit = some .no_more_ports → ∀ p, FIRST_PORT ≤ p → p < END_PORT →
    ∃ s ses, d.sessions s = some ses ∧ ses.port = p

/-- The step does not dispose of a session with `PORT_IN_USE`, does not disconnect a
session twice or without a control channel, does not give a number that is in use, and
does not look for a port when `last_sess_port` is the only one. -/
def Meets (d : Daemon) : Event → Prop
  | .accept _ =>
    (∀ s ses, d.sessions s = some ses → ses.sess_id ≠ d.session_num) ∧
      (d.sessions_port.find d.last_sess_port = none →
        ∃ p, FIRST_PORT ≤ p ∧ p < END_PORT ∧ p ≠ d.last_sess_port ∧ d.sessions_port.find p = none)
  | .bind s dest_port =>
    ∀ ses, d.sessions s = some ses → MAX_LEAVE < ses.joined_groups.length ∨
      dest_port ≠ 0 ∧ (ses.type = .LISTEN_SES_TYPE ∨ ses.r_data = true ∨
        d.sessions_port.find dest_port = none)
  | .close sesid reason =>
    reason = .PORT_IN_USE → ∀ s ses, d.sessions_id.find sesid = some s →
      d.sessions s = some ses → MAX_LEAVE < ses.joined_groups.length
  | .try_close sesid =>
    ∀ s ses, d.sessions_id.find sesid = some s → d.sessions s = some ses →
      ses.close_reason = some .PORT_IN_USE → MAX_LEAVE < ses.joined_groups.length
  | .disconnect s =>
    ∀ ses, d.sessions s = some ses → ses.r_data = true →
      ses.client_stat = .SES_CLIENT_ON ∧ ses.ctrl_sk ≠ 0
  | _ => True

/-! ## 2. The invariant -/

inductive Owner
  | data (s : ℕ)
  | ctrl (s : ℕ)
  | request
  deriving DecidableEq

structure Owns (d : Daemon) (owner : ℕ → Option Owner) : Prop where
  data : ∀ s ses, d.sessions s = some ses → ses.client_stat ≠ .SES_CLIENT_ORPHAN →
    owner ses.sk = some (.data s)
  ctrl : ∀ s ses, d.sessions s = some ses → ses.client_stat ≠ .SES_CLIENT_ORPHAN →
    ses.ctrl_sk ≠ 0 → owner ses.ctrl_sk = some (.ctrl s)
  request : ∀ r ∈ d.ctrl_sk_requests, r ≠ 0 → owner r = some .request
  once : ∀ r, r ≠ 0 → d.ctrl_sk_requests.count r ≤ 1
  opened : ∀ fd, owner fd ≠ none → fd ∈ d.open_fds

structure Indexed (d : Daemon) : Prop where
  fresh : ∀ s, d.next ≤ s → d.sessions s = none
  ids : d.sessions_id.Indexes fun k s => ∃ ses, d.sessions s = some ses ∧ ses.sess_id = k
  ports : d.sessions_port.Indexes fun k s => ∃ ses, d.sessions s = some ses ∧ ses.port = k
  socks : d.sessions_sock.Indexes fun k s =>
    ∃ ses, d.sessions s = some ses ∧ ses.client_stat = .SES_CLIENT_ON ∧ ses.sk = k
  port_pos : ∀ s ses, d.sessions s = some ses → ses.port ≠ 0
  last : FIRST_PORT ≤ d.last_sess_port ∧ d.last_sess_port < END_PORT
  owned : ∃ owner, Owns d owner

structure Ended (d : Daemon) : Prop where
  has_port : d.exit ≠ some .bind_no_port
  ports_full : d.exit = some .no_more_ports → ∀ p, FIRST_PORT ≤ p → p < END_PORT →
    ∃ s ses, d.sessions s = some ses ∧ ses.port = p

theorem Indexed.sound {d : Daemon} (h : Indexed d) (he : Ended d) : Sound d where
  id_live := by
    intro k s hs
    obtain ⟨ses, hses, -⟩ := (h.ids.mem k s).mp hs
    rw [hses]
    exact some_ne_none ses
  port_live := fun k s hs => (h.ports.mem k s).mp hs
  sock_live := by
    intro k s hs
    obtain ⟨ses, hses, -⟩ := (h.socks.mem k s).mp hs
    rw [hses]
    exact some_ne_none ses
  found := fun s ses hses _ => h.ports.find_iff.mpr ⟨ses, hses, rfl⟩
  one_port := fun s t ses ses' hs ht _ heq => h.ports.unique ⟨ses, hs, rfl⟩ ⟨ses', ht, heq.symm⟩
  has_port := he.has_port
  ports_full := he.ports_full

theorem indexed_init (fds : Finset ℕ) : Indexed (Daemon.init fds) where
  fresh := fun _ _ => rfl
  ids := Hash.indexes_empty.congr fun k s => by simp [Daemon.init]
  ports := Hash.indexes_empty.congr fun k s => by simp [Daemon.init]
  socks := Hash.indexes_empty.congr fun k s => by simp [Daemon.init]
  port_pos := fun _ _ h => by cases h
  last := ⟨Nat.le_refl _, (by decide : FIRST_PORT < END_PORT)⟩
  owned := by
    refine ⟨fun _ => none, ⟨(fun _ _ h => by cases h), (fun _ _ h => by cases h), ?_, ?_, ?_⟩⟩
    · intro r hr hne
      exact absurd (eq_of_mem_replicate hr) hne
    · intro r hne
      have hnot : r ∉ replicate MAX_CTRL_SK_REQUESTS 0 := by
        intro hr
        exact hne (eq_of_mem_replicate hr)
      exact (count_eq_zero_of_not_mem hnot).trans_le (Nat.zero_le 1)
    · intro fd hfd
      exact absurd rfl hfd

/-! ## 3. Changes of one session -/

variable {d : Daemon} {s : ℕ} {ses ses' : Session}

theorem update_some_iff {f : ℕ → Option Session} {t : ℕ} {u : Session} :
    update f s (some ses) t = some u ↔ t = s ∧ ses = u ∨ t ≠ s ∧ f t = some u := by
  by_cases ht : t = s
  · subst ht
    simp
  · simp [ht]

theorem update_none_iff {f : ℕ → Option Session} {t : ℕ} {u : Session} :
    update f s none t = some u ↔ t ≠ s ∧ f t = some u := by
  by_cases ht : t = s
  · subst ht
    simp
  · simp [ht]

theorem indexes_update {h : Hash ℕ ℕ} {key : Session → ℕ} {p : Session → Prop}
    (hh : h.Indexes fun k t => ∃ u, d.sessions t = some u ∧ p u ∧ key u = k)
    (hs : d.sessions s = some ses) (hkey : key ses' = key ses) (hp : p ses' ↔ p ses) :
    h.Indexes fun k t =>
      ∃ u, update d.sessions s (some ses') t = some u ∧ p u ∧ key u = k := by
  apply hh.congr
  intro k t
  by_cases ht : t = s
  · subst ht
    simp [hs, hkey, hp]
  · simp [ht]

theorem Indexed.set_owned (h : Indexed d) (hs : d.sessions s = some ses) (requests : List ℕ)
    (hid : ses'.sess_id = ses.sess_id) (hport : ses'.port = ses.port) (hsk : ses'.sk = ses.sk)
    (hstat : ses'.client_stat = ses.client_stat)
    (howned : ∃ owner, Owns { d.set_session s ses' with ctrl_sk_requests := requests } owner) :
    Indexed { d.set_session s ses' with ctrl_sk_requests := requests } where
  fresh := by
    intro t ht
    have hne : t ≠ s := by
      rintro rfl
      rw [h.fresh t ht] at hs
      cases hs
    exact (update_of_ne hne ..).trans (h.fresh t ht)
  ids := by
    have hids := h.ids.congr (q := fun k t => ∃ u, d.sessions t = some u ∧ True ∧ u.sess_id = k)
      fun k t => by simp
    exact (indexes_update hids hs hid Iff.rfl).congr fun k t => by simp [Daemon.set_session]
  ports := by
    have hports := h.ports.congr (q := fun k t => ∃ u, d.sessions t = some u ∧ True ∧ u.port = k)
      fun k t => by simp
    exact (indexes_update hports hs hport Iff.rfl).congr fun k t => by simp [Daemon.set_session]
  socks := indexes_update h.socks hs hsk (by rw [hstat])
  port_pos := by
    intro t u ht
    obtain ⟨rfl, rfl⟩ | ⟨-, ht⟩ := update_some_iff.mp ht
    · rw [hport]
      exact h.port_pos _ _ hs
    · exact h.port_pos t u ht
  last := h.last
  owned := howned

variable {owner : ℕ → Option Owner}

theorem Owns.set_session (ho : Owns d owner) (hs : d.sessions s = some ses) (hsk : ses'.sk = ses.sk)
    (hctrl : ses'.ctrl_sk = ses.ctrl_sk ∨ ses'.ctrl_sk = 0)
    (hstat : ses'.client_stat ≠ .SES_CLIENT_ORPHAN → ses.client_stat ≠ .SES_CLIENT_ORPHAN) :
    Owns (d.set_session s ses') owner := by
  refine ⟨?_, ?_, ho.request, ho.once, ho.opened⟩
  · intro t u ht hu
    obtain ⟨rfl, rfl⟩ | ⟨-, ht⟩ := update_some_iff.mp ht
    · rw [hsk]
      exact ho.data _ _ hs (hstat hu)
    · exact ho.data t u ht hu
  · intro t u ht hu hne
    obtain ⟨rfl, rfl⟩ | ⟨-, ht⟩ := update_some_iff.mp ht
    · obtain heq | heq := hctrl
      · rw [heq] at hne ⊢
        exact ho.ctrl _ _ hs (hstat hu) hne
      · exact absurd heq hne
    · exact ho.ctrl t u ht hu hne

theorem Indexed.set_session (h : Indexed d) (hs : d.sessions s = some ses)
    (hid : ses'.sess_id = ses.sess_id) (hport : ses'.port = ses.port) (hsk : ses'.sk = ses.sk)
    (hctrl : ses'.ctrl_sk = ses.ctrl_sk ∨ ses'.ctrl_sk = 0)
    (hstat : ses'.client_stat = ses.client_stat) : Indexed (d.set_session s ses') := by
  obtain ⟨owner, ho⟩ := h.owned
  exact h.set_owned hs d.ctrl_sk_requests hid hport hsk hstat
    ⟨owner, ho.set_session hs hsk hctrl fun hne => hstat ▸ hne⟩

/-! ## 4. Closing a session -/

theorem dl_close_open {fd : ℕ} (h : fd ∈ d.open_fds) :
    dl_close_channel d fd = { d with open_fds := d.open_fds.erase fd } :=
  if_pos h

theorem indexes_gone (h : Indexed d) (hs : d.sessions s = some ses)
    (hstat : ses'.client_stat ≠ .SES_CLIENT_ON) {table : Hash ℕ ℕ}
    (htable : table = if ses.client_stat = .SES_CLIENT_ON then d.sessions_sock.erase ses.sk
      else d.sessions_sock) :
    table.Indexes fun k t => ∃ u, update d.sessions s (some ses') t = some u ∧
      u.client_stat = .SES_CLIENT_ON ∧ u.sk = k := by
  -- the one pair that goes is that of the session
  have hothers : ∀ k t, (∃ u, update d.sessions s (some ses') t = some u ∧
      u.client_stat = .SES_CLIENT_ON ∧ u.sk = k) ↔
      t ≠ s ∧ ∃ u, d.sessions t = some u ∧ u.client_stat = .SES_CLIENT_ON ∧ u.sk = k := by
    intro k t
    by_cases ht : t = s
    · subst ht
      simp [hstat]
    · simp [ht]
  rw [htable]
  by_cases hon : ses.client_stat = .SES_CLIENT_ON
  · rw [if_pos hon]
    apply (h.socks.erase ses.sk).congr
    intro k t
    rw [hothers]
    constructor
    · rintro ⟨⟨u, hu, honu, hsk⟩, hne⟩
      refine ⟨?_, u, hu, honu, hsk⟩
      rintro rfl
      rw [hs] at hu
      obtain rfl := some.inj hu
      exact hne hsk.symm
    · rintro ⟨hne, hu⟩
      refine ⟨hu, ?_⟩
      rintro rfl
      exact hne (h.socks.unique hu ⟨ses, hs, hon, rfl⟩)
  · rw [if_neg hon]
    apply h.socks.congr
    intro k t
    rw [hothers]
    constructor
    · rintro ⟨u, hu, honu, hsk⟩
      refine ⟨?_, u, hu, honu, hsk⟩
      rintro rfl
      rw [hs] at hu
      obtain rfl := some.inj hu
      exact hon honu
    · exact fun hu => hu.2

theorem detach_client_eq (d : Daemon) (ses : Session) :
    detach_client d ses =
      { d with
        sessions_sock := if ses.client_stat = .SES_CLIENT_ON then d.sessions_sock.erase ses.sk
          else d.sessions_sock } := by
  unfold detach_client
  split <;> rfl

theorem Indexed.detach (h : Indexed d) (hs : d.sessions s = some ses)
    (hid : ses'.sess_id = ses.sess_id) (hport : ses'.port = ses.port) (hsk : ses'.sk = ses.sk)
    (hctrl : ses'.ctrl_sk = ses.ctrl_sk) (hoff : ses'.client_stat ≠ .SES_CLIENT_ON)
    (hstat : ses'.client_stat ≠ .SES_CLIENT_ORPHAN → ses.client_stat ≠ .SES_CLIENT_ORPHAN) :
    Indexed ((detach_client d ses).set_session s ses') := by
  have hplain : Indexed (d.set_session s { ses' with client_stat := ses.client_stat }) :=
    h.set_session hs hid hport hsk (.inl hctrl) rfl
  obtain ⟨owner, ho⟩ := h.owned
  rw [detach_client_eq]
  constructor
  · intro t ht
    have hfresh := hplain.fresh t ht
    have hne : t ≠ s := by
      rintro rfl
      unfold Daemon.set_session at hfresh
      dsimp only at hfresh
      rw [update_self] at hfresh
      cases hfresh
    exact (update_of_ne hne ..).trans (h.fresh t ht)
  · apply hplain.ids.congr
    intro k t
    by_cases ht : t = s
    · subst ht
      simp [Daemon.set_session]
    · simp [Daemon.set_session, ht]
  · apply hplain.ports.congr
    intro k t
    by_cases ht : t = s
    · subst ht
      simp [Daemon.set_session]
    · simp [Daemon.set_session, ht]
  · exact indexes_gone h hs hoff rfl
  · intro t u ht
    obtain ⟨rfl, rfl⟩ | ⟨-, ht⟩ := update_some_iff.mp ht
    · rw [hport]
      exact h.port_pos _ _ hs
    · exact h.port_pos t u ht
  · exact h.last
  · have howns := ho.set_session hs hsk (.inl hctrl) hstat
    exact ⟨owner, ⟨howns.data, howns.ctrl, howns.request, howns.once, howns.opened⟩⟩

def closed_fds (d : Daemon) (ses : Session) : Finset ℕ :=
  if ses.client_stat ≠ .SES_CLIENT_ORPHAN then
    if 0 < ses.ctrl_sk then (d.open_fds.erase ses.sk).erase ses.ctrl_sk
    else d.open_fds.erase ses.sk
  else d.open_fds

theorem owned_closed (ho : Owns d owner) (hs : d.sessions s = some ses)
    {d' : Daemon} (hsessions : ∀ t u, d'.sessions t = some u →
      u.client_stat ≠ .SES_CLIENT_ORPHAN → t ≠ s ∧ d.sessions t = some u)
    (hrequests : d'.ctrl_sk_requests = d.ctrl_sk_requests)
    (hfds : d'.open_fds = closed_fds d ses) : ∃ owner', Owns d' owner' := by
  refine ⟨fun fd => if owner fd = some (.data s) ∨ owner fd = some (.ctrl s) then none
    else owner fd, ?_⟩
  constructor
  · intro t u ht hstat
    obtain ⟨hne, ht⟩ := hsessions t u ht hstat
    have hdata := ho.data t u ht hstat
    rw [hdata, if_neg (by simp [hne])]
  · intro t u ht hstat hctrl
    obtain ⟨hne, ht⟩ := hsessions t u ht hstat
    have hdata := ho.ctrl t u ht hstat hctrl
    rw [hdata, if_neg (by simp [hne])]
  · intro r hr hne
    rw [hrequests] at hr
    rw [ho.request r hr hne, if_neg (by simp)]
  · rw [hrequests]
    exact ho.once
  · intro fd hfd
    by_cases hmine : owner fd = some (.data s) ∨ owner fd = some (.ctrl s)
    · rw [if_pos hmine] at hfd
      exact absurd rfl hfd
    · rw [if_neg hmine] at hfd
      push Not at hmine
      have hopen := ho.opened fd hfd
      rw [hfds]
      unfold closed_fds
      split
      · next hstat =>
          have hsk : fd ≠ ses.sk := by
            rintro rfl
            exact hmine.1 (ho.data s ses hs hstat)
          split
          · next hpos =>
              have hctrl : fd ≠ ses.ctrl_sk := by
                rintro rfl
                exact hmine.2 (ho.ctrl s ses hs hstat hpos.ne')
              exact Finset.mem_erase.mpr ⟨hctrl, Finset.mem_erase.mpr ⟨hsk, hopen⟩⟩
          · exact Finset.mem_erase.mpr ⟨hsk, hopen⟩
      · exact hopen

theorem close_channels_eq (ho : Owns d owner)
    (hs : d.sessions s = some ses) {d' : Daemon} (hfds : d'.open_fds = d.open_fds) :
    close_channels d' ses = { d' with open_fds := closed_fds d ses } := by
  unfold close_channels closed_fds
  by_cases horphan : ses.client_stat ≠ .SES_CLIENT_ORPHAN
  · have hsk_open : ses.sk ∈ d'.open_fds := by
      rw [hfds]
      apply ho.opened
      rw [ho.data s ses hs horphan]
      exact some_ne_none _
    rw [if_pos horphan, if_pos horphan, dl_close_open hsk_open]
    by_cases hpos : 0 < ses.ctrl_sk
    · have hown := ho.ctrl s ses hs horphan hpos.ne'
      have hne : ses.ctrl_sk ≠ ses.sk := by
        intro heq
        rw [heq, ho.data s ses hs horphan] at hown
        cases hown
      have hctrl_open : ses.ctrl_sk ∈ d'.open_fds.erase ses.sk := by
        rw [hfds]
        apply Finset.mem_erase.mpr ⟨hne, ho.opened _ _⟩
        rw [hown]
        exact some_ne_none _
      rw [if_pos hpos, if_pos hpos, dl_close_open hctrl_open, hfds]
    · dsimp only
      rw [if_neg hpos, if_neg hpos, hfds]
  · rw [if_neg horphan, if_neg horphan, ← hfds]

theorem dispose_session_eq (h : Indexed d) (hs : d.sessions s = some ses) (d' : Daemon)
    (hid : d'.sessions_id = d.sessions_id) (hfds : d'.open_fds = d.open_fds)
    {reason : Reason} (hreason : reason ≠ .PORT_IN_USE) : dispose_session d' s ses reason =
      { d' with
        sessions_id := d'.sessions_id.erase ses.sess_id
        sessions_port := d'.sessions_port.erase ses.port
        open_fds := closed_fds d ses
        sessions := update d'.sessions s none } := by
  obtain ⟨owner, ho⟩ := h.owned
  have hfind : d'.sessions_id.find ses.sess_id = some s := by
    rw [hid]
    exact h.ids.find_iff.mpr ⟨ses, hs, rfl⟩
  unfold dispose_session release_port
  rw [hfind]
  dsimp only
  rw [if_pos ⟨hreason, h.port_pos s ses hs⟩, close_channels_eq ho hs]
  exact hfds

theorem indexes_remove {h : Hash ℕ ℕ} {key : Session → ℕ}
    (hh : h.Indexes fun k t => ∃ u, d.sessions t = some u ∧ key u = k)
    (hs : d.sessions s = some ses) : (h.erase (key ses)).Indexes fun k t =>
      ∃ u, update d.sessions s none t = some u ∧ key u = k := by
  apply (hh.erase (key ses)).congr
  intro k t
  constructor
  · rintro ⟨⟨u, hu, hk⟩, hne⟩
    refine ⟨u, update_none_iff.mpr ⟨?_, hu⟩, hk⟩
    rintro rfl
    rw [hs] at hu
    obtain rfl := some.inj hu
    exact hne hk.symm
  · rintro ⟨u, hu, hk⟩
    obtain ⟨hne, hu⟩ := update_none_iff.mp hu
    refine ⟨⟨u, hu, hk⟩, ?_⟩
    rintro rfl
    exact hne (hh.unique ⟨u, hu, hk⟩ ⟨ses, hs, rfl⟩)

theorem Indexed.dispose (h : Indexed d) (hs : d.sessions s = some ses)
    (hoff : ses.client_stat ≠ .SES_CLIENT_ON) :
    Indexed { d with
      sessions_id := d.sessions_id.erase ses.sess_id
      sessions_port := d.sessions_port.erase ses.port
      open_fds := closed_fds d ses
      sessions := update d.sessions s none } := by
  obtain ⟨owner, ho⟩ := h.owned
  constructor
  · intro t ht
    by_cases hts : t = s
    · rw [hts]
      exact update_self ..
    · exact (update_of_ne hts ..).trans (h.fresh t ht)
  · exact indexes_remove h.ids hs
  · exact indexes_remove h.ports hs
  · apply h.socks.congr
    intro k t
    by_cases ht : t = s
    · subst ht
      simp [hs, hoff]
    · simp [ht]
  · intro t u ht
    exact h.port_pos t u (update_none_iff.mp ht).2
  · exact h.last
  · refine owned_closed ho hs ?_ ?_ ?_
    · intro t u ht _
      exact update_none_iff.mp ht
    · rfl
    · rfl

theorem Indexed.close (h : Indexed d) (sesid : ℕ) (reason : Reason)
    (hmeets : reason = .PORT_IN_USE → ∀ s ses, d.sessions_id.find sesid = some s →
      d.sessions s = some ses → MAX_LEAVE < ses.joined_groups.length) :
    Indexed (session_close d sesid reason) ∧ (session_close d sesid reason).exit = d.exit := by
  unfold session_close
  cases hfind : d.sessions_id.find sesid with
  | none => exact ⟨h, rfl⟩
  | some s =>
    dsimp only
    obtain ⟨ses, hs, -⟩ := h.ids.find_iff.mp hfind
    rw [hs]
    dsimp only
    generalize hstat : (if ses.client_stat = ClientStat.SES_CLIENT_ON then
      ClientStat.SES_CLIENT_OFF else ses.client_stat) = stat
    have hoff : stat ≠ .SES_CLIENT_ON := by
      rw [← hstat]
      split
      · decide
      · assumption
    have horphan : stat ≠ .SES_CLIENT_ORPHAN → ses.client_stat ≠ .SES_CLIENT_ORPHAN := by
      intro hne heq
      rw [heq, if_neg (by decide)] at hstat
      exact hne hstat.symm
    by_cases hgroups : MAX_LEAVE < ses.joined_groups.length
    · -- too many groups: the session stays, without its client
      rw [if_pos hgroups]
      have hdetach : Indexed ((detach_client d ses).set_session s
          { ses with
            close_reason := some reason, client_stat := stat, r_data := false
            joined_groups := ses.joined_groups.drop (MAX_LEAVE + 1) }) :=
        h.detach hs rfl rfl rfl rfl hoff horphan
      refine ⟨⟨hdetach.fresh, hdetach.ids, hdetach.ports, hdetach.socks, hdetach.port_pos,
        hdetach.last, ?_⟩, ?_⟩
      · obtain ⟨owner, ho⟩ := hdetach.owned
        exact ⟨owner, ⟨ho.data, ho.ctrl, ho.request, ho.once, ho.opened⟩⟩
      · rw [detach_client_eq]
        rfl
    · rw [if_neg hgroups]
      have hreason : reason ≠ .PORT_IN_USE := by
        intro hreason
        exact hgroups (hmeets hreason s ses hfind hs)
      have hdetach : Indexed ((detach_client d ses).set_session s
          { ses with
            close_reason := some reason, client_stat := stat, r_data := false
            joined_groups := [] }) :=
        h.detach hs rfl rfl rfl rfl hoff horphan
      have hself := update_self s (some
        { ses with
          close_reason := some reason, client_stat := stat, r_data := false
          joined_groups := [] }) (detach_client d ses).sessions
      rw [dispose_session_eq hdetach hself (detach_client d ses) rfl rfl hreason]
      have hdispose := hdetach.dispose hself hoff
      unfold Daemon.set_session at hdispose
      dsimp only at hdispose
      rw [update_idem] at hdispose
      refine ⟨hdispose, ?_⟩
      rw [detach_client_eq]

/-! ## 5. Opening a session -/

theorem find_port_some {last : ℕ} {table : Hash ℕ ℕ} {i : ℕ} (hlast : FIRST_PORT ≤ last)
    (h : find_port last table = some i) :
    table.find i = none ∧ FIRST_PORT ≤ i ∧ i < max END_PORT last := by
  unfold find_port at h
  dsimp only at h
  split at h
  · next j hfound =>
      obtain rfl := some.inj h
      have hmem := mem_range'_1.mp (mem_of_find?_eq_some hfound)
      have hunused := List.find?_some hfound
      exact ⟨of_decide_eq_true hunused, by omega, by omega⟩
  · have hmem := mem_range'_1.mp (mem_of_find?_eq_some h)
    have hunused := List.find?_some h
    exact ⟨of_decide_eq_true hunused, by omega, by omega⟩

theorem find_port_none {last : ℕ} {table : Hash ℕ ℕ} (h : find_port last table = none) {p : ℕ}
    (hlo : FIRST_PORT ≤ p) (hhi : p < END_PORT) (hne : p ≠ last) : table.find p ≠ none := by
  unfold find_port at h
  dsimp only at h
  split at h
  · cases h
  · next hfirst =>
      intro hunused
      rw [List.find?_eq_none] at hfirst h
      by_cases hlt : last < p
      · have hmem : p ∈ range' (last + 1) (END_PORT - (last + 1)) :=
          mem_range'_1.mpr (by omega)
        exact hfirst p hmem (decide_eq_true hunused)
      · have hmem : p ∈ range' FIRST_PORT (last - FIRST_PORT) :=
          mem_range'_1.mpr (by omega)
        exact h p hmem (decide_eq_true hunused)

theorem count_replace {l : List ℕ} {a b : ℕ} (h : a ∈ l) (c : ℕ) :
    (l.replace a b).count c + (if a = c then 1 else 0) = l.count c + (if b = c then 1 else 0) := by
  induction l with
  | nil => exact absurd h (not_mem_nil)
  | cons x l ih =>
    by_cases hx : a = x
    · subst hx
      rw [replace_cons_self, count_cons, count_cons]
      simp only [beq_iff_eq]
      omega
    · have hmem : a ∈ l := (mem_cons.mp h).resolve_left hx
      have hcons : (x :: l).replace a b = x :: l.replace a b := by
        rw [replace_cons, beq_false_of_ne hx]
      rw [hcons, count_cons, count_cons]
      have htail := ih hmem
      omega

theorem mem_of_mem_replace {l : List ℕ} {a b c : ℕ} (h : c ∈ l.replace a b) : c = b ∨ c ∈ l := by
  by_cases ha : a ∈ l
  · have hcount := count_replace (b := b) ha c
    have hpos := count_pos_iff.mpr h
    by_cases hb : b = c
    · exact .inl hb.symm
    · rw [if_neg hb] at hcount
      exact .inr (count_pos_iff.mp (by omega))
  · rw [replace_of_not_mem ha] at h
    exact .inr h

theorem Owns.free (ho : Owns d owner) {sk : ℕ} (h : sk ∉ d.open_fds) : owner sk = none := by
  by_contra hne
  exact h (ho.opened sk hne)

theorem Indexed.accept_ctrl (h : Indexed d) {sk : ℕ} (hsk : sk ∉ d.open_fds) :
    Indexed (session_accept_ctrl d sk) := by
  obtain ⟨owner, ho⟩ := h.owned
  have hfree := ho.free hsk
  have hopened : ∀ fd, update owner sk (some .request) fd ≠ none →
      fd ∈ insert sk d.open_fds := by
    intro fd hfd
    by_cases hne : fd = sk
    · exact Finset.mem_insert.mpr (.inl hne)
    · rw [update_of_ne hne] at hfd
      exact Finset.mem_insert_of_mem (ho.opened fd hfd)
  -- the others keep what they have
  have hkeep : ∀ fd o, owner fd = some o → update owner sk (some .request) fd = some o := by
    intro fd o hfd
    rw [update_of_ne _, hfd]
    rintro rfl
    rw [hfree] at hfd
    cases hfd
  unfold session_accept_ctrl
  dsimp only
  split
  · next hzero =>
      refine ⟨h.fresh, h.ids, h.ports, h.socks, h.port_pos, h.last, _, ⟨?_, ?_, ?_, ?_, hopened⟩⟩
      · exact fun s ses hs hstat => hkeep _ _ (ho.data s ses hs hstat)
      · exact fun s ses hs hstat hctrl => hkeep _ _ (ho.ctrl s ses hs hstat hctrl)
      · intro r hr hne
        obtain rfl | hr := mem_of_mem_replace hr
        · exact update_self ..
        · exact hkeep _ _ (ho.request r hr hne)
      · intro r hne
        have hcount := count_replace (b := sk) hzero r
        dsimp only
        rw [if_neg hne.symm] at hcount
        by_cases hr : sk = r
        · have hnot : r ∉ d.ctrl_sk_requests := by
            intro hmem
            rw [← hr] at hmem hne
            rw [ho.request sk hmem hne] at hfree
            cases hfree
          rw [if_pos hr, count_eq_zero_of_not_mem hnot] at hcount
          omega
        · have honce := ho.once r hne
          rw [if_neg hr] at hcount
          omega
  · refine ⟨h.fresh, h.ids, h.ports, h.socks, h.port_pos, h.last, owner,
      ⟨ho.data, ho.ctrl, ho.request, ho.once, ?_⟩⟩
    intro fd hfd
    exact Finset.mem_insert_of_mem (ho.opened fd hfd)

theorem indexes_add {h : Hash ℕ ℕ} {key : Session → ℕ} {p : Session → Prop}
    (hh : h.Indexes fun k t => ∃ u, d.sessions t = some u ∧ p u ∧ key u = k)
    (hs : d.sessions s = none) (hp : p ses)
    (hnew : ∀ t u, d.sessions t = some u → p u → key u ≠ key ses) :
    (h.insert (key ses) s).Indexes fun k t =>
      ∃ u, update d.sessions s (some ses) t = some u ∧ p u ∧ key u = k := by
  have hfresh : ∀ t, ¬∃ u, d.sessions t = some u ∧ p u ∧ key u = key ses := by
    rintro t ⟨u, ht, hu, hkey⟩
    exact hnew t u ht hu hkey
  apply (hh.insert hfresh).congr
  intro k t
  by_cases ht : t = s
  · subst ht
    simp [hs, hp, eq_comm]
  · simp [ht]

theorem Indexed.admit (h : Indexed d) (n i : ℕ)
    (hid : ∀ t u, d.sessions t = some u → u.sess_id ≠ ses.sess_id)
    (hunused : d.sessions_port.find ses.port = none) (hport : ses.port ≠ 0)
    (hstat : ses.client_stat = .SES_CLIENT_ON) (hctrl : ses.ctrl_sk = 0)
    (hsk : ses.sk ∉ d.open_fds) (hi : FIRST_PORT ≤ i ∧ i < END_PORT) :
    Indexed { d with
      session_num := n
      last_sess_port := i
      sessions := update d.sessions d.next (some ses)
      next := d.next + 1
      sessions_id := d.sessions_id.insert ses.sess_id d.next
      sessions_port := d.sessions_port.insert ses.port d.next
      sessions_sock := d.sessions_sock.insert ses.sk d.next
      open_fds := insert ses.sk d.open_fds } := by
  obtain ⟨owner, ho⟩ := h.owned
  have hnext : d.sessions d.next = none := h.fresh d.next (le_refl _)
  have hfree := ho.free hsk
  have hkeep : ∀ fd o, owner fd = some o →
      update owner ses.sk (some (.data d.next)) fd = some o := by
    intro fd o hfd
    rw [update_of_ne _, hfd]
    rintro rfl
    rw [hfree] at hfd
    cases hfd
  constructor
  · intro t ht
    have hlt : d.next + 1 ≤ t := ht
    have hne : t ≠ d.next := by omega
    exact (update_of_ne hne ..).trans (h.fresh t (by omega))
  · have hids := h.ids.congr (q := fun k t => ∃ u, d.sessions t = some u ∧ True ∧ u.sess_id = k)
      fun k t => by simp
    exact (indexes_add hids hnext trivial fun t u ht _ => hid t u ht).congr fun k t => by simp
  · have hports := h.ports.congr (q := fun k t => ∃ u, d.sessions t = some u ∧ True ∧ u.port = k)
      fun k t => by simp
    refine (indexes_add hports hnext trivial ?_).congr fun k t => by simp
    intro t u ht _ heq
    exact h.ports.find_none.mp hunused t ⟨u, ht, heq⟩
  · apply indexes_add h.socks hnext hstat
    -- a socket that a session has is open
    intro t u ht hu heq
    have hown := ho.data t u ht (by rw [hu]; decide)
    rw [heq, hfree] at hown
    cases hown
  · intro t u ht
    obtain ⟨rfl, rfl⟩ | ⟨-, ht⟩ := update_some_iff.mp ht
    · exact hport
    · exact h.port_pos t u ht
  · exact hi
  · refine ⟨update owner ses.sk (some (.data d.next)), ⟨?_, ?_, ?_, ho.once, ?_⟩⟩
    · intro t u ht hu
      obtain ⟨rfl, rfl⟩ | ⟨-, ht⟩ := update_some_iff.mp ht
      · exact update_self ..
      · exact hkeep _ _ (ho.data t u ht hu)
    · intro t u ht hu hne
      obtain ⟨rfl, rfl⟩ | ⟨-, ht⟩ := update_some_iff.mp ht
      · exact absurd hctrl hne
      · exact hkeep _ _ (ho.ctrl t u ht hu hne)
    · exact fun r hr hne => hkeep _ _ (ho.request r hr hne)
    · intro fd hfd
      by_cases hne : fd = ses.sk
      · exact Finset.mem_insert.mpr (.inl hne)
      · rw [update_of_ne hne] at hfd
        exact Finset.mem_insert_of_mem (ho.opened fd hfd)

theorem ended_of_none (h : d.exit = none) : Ended d :=
  ⟨by rw [h]; decide, by rw [h]; intro heq; cases heq⟩

theorem Indexed.accept (h : Indexed d) (hexit : d.exit = none) {sk : ℕ} (hsk : sk ∉ d.open_fds)
    (hmeets : Meets d (.accept sk)) :
    Indexed (session_accept d sk) ∧ Ended (session_accept d sk) := by
  obtain ⟨hnum, hport⟩ := hmeets
  unfold session_accept
  dsimp only
  split
  · next hfind =>
      obtain ⟨owner, ho⟩ := h.owned
      have hopened : ∀ fd, owner fd ≠ none → fd ∈ insert sk d.open_fds := by
        intro fd hfd
        exact Finset.mem_insert_of_mem (ho.opened fd hfd)
      refine ⟨⟨fun s hs => h.fresh s (Nat.le_of_succ_le hs), h.ids, h.ports, h.socks, h.port_pos,
        h.last, owner, ⟨ho.data, ho.ctrl, ho.request, ho.once, hopened⟩⟩, ?_, ?_⟩
      · unfold Daemon.leave_with
        dsimp only
        rw [hexit, getD_none]
        decide
      · -- the search passes over `last_sess_port`, but another port would have been found
        intro _ p hlo hhi
        have hused : d.sessions_port.find p ≠ none := by
          by_cases hp : p = d.last_sess_port
          · subst hp
            intro hunused
            obtain ⟨q, hqlo, hqhi, hne, hq⟩ := hport hunused
            exact find_port_none hfind hqlo hqhi hne hq
          · exact find_port_none hfind hlo hhi hp
        obtain ⟨s, hs⟩ := ne_none_iff_exists'.mp hused
        obtain ⟨ses, hses, heq⟩ := h.ports.find_iff.mp hs
        exact ⟨s, ses, hses, heq⟩
  · next i hfind =>
      have hlast := h.last
      obtain ⟨hunused, hlo, hhi⟩ := find_port_some hlast.1 hfind
      rw [max_eq_left hlast.2.le] at hhi
      have hpos : i ≠ 0 := by
        unfold FIRST_PORT at hlo
        omega
      refine ⟨?_, ended_of_none hexit⟩
      exact h.admit _ i hnum hunused hpos rfl rfl hsk ⟨hlo, hhi⟩

/-! ## 6. Commands -/

theorem Indexed.close_other (h : Indexed d) (sesid : ℕ) {reason : Reason}
    (hreason : reason ≠ .PORT_IN_USE) :
    Indexed (session_close d sesid reason) ∧ (session_close d sesid reason).exit = d.exit :=
  h.close sesid reason fun heq => absurd heq hreason

theorem Indexed.read_ctrl (h : Indexed d) (hs : d.sessions s = some ses) (ctrl_sk : ℕ) :
    Indexed (read_ctrl_sk d s ses ctrl_sk) ∧ (read_ctrl_sk d s ses ctrl_sk).exit = d.exit := by
  obtain ⟨owner, ho⟩ := h.owned
  unfold read_ctrl_sk
  split
  · next hmem =>
      refine ⟨h.set_owned hs _ rfl rfl rfl rfl ?_, rfl⟩
      by_cases hzero : ctrl_sk = 0
      · -- the client takes an empty place for its channel
        have hsame : d.ctrl_sk_requests.replace ctrl_sk 0 = d.ctrl_sk_requests := by
          rw [hzero]
          apply ext_getElem? fun i => ?_
          rw [List.getElem?_replace]
          split
          · next heq =>
              rw [ite_self]
              exact (beq_iff_eq.mp heq).symm
          · rfl
        rw [hsame]
        exact ⟨owner, ho.set_session hs rfl (.inr hzero) fun hne => hne⟩
      · have hreq := ho.request ctrl_sk hmem hzero
        have hkeep : ∀ fd o, owner fd = some o → o ≠ .request →
            update owner ctrl_sk (some (.ctrl s)) fd = some o := by
          intro fd o hfd ho'
          rw [update_of_ne _, hfd]
          rintro rfl
          rw [hreq] at hfd
          exact ho' (some.inj hfd).symm
        have hcount := fun c => count_replace (b := 0) hmem c
        refine ⟨update owner ctrl_sk (some (.ctrl s)), ⟨?_, ?_, ?_, ?_, ?_⟩⟩
        · intro t u ht hu
          obtain ⟨rfl, rfl⟩ | ⟨-, ht⟩ := update_some_iff.mp ht
          · exact hkeep _ _ (ho.data t ses hs hu) (by simp)
          · exact hkeep _ _ (ho.data t u ht hu) (by simp)
        · intro t u ht hu hne
          obtain ⟨rfl, rfl⟩ | ⟨-, ht⟩ := update_some_iff.mp ht
          · exact update_self ..
          · exact hkeep _ _ (ho.ctrl t u ht hu hne) (by simp)
        · -- the channel stood there once
          intro r hr hne
          have hpos : 0 < (d.ctrl_sk_requests.replace ctrl_sk 0).count r :=
            count_pos_iff.mpr hr
          have honce := ho.once ctrl_sk hzero
          have hcount := hcount r
          have hother : r ≠ ctrl_sk := by
            rintro rfl
            rw [if_pos rfl, if_neg hne.symm] at hcount
            omega
          rw [if_neg hother.symm, if_neg hne.symm] at hcount
          rw [update_of_ne hother]
          exact ho.request r (count_pos_iff.mp (by omega)) hne
        · intro r hne
          have honce := ho.once r hne
          have hcount := hcount r
          rw [if_neg hne.symm] at hcount
          dsimp only
          omega
        · intro fd hfd
          by_cases heq : fd = ctrl_sk
          · rw [heq]
            apply ho.opened
            rw [hreq]
            exact some_ne_none _
          · rw [update_of_ne heq] at hfd
            exact ho.opened fd hfd
  · have hset : Indexed (d.set_session s { ses with ctrl_sk := 0 }) :=
      h.set_session hs rfl rfl rfl (.inr rfl) rfl
    exact hset.close_other ses.sess_id (by decide)

theorem Indexed.rebind (h : Indexed d) (hs : d.sessions s = some ses) {dest_port : ℕ}
    (hzero : dest_port ≠ 0) (hfree : d.sessions_port.find dest_port = none) :
    Indexed { d.set_session s { ses with port := dest_port } with
      sessions_port := (d.sessions_port.erase ses.port).insert dest_port s } := by
  obtain ⟨owner, ho⟩ := h.owned
  have hnew := h.ports.find_none.mp hfree
  constructor
  · intro t ht
    have hne : t ≠ s := by
      rintro rfl
      rw [h.fresh t ht] at hs
      cases hs
    exact (update_of_ne hne ..).trans (h.fresh t ht)
  · have hids := h.ids.congr (q := fun k t => ∃ u, d.sessions t = some u ∧ True ∧ u.sess_id = k)
      fun k t => by simp
    have hset : d.sessions_id.Indexes fun k t => ∃ u, update d.sessions s
        (some { ses with port := dest_port }) t = some u ∧ True ∧ u.sess_id = k :=
      indexes_update hids hs rfl Iff.rfl
    exact hset.congr fun k t => by simp [Daemon.set_session]
  · have hnot : ∀ t, ¬((∃ u, d.sessions t = some u ∧ u.port = dest_port) ∧
        dest_port ≠ ses.port) := fun t hin => hnew t hin.1
    apply ((h.ports.erase ses.port).insert hnot).congr
    intro k t
    by_cases ht : t = s
    · subst ht
      simp [Daemon.set_session, hs, eq_comm]
    · have hk : (∃ u, d.sessions t = some u ∧ u.port = k) → k ≠ ses.port := by
        rintro hu rfl
        exact ht (h.ports.unique hu ⟨ses, hs, rfl⟩)
      simp only [Daemon.set_session, update_of_ne ht, ht, and_false, or_false]
      exact ⟨fun hu => hu.1, fun hu => ⟨hu, hk hu⟩⟩
  · exact indexes_update h.socks hs rfl Iff.rfl
  · intro t u ht
    obtain ⟨rfl, rfl⟩ | ⟨-, ht⟩ := update_some_iff.mp ht
    · exact hzero
    · exact h.port_pos t u ht
  · exact h.last
  · have howns : Owns (d.set_session s { ses with port := dest_port }) owner :=
      ho.set_session hs rfl (.inl rfl) fun hne => hne
    exact ⟨owner, ⟨howns.data, howns.ctrl, howns.request, howns.once, howns.opened⟩⟩

theorem Indexed.bind (h : Indexed d) (hexit : d.exit = none) (hs : d.sessions s = some ses)
    {dest_port : ℕ} (hmeets : Meets d (.bind s dest_port)) :
    Indexed (bind d s ses dest_port) ∧ Ended (bind d s ses dest_port) := by
  have hmeets := hmeets ses hs
  -- a close of this session with `PORT_IN_USE` is put off
  have hclose : ∀ reason, (reason = .PORT_IN_USE → MAX_LEAVE < ses.joined_groups.length) →
      Indexed (session_close d ses.sess_id reason) ∧
        Ended (session_close d ses.sess_id reason) := by
    intro reason hreason
    have hclosed := h.close ses.sess_id reason (by
      intro heq t u hfind hu
      obtain rfl := h.ids.unique ⟨ses, hs, rfl⟩ (h.ids.find_iff.mp hfind)
      rw [hs] at hu
      obtain rfl := some.inj hu
      exact hreason heq)
    exact ⟨hclosed.1, ended_of_none (hclosed.2.trans hexit)⟩
  unfold Sessions.bind
  split
  · next hzero =>
      apply hclose
      intro _
      exact hmeets.resolve_right fun hne => hne.1 hzero
  · split
    · exact hclose _ nofun
    · split
      · exact hclose _ nofun
      · next _ htype hrel =>
          split
          · next hused =>
              apply hclose
              intro _
              apply hmeets.resolve_right
              rintro ⟨-, hlisten | hr | hfree⟩
              · exact htype hlisten
              · exact hrel hr
              · rw [hfree] at hused
                cases hused
          · next hfree =>
              rw [not_isSome_iff_eq_none] at hfree
              split
              · -- a session has a port
                next hnone =>
                exact absurd ⟨ses, hs, rfl⟩ (h.ports.find_none.mp hnone s)
              · exact ⟨h.rebind hs (by assumption) hfree, ended_of_none hexit⟩

def Tame (d d' : Daemon) : Prop := Indexed d' ∧ d'.exit = d.exit

theorem Indexed.init_rel (h : Indexed d) (hs : d.sessions s = some ses) :
    Tame d (init_reliable_session d s ses) := by
  unfold init_reliable_session
  rw [if_neg (h.port_pos s ses hs)]
  exact ⟨h.set_session hs rfl rfl rfl (.inl rfl) rfl, rfl⟩

theorem Indexed.connect (h : Indexed d) (hs : d.sessions s = some ses) (dest : ℕ) :
    Tame d (connect d s ses dest) := by
  unfold Sessions.connect
  split
  · exact h.close_other _ (by decide)
  · split
    · exact h.close_other _ (by decide)
    · split
      · exact ⟨h, rfl⟩
      · dsimp only
        rw [if_neg (h.port_pos s ses hs)]
        exact h.init_rel hs

theorem Indexed.listen (h : Indexed d) (hs : d.sessions s = some ses) :
    Tame d (listen d s ses) := by
  unfold Sessions.listen
  split
  · exact h.close_other _ (by decide)
  · split
    · exact h.close_other _ (by decide)
    · exact ⟨h.set_session hs rfl rfl rfl (.inl rfl) rfl, rfl⟩

theorem Indexed.join (h : Indexed d) (hs : d.sessions s = some ses) (g : ℕ) :
    Tame d (join d s ses g) := by
  unfold Sessions.join
  split
  · exact h.close_other _ (by decide)
  · split
    · exact h.close_other _ (by decide)
    · split
      · exact h.close_other _ (by decide)
      · split
        · exact ⟨h, rfl⟩
        · exact ⟨h.set_session hs rfl rfl rfl (.inl rfl) rfl, rfl⟩

theorem Indexed.leave (h : Indexed d) (hs : d.sessions s = some ses) (g : ℕ) :
    Tame d (leave d s ses g) := by
  unfold Sessions.leave
  split
  · exact h.close_other _ (by decide)
  · split
    · exact h.close_other _ (by decide)
    · split
      · exact h.close_other _ (by decide)
      · exact ⟨h.set_session hs rfl rfl rfl (.inl rfl) rfl, rfl⟩

theorem Indexed.accept_rel (h : Indexed d) (hexit : d.exit = none) (hs : d.sessions s = some ses)
    (hello : HelloCheck) :
    Indexed (accept_rel_session d s ses hello) ∧ Ended (accept_rel_session d s ses hello) := by
  unfold accept_rel_session
  split
  · have hclosed : Tame d (session_close d ses.sess_id .SES_DISCONNECT) :=
      h.close_other _ (by decide)
    exact ⟨hclosed.1, ended_of_none (hclosed.2.trans hexit)⟩
  · cases hello with
    | ok =>
      have hinit := h.init_rel hs
      exact ⟨hinit.1, ended_of_none (hinit.2.trans hexit)⟩
    | corrupt =>
      refine ⟨⟨h.fresh, h.ids, h.ports, h.socks, h.port_pos, h.last, ?_⟩, ?_, ?_⟩
      · obtain ⟨owner, ho⟩ := h.owned
        exact ⟨owner, ⟨ho.data, ho.ctrl, ho.request, ho.once, ho.opened⟩⟩
      · simp [Daemon.leave_with, hexit]
      · simp [Daemon.leave_with, hexit]
    | wrong_seq_no => exact ⟨h, ended_of_none hexit⟩

theorem Indexed.try_close (h : Indexed d) {sesid : ℕ} (hmeets : Meets d (.try_close sesid)) :
    Tame d (try_close_session { d with try_close := d.try_close.erase sesid } sesid) := by
  have hqueue : Indexed { d with try_close := d.try_close.erase sesid } := by
    obtain ⟨owner, ho⟩ := h.owned
    exact ⟨h.fresh, h.ids, h.ports, h.socks, h.port_pos, h.last, owner,
      ⟨ho.data, ho.ctrl, ho.request, ho.once, ho.opened⟩⟩
  unfold try_close_session
  split
  · exact ⟨hqueue, rfl⟩
  · next s hfind =>
      split
      · exact ⟨hqueue, rfl⟩
      · next reason hreason =>
          apply hqueue.close sesid reason
          rintro rfl t ses hfind' hs
          have heq : s = t := some.inj (hfind.symm.trans hfind')
          subst heq
          rw [hs] at hreason
          exact hmeets s ses hfind hs hreason

theorem Indexed.disconnect (h : Indexed d) (hs : d.sessions s = some ses)
    (hmeets : Meets d (.disconnect s)) : Tame d (disconnect_reliable_session d s ses) := by
  unfold disconnect_reliable_session
  by_cases hrel : ses.r_data = false
  · rw [if_pos hrel]
    exact ⟨h, rfl⟩
  · rw [if_neg hrel]
    rw [Bool.not_eq_false] at hrel
    obtain ⟨hon, hctrl⟩ := hmeets ses hs hrel
    have hstat : ses.client_stat ≠ .SES_CLIENT_ORPHAN := by rw [hon]; decide
    have hdetach : Indexed ((detach_client d ses).set_session s
        { ses with client_stat := .SES_CLIENT_ORPHAN }) :=
      h.detach hs rfl rfl rfl rfl (by simp) (fun _ => hstat)
    obtain ⟨owner, ho⟩ := h.owned
    have hclose : close_channels { d with sessions_sock := d.sessions_sock.erase ses.sk } ses =
        { d with
          sessions_sock := d.sessions_sock.erase ses.sk, open_fds := closed_fds d ses } :=
      close_channels_eq ho hs rfl
    unfold close_channels at hclose
    rw [if_pos hstat] at hclose
    dsimp only at hclose
    rw [if_pos (Nat.pos_of_ne_zero hctrl)] at hclose
    dsimp only
    rw [hclose]
    refine ⟨?_, rfl⟩
    have hgone := hdetach
    unfold detach_client at hgone
    rw [if_pos hon] at hgone
    refine ⟨hgone.fresh, hgone.ids, hgone.ports, hgone.socks, hgone.port_pos, hgone.last, ?_⟩
    refine owned_closed ho hs ?_ ?_ ?_
    · intro t u ht hu
      obtain ⟨rfl, rfl⟩ | ⟨hne, ht⟩ := update_some_iff.mp ht
      · exact absurd rfl hu
      · exact ⟨hne, ht⟩
    · rfl
    · rfl

/-! ## 7. Runs -/

theorem Tame.step {d' : Daemon} (h : Tame d d') (hexit : d.exit = none) : Indexed d' ∧ Ended d' :=
  ⟨h.1, ended_of_none (h.2.trans hexit)⟩

theorem Indexed.step (h : Indexed d) {ev : Event} {d' : Daemon} (hstep : Step d ev d')
    (hmeets : Meets d ev) : Indexed d' ∧ Ended d' := by
  obtain ⟨hexit, hen, rfl⟩ := hstep
  have hon : ∀ s (f : Session → Daemon),
      (∀ ses, d.sessions s = some ses → Indexed (f ses) ∧ Ended (f ses)) →
        Indexed (d.on s f) ∧ Ended (d.on s f) := by
    intro s f hf
    unfold Daemon.on
    cases hs : d.sessions s with
    | none => exact ⟨h, ended_of_none hexit⟩
    | some ses => exact hf ses hs
  cases ev with
  | accept_ctrl sk =>
    refine ⟨h.accept_ctrl hen, ?_⟩
    unfold handle session_accept_ctrl
    dsimp only
    split
    · exact ended_of_none hexit
    · constructor <;> simp [Daemon.leave_with, hexit]
  | accept sk => exact h.accept hexit hen hmeets
  | read_ctrl_sk s ctrl_sk =>
    exact hon s _ fun ses hs => Tame.step (h.read_ctrl hs ctrl_sk) hexit
  | bind s dest_port => exact hon s _ fun ses hs => h.bind hexit hs hmeets
  | connect s dest => exact hon s _ fun ses hs => (h.connect hs dest).step hexit
  | listen s => exact hon s _ fun ses hs => (h.listen hs).step hexit
  | accept_rel s hello => exact hon s _ fun ses hs => h.accept_rel hexit hs hello
  | join s g => exact hon s _ fun ses hs => (h.join hs g).step hexit
  | leave s g => exact hon s _ fun ses hs => (h.leave hs g).step hexit
  | close sesid reason => exact Tame.step (h.close sesid reason hmeets) hexit
  | try_close sesid => exact (h.try_close hmeets).step hexit
  | disconnect s => exact hon s _ fun ses hs => (h.disconnect hs hmeets).step hexit

def plain_daemon : Daemon := Daemon.init {0, 1, 2}

def bound_daemon (dest_port : ℕ) : Daemon :=
  handle (handle plain_daemon (.accept 5)) (.bind 0 dest_port)

end Spines.Sessions
