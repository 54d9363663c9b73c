/-
Copies of a message.

A trace of a daemon records every event together with what
`Priority_Flood_Disseminate` returned. The first half is about what is let in: a
message is let in once, because its entry stays until it has expired, and an
expired message is not let in again. The second half is about copies of a stored
message: the daemon knows what to do with a copy from any neighbour but one that is
not on the mask, unless the message first came from it or it is the source.
-/
import Spines.Priority.Dissem

set_option autoImplicit false

namespace Spines.Priority

open Spines.Lib Spines.RelFlood Function Option List

/-! ## 1. Time -/

theorem SpTime.le_iff {t u : SpTime} :
    t.le u ↔ t.sec < u.sec ∨ t.sec = u.sec ∧ t.usec ≤ u.usec := by
  unfold SpTime.le e_compare_time
  split_ifs <;> omega

theorem SpTime.le_trans {t u w : SpTime} (h : t.le u) (h' : u.le w) : t.le w := by
  rw [SpTime.le_iff] at *
  omega

/-! ## 2. Traces -/

/-- What `Priority_Flood_Disseminate` returns in an event. -/
def reply (cf : PrioConf) (P : Flood) : Event → Ret
  | .disseminate src_link env m => (priority_flood_disseminate cf src_link env m P).2
  | _ => .no_route

/-- The daemon that was started at second `sec` has handled the events of `l` and is in
state `P`; with each event stands the reply. -/
inductive Trace (cf : PrioConf) (sec : ℕ) : List (Event × Ret) → Flood → Prop
  | start : Trace cf sec [] (init_priority_flooding cf sec)
  | step {l : List (Event × Ret)} {P P' : Flood} {e : Event} (h : Trace cf sec l P)
      (hstep : Step cf P e P') : Trace cf sec (l ++ [(e, reply cf P e)]) P'

def Event.now : Event → Option SpTime
  | disseminate _ env _ => some env.now
  | send_one _ _ _ => none
  | garbage_collect now _ => some now

def clock (l : List (Event × Ret)) : List SpTime := l.filterMap (fun a => a.1.now)

def Received (a : Event × Ret) (m : PrioMsg) : Prop :=
  ∃ src_link env, a.1 = .disseminate src_link env m ∧ env.verified = true

/-- A message was let in: the reply is not `NO_ROUTE`. -/
def Accepted (a : Event × Ret) (m : PrioMsg) : Prop :=
  (∃ src_link env, a.1 = .disseminate src_link env m) ∧ a.2 ≠ .no_route

def OneHeader (l : List (Event × Ret)) : Prop :=
  ∀ a ∈ l, ∀ b ∈ l, ∀ m m', Received a m → Received b m' → m.source = m'.source → m.key = m'.key →
    m.dest = m'.dest ∧ m.priority = m'.priority ∧ m.expire = m'.expire ∧ m.mask = m'.mask

section Traces

variable {cf : PrioConf} {sec : ℕ} {l : List (Event × Ret)} {P : Flood}

theorem Trace.inv (h : Trace cf sec l P) : Inv cf cf.all P := by
  induction h with
  | start => exact init_inv cf sec
  | step h hstep ih => exact (step_inv ih hstep).1

theorem clock_snoc (l : List (Event × Ret)) (a : Event × Ret) :
    clock (l ++ [a]) = clock l ++ a.1.now.toList := by
  unfold clock
  rw [filterMap_append]
  cases h : a.1.now <;> simp [h]

structure Seen (l : List (Event × Ret)) (P : Flood) : Prop where
  /-- The entry of a message that was let in is there, or the message has expired. -/
  entry : ∀ a ∈ l, ∀ m, Accepted a m → Received a m ∧
    ((∃ v, P.belly m.source m.key = some v ∧ v.expire = m.expire) ∨
      P.belly m.source m.key = none ∧ ∃ t ∈ clock l, m.expire.le t)
  incarnation : ∀ a ∈ l, ∀ m, Received a m → m.key.incarnation ≤ P.node_incarnation m.source

theorem Seen.other (h : Seen l P) {P' : Flood} {e : Event}
    (hinc : ∀ s, P.node_incarnation s ≤ P'.node_incarnation s)
    (hnew : ∀ m, Received (e, .no_route) m → m.key.incarnation ≤ P'.node_incarnation m.source)
    (habsent : ∀ s key, P.belly s key = none → P'.belly s key = none)
    (hlater : ∀ s key v, P.belly s key = some v →
      (∃ v', P'.belly s key = some v' ∧ v'.expire = v.expire) ∨
        P'.belly s key = none ∧ ∃ t ∈ e.now, v.expire.le t) : Seen (l ++ [(e, .no_route)]) P' := by
  have hclock : ∀ t ∈ clock l, t ∈ clock (l ++ [(e, .no_route)]) := by
    intro t ht
    rw [clock_snoc]
    exact mem_append_left _ ht
  constructor
  · intro a ha m hacc
    rcases mem_append.mp ha with ha | ha
    · obtain ⟨hrec, hcases⟩ := h.entry a ha m hacc
      refine ⟨hrec, ?_⟩
      rcases hcases with ⟨v, hv, hexp⟩ | ⟨hnone, t, ht, hle⟩
      · rcases hlater _ _ v hv with ⟨v', hv', hexp'⟩ | ⟨hgone, t, ht, hle⟩
        · exact .inl ⟨v', hv', hexp'.trans hexp⟩
        · refine .inr ⟨hgone, t, ?_, hexp ▸ hle⟩
          rw [clock_snoc]
          exact mem_append_right _ (mem_toList.mpr ht)
      · exact .inr ⟨habsent _ _ hnone, t, hclock t ht, hle⟩
    · rw [mem_singleton.mp ha] at hacc
      exact absurd rfl hacc.2
  · intro a ha m hrec
    rcases mem_append.mp ha with ha | ha
    · exact (h.incarnation a ha m hrec).trans (hinc _)
    · rw [mem_singleton.mp ha] at hrec
      exact hnew m hrec

theorem received_disseminate {hop : Option ℕ} {env : DissemEnv} {m m' : PrioMsg} {r : Ret}
    (h : Received (.disseminate hop env m, r) m') : m' = m ∧ env.verified = true := by
  obtain ⟨src_link', env', heq, hver⟩ := h
  injection heq with _ henv hm
  exact ⟨hm.symm, henv ▸ hver⟩

theorem note_incarnation (P : Flood) {m : PrioMsg}
    (hinc : P.node_incarnation m.source ≤ m.key.incarnation) :
    (∀ s, P.node_incarnation s ≤ (P.note m).node_incarnation s) ∧
      (P.note m).node_incarnation m.source = m.key.incarnation := by
  refine ⟨fun s => ?_, update_self _ _ _⟩
  dsimp only [Flood.note]
  by_cases hs : s = m.source
  · rw [hs, update_self]
    exact hinc
  · rw [update_of_ne hs]

/-- **One call of `Priority_Flood_Disseminate`.** What it lets in was not let in before and is
of the highest incarnation seen. -/
theorem Seen.disseminate (h : Seen l P) {hop : Option ℕ} {env : DissemEnv} {m : PrioMsg}
    {c : Flood × Ret} (hinv : Inv cf cf.all P) (ho : Outcome cf hop env m P c)
    (hclock : (clock (l ++ [(.disseminate hop env m, c.2)])).Pairwise SpTime.le)
    (hheader : OneHeader (l ++ [(.disseminate hop env m, c.2)])) :
    Seen (l ++ [(.disseminate hop env m, c.2)]) c.1 ∧
      (c.2 ≠ .no_route → ∀ a ∈ l,
        (∀ m', Accepted a m' → ¬ (m'.source = m.source ∧ m'.key = m.key)) ∧
        ∀ m', Received a m' → m'.source = m.source → m'.key.incarnation ≤ m.key.incarnation) := by
  have hsame : ∀ s key v, P.belly s key = some v →
      ∃ v', P.belly s key = some v' ∧ v'.expire = v.expire := fun s key v hv => ⟨v, hv, rfl⟩
  cases ho with
  | refused hold =>
    refine ⟨h.other (fun _ => le_refl _) ?_ (fun _ _ => id)
      (fun s key v hv => .inl (hsame s key v hv)), fun hne => absurd rfl hne⟩
    intro m' hrec
    obtain ⟨rfl, hver⟩ := received_disseminate hrec
    rcases hold with hold | hold
    · rw [hver] at hold
      exact absurd hold (by simp)
    · exact hold.le
  | rejected hinc | exits _ hinc =>
    obtain ⟨hmono, hself⟩ := note_incarnation P hinc
    refine ⟨h.other hmono ?_ (fun _ _ => id)
      (fun s key v hv => .inl (hsame s key v hv)), fun hne => absurd rfl hne⟩
    intro m' hrec
    obtain ⟨rfl, -⟩ := received_disseminate hrec
    exact hself.ge
  | again hver hinc hv hmask hkeeps =>
    obtain ⟨hmono, hself⟩ := note_incarnation P hinc
    obtain ⟨-, -, he⟩ := hkeeps (hinv.note m)
    refine ⟨h.other ?_ ?_ he.absent ?_, fun hne => absurd rfl hne⟩
    · intro s
      rw [he.incarnation]
      exact hmono s
    · intro m' hrec
      obtain ⟨rfl, -⟩ := received_disseminate hrec
      rw [he.incarnation]
      exact hself.ge
    · intro s key v hv
      obtain ⟨v', hv', hl⟩ := he.later s key v hv
      exact .inl ⟨v', hv', hl.expire⟩
  | stored hver hinc hnew hlive hopen hret =>
    rename_i P' r
    dsimp only at hclock hheader ⊢
    obtain ⟨hmono, hself⟩ := note_incarnation P hinc
    have hrec : Received (.disseminate hop env m, r) m := ⟨hop, env, rfl, hver⟩
    -- an earlier copy would have expired
    have honce : ∀ a ∈ l, ∀ m', Accepted a m' → ¬ (m'.source = m.source ∧ m'.key = m.key) := by
      rintro a ha m' hacc ⟨hsource, hkey⟩
      obtain ⟨hrec', hcases⟩ := h.entry a ha m' hacc
      rw [hsource, hkey, hnew] at hcases
      rcases hcases with ⟨v, hv, -⟩ | ⟨-, t, ht, hle⟩
      · exact absurd hv (by simp)
      · obtain ⟨-, -, hexp, -⟩ := hheader a (mem_append_left _ ha) _
          (mem_append_right _ (mem_singleton_self _)) m' m hrec' hrec hsource hkey
        rw [clock_snoc, pairwise_append] at hclock
        have hnow : t.le env.now := hclock.2.2 t ht env.now (by simp [Event.now])
        rw [hexp] at hle
        exact hlive (SpTime.le_trans hle hnow)
    refine ⟨⟨?_, ?_⟩, fun _ a ha => ⟨honce a ha, fun m' hrec' hsource => ?_⟩⟩
    · intro a ha m' hacc
      rcases mem_append.mp ha with ha | ha
      · obtain ⟨hrec', hcases⟩ := h.entry a ha m' hacc
        have hne := honce a ha m' hacc
        refine ⟨hrec', ?_⟩
        rcases hcases with ⟨v, hv, hexp⟩ | ⟨hnone, t, ht, hle⟩
        · obtain ⟨v', hv', hl⟩ := hopen.later _ _ v hne hv
          exact .inl ⟨v', hv', hl.expire.trans hexp⟩
        · refine .inr ⟨hopen.absent _ _ hne hnone, t, ?_, hle⟩
          rw [clock_snoc]
          exact mem_append_left _ ht
      · rw [mem_singleton.mp ha] at hacc ⊢
        obtain ⟨⟨src_link', env', heq⟩, -⟩ := hacc
        injection heq with _ _ hm
        obtain ⟨v, hv, hent⟩ := hopen.entry
        rw [← hm]
        exact ⟨hrec, .inl ⟨v, hv, hent.expire⟩⟩
    · intro a ha m' hrec'
      rw [hopen.incarnation]
      rcases mem_append.mp ha with ha | ha
      · exact (h.incarnation a ha m' hrec').trans (hmono _)
      · rw [mem_singleton.mp ha] at hrec'
        obtain ⟨rfl, -⟩ := received_disseminate hrec'
        exact hself.ge
    · have hle := h.incarnation a ha m' hrec'
      rw [hsource] at hle
      exact hle.trans hinc

theorem Seen.step (h : Seen l P) {P' : Flood} {e : Event} (hinv : Inv cf cf.all P)
    (hstep : Step cf P e P') (hclock : (clock (l ++ [(e, reply cf P e)])).Pairwise SpTime.le)
    (hheader : OneHeader (l ++ [(e, reply cf P e)])) :
    Seen (l ++ [(e, reply cf P e)]) P' ∧ ∀ a ∈ l, ∀ m, Accepted (e, reply cf P e) m →
        (∀ m', Accepted a m' → ¬ (m'.source = m.source ∧ m'.key = m.key)) ∧
        ∀ m', Received a m' → m'.source = m.source → m'.key.incarnation ≤ m.key.incarnation := by
  obtain ⟨hrun, hok, rfl⟩ := hstep
  cases e with
  | disseminate hop env m =>
    obtain ⟨hseen, honce⟩ := h.disseminate hinv (disseminate_outcome hinv hrun hok) hclock hheader
    refine ⟨hseen, fun a ha m' hacc => ?_⟩
    obtain ⟨⟨src_link', env', heq⟩, hret⟩ := hacc
    injection heq with _ _ hm
    rw [← hm]
    exact honce hret a ha
  | send_one k mode rounds =>
    obtain ⟨-, -, he⟩ := send_one_keeps hok mode rounds hinv
    refine ⟨h.other (fun s => (congrFun he.incarnation s).ge) ?_ he.absent ?_,
      fun a _ m hacc => absurd rfl hacc.2⟩
    · rintro m ⟨_, _, heq, -⟩
      exact absurd heq (by simp)
    · intro s key v hv
      obtain ⟨v', hv', hl⟩ := he.later s key v hv
      exact .inl ⟨v', hv', hl.expire⟩
  | garbage_collect now order =>
    obtain ⟨-, -, hc⟩ := garbage_collect_spec hinv now order
    refine ⟨h.other (fun s => (congrFun hc.incarnation s).ge) ?_ hc.absent ?_,
      fun a _ m hacc => absurd rfl hacc.2⟩
    · rintro m ⟨_, _, heq, -⟩
      exact absurd heq (by simp)
    · intro s key v hv
      rcases hc.later s key v hv with ⟨v', hv', hl⟩ | ⟨hgone, hle⟩
      · exact .inl ⟨v', hv', hl.expire⟩
      · exact .inr ⟨hgone, now, rfl, hle⟩

theorem OneHeader.prefix {a : Event × Ret} (h : OneHeader (l ++ [a])) : OneHeader l :=
  fun b hb c hc => h b (mem_append_left _ hb) c (mem_append_left _ hc)

/-- **A message is let in once, and never after one of a higher incarnation.** -/
theorem let_in_once (h : Trace cf sec l P) (hclock : (clock l).Pairwise SpTime.le)
    (hheader : OneHeader l) : l.Pairwise (fun a b => ∀ m, Accepted b m →
      (∀ m', Accepted a m' → ¬ (m'.source = m.source ∧ m'.key = m.key)) ∧
      ∀ m', Received a m' → m'.source = m.source → m'.key.incarnation ≤ m.key.incarnation) := by
  have hboth : Seen l P ∧ l.Pairwise (fun a b => ∀ m, Accepted b m →
      (∀ m', Accepted a m' → ¬ (m'.source = m.source ∧ m'.key = m.key)) ∧
      ∀ m', Received a m' → m'.source = m.source →
        m'.key.incarnation ≤ m.key.incarnation) := by
    induction h with
    | start => exact ⟨⟨by simp, by simp⟩, List.Pairwise.nil⟩
    | step h hstep ih =>
      have hclock' := hclock
      rw [clock_snoc, pairwise_append] at hclock'
      obtain ⟨hseen, hpair⟩ := ih hclock'.1 hheader.prefix
      obtain ⟨hseen', hlast⟩ := hseen.step h.inv hstep hclock hheader
      refine ⟨hseen', pairwise_append.mpr ⟨hpair, pairwise_singleton _ _, ?_⟩⟩
      intro a ha b hb
      rw [mem_singleton.mp hb]
      exact hlast a ha
  exact hboth.2

end Traces

def collection : Event := .garbage_collect ⟨700, 0⟩ [(1, ⟨0, 1⟩)]

def late_call : Event := .disseminate none ⟨⟨701, 0⟩, true, 0, fun _ => []⟩ session_msg

def stored_one : Flood := handle isolated (init_priority_flooding isolated 0) session_call

def collected_one : Flood := handle isolated stored_one collection

def copies : List (Event × Ret) :=
  [(session_call, reply isolated (init_priority_flooding isolated 0) session_call),
    (collection, reply isolated stored_one collection),
    (late_call, reply isolated collected_one late_call)]

theorem copy_after_collection :
    reply isolated (init_priority_flooding isolated 0) session_call = .buff_ok ∧
      collected_one.belly 1 ⟨0, 1⟩ = none ∧ reply isolated collected_one late_call = .no_route := by
  have hfirst : reply isolated (init_priority_flooding isolated 0) session_call = .buff_ok := by
    decide
  refine ⟨hfirst, by decide, ?_⟩
  have hbelly : stored_one.belly = update (fun _ _ => none) 1
      (update (fun _ => none) ⟨0, 1⟩ (stored_one.belly 1 ⟨0, 1⟩)) := rfl
  have hsome : stored_one.belly 1 ⟨0, 1⟩ ≠ none := some_ne_none _
  have hsession : ∀ P m, m = session_msg → ∀ env, Event.Ok isolated P (.disseminate none env m) := by
    rintro P m rfl env
    exact ⟨fun k hk => absurd hk (by simp), by decide, by decide⟩
  have hs1 : Step isolated (init_priority_flooding isolated 0) session_call stored_one :=
    ⟨rfl, hsession _ _ rfl _, rfl⟩
  have hs2 : Step isolated stored_one collection collected_one := by
    refine ⟨by decide, ⟨by decide, fun a => ?_⟩, rfl⟩
    rw [hbelly, mem_singleton]
    constructor
    · rintro rfl
      rw [update_self, update_self]
      exact hsome
    · intro hne
      by_contra ha
      apply hne
      by_cases ha1 : a.1 = 1
      · rw [ha1, update_self, update_of_ne]
        exact fun ha2 => ha (Prod.ext ha1 ha2)
      · rw [update_of_ne ha1]
  have hs3 : Step isolated collected_one late_call (handle isolated collected_one late_call) :=
    ⟨by decide, hsession _ _ rfl _, rfl⟩
  have htrace : Trace isolated 0 copies (handle isolated collected_one late_call) :=
    ((Trace.start.step hs1).step hs2).step hs3
  have hone : ∀ a ∈ copies, ∀ m, Received a m → m = session_msg := by
    intro a ha m hm
    simp only [copies, mem_cons, not_mem_nil, or_false] at ha
    rcases ha with rfl | rfl | rfl
    · exact (received_disseminate hm).1
    · obtain ⟨_, _, heq, -⟩ := hm
      exact absurd heq (by simp [collection])
    · exact (received_disseminate hm).1
  have hheader : OneHeader copies := by
    intro a ha b hb m m' hm hm' _ _
    rw [hone a ha m hm, hone b hb m' hm']
    exact ⟨rfl, rfl, rfl, rfl⟩
  have hclock : (clock copies).Pairwise SpTime.le :=
    show ([⟨0, 0⟩, ⟨700, 0⟩, ⟨701, 0⟩] : List SpTime).Pairwise SpTime.le by decide
  have hpair := let_in_once htrace hclock hheader
  by_contra hret
  have hlast : Accepted (late_call, reply isolated collected_one late_call) session_msg :=
    ⟨⟨none, _, rfl⟩, hret⟩
  have hearlier : Accepted (session_call,
      reply isolated (init_priority_flooding isolated 0) session_call) session_msg :=
    ⟨⟨none, _, rfl⟩, by rw [hfirst]; decide⟩
  unfold copies at hpair
  rw [pairwise_cons] at hpair
  exact (hpair.1 _ (by simp) _ hlast).1 _ hearlier ⟨rfl, rfl⟩

/-! ## 3. Copies of a stored message -/

/-- The link over which the stored message came: that of the last call that let it in,
`none` for a session of the daemon. -/
def note_origin (o : ℕ → PrioKey → Option ℕ) (a : Event × Ret) : ℕ → PrioKey → Option ℕ :=
  match a with
  | (.disseminate src_link _ m, r) =>
    if r = .no_route then o
    else Function.update o m.source (Function.update (o m.source) m.key src_link)
  | _ => o

def origin (l : List (Event × Ret)) : ℕ → PrioKey → Option ℕ :=
  l.foldl note_origin (fun _ _ => none)

/-- A copy of a message that somebody still needs comes from a neighbour that is not on its
mask, is not the source, and is not the neighbour that the message came from. -/
def Echo (cf : PrioConf) (l : List (Event × Ret)) (P : Flood) (e : Event) : Prop :=
  ∃ k env m v m₀, e = .disseminate (some k) env m ∧ env.verified = true ∧
    P.node_incarnation m.source ≤ m.key.incarnation ∧ P.belly m.source m.key = some v ∧
    v.need_count ≠ 0 ∧ v.msg_scat = some m₀ ∧ cf.skips (origin l m.source m.key) m₀ k

def MsgStatus.Handled (flag : MsgStatus) : Prop :=
  flag = .recv_msg ∨ flag = .dropped_msg ∨ flag = .expired_msg ∨ flag = .on_link_msg ∨
    flag = .need_msg

def Masked (cf : PrioConf) (l : List (Event × Ret)) (P : Flood) : Prop :=
  ∀ s key v, P.belly s key = some v → v.need_count ≠ 0 →
    ∃ m₀, v.msg_scat = some m₀ ∧
      ∀ k, cf.nbr k → ((v.status k).flag = .not_in_mask ↔ cf.skips (origin l s key) m₀ k)

section Masked

variable {cf : PrioConf} {sec : ℕ} {l : List (Event × Ret)} {P P' : Flood} {e : Event}

theorem origin_snoc (l : List (Event × Ret)) (a : Event × Ret) :
    origin (l ++ [a]) = note_origin (origin l) a := by
  unfold origin
  rw [foldl_append]
  rfl

theorem origin_no_route (l : List (Event × Ret)) (e : Event) :
    origin (l ++ [(e, .no_route)]) = origin l := by
  rw [origin_snoc]
  unfold note_origin
  cases e with
  | disseminate hop env m => exact if_pos rfl
  | send_one k mode rounds => rfl
  | garbage_collect now order => rfl

theorem Masked.later (h : Masked cf l P) (hlater : ∀ s key v', P'.belly s key = some v' →
      ∃ v, P.belly s key = some v ∧ Later cf v v') : Masked cf (l ++ [(e, .no_route)]) P' := by
  intro s key v' hv' hn'
  obtain ⟨v, hv, hl⟩ := hlater s key v' hv'
  obtain ⟨hn, hmsg, hflag⟩ := hl.need hn'
  obtain ⟨m0, hm0, hmask⟩ := h s key v hv hn
  refine ⟨m0, hmsg.trans hm0, fun k hk => ?_⟩
  rw [origin_no_route, hflag k hk]
  exact hmask k hk

theorem Evolved.back (h : Evolved cf P P') {s : ℕ} {key : PrioKey} {v' : FloodValue}
    (hv' : P'.belly s key = some v') : ∃ v, P.belly s key = some v ∧ Later cf v v' := by
  cases hv : P.belly s key with
  | none => exact absurd ((h.absent s key hv).symm.trans hv') (by simp)
  | some v =>
    obtain ⟨w, hw, hl⟩ := h.later s key v hv
    rw [some.inj (hv'.symm.trans hw)]
    exact ⟨v, rfl, hl⟩

theorem Collected.back {now : SpTime} (h : Collected cf now P P') {s : ℕ} {key : PrioKey}
    {v' : FloodValue} (hv' : P'.belly s key = some v') :
    ∃ v, P.belly s key = some v ∧ Later cf v v' := by
  cases hv : P.belly s key with
  | none => exact absurd ((h.absent s key hv).symm.trans hv') (by simp)
  | some v =>
    rcases h.later s key v hv with ⟨w, hw, hl⟩ | ⟨hgone, -⟩
    · rw [some.inj (hv'.symm.trans hw)]
      exact ⟨v, rfl, hl⟩
    · exact absurd (hgone.symm.trans hv') (by simp)

theorem Masked.stored (h : Masked cf l P) {hop : Option ℕ} {env : DissemEnv} {m : PrioMsg}
    {r : Ret} (hret : r ≠ .no_route)
    (hopen : Opened cf hop env.mode m (P.note m) cf.degree P') :
    Masked cf (l ++ [(.disseminate hop env m, r)]) P' := by
  have horigin : origin (l ++ [(.disseminate hop env m, r)]) =
      update (origin l) m.source
        (update (origin l m.source) m.key hop) := by
    rw [origin_snoc]
    exact if_neg hret
  intro s key v' hv' hn'
  rw [horigin]
  by_cases hab : s = m.source ∧ key = m.key
  · obtain ⟨rfl, rfl⟩ := hab
    obtain ⟨v, hv, hent⟩ := hopen.entry
    rw [some.inj (hv'.symm.trans hv)] at hn' ⊢
    refine ⟨m, hent.msg_scat hn', fun k hk => ?_⟩
    rw [update_self, update_self]
    exact hent.flag hn' k hk.1 hk.2 hk.2
  · have hsame : update (origin l) m.source
        (update (origin l m.source) m.key hop) s key = origin l s key := by
      by_cases hs : s = m.source
      · rw [hs, update_self, update_of_ne (fun hkey => hab ⟨hs, hkey⟩)]
      · rw [update_of_ne hs]
    rw [hsame]
    cases hv : P.belly s key with
    | none => exact absurd ((hopen.absent s key hab hv).symm.trans hv') (by simp)
    | some v =>
      obtain ⟨w, hw, hl⟩ := hopen.later s key v hab hv
      rw [some.inj (hv'.symm.trans hw)] at hn' ⊢
      obtain ⟨hn, hmsg, hflag⟩ := hl.need hn'
      obtain ⟨m0, hm0, hmask⟩ := h s key v hv hn
      exact ⟨m0, hmsg.trans hm0, fun k hk => (hflag k hk).trans (hmask k hk)⟩

theorem Masked.handled_iff (h : Masked cf l P) (hinv : Inv cf cf.all P) {k : ℕ} (hk : cf.nbr k)
    {env : DissemEnv} {m : PrioMsg} (hver : env.verified = true)
    (hinc : P.node_incarnation m.source ≤ m.key.incarnation) {v : FloodValue}
    (hv : P.belly m.source m.key = some v) (hn : v.need_count ≠ 0) :
    (v.status k).flag.Handled ↔ ¬ Echo cf l P (.disseminate (some k) env m) := by
  obtain ⟨m0, hm0, hmask⟩ := h _ _ v hv hn
  have hset := (((hinv.entry _ _ v hv).2.flag hn k hk.1 hk.2)).2
  constructor
  · rintro hhandled ⟨k', env', m', v', m0', heq, -, -, hv', -, hm0', hskip⟩
    injection heq with hlink _ hm
    rw [← hm] at hv' hskip
    rw [← some.inj (hv.symm.trans hv')] at hm0'
    rw [← some.inj (hm0.symm.trans hm0'), ← some.inj hlink] at hskip
    have hflag := (hmask k hk).mpr hskip
    rw [hflag] at hhandled
    rcases hhandled with h0 | h0 | h0 | h0 | h0 <;> exact absurd h0 (by decide)
  · intro hecho
    have hne : (v.status k).flag ≠ .not_in_mask := by
      intro hflag
      exact hecho ⟨k, env, m, v, m0, rfl, hver, hinc, hv, hn, hm0, (hmask k hk).mp hflag⟩
    unfold MsgStatus.Handled
    cases hflag : (v.status k).flag with
    | unset => exact absurd hflag hset
    | not_in_mask => exact absurd hflag hne
    | need_msg => simp
    | recv_msg => simp
    | on_link_msg => simp
    | dropped_msg => simp
    | expired_msg => simp

theorem Masked.step (h : Masked cf l P) (hinv : Inv cf cf.all P) (hstep : Step cf P e P') :
    Masked cf (l ++ [(e, reply cf P e)]) P' ∧ (P'.halt = .running ↔ ¬ Echo cf l P e) := by
  obtain ⟨hrun, hok, rfl⟩ := hstep
  have hquiet : (∀ k env m v, e = .disseminate (some k) env m → env.verified = true →
      P.node_incarnation m.source ≤ m.key.incarnation → P.belly m.source m.key = some v →
      v.need_count = 0) → ¬ Echo cf l P e := by
    rintro hno ⟨k, env, m, v, m0, heq, hver, hinc, hv, hn, -⟩
    exact hn (hno k env m v heq hver hinc hv)
  cases e with
  | send_one k mode rounds =>
    obtain ⟨-, -, he⟩ := send_one_keeps hok mode rounds hinv
    refine ⟨h.later fun s key v' => he.back, fun _ => hquiet ?_, fun _ => he.halt.trans hrun⟩
    intro _ _ _ _ heq
    exact absurd heq (by simp)
  | garbage_collect now order =>
    obtain ⟨-, -, hc⟩ := garbage_collect_spec hinv now order
    refine ⟨h.later fun s key v' => hc.back, fun _ => hquiet ?_, fun _ => hc.halt.trans hrun⟩
    intro _ _ _ _ heq
    exact absurd heq (by simp)
  | disseminate hop env m =>
    have hout := disseminate_outcome hinv hrun hok
    have hmsg : ∀ k env' m', Event.disseminate hop env m = .disseminate (some k) env' m' →
        hop = some k ∧ env = env' ∧ m = m' := by
      intro k env' m' heq
      injection heq with hlink henv hm
      exact ⟨hlink, henv, hm⟩
    unfold handle reply
    dsimp only
    generalize priority_flood_disseminate cf hop env m P = c at hout ⊢
    cases hout with
    | refused hold =>
      refine ⟨h.later fun s key v hv => ⟨v, hv, Later.refl cf v⟩, fun _ => hquiet ?_,
        fun _ => hrun⟩
      intro k env' m' v heq hver hinc _
      obtain ⟨-, rfl, rfl⟩ := hmsg k env' m' heq
      rcases hold with hold | hold
      · rw [hver] at hold
        exact absurd hold (by simp)
      · omega
    | rejected hinc hnew =>
      refine ⟨h.later fun s key v hv => ⟨v, hv, Later.refl cf v⟩, fun _ => hquiet ?_,
        fun _ => hrun⟩
      intro k env' m' v heq _ _ hv
      obtain ⟨-, -, rfl⟩ := hmsg k env' m' heq
      exact absurd (hnew.symm.trans hv) (by simp)
    | stored hver hinc hnew hlive hopen hret =>
      refine ⟨h.stored hret hopen, fun _ => hquiet ?_, fun _ => hopen.halt.trans hrun⟩
      intro k env' m' v heq _ _ hv
      obtain ⟨-, -, rfl⟩ := hmsg k env' m' heq
      exact absurd (hnew.symm.trans hv) (by simp)
    | again hver hinc hv hmask hkeeps =>
      rename_i v P'
      obtain ⟨-, -, he⟩ := hkeeps (hinv.note m)
      refine ⟨h.later fun s key v' => he.back, fun _ => ?_, fun _ => he.halt.trans hrun⟩
      rintro ⟨k, env', m', v', m0, heq, hver', hinc', hv', hn, hm0, hskip⟩
      obtain ⟨rfl, rfl, rfl⟩ := hmsg k env' m' heq
      have hvv := some.inj (hv.symm.trans hv')
      rw [← hvv] at hn hm0
      obtain ⟨m1, hm1, hflags⟩ := h _ _ v hv hn
      rw [← some.inj (hm1.symm.trans hm0)] at hskip
      exact hmask k rfl hn ((hflags k (hok.1 k rfl)).mpr hskip)
    | exits hver hinc hv hk hn hmask =>
      rename_i v k
      obtain ⟨m0, hm0, hflags⟩ := h _ _ v hv hn
      refine ⟨h.later fun s key v hv => ⟨v, hv, Later.refl cf v⟩,
        fun hhalt => absurd hhalt (by simp), fun hecho => absurd ?_ hecho⟩
      exact ⟨k, env, m, v, m0, by rw [hk], hver, hinc, hv, hn, hm0,
        (hflags k (hok.1 k hk)).mp hmask⟩

theorem Trace.masked (h : Trace cf sec l P) : Masked cf l P := by
  induction h with
  | start => exact fun s key v hv => absurd hv (by simp [init_priority_flooding])
  | step h hstep ih => exact (ih.step h.inv hstep).1

theorem Trace.final (h : Trace cf sec l P) :
    P = l.foldl (fun P a => handle cf P a.1) (init_priority_flooding cf sec) := by
  induction h with
  | start => rfl
  | step h hstep ih =>
    obtain ⟨-, -, rfl⟩ := hstep
    rw [foldl_append, ← ih]
    rfl

theorem Trace.unique (h : Trace cf sec l P) (h' : Trace cf sec l P') : P = P' :=
  h.final.trans h'.final.symm

/-- **The daemon is still running after a trace exactly if no event of it was an echo**, and
then it has a case for a copy of a stored message exactly if the copy is no echo. -/
theorem runs_on_iff (h : Trace cf sec l P) : (P.halt = .running ↔
      ∀ l₁ a l₂ P₁, l = l₁ ++ a :: l₂ → Trace cf sec l₁ P₁ → ¬ Echo cf l₁ P₁ a.1) ∧
    ∀ k env m v, cf.nbr k → env.verified = true →
      P.node_incarnation m.source ≤ m.key.incarnation → P.belly m.source m.key = some v →
      v.need_count ≠ 0 →
      ((v.status k).flag.Handled ↔ ¬ Echo cf l P (.disseminate (some k) env m)) := by
  refine ⟨?_, fun k env m v hk hver hinc hv hn => h.masked.handled_iff h.inv hk hver hinc hv hn⟩
  induction h with
  | start => exact ⟨fun _ l₁ a l₂ _ heq => absurd heq (by simp), fun _ => rfl⟩
  | step h hstep ih =>
    rename_i l P P' e
    have hlast := (h.masked.step h.inv hstep).2
    constructor
    · intro hrun l₁ a l₂ P₁ heq htrace
      rcases eq_nil_or_concat l₂ with rfl | ⟨l2', b, rfl⟩
      · -- the last event
        obtain ⟨rfl, ha⟩ := append_inj' heq rfl
        rw [← head_eq_of_cons_eq ha, ← h.unique htrace]
        exact hlast.mp hrun
      · rw [concat_eq_append, ← cons_append, ← append_assoc] at heq
        exact ih.mp hstep.1 l₁ a l2' P₁ (append_inj' heq rfl).1 htrace
    · exact fun hno => hlast.mpr (hno l _ [] P rfl h)

end Masked

def two_links : PrioConf where
  my_id := 1
  degree := 2
  neighbor_ids := fun k => k + 1
  mp_neighbor_mask := fun k => 2 ^ k
  max_mess_stored := 500
  link_header_size := fun _ => 0
  ns_threshold := 20

def masked_msg : PrioMsg where
  source := 1
  dest := 5
  key := ⟨0, 1⟩
  priority := 1
  expire := ⟨600, 0⟩
  mask := 2
  elements := [16]
  elements_length := session_msg.elements_length

def masked_call : Event := .disseminate none ⟨⟨0, 0⟩, true, 0, fun _ => []⟩ masked_msg

def masked_copy : Event := .disseminate (some 2) ⟨⟨1, 0⟩, true, 0, fun _ => []⟩ masked_msg

def masked_end : Flood :=
  handle two_links (handle two_links (init_priority_flooding two_links 0) masked_call) masked_copy

theorem masked_trace :
    Trace two_links 0 [(masked_call, .buff_ok), (masked_copy, .no_route)] masked_end := by
  have hfirst : Trace two_links 0
      [(masked_call, reply two_links (init_priority_flooding two_links 0) masked_call)] _ :=
    Trace.start.step (e := masked_call)
      ⟨rfl, ⟨fun k hk => absurd hk (by simp), by decide, by decide⟩, rfl⟩
  have hsecond := hfirst.step (e := masked_copy)
    ⟨by decide, ⟨fun k hk => by rw [← some.inj hk]; decide, by decide, by decide⟩, rfl⟩
  have hreply : reply two_links (init_priority_flooding two_links 0) masked_call = .buff_ok := by
    decide
  have hreply' : reply two_links
      (handle two_links (init_priority_flooding two_links 0) masked_call) masked_copy =
        .no_route := by
    decide
  rw [hreply, hreply'] at hsecond
  exact hsecond

theorem copy_off_mask_exits :
    Trace two_links 0 [(masked_call, .buff_ok), (masked_copy, .no_route)] masked_end ∧
      masked_end.halt = .invalid_status :=
  ⟨masked_trace, by decide⟩

theorem copy_off_mask_echo :
    ¬ ∀ l₁ a l₂ P₁, [(masked_call, Ret.buff_ok), (masked_copy, Ret.no_route)] = l₁ ++ a :: l₂ →
      Trace two_links 0 l₁ P₁ → ¬ Echo two_links l₁ P₁ a.1 :=
  fun hno => absurd ((runs_on_iff masked_trace).1.mpr hno) (by decide)

end Spines.Priority
