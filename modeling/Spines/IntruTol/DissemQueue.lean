/-
The dissemination queue and the leaky bucket of an intrusion-tolerant link
(`daemon/intrusion_tol_udp.c`: `Fill_Bucket_IT`, `Assign_Resources_IT` and
`Request_Resources_IT`).

Dissemination methods ask for room on the link and are called back in turn, as long
as the window has room and the bucket is not empty. The queue is a linked list with a
sentinel and a tail pointer; `in_dissem_queue` says who is in it. What a callback does
to the link is in `Surroundings`: the bytes it sent and whether the window is full
afterwards. A callback sends one message and queues events; it never comes back to the
queue itself.

The arrays have one entry less than `Request_Resources_IT` admits. `indices` keeps
every index that the code uses, so that this can be seen.
-/
import Spines.IntruTol.Fragments
import Spines.Lib.Chain
import Spines.Lib.Run

set_option autoImplicit false

namespace Spines.IntruTol.Dissem

open Spines.Lib Function List

/-! ## 1. State -/

/-- `RESERVED_ROUTING_BITS` and `ROUTING_BITS_SHIFT` (`spines_lib.h`). -/
def RESERVED_ROUTING_BITS : ℕ := 0xf00

def ROUTING_BITS_SHIFT : ℕ := 8

/-- The size of `in_dissem_queue` and of `processed`. -/
def NUM_DISSEM : ℕ := RESERVED_ROUTING_BITS >>> ROUTING_BITS_SHIFT

def BUCKET_CAP : ℤ := 200000 + MAX_PACKET_SIZE

/-- `&itdata->dissem_head`, or what `new` hands out. -/
inductive Addr
  | dissem_head
  | cell (n : ℕ)
  deriving DecidableEq

/-- How a run of the loop of `Assign_Resources_IT` ended. -/
structure LoopEnd where
  full : Bool
  empty : Bool
  bucket : ℤ
  needed_tokens : Bool

/-- The part of `Int_Tol_Data` these functions work on, with the nodes of the queue
and `processed`. `indices` and `loops` are histories. -/
structure LinkQueue where
  next : Addr → Option Addr
  dissemination : Addr → ℕ
  /-- Handed out by `new`, and not given back by `dispose` yet. -/
  live : Addr → Bool
  dissem_tail : Addr
  in_dissem_queue : ℕ → ℕ
  processed : ℕ → ℕ
  bucket : ℤ
  needed_tokens : Bool
  /-- `Full_Link_IT`. -/
  full : Bool
  /-- `E_in_queue(Fill_Bucket_IT, lk->link_id, 0)`. -/
  fill_queued : Bool
  exited : Bool
  indices : List ℕ
  loops : List LoopEnd

/-- As `Create_Link` leaves it. -/
def LinkQueue.create : LinkQueue where
  next := fun _ => none
  dissemination := fun _ => NUM_DISSEM
  live := fun _ => false
  dissem_tail := .dissem_head
  in_dissem_queue := fun _ => 0
  processed := fun _ => 0
  bucket := 0
  needed_tokens := false
  full := false
  fill_queued := true
  exited := false
  indices := []
  loops := []

structure Surroundings where
  there : Bool
  /-- It is the best link to the node, and the control link is there where one is
  required. -/
  best : Bool
  ret : ℕ → ℕ
  /-- `Full_Link_IT` after the callback of each round. -/
  full : ℕ → Bool

/-! ## 2. The functions -/

/-- One round of the loop of `Assign_Resources_IT`, with `dfq` the first node. -/
def assign_round (ret : ℕ) (full : Bool) (dfq : Addr) (D : LinkQueue) : LinkQueue :=
  let x := D.dissemination dfq
  let D := { D with
    full := full
    bucket := D.bucket - ret
    processed := Function.update D.processed x 1
    next := Function.update D.next .dissem_head (D.next dfq)
    dissem_tail := if D.dissem_tail = dfq then .dissem_head else D.dissem_tail
    indices := D.indices ++ [x] }
  if ret = 0 then
    { D with
      in_dissem_queue := Function.update D.in_dissem_queue x 0
      live := Function.update D.live dfq false
      indices := D.indices ++ [x] }
  else
    { D with
      next := Function.update (Function.update D.next dfq none) D.dissem_tail (some dfq)
      dissem_tail := dfq }

def assign_loop (env : Surroundings) : ℕ → ℕ → LinkQueue → LinkQueue
  | 0, _, D => D
  | fuel + 1, n, D =>
    match D.next .dissem_head with
    | none => D
    | some dfq =>
      if D.full = false ∧ 0 < D.bucket then
        assign_loop env fuel (n + 1) (assign_round (env.ret n) (env.full n) dfq D)
      else D

def assign_fuel : ℕ := BUCKET_CAP.toNat + NUM_DISSEM

/-- `Assign_Resources_IT`. The time `last_filled` is left to `fill_bucket_it`. -/
def assign_resources_it (env : Surroundings) (D : LinkQueue) : LinkQueue :=
  if env.best = false then D
  else if D.needed_tokens = true ∧ D.bucket < MAX_PACKET_SIZE then D
  else
    let D := assign_loop env assign_fuel 0 { D with needed_tokens := false }
    let empty := (D.next .dissem_head).isNone
    let D := if D.full = false ∧ empty = false then { D with needed_tokens := true } else D
    let D := { D with loops := D.loops ++ [⟨D.full, empty, D.bucket, D.needed_tokens⟩] }
    if D.bucket < BUCKET_CAP ∧ D.fill_queued = false then { D with fill_queued := true } else D

/-- `tail->next = dfq; tail = dfq;` for a new node. -/
def LinkQueue.enqueue (a : Addr) (x : ℕ) (D : LinkQueue) : LinkQueue :=
  { D with
    in_dissem_queue := Function.update D.in_dissem_queue x 1
    live := Function.update D.live a true
    dissemination := Function.update D.dissemination a x
    next := Function.update (Function.update D.next a none) D.dissem_tail (some a)
    dissem_tail := a
    indices := D.indices ++ [x] }

/-- `Request_Resources_IT`; `a` is what `new` hands out. -/
def request_resources_it (dissem : ℤ) (a : Addr) (env : Surroundings) (D : LinkQueue) :
    LinkQueue × ℕ :=
  if dissem < 0 ∨ NUM_DISSEM < dissem then (D, 0)
  else if env.best = false then (D, 0)
  else
    let x := dissem.toNat
    let D := { D with indices := D.indices ++ [x] }
    let D := if D.in_dissem_queue x = 0 then D.enqueue a x else D
    if D.full = false then
      let D := { D with
        processed := Function.update D.processed x 0
        indices := D.indices ++ [x] }
      let D := assign_resources_it env D
      let D := { D with indices := D.indices ++ [x] }
      (D, if D.processed x = 1 then 1 else 0)
    else (D, 0)

/-- `(RATE_LIMIT_KBPS / 8000.0) * usec` in an `unsigned int`. -/
def to_add (usec : ℤ) : ℕ := ((250000 * usec).tdiv 8000 % 2 ^ 32).toNat

/-- `Fill_Bucket_IT`, `delta` microseconds after the bucket was last filled. The
event is no longer queued while it runs. -/
def fill_bucket_it (delta : ℤ) (env : Surroundings) (D : LinkQueue) : LinkQueue :=
  let D := { D with fill_queued := false }
  if env.there = false then D
  else if BUCKET_CAP < D.bucket then { D with exited := true }
  else if D.bucket = BUCKET_CAP then D
  else
    let D := { D with bucket := min (D.bucket + to_add delta) BUCKET_CAP, fill_queued := true }
    if D.needed_tokens = true ∧ 0 < D.bucket then assign_resources_it env D else D

/-! ## 3. Runs -/

inductive Event
  /-- `new` hands out cell `n` if it is called. -/
  | request (dissem : ℤ) (n : ℕ) (env : Surroundings)
  | assign (env : Surroundings)
  | fill (delta : ℤ) (env : Surroundings)
  | window (full : Bool)

def handle (D : LinkQueue) : Event → LinkQueue
  | .request dissem n env => (request_resources_it dissem (.cell n) env D).1
  | .assign env => assign_resources_it env D
  | .fill delta env => fill_bucket_it delta env D
  | .window full => { D with full := full }

/-- One event; `new` hands out a cell that is not in use. -/
def Step (D : LinkQueue) (e : Event) (D' : LinkQueue) : Prop :=
  D.exited = false ∧ (∀ dissem n env, e = .request dissem n env → D.live (.cell n) = false) ∧
    D' = handle D e

def Event.Below : Event → Prop
  | .request dissem _ _ => dissem ≠ NUM_DISSEM
  | _ => True

/-- What holds of a link whose queue is the list `l` of nodes. -/
structure Sound (D : LinkQueue) (l : List Addr) : Prop where
  chain : Chains D.next (fun _ : Unit => Addr.dissem_head) (fun _ => D.dissem_tail) (fun _ => l)
  live : ∀ a ∈ l, D.live a = true
  nodup : (l.map D.dissemination).Nodup
  range : ∀ a ∈ l, D.dissemination a < NUM_DISSEM
  flag : ∀ x, x < NUM_DISSEM → (x ∈ l.map D.dissemination → D.in_dissem_queue x = 1) ∧
    (x ∉ l.map D.dissemination → D.in_dissem_queue x = 0)
  indices : ∀ i ∈ D.indices, i < NUM_DISSEM
  bucket : D.bucket ≤ BUCKET_CAP
  running : D.exited = false
  loops : ∀ r ∈ D.loops, r.full = true ∨ r.empty = true ∨ r.bucket ≤ 0 ∧ r.needed_tokens = true

section Sound

variable {D D' : LinkQueue} {l xs : List Addr} {a b : Addr}

theorem update_unit {A : Type*} (f : Unit → A) (v : A) : update f () v = fun _ => v := by
  funext u
  exact update_self ..

theorem sound_create : Sound LinkQueue.create [] where
  chain := ⟨fun _ => rfl, fun _ => rfl, fun _ => nodup_singleton _,
    fun i j hij => absurd (Subsingleton.elim i j) hij⟩
  live := nofun
  nodup := nodup_nil
  range := nofun
  flag := fun _ _ => ⟨nofun, fun _ => rfl⟩
  indices := nofun
  bucket := by decide
  running := rfl
  loops := nofun

theorem Sound.first (h : Sound D l) :
    (l = [] ∧ D.next .dissem_head = none) ∨ ∃ b xs, l = b :: xs ∧ D.next .dissem_head = some b := by
  have hpath := h.chain.path ()
  cases l with
  | nil => exact .inl ⟨rfl, hpath⟩
  | cons b xs => exact .inr ⟨b, xs, rfl, hpath.1⟩

theorem Sound.ne_head (h : Sound D l) (ha : a ∈ l) : a ≠ .dissem_head := by
  rintro rfl
  exact (nodup_cons.mp (h.chain.nodup ())).1 ha

theorem Sound.length_le (h : Sound D l) : l.length ≤ NUM_DISSEM := by
  have hsub : l.map D.dissemination ⊆ List.range NUM_DISSEM := by
    intro x hx
    obtain ⟨a, ha, rfl⟩ := List.mem_map.mp hx
    exact mem_range.mpr (h.range a ha)
  have hle := (h.nodup.subperm hsub).length_le
  rwa [length_map, length_range] at hle

theorem Sound.pop (h : Sound D (b :: xs)) :
    Chains (update D.next .dissem_head (D.next b)) (fun _ : Unit => Addr.dissem_head)
      (fun _ => if D.dissem_tail = b then Addr.dissem_head else D.dissem_tail) (fun _ => xs) ∧
      b ∉ Addr.dissem_head :: xs := by
  have hpop := h.chain.pop (i := ()) rfl
  have hpopped := h.chain.popped (i := ()) rfl ()
  rw [update_unit, update_unit] at hpop
  rw [update_unit] at hpopped
  exact ⟨hpop, hpopped⟩

theorem Sound.round (h : Sound D (b :: xs)) (ret : ℕ) (full : Bool) :
    Sound (assign_round ret full b D) (if ret = 0 then xs else xs ++ [b]) := by
  obtain ⟨hpop, hnot⟩ := h.pop
  have hb := h.range b (mem_cons_self ..)
  have hnodup := h.nodup
  rw [map_cons, nodup_cons] at hnodup
  have hindices : ∀ i ∈ D.indices ++ [D.dissemination b], i < NUM_DISSEM := by
    intro i hi
    rcases mem_append.mp hi with hi | hi
    · exact h.indices i hi
    · rw [mem_singleton.mp hi]
      exact hb
  have hbucket : D.bucket - ret ≤ BUCKET_CAP := by
    have hle := h.bucket
    omega
  unfold assign_round
  dsimp only
  by_cases hret : ret = 0
  · rw [if_pos hret, if_pos hret]
    refine ⟨hpop, fun a ha => ?_, hnodup.2, fun a ha => h.range a (mem_cons_of_mem b ha),
      fun x hx => ?_, fun i hi => ?_, hbucket, h.running, h.loops⟩
    · have hne : a ≠ b := fun heq => hnot (mem_cons_of_mem _ (heq ▸ ha))
      dsimp only
      rw [update_of_ne hne]
      exact h.live a (mem_cons_of_mem b ha)
    · dsimp only
      by_cases hxb : x = D.dissemination b
      · rw [hxb, update_self]
        exact ⟨fun hmem => absurd hmem hnodup.1, fun _ => rfl⟩
      · have hflag := h.flag x hx
        rw [map_cons, mem_cons, or_iff_right hxb] at hflag
        rw [update_of_ne hxb]
        exact hflag
    · rcases mem_append.mp hi with hi | hi
      · exact hindices i hi
      · rw [mem_singleton.mp hi]
        exact hb
  · rw [if_neg hret, if_neg hret]
    have hpush := hpop.push () (a := b) (fun _ => hnot)
    rw [update_unit, update_unit] at hpush
    have hperm : ((xs ++ [b]).map D.dissemination).Perm ((b :: xs).map D.dissemination) :=
      (perm_append_singleton b xs).map _
    have hmem : ∀ a, a ∈ xs ++ [b] ↔ a ∈ b :: xs :=
      fun a => (perm_append_singleton b xs).mem_iff
    exact ⟨hpush, fun a ha => h.live a ((hmem a).mp ha), hperm.nodup_iff.mpr h.nodup,
      fun a ha => h.range a ((hmem a).mp ha), fun x hx => by rw [hperm.mem_iff]; exact h.flag x hx,
      hindices, hbucket, h.running, h.loops⟩

theorem Sound.loop (env : Surroundings) (fuel : ℕ) : ∀ (n : ℕ) {D : LinkQueue} {l : List Addr},
    Sound D l → D.bucket.toNat + l.length ≤ fuel →
    ∃ l', Sound (assign_loop env fuel n D) l' ∧
      ((assign_loop env fuel n D).full = true ∨
        (assign_loop env fuel n D).next .dissem_head = none ∨
        (assign_loop env fuel n D).bucket ≤ 0) := by
  induction fuel with
  | zero =>
    intro n D l h hle
    refine ⟨l, h, .inr (.inl ?_)⟩
    rcases h.first with ⟨-, hnone⟩ | ⟨b, xs, rfl, -⟩
    · exact hnone
    · rw [length_cons] at hle
      omega
  | succ fuel ih =>
    intro n D l h hle
    rw [assign_loop]
    rcases h.first with ⟨-, hnone⟩ | ⟨b, xs, rfl, hsome⟩
    · rw [hnone]
      exact ⟨l, h, .inr (.inl hnone)⟩
    · rw [hsome]
      dsimp only
      by_cases hgo : D.full = false ∧ 0 < D.bucket
      · rw [if_pos hgo]
        apply ih (n + 1) (h.round (env.ret n) (env.full n))
        rw [length_cons] at hle
        have hbucket : (assign_round (env.ret n) (env.full n) b D).bucket
            = D.bucket - env.ret n := by
          unfold assign_round
          dsimp only
          split_ifs <;> rfl
        rw [hbucket]
        by_cases hret : env.ret n = 0
        · rw [if_pos hret, hret]
          omega
        · rw [if_neg hret, length_append, length_singleton]
          omega
      · rw [if_neg hgo]
        refine ⟨b :: xs, h, ?_⟩
        by_cases hfull : D.full = true
        · exact .inl hfull
        · rw [Bool.not_eq_true] at hfull
          exact .inr (.inr (not_lt.mp fun hpos => hgo ⟨hfull, hpos⟩))

theorem Sound.assign (h : Sound D l) (env : Surroundings) :
    ∃ l', Sound (assign_resources_it env D) l' := by
  unfold assign_resources_it
  by_cases hbest : env.best = false
  · rw [if_pos hbest]
    exact ⟨l, h⟩
  rw [if_neg hbest]
  by_cases hearly : D.needed_tokens = true ∧ D.bucket < MAX_PACKET_SIZE
  · rw [if_pos hearly]
    exact ⟨l, h⟩
  rw [if_neg hearly]
  dsimp only
  have hstart : Sound { D with needed_tokens := false } l :=
    ⟨h.chain, h.live, h.nodup, h.range, h.flag, h.indices, h.bucket, h.running, h.loops⟩
  have hfuel : D.bucket.toNat + l.length ≤ assign_fuel := by
    have hlen := h.length_le
    have hcap := Int.toNat_le_toNat h.bucket
    rw [assign_fuel]
    omega
  obtain ⟨l', hl', hend⟩ := hstart.loop env assign_fuel 0 hfuel
  generalize assign_loop env assign_fuel 0 { D with needed_tokens := false } = D1 at hl' hend ⊢
  -- the flag is set when the bucket is the only thing in the way
  have hloops : ∀ (needed : Bool), (D1.full = false ∧ (D1.next .dissem_head).isNone = false →
        needed = true) →
      ∀ r ∈ D1.loops ++ [⟨D1.full, (D1.next .dissem_head).isNone, D1.bucket, needed⟩],
        r.full = true ∨ r.empty = true ∨ r.bucket ≤ 0 ∧ r.needed_tokens = true := by
    intro needed hneeded r hr
    rcases mem_append.mp hr with hr | hr
    · exact hl'.loops r hr
    · rw [mem_singleton.mp hr]
      dsimp only
      rcases hend with hfull | hnone | hbucket
      · exact .inl hfull
      · exact .inr (.inl (by rw [hnone]; rfl))
      · by_cases hfull : D1.full = true
        · exact .inl hfull
        by_cases hempty : (D1.next .dissem_head).isNone = true
        · exact .inr (.inl hempty)
        rw [Bool.not_eq_true] at hfull hempty
        exact .inr (.inr ⟨hbucket, hneeded ⟨hfull, hempty⟩⟩)
  have hkeep : ∀ (needed fill : Bool), (D1.full = false ∧ (D1.next .dissem_head).isNone = false →
        needed = true) →
      Sound { D1 with
        needed_tokens := needed
        loops := D1.loops ++ [⟨D1.full, (D1.next .dissem_head).isNone, D1.bucket, needed⟩]
        fill_queued := fill } l' := by
    intro needed fill hneeded
    exact ⟨hl'.chain, hl'.live, hl'.nodup, hl'.range, hl'.flag, hl'.indices, hl'.bucket, hl'.running,
      hloops needed hneeded⟩
  refine ⟨l', ?_⟩
  by_cases hwant : D1.full = false ∧ (D1.next .dissem_head).isNone = false
  · rw [if_pos hwant]
    dsimp only
    split_ifs
    · exact hkeep true true (fun _ => rfl)
    · exact hkeep true D1.fill_queued (fun _ => rfl)
  · rw [if_neg hwant]
    split_ifs
    · exact hkeep D1.needed_tokens true (fun hw => absurd hw hwant)
    · exact hkeep D1.needed_tokens D1.fill_queued (fun hw => absurd hw hwant)

theorem Sound.index (h : Sound D l) {x : ℕ} (hx : x < NUM_DISSEM) :
    Sound { D with indices := D.indices ++ [x] } l := by
  refine ⟨h.chain, h.live, h.nodup, h.range, h.flag, fun i hi => ?_, h.bucket, h.running, h.loops⟩
  rcases mem_append.mp hi with hi | hi
  · exact h.indices i hi
  · rw [mem_singleton.mp hi]
    exact hx

theorem Sound.enqueue (h : Sound D l) {n x : ℕ} (hx : x < NUM_DISSEM)
    (hout : D.in_dissem_queue x = 0) (hfree : D.live (.cell n) = false) :
    Sound (D.enqueue (.cell n) x) (l ++ [.cell n]) := by
  have hnot : Addr.cell n ∉ l := by
    intro hmem
    rw [h.live _ hmem] at hfree
    exact absurd hfree (by simp)
  have hnew : ∀ j : Unit, Addr.cell n ∉ Addr.dissem_head :: l := by
    intro _ hmem
    rcases mem_cons.mp hmem with heq | hmem
    · exact Addr.noConfusion heq
    · exact hnot hmem
  have hpush := h.chain.push () hnew
  rw [update_unit, update_unit] at hpush
  have hxnot : x ∉ l.map D.dissemination := by
    intro hmem
    rw [(h.flag x hx).1 hmem] at hout
    exact absurd hout (by simp)
  have hsame : l.map (update D.dissemination (.cell n) x) = l.map D.dissemination := by
    apply map_congr_left
    intro a ha
    apply update_of_ne
    rintro rfl
    exact hnot ha
  have hmap : (l ++ [Addr.cell n]).map (update D.dissemination (.cell n) x)
      = l.map D.dissemination ++ [x] := by
    rw [map_append, hsame, map_singleton, update_self]
  refine ⟨hpush, fun a ha => ?_, ?_, fun a ha => ?_, fun y hy => ?_, fun i hi => ?_, h.bucket,
    h.running, h.loops⟩
  · dsimp only [LinkQueue.enqueue]
    by_cases hcell : a = .cell n
    · rw [hcell, update_self]
    · rw [update_of_ne hcell]
      rcases mem_append.mp ha with ha | ha
      · exact h.live a ha
      · exact absurd (mem_singleton.mp ha) hcell
  · dsimp only [LinkQueue.enqueue]
    rw [hmap]
    apply List.Nodup.append h.nodup (nodup_singleton x)
    rw [disjoint_singleton]
    exact hxnot
  · dsimp only [LinkQueue.enqueue]
    by_cases hcell : a = .cell n
    · rw [hcell, update_self]
      exact hx
    · rw [update_of_ne hcell]
      rcases mem_append.mp ha with ha | ha
      · exact h.range a ha
      · exact absurd (mem_singleton.mp ha) hcell
  · dsimp only [LinkQueue.enqueue]
    rw [hmap]
    by_cases hxy : y = x
    · rw [hxy, update_self]
      have hmem := mem_append_right (l.map D.dissemination) (mem_singleton_self x)
      exact ⟨fun _ => rfl, fun hno => absurd hmem hno⟩
    · rw [update_of_ne hxy, mem_append, mem_singleton, or_iff_left hxy]
      exact h.flag y hy
  · rcases mem_append.mp hi with hi | hi
    · exact h.indices i hi
    · rw [mem_singleton.mp hi]
      exact hx

theorem Sound.request (h : Sound D l) {dissem : ℤ} (hne : dissem ≠ NUM_DISSEM) {n : ℕ}
    (hfree : D.live (.cell n) = false) (env : Surroundings) :
    ∃ l', Sound (request_resources_it dissem (.cell n) env D).1 l' := by
  unfold request_resources_it
  by_cases hinvalid : dissem < 0 ∨ (NUM_DISSEM : ℤ) < dissem
  · rw [if_pos hinvalid]
    exact ⟨l, h⟩
  rw [if_neg hinvalid]
  by_cases hbest : env.best = false
  · rw [if_pos hbest]
    exact ⟨l, h⟩
  rw [if_neg hbest]
  have hx : dissem.toNat < NUM_DISSEM := by omega
  dsimp only
  have hqueued : ∃ l1, Sound (if D.in_dissem_queue dissem.toNat = 0 then
      LinkQueue.enqueue (.cell n) dissem.toNat { D with indices := D.indices ++ [dissem.toNat] }
      else { D with indices := D.indices ++ [dissem.toNat] }) l1 := by
    by_cases hout : D.in_dissem_queue dissem.toNat = 0
    · rw [if_pos hout]
      exact ⟨_, (h.index hx).enqueue hx hout hfree⟩
    · rw [if_neg hout]
      exact ⟨l, h.index hx⟩
  obtain ⟨l1, h1⟩ := hqueued
  generalize (if D.in_dissem_queue dissem.toNat = 0 then
      LinkQueue.enqueue (.cell n) dissem.toNat { D with indices := D.indices ++ [dissem.toNat] }
      else { D with indices := D.indices ++ [dissem.toNat] }) = D1 at h1 ⊢
  by_cases hfull : D1.full = false
  · rw [if_pos hfull]
    have hi := h1.index hx
    have h2 : Sound { D1 with
        processed := update D1.processed dissem.toNat 0
        indices := D1.indices ++ [dissem.toNat] } l1 :=
      ⟨hi.chain, hi.live, hi.nodup, hi.range, hi.flag, hi.indices, hi.bucket, hi.running, hi.loops⟩
    obtain ⟨l2, h3⟩ := h2.assign env
    exact ⟨l2, h3.index hx⟩
  · rw [if_neg hfull]
    exact ⟨l1, h1⟩

theorem Sound.fill (h : Sound D l) (delta : ℤ) (env : Surroundings) :
    ∃ l', Sound (fill_bucket_it delta env D) l' := by
  unfold fill_bucket_it
  dsimp only
  have hstart : Sound { D with fill_queued := false } l :=
    ⟨h.chain, h.live, h.nodup, h.range, h.flag, h.indices, h.bucket, h.running, h.loops⟩
  by_cases hthere : env.there = false
  · rw [if_pos hthere]
    exact ⟨l, hstart⟩
  rw [if_neg hthere, if_neg (not_lt.mpr h.bucket)]
  by_cases hcap : D.bucket = BUCKET_CAP
  · rw [if_pos hcap]
    exact ⟨l, hstart⟩
  rw [if_neg hcap]
  have hfilled : Sound { D with
      bucket := min (D.bucket + to_add delta) BUCKET_CAP
      fill_queued := true } l :=
    ⟨h.chain, h.live, h.nodup, h.range, h.flag, h.indices, min_le_right _ _, h.running, h.loops⟩
  split_ifs
  · exact hfilled.assign env
  · exact ⟨l, hfilled⟩

end Sound

/-- **The queue stays in order** in every run in which no method asks for room whose
number is the size of the arrays. -/
theorem dissem_queue_sound {D : LinkQueue}
    (hrun : Run (fun D e D' => Step D e D' ∧ e.Below) LinkQueue.create D) :
    ∃ l, (∀ a ∈ l, ∃ n, a = .cell n) ∧ Cells D.next .dissem_head l
      ∧ D.dissem_tail = lastCell .dissem_head l ∧ (∀ x, x < NUM_DISSEM →
          (D.in_dissem_queue x = 1 ↔ (l.filter (fun a => D.dissemination a = x)).length = 1)
          ∧ (D.in_dissem_queue x = 0 ↔ (l.filter (fun a => D.dissemination a = x)).length = 0))
      ∧ (∀ i ∈ D.indices, i < NUM_DISSEM) ∧ D.bucket ≤ BUCKET_CAP ∧ D.exited = false
      ∧ ∀ r ∈ D.loops, r.full = true ∨ r.empty = true ∨ r.bucket ≤ 0 ∧ r.needed_tokens = true := by
  have hsound : ∃ l, Sound D l := by
    apply hrun.invariant (fun D => ∃ l, Sound D l) ⟨[], sound_create⟩
    rintro D1 e D2 ⟨l, h⟩ ⟨⟨-, hfree, rfl⟩, hbelow⟩
    cases e with
    | request dissem n env => exact h.request hbelow (hfree dissem n env rfl) env
    | assign env => exact h.assign env
    | fill delta env => exact h.fill delta env
    | window full =>
      exact ⟨l, h.chain, h.live, h.nodup, h.range, h.flag, h.indices, h.bucket, h.running, h.loops⟩
  obtain ⟨l, h⟩ := hsound
  refine ⟨l, fun a ha => ?_, h.chain.path (), h.chain.tail (), fun x hx => ?_, h.indices, h.bucket,
    h.running, h.loops⟩
  · cases a with
    | dissem_head => exact absurd rfl (h.ne_head ha)
    | cell n => exact ⟨n, rfl⟩
  · -- a method in the queue is there once
    have hcount : (l.filter (fun a => D.dissemination a = x)).length
        = (l.map D.dissemination).count x := by
      rw [count_eq_countP, countP_map, countP_eq_length_filter]
      rfl
    rw [hcount]
    by_cases hmem : x ∈ l.map D.dissemination
    · rw [count_eq_one_of_mem h.nodup hmem, (h.flag x hx).1 hmem]
      exact ⟨Iff.rfl, Iff.rfl⟩
    · rw [count_eq_zero_of_not_mem hmem, (h.flag x hx).2 hmem]
      exact ⟨Iff.rfl, Iff.rfl⟩

def one_message : Surroundings := ⟨true, true, fun n => if n = 0 then 1000 else 0, fun _ => true⟩

/-- The bucket is filled for a millisecond, then method `2` asks for room. -/
def one_request : LinkQueue :=
  handle (handle LinkQueue.create (.fill 1000 one_message)) (.request 2 0 one_message)

theorem dissem_queue_sound_requested :
    one_request.in_dissem_queue 2 = 1 ∧ one_request.bucket = 30250 ∧
      ∃ l, Cells one_request.next .dissem_head l ∧
        (l.filter (fun a => one_request.dissemination a = 2)).length = 1 := by
  have hrun : Run (fun D e D' => Step D e D' ∧ e.Below) LinkQueue.create one_request := by
    refine ((Run.refl _).tail (e := .fill 1000 one_message) ⟨⟨rfl, nofun, rfl⟩, trivial⟩).tail
      (e := .request 2 0 one_message) ⟨⟨by decide +kernel, fun _ _ _ he => ?_, rfl⟩,
        show (2 : ℤ) ≠ NUM_DISSEM by decide⟩
    obtain ⟨-, rfl, -⟩ := Event.request.inj he
    decide +kernel
  obtain ⟨l, -, hcells, -, hflag, -⟩ := dissem_queue_sound hrun
  have hset : one_request.in_dissem_queue 2 = 1 := by decide +kernel
  exact ⟨hset, by decide +kernel, l, hcells, (hflag 2 (by decide)).1.mp hset⟩

/-- **The check lets the size of the arrays through.** A method with that number is
entered behind the end of both arrays. -/
theorem request_beyond_arrays :
    ∃ D, Run Step LinkQueue.create D ∧ ∃ i ∈ D.indices, ¬ i < NUM_DISSEM := by
  refine ⟨handle LinkQueue.create (.request 15 0 one_message),
    (Run.refl _).tail (e := .request 15 0 one_message) ⟨rfl, fun _ _ _ _ => rfl, rfl⟩, 15, ?_,
    by decide⟩
  decide +kernel

end Spines.IntruTol.Dissem
