/-
Hello packets and the topology (`daemon/hello.c`, `daemon/network.c`, `daemon/link.c`).

`Process_hello_ping` creates on demand what it does not find: node, interface, leg and control link.
Each creation exits where its name is taken or its table is full, and the caller only checks a sender
whose address is known. So a packet ends the daemon unless it is `Admissible`: from another node,
from an address that is not the number of another interface, to an edge without a leg, and with room
for the link.
-/
import Spines.Hello.Links

set_option autoImplicit false

namespace Spines.Hello.Pings

open Spines.Lib Function Option

/-! ## 1. The topology -/

structure Interface where
  iid : ℕ
  net_addr : ℕ
  owner : ℕ

/-- `idle`: it is disconnected and its cost is -1. -/
structure Leg where
  idle : Bool
  control : Option ℕ

/-- The tables of the daemon. An edge may have a leg; a place of `Neighbor_Nodes` holds a node. -/
structure Tables where
  My_Address : ℕ
  All_Nodes : ℕ → Bool
  Known_Interfaces : ℕ → Option Interface
  Known_Addresses : ℕ → Option Interface
  Network_Legs : ℕ × ℕ → Option Leg
  edges : ℕ × ℕ → Option Bool
  Links : ℕ → Option (ℕ × ℕ)
  neighbor_id : ℕ → Option ℕ
  Neighbor_Nodes : ℕ → Option ℕ

/-- A daemon has interfaces and legs of nodes that it knows; no leg leads to itself, and a leg
without a control link is idle. -/
structure Tables.Valid (t : Tables) : Prop where
  self : t.All_Nodes t.My_Address = true
  interface : ∀ iid i, t.Known_Interfaces iid = some i → i.iid = iid ∧ t.All_Nodes i.owner = true
  address : ∀ a i, t.Known_Addresses a = some i → t.Known_Interfaces i.iid = some i
  leg : ∀ l r leg, t.Network_Legs (l, r) = some leg → ∃ li ri, t.Known_Interfaces l = some li ∧
    t.Known_Interfaces r = some ri ∧ li.owner = t.My_Address ∧ ri.owner ≠ t.My_Address
  idle : ∀ e leg, t.Network_Legs e = some leg → leg.control = none → leg.idle = true

/-- A packet, and what its handling finds: whether its sockets can be opened for an interface of
the daemon itself, and whether there is to be no control link yet (a stable delay, or a weak
signal). -/
structure Ping where
  local_iid : ℕ
  from_addr : ℕ
  sender_id : ℕ
  sockets : Bool
  waits : Bool

/-! ## 2. Creation -/

variable {t t' : Tables} {h : Ping}

def Create_Node (nid : ℕ) (t : Tables) : Option Tables :=
  if t.All_Nodes nid then none else some { t with All_Nodes := update t.All_Nodes nid true }

def Create_Interface (sockets : Bool) (nid iid interf_addr : ℕ) (t : Tables) :
    Option (Tables × Interface) :=
  if t.All_Nodes nid = false ∨ (t.Known_Interfaces iid).isSome ∨
      (t.Known_Addresses interf_addr).isSome ∨ (nid = t.My_Address ∧ sockets = false) then none
  else
    let interf : Interface := ⟨iid, interf_addr, nid⟩
    some ({ t with
      Known_Interfaces := update t.Known_Interfaces iid (some interf)
      Known_Addresses := update t.Known_Addresses interf_addr (some interf) }, interf)

/-- An edge that is not there is created; its nodes are known. -/
def Create_Network_Leg (local_iid remote_iid : ℕ) (t : Tables) : Option Tables := do
  let local_interf ← t.Known_Interfaces local_iid
  let remote_interf ← t.Known_Interfaces remote_iid
  if local_interf.owner ≠ t.My_Address ∨ remote_interf.owner = t.My_Address ∨
      (t.Network_Legs (local_iid, remote_iid)).isSome ∨
      t.edges (local_interf.owner, remote_interf.owner) = some true then none
  else some { t with
    Network_Legs := update t.Network_Legs (local_iid, remote_iid) (some ⟨true, none⟩)
    edges := update t.edges (local_interf.owner, remote_interf.owner) (some true) }

/-- `Create_Link` for a control link. -/
def Create_Link (e : ℕ × ℕ) (owner : ℕ) (leg : Leg) (t : Tables) : Option Tables :=
  if leg.control.isSome ∨ leg.idle = false then none
  else (Slots.first_free t.Links MAX_LINKS).bind fun linkid =>
    let t := { t with
      Network_Legs := update t.Network_Legs e (some ⟨false, some linkid⟩)
      Links := update t.Links linkid (some e) }
    match t.neighbor_id owner with
    | some _ => some t
    | none => (Slots.first_free t.Neighbor_Nodes (MAX_LINKS / MAX_LINKS_4_EDGE)).map fun k =>
      { t with
        neighbor_id := update t.neighbor_id owner (some k)
        Neighbor_Nodes := update t.Neighbor_Nodes k (some owner) }

/-- The leg and the link of `Process_hello_ping`. -/
def join (h : Ping) (remote : Interface) (t : Tables) : Option Tables := do
  let t ← if (t.Network_Legs (h.local_iid, remote.iid)).isSome then some t
    else Create_Network_Leg h.local_iid remote.iid t
  let leg ← t.Network_Legs (h.local_iid, remote.iid)
  if leg.control.isSome ∨ h.waits then some t
  else Create_Link (h.local_iid, remote.iid) remote.owner leg t

def find_node (nid : ℕ) (t : Tables) : Option Tables :=
  if t.All_Nodes nid then some t else Create_Node nid t

def Process_hello_ping (h : Ping) (remote_interf : Option Interface) (t : Tables) :
    Option Tables := do
  let t ← find_node h.sender_id t
  let (t, remote) ← match remote_interf with
    | some i => some (t, i)
    | none => Create_Interface h.sockets h.sender_id h.from_addr h.from_addr t
  join h remote t

/-- `Prot_process_scat` for a hello packet on a control socket. -/
def Prot_process_scat (h : Ping) (t : Tables) : Option Tables :=
  match t.Known_Addresses h.from_addr with
  | some i => if i.owner ≠ h.sender_id then some t else Process_hello_ping h (some i) t
  | none => Process_hello_ping h none t

/-! ## 3. What is created -/

def Room (owner : ℕ) (t : Tables) : Prop :=
  Slots.first_free t.Links MAX_LINKS ≠ none ∧
    (t.neighbor_id owner = none →
      Slots.first_free t.Neighbor_Nodes (MAX_LINKS / MAX_LINKS_4_EDGE) ≠ none)

/-- Another node, to which there is this leg or none, with room for the control link if it is
created. -/
def Joins (h : Ping) (iid : ℕ) (t : Tables) : Prop :=
  h.sender_id ≠ t.My_Address ∧
    (t.Network_Legs (h.local_iid, iid) = none → t.edges (t.My_Address, h.sender_id) ≠ some true) ∧
    (h.waits = false → (∀ leg ∈ t.Network_Legs (h.local_iid, iid), leg.control = none) →
      Room h.sender_id t)

def Admissible (h : Ping) (t : Tables) : Prop :=
  match t.Known_Addresses h.from_addr with
  | some i => i.owner ≠ h.sender_id ∨ Joins h i.iid t
  | none => t.Known_Interfaces h.from_addr = none ∧ Joins h h.from_addr t

def Local (h : Ping) (t : Tables) : Prop :=
  ∃ i, t.Known_Interfaces h.local_iid = some i ∧ i.owner = t.My_Address

theorem Tables.Valid.relink (hv : t.Valid) {e : ℕ × ℕ} {leg' : Leg}
    (hends : ∃ li ri, t.Known_Interfaces e.1 = some li ∧ t.Known_Interfaces e.2 = some ri ∧
      li.owner = t.My_Address ∧ ri.owner ≠ t.My_Address)
    (hlinked : leg'.control = none → leg'.idle = true)
    {edges : ℕ × ℕ → Option Bool} {Links : ℕ → Option (ℕ × ℕ)}
    {neighbor_id Neighbor_Nodes : ℕ → Option ℕ} :
    Tables.Valid { t with
      Network_Legs := update t.Network_Legs e (some leg')
      edges, Links, neighbor_id, Neighbor_Nodes } where
  self := hv.self
  interface := hv.interface
  address := hv.address
  leg l r l' hl' := by
    by_cases heq : (l, r) = e
    · subst heq
      exact hends
    · exact hv.leg l r l' (by simpa [update_of_ne heq] using hl')
  idle e' l' hl' hnone := by
    by_cases heq : e' = e
    · subst heq
      have hsame : leg' = l' := by simpa using hl'
      exact hsame ▸ hlinked (hsame ▸ hnone)
    · exact hv.idle e' l' (by simpa [update_of_ne heq] using hl') hnone

theorem Create_Link_spec (hv : t.Valid) {e : ℕ × ℕ} {owner : ℕ} {leg : Leg}
    (hleg : t.Network_Legs e = some leg) (hnone : leg.control = none) :
    (Create_Link e owner leg t = none ↔ ¬Room owner t) ∧
      ∀ t', Create_Link e owner leg t = some t' → t'.Valid := by
  have hready : ¬(leg.control.isSome ∨ leg.idle = false) := by simp [hnone, hv.idle e leg hleg hnone]
  rw [Create_Link, if_neg hready, Room]
  cases hfree : Slots.first_free t.Links MAX_LINKS with
  | none => simp
  | some linkid =>
    cases hnbr : t.neighbor_id owner with
    | some k =>
      simp only [bind_some, hnbr]
      refine ⟨by simp, fun t' ht' => ?_⟩
      obtain rfl := some.inj ht'
      exact hv.relink (hv.leg _ _ leg hleg) (by simp)
    | none =>
      simp only [bind_some, hnbr]
      cases Slots.first_free t.Neighbor_Nodes (MAX_LINKS / MAX_LINKS_4_EDGE) with
      | none => simp
      | some k =>
        refine ⟨by simp, fun t' ht' => ?_⟩
        obtain rfl := some.inj ht'
        exact hv.relink (hv.leg _ _ leg hleg) (by simp)

theorem join_spec (hv : t.Valid) (hlocal : Local h t) {remote : Interface}
    (hremote : t.Known_Interfaces remote.iid = some remote) (howner : remote.owner = h.sender_id) :
    (join h remote t = none ↔ ¬Joins h remote.iid t) ∧
      ∀ t', join h remote t = some t' → t'.Valid := by
  obtain ⟨li, hli, hmine⟩ := hlocal
  rw [join, Joins]
  cases hleg : t.Network_Legs (h.local_iid, remote.iid) with
  | some leg =>
    have hother : h.sender_id ≠ t.My_Address := by
      obtain ⟨_, ri, -, hri, -, hne⟩ := hv.leg _ _ leg hleg
      rw [hremote] at hri
      rwa [← howner, some.inj hri]
    simp only [isSome_some, if_true, bind_eq_bind, bind_some, hleg]
    by_cases hdone : leg.control.isSome ∨ h.waits
    · rw [if_pos hdone]
      refine ⟨?_, fun t' ht' => some.inj ht' ▸ hv⟩
      rcases hdone with hc | hw
      · obtain ⟨k, hk⟩ := isSome_iff_exists.mp hc
        simp [hother, hk]
      · simp [hother, hw]
    · simp only [not_or, Bool.not_eq_true, isSome_eq_false_iff, isNone_iff_eq_none] at hdone
      have hlink := @Create_Link_spec _ hv _ remote.owner _ hleg hdone.1
      rw [if_neg (by simp [hdone])]
      refine ⟨?_, hlink.2⟩
      rw [hlink.1, howner]
      simp [hother, hdone]
  | none =>
    simp only [isSome_none, Bool.false_eq_true, if_false, Create_Network_Leg, hli, hremote,
      hmine, howner, hleg, ne_eq, not_true, false_or, bind_eq_bind, bind_some]
    by_cases hbad : h.sender_id = t.My_Address ∨ t.edges (t.My_Address, h.sender_id) = some true
    · rw [if_pos hbad, bind_none]
      simp only [reduceCtorEq, false_implies, implies_true, and_true, true_iff]
      rintro ⟨hother, hedge, -⟩
      exact hbad.elim hother (hedge trivial)
    · rw [if_neg hbad, bind_some]
      rw [not_or] at hbad
      have hcreated : Tables.Valid { t with
          Network_Legs := update t.Network_Legs (h.local_iid, remote.iid) (some ⟨true, none⟩)
          edges := update t.edges (t.My_Address, h.sender_id) (some true) } :=
        hv.relink ⟨li, remote, hli, hremote, hmine, howner ▸ hbad.1⟩ (by simp)
      simp only [update_self, bind_some, isSome_none, Bool.false_eq_true, false_or]
      by_cases hwaits : h.waits = true
      · rw [if_pos hwaits]
        refine ⟨by simp [hbad, hwaits], fun t' ht' => some.inj ht' ▸ hcreated⟩
      · have hlink := @Create_Link_spec _ hcreated _ h.sender_id _ (update_self ..) rfl
        rw [if_neg hwaits]
        refine ⟨?_, hlink.2⟩
        rw [hlink.1, Room, Room]
        simp [hbad, hwaits]

theorem Prot_process_scat_spec (hv : t.Valid) (hlocal : Local h t) :
    (Prot_process_scat h t = none ↔ ¬Admissible h t) ∧
      ∀ t', Prot_process_scat h t = some t' → t'.Valid := by
  obtain ⟨u, hu, hnode⟩ : ∃ u, find_node h.sender_id t = some { t with All_Nodes := u } ∧
      u = update t.All_Nodes h.sender_id true := by
    refine ⟨_, ?_, rfl⟩
    rw [find_node]
    split
    · rename_i hknown
      rw [← hknown, update_eq_self]
    · rename_i hnew
      rw [Create_Node, if_neg hnew]
  have hknown : ∀ n, t.All_Nodes n = true → u n = true := by
    intro n hn
    rw [hnode, update_apply]
    split <;> simp [hn]
  have hu_valid : Tables.Valid { t with All_Nodes := u } :=
    ⟨hknown _ hv.self, fun iid i hi => (hv.interface iid i hi).imp_right (hknown _), hv.address,
      hv.leg, hv.idle⟩
  rw [Prot_process_scat, Admissible]
  cases haddr : t.Known_Addresses h.from_addr with
  | some i =>
    dsimp only
    split
    · rename_i hother
      exact ⟨by simp [hother], fun t' ht' => some.inj ht' ▸ hv⟩
    · rename_i howner
      have hjoin := join_spec hu_valid hlocal (hv.address _ i haddr) (not_not.mp howner)
      simp only [Process_hello_ping, hu, bind_eq_bind, bind_some]
      rw [hjoin.1, or_iff_right howner]
      exact ⟨Iff.rfl, hjoin.2⟩
  | none =>
    have hsender : u h.sender_id = true := by rw [hnode, update_self]
    simp only [Process_hello_ping, hu, bind_eq_bind, bind_some, Create_Interface,
      hsender, haddr, isSome_none, Bool.false_eq_true, reduceCtorEq, false_or]
    by_cases hfree : t.Known_Interfaces h.from_addr = none
    · have hkept : ∀ {iid i} (a : Option Interface), t.Known_Interfaces iid = some i →
          update t.Known_Interfaces h.from_addr a iid = some i := by
        intro iid i a hi
        rw [update_of_ne ?_, hi]
        rintro rfl
        rw [hfree] at hi
        cases hi
      have hcreated : Tables.Valid { t with
          All_Nodes := u
          Known_Interfaces := update t.Known_Interfaces h.from_addr
            (some ⟨h.from_addr, h.from_addr, h.sender_id⟩)
          Known_Addresses := update t.Known_Addresses h.from_addr
            (some ⟨h.from_addr, h.from_addr, h.sender_id⟩) } := by
        refine ⟨hknown _ hv.self, fun iid i hi => ?_, fun a i hi => ?_, fun l r leg hl => ?_, hv.idle⟩
        · dsimp only at hi ⊢
          by_cases heq : iid = h.from_addr
          · subst heq
            rw [update_self, some.injEq] at hi
            exact hi ▸ ⟨rfl, hsender⟩
          · rw [update_of_ne heq] at hi
            exact hu_valid.interface iid i hi
        · dsimp only at hi ⊢
          by_cases heq : a = h.from_addr
          · subst heq
            rw [update_self, some.injEq] at hi
            rw [← hi, update_self]
          · rw [update_of_ne heq] at hi
            exact hkept _ (hv.address a i hi)
        · obtain ⟨li, ri, hli, hri, hends⟩ := hv.leg l r leg hl
          exact ⟨li, ri, hkept _ hli, hkept _ hri, hends⟩
      obtain ⟨li, hli, hmine⟩ := hlocal
      have hjoin := @join_spec _ h hcreated ⟨li, hkept _ hli, hmine⟩
        ⟨h.from_addr, h.from_addr, h.sender_id⟩ (update_self ..) rfl
      simp only [hfree, isSome_none, Bool.false_eq_true, false_or, true_and]
      split
      · rename_i hself
        simp only [bind_none, reduceCtorEq, false_implies, implies_true, and_true, true_iff]
        exact fun hj => hj.1 hself.1
      · exact hjoin
    · simp [hfree, isSome_iff_ne_none]

/-! ## 4. Runs -/

inductive Event
  | ping (h : Ping)
  | change (t' : Tables)

def Along (P : Ping → Tables → Prop) : Tables → List Event → Prop
  | _, [] => True
  | t, .ping h :: es => P h t ∧ ∀ t', Prot_process_scat h t = some t' → Along P t' es
  | _, .change t' :: es => Along P t' es

/-- **No hello packet of a run ends the daemon exactly when all are admissible.** -/
theorem hello_survives_iff (hv : t.Valid) (es : List Event)
    (hchange : ∀ t', Event.change t' ∈ es → t'.Valid) (hlocal : Along Local t es) :
    Along (fun h t => Prot_process_scat h t ≠ none) t es ↔ Along Admissible t es := by
  induction es generalizing t with
  | nil => exact Iff.rfl
  | cons e es ih =>
    have hlater := fun t' ht' => hchange t' (List.mem_cons_of_mem e ht')
    cases e with
    | ping h =>
      obtain ⟨hexit, hnext⟩ := Prot_process_scat_spec hv hlocal.1
      exact and_congr (hexit.not.trans not_not)
        (forall_congr' fun t' => forall_congr' fun ht' => ih (hnext t' ht') hlater (hlocal.2 t' ht'))
    | change t' => exact ih (hchange t' List.mem_cons_self) hlater hlocal

def alone : Tables where
  My_Address := 1
  All_Nodes := (· == 1)
  Known_Interfaces := update (fun _ => none) 10 (some ⟨10, 10, 1⟩)
  Known_Addresses := update (fun _ => none) 10 (some ⟨10, 10, 1⟩)
  Network_Legs := fun _ => none
  edges := fun _ => none
  Links := fun _ => none
  neighbor_id := fun _ => none
  Neighbor_Nodes := fun _ => none

def neighbor_ping (from_addr : ℕ) : Ping := ⟨10, from_addr, 2, true, false⟩

theorem hello_survives_neighbor :
    Along (fun h t => Prot_process_scat h t ≠ none) alone [.ping (neighbor_ping 20)] ↔
      Along Admissible alone [.ping (neighbor_ping 20)] := by
  refine hello_survives_iff ⟨rfl, fun iid i hi => ?_, fun a i hi => ?_, by simp [alone],
    by simp [alone]⟩ _ (by simp) ⟨⟨_, rfl, rfl⟩, fun _ _ => trivial⟩
  · simp only [alone, update_apply] at hi
    split at hi <;> cases hi
    rename_i heq
    exact ⟨heq.symm, rfl⟩
  · simp only [alone, update_apply] at hi
    split at hi <;> cases hi
    rfl

/-- Node 2 is heard from a second address. -/
theorem hello_exits : ¬Along (fun h t => Prot_process_scat h t ≠ none) alone
    [.ping (neighbor_ping 20), .ping (neighbor_ping 21)] := by
  rintro ⟨hfirst, hrest⟩
  obtain ⟨t', ht'⟩ := ne_none_iff_exists'.mp hfirst
  have hexit : ((Prot_process_scat (neighbor_ping 20) alone).bind
      (Prot_process_scat (neighbor_ping 21))).isNone = true := by decide +kernel
  rw [ht', bind_some, isNone_iff_eq_none] at hexit
  exact (hrest t' ht').1 hexit

end Spines.Hello.Pings
