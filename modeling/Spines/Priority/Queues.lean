/-
The lists toward a neighbour.

What a daemon has queued toward one neighbour is, for every source, a partial
function from keys to the data of a node (`Table`). The lists, the counters and
the extreme priorities of `Prio_Link_Data` implement it (`Implements`): every
queued message has exactly one node, in the list of its priority, and the
counters count packets.

`Flood.queued` reads the table of a neighbour off the entries of `Belly`; the
second half of the file (`Inv`) says that the neighbours' lists implement these
tables, and that `need_count` counts the tables a message is in.
-/
import Spines.Priority.Flood
import Spines.Lib.Buckets
import Spines.Lib.Run

set_option autoImplicit false

namespace Spines.Priority

open Spines.Lib Spines.RelFlood Function Option List

/-! ## 1. Counting packets -/

theorem calculate_packets_pos (cf : PrioConf) (m : PrioMsg) (mode : ℕ) :
    1 ≤ calculate_packets_in_message cf m mode := by
  have hloop : ∀ (l : List ℕ) (c : ℕ × ℕ), 1 ≤ c.1 → c.1 + l.length < 2 ^ 16 →
      1 ≤ (l.foldl (count_packet (cf.link_header_size mode)) c).1 := by
    intro l
    induction l with
    | nil => intro c hc _; exact hc
    | cons len l ih =>
      intro c hc hlt
      rw [length_cons] at hlt
      rw [foldl_cons]
      have hround : 1 ≤ (count_packet (cf.link_header_size mode) c len).1 ∧
          (count_packet (cf.link_header_size mode) c len).1 ≤ c.1 + 1 := by
        unfold count_packet
        split
        · dsimp only
          rw [Nat.mod_eq_of_lt (by omega)]
          omega
        · dsimp only
          omega
      exact ih _ hround.1 (by omega)
  have hlen := m.elements_length
  unfold IntruTol.MAX_SCATTER_ELEMENTS at hlen
  exact hloop m.elements (1, 0) (le_refl 1) (by omega)

/-! ## 2. The extreme priorities -/

theorem lower_max_spec {n m : ℕ} {l : ℕ → List PqNode} (hm : m ≤ n)
    (h : ∀ p, m < p → p ≤ n → l p = []) : IsTop n l (lower_max l m) := by
  induction m with
  | zero => exact ⟨h, .inl rfl⟩
  | succ m ih =>
    rw [lower_max]
    split
    · rename_i hempty
      apply ih (by omega)
      intro p hp hn
      by_cases hpm : p = m + 1
      · rw [hpm, hempty]
      · exact h p (by omega) hn
    · rename_i hne
      exact ⟨h, .inr ⟨⟨by omega, hm⟩, hne⟩⟩

theorem raise_min_spec {n fuel j : ℕ} {l : ℕ → List PqNode} (hj : 1 ≤ j) (hf : j + fuel = n + 1)
    (h : ∀ p, 1 ≤ p → p < j → l p = []) : IsBottom n l (raise_min l fuel j) := by
  induction fuel generalizing j with
  | zero => exact ⟨h, .inl hf⟩
  | succ fuel ih =>
    rw [raise_min]
    split
    · rename_i hempty
      apply ih (by omega) (by omega)
      intro p hp hlt
      by_cases hpj : p = j
      · rw [hpj, hempty]
      · exact h p hp (by omega)
    · rename_i hne
      exact ⟨h, .inr ⟨⟨hj, by omega⟩, hne⟩⟩

/-! ## 3. Lists and tables -/

theorem set2_row {α : Type*} (t : ℕ → ℕ → α) (i j : ℕ) (x : α) :
    set2 t i j x i = update (t i) j x := by
  funext b
  by_cases hb : b = j
  · rw [hb, set2_self, update_self]
  · rw [set2_of_ne _ _ (fun h => hb h.2), update_of_ne hb]

theorem set2_row_of_ne {α : Type*} (t : ℕ → ℕ → α) {i a : ℕ} (j : ℕ) (x : α) (h : a ≠ i) :
    set2 t i j x a = t a := by
  funext b
  exact set2_of_ne _ _ (fun hab => h hab.1)

structure Queued where
  id : ℕ
  priority : ℕ
  timestamp : SpTime
  packets : ℕ

abbrev Table := ℕ → PrioKey → Option Queued

def Table.set (Q : Table) (s : ℕ) (key : PrioKey) (x : Option Queued) : Table :=
  Function.update Q s (Function.update (Q s) key x)

theorem Table.set_self (Q : Table) (s : ℕ) (key : PrioKey) (x : Option Queued) :
    Q.set s key x s key = x := by
  rw [Table.set, update_self, update_self]

theorem Table.set_of_ne (Q : Table) {s a : ℕ} {key b : PrioKey} (x : Option Queued)
    (h : ¬ (a = s ∧ b = key)) : Q.set s key x a b = Q a b := by
  unfold Table.set
  by_cases ha : a = s
  · rw [ha, update_self, update_of_ne (fun hb => h ⟨ha, hb⟩)]
  · rw [update_of_ne ha]

def Table.packets (Q : Table) (s : ℕ) (n : PqNode) : ℕ := (Q s n.entry).elim 0 Queued.packets

/-- The lists, the counters and the extreme priorities toward a neighbour implement
the table. -/
structure Implements (Q : Table) (ld : PrioLink) : Prop where
  node : ∀ s p, ∀ n ∈ ld.pq s p, ∃ x, Q s n.entry = some x ∧ x.id = n.id ∧ x.priority = p ∧
    x.timestamp = n.timestamp
  back : ∀ s key x, Q s key = some x → ∃ n ∈ ld.pq s x.priority, n.id = x.id ∧ n.entry = key
  ids : ∀ s p, ((ld.pq s p).map PqNode.id).Nodup
  fits : ∀ s key x, Q s key = some x → (1 ≤ s ∧ s ≤ MAX_NODES) ∧
    (1 ≤ x.priority ∧ x.priority ≤ MAX_PRIORITY) ∧ 1 ≤ x.packets
  count : ∀ s, ld.msg_count s = weight (Q.packets s) MAX_PRIORITY (ld.pq s)
  total : ld.total_msg = ∑ s ∈ Finset.Icc 1 MAX_NODES, ld.msg_count s
  top : ∀ s, IsTop MAX_PRIORITY (ld.pq s) (ld.max_pq s)
  bottom : ∀ s, IsBottom MAX_PRIORITY (ld.pq s) (ld.min_pq s)

section Implements

variable {Q : Table} {ld : PrioLink} (h : Implements Q ld)
include h

variable {s : ℕ} {n : PqNode} {key : PrioKey} {x : Queued}

theorem Implements.entry_priority {p : ℕ} (hn : n ∈ ld.pq s p) (hx : Q s key = some x)
    (hkey : n.entry = key) : p = x.priority ∧ n.id = x.id := by
  obtain ⟨y, hy, hid, hprio, -⟩ := h.node s p n hn
  rw [hkey, hx] at hy
  rw [some.inj hy]
  exact ⟨hprio.symm, hid.symm⟩

theorem Implements.packets_pos {p : ℕ} (hn : n ∈ ld.pq s p) : 1 ≤ Q.packets s n := by
  obtain ⟨x, hx, -⟩ := h.node s p n hn
  rw [Table.packets, hx]
  exact (h.fits s _ x hx).2.2

theorem Implements.other_entry {q : ℕ} (hx : Q s key = some x) (hn : n ∈ set2 ld.pq s x.priority
      ((ld.pq s x.priority).filter (fun n => n.id ≠ x.id)) s q) : n.entry ≠ key := by
  intro hkey
  rw [set2_row] at hn
  by_cases hq : q = x.priority
  · rw [hq, update_self, mem_filter] at hn
    have hid := (h.entry_priority hn.1 hx hkey).2
    simp [hid] at hn
  · rw [update_of_ne hq] at hn
    exact hq (h.entry_priority hn hx hkey).1

theorem Implements.weight_unlink (hx : Q s key = some x) :
    weight ((Q.set s key none).packets s) MAX_PRIORITY
        (set2 ld.pq s x.priority ((ld.pq s x.priority).filter (fun n => n.id ≠ x.id)) s) +
      x.packets = ld.msg_count s := by
  obtain ⟨n, hn, hid, hkey⟩ := h.back s key x hx
  have hfits := (h.fits s key x hx).2.1
  have hcongr : weight ((Q.set s key none).packets s) MAX_PRIORITY
      (set2 ld.pq s x.priority ((ld.pq s x.priority).filter (fun n => n.id ≠ x.id)) s) =
    weight (Q.packets s) MAX_PRIORITY
      (set2 ld.pq s x.priority ((ld.pq s x.priority).filter (fun n => n.id ≠ x.id)) s) := by
    apply weight_congr
    intro q _ _ a ha
    have hne := h.other_entry hx ha
    rw [Table.packets, Table.packets, Table.set_of_ne _ _ (fun h => hne h.2)]
  have hupdate := weight_update (Q.packets s) (ld.pq s)
    ((ld.pq s x.priority).filter (fun n => n.id ≠ x.id)) hfits
  have hperm := (perm_cons_filter PqNode.id (h.ids s x.priority) hn).map (Q.packets s)
  have hsum := hperm.sum_eq
  rw [map_cons, sum_cons, hid] at hsum
  have hpk : Q.packets s n = x.packets := by
    rw [Table.packets, hkey, hx]
    rfl
  rw [hcongr, set2_row, h.count s]
  omega

/-- The extreme priorities after a message was taken out. The loops of the source look
for them only when the node was the last of its list; otherwise the list is not
empty yet. -/
theorem Implements.extremes_unlink (hx : Q s key = some x) : IsTop MAX_PRIORITY
        (set2 ld.pq s x.priority ((ld.pq s x.priority).filter (fun n => n.id ≠ x.id)) s)
        ((ld.unlink s x.priority x.id x.packets).max_pq s) ∧ IsBottom MAX_PRIORITY
        (set2 ld.pq s x.priority ((ld.pq s x.priority).filter (fun n => n.id ≠ x.id)) s)
        ((ld.unlink s x.priority x.id x.packets).min_pq s) := by
  have hweight := h.weight_unlink hx
  have hprio := (h.fits s key x hx).2.1
  obtain ⟨hup, htop⟩ := h.top s
  obtain ⟨hdown, hbot⟩ := h.bottom s
  set l' := (ld.pq s x.priority).filter (fun n => n.id ≠ x.id) with hl'
  have hempty : ∀ q, ld.pq s q = [] → set2 ld.pq s x.priority l' s q = [] := by
    intro q hq
    rw [set2_row]
    by_cases hqp : q = x.priority
    · rw [hqp, update_self, hl', ← hqp, hq, filter_nil]
    · rw [update_of_ne hqp, hq]
  unfold PrioLink.unlink
  dsimp only
  by_cases hlast : (ld.pq s x.priority).getLast?.map PqNode.id = some x.id
  · have hself : update ld.msg_count s (ld.msg_count s - x.packets) s =
        ld.msg_count s - x.packets := update_self _ _ _
    rw [if_pos hlast]
    by_cases hpos : 0 < ld.msg_count s - x.packets
    · rw [if_pos (hself.symm ▸ hpos)]
      dsimp only
      rw [update_self, update_self]
      constructor
      · apply lower_max_spec
        · rcases htop with h0 | h0
          · omega
          · exact h0.1.2
        · exact fun q hq hn => hempty q (hup q hq hn)
      · apply raise_min_spec
        · rcases hbot with h0 | h0
          · omega
          · exact h0.1.1
        · rcases hbot with h0 | h0 <;> omega
        · exact fun q hq hn => hempty q (hdown q hq hn)
    · -- nothing is left of the source
      rw [if_neg (hself.symm ▸ hpos)]
      dsimp only
      rw [update_self, update_self]
      have hzero : ∀ q, 1 ≤ q → q ≤ MAX_PRIORITY → set2 ld.pq s x.priority l' s q = [] := by
        apply empty_of_weight_zero (w := (Q.set s key none).packets s)
        · intro q _ _ n hn
          have hne := h.other_entry hx hn
          have hmem : n ∈ ld.pq s q := by
            rw [set2_row] at hn
            by_cases hqp : q = x.priority
            · rw [hqp, update_self, hl', mem_filter] at hn
              rw [hqp]
              exact hn.1
            · rwa [update_of_ne hqp] at hn
          rw [Table.packets, Table.set_of_ne _ _ (fun h => hne h.2)]
          exact h.packets_pos hmem
        · omega
      exact ⟨IsTop.empty hzero, IsBottom.empty hzero⟩
  · rw [if_neg hlast]
    dsimp only
    obtain ⟨n, hn, -⟩ := h.back s key x hx
    have hne : ld.pq s x.priority ≠ [] := ne_nil_of_mem hn
    have hne' : l' ≠ [] := by
      -- the last node stays
      obtain ⟨y, hy⟩ := ne_none_iff_exists'.mp (mt List.getLast?_eq_none_iff.mp hne)
      rw [hy, map_some] at hlast
      apply ne_nil_of_mem (a := y)
      rw [hl', mem_filter]
      refine ⟨mem_of_getLast? hy, ?_⟩
      simp only [ne_eq, decide_eq_true_eq]
      exact fun hid => hlast (by rw [hid])
    rw [set2_row]
    exact ⟨IsTop.replace ⟨hup, htop⟩ hprio hne hne', IsBottom.replace ⟨hdown, hbot⟩ hprio hne hne'⟩

theorem Implements.unlink (hx : Q s key = some x) :
    Implements (Q.set s key none) (ld.unlink s x.priority x.id x.packets) := by
  have hfits := h.fits s key x hx
  have hweight := h.weight_unlink hx
  set l' := (ld.pq s x.priority).filter (fun n => n.id ≠ x.id) with hl'
  -- the fields that do not depend on whether the node was the last one
  have hpq : (ld.unlink s x.priority x.id x.packets).pq = set2 ld.pq s x.priority l' := by
    unfold PrioLink.unlink
    dsimp only
    split_ifs <;> rfl
  have hcount : (ld.unlink s x.priority x.id x.packets).msg_count =
      update ld.msg_count s (ld.msg_count s - x.packets) := by
    unfold PrioLink.unlink
    dsimp only
    split_ifs <;> rfl
  have htotal : (ld.unlink s x.priority x.id x.packets).total_msg = ld.total_msg - x.packets := by
    unfold PrioLink.unlink
    dsimp only
    split_ifs <;> rfl
  have hsub : ∀ a q, ∀ n ∈ set2 ld.pq s x.priority l' a q, n ∈ ld.pq a q := by
    intro a q n hn
    by_cases haq : a = s ∧ q = x.priority
    · rw [haq.1, haq.2, set2_self, hl', mem_filter] at hn
      rw [haq.1, haq.2]
      exact hn.1
    · rwa [set2_of_ne _ _ haq] at hn
  refine ⟨?_, ?_, ?_, ?_, ?_, ?_, ?_, ?_⟩
  · intro a q n hn
    rw [hpq] at hn
    obtain ⟨y, hy, hrest⟩ := h.node a q n (hsub a q n hn)
    refine ⟨y, ?_, hrest⟩
    rw [Table.set_of_ne _ _ ?_, hy]
    rintro ⟨rfl, hkey⟩
    exact h.other_entry hx hn hkey
  · intro a b y hy
    have hne : ¬ (a = s ∧ b = key) := by
      rintro ⟨rfl, rfl⟩
      rw [Table.set_self] at hy
      exact absurd hy (by simp)
    rw [Table.set_of_ne _ _ hne] at hy
    obtain ⟨n, hn, hid, hkey⟩ := h.back a b y hy
    refine ⟨n, ?_, hid, hkey⟩
    rw [hpq]
    by_cases hap : a = s ∧ y.priority = x.priority
    · rw [hap.1, hap.2, set2_self, hl', mem_filter]
      rw [hap.1, hap.2] at hn
      refine ⟨hn, ?_⟩
      -- two nodes with one address would be one node, with one key
      simp only [ne_eq, decide_eq_true_eq]
      intro hidx
      obtain ⟨n', hn', hid', hkey'⟩ := h.back s key x hx
      have hsame : n = n' := inj_on_of_nodup_map (h.ids s x.priority) hn hn'
        (hidx.trans hid'.symm)
      exact hne ⟨hap.1, by rw [← hkey, hsame, hkey']⟩
    · rwa [set2_of_ne _ _ hap]
  · intro a q
    rw [hpq]
    by_cases haq : a = s ∧ q = x.priority
    · rw [haq.1, haq.2, set2_self]
      exact (h.ids s x.priority).sublist (filter_sublist.map _)
    · rw [set2_of_ne _ _ haq]
      exact h.ids a q
  · intro a b y hy
    by_cases hab : a = s ∧ b = key
    · rw [hab.1, hab.2, Table.set_self] at hy
      exact absurd hy (by simp)
    · rw [Table.set_of_ne _ _ hab] at hy
      exact h.fits a b y hy
  · intro a
    rw [hcount, hpq]
    by_cases ha : a = s
    · rw [ha, update_self]
      omega
    · rw [update_of_ne ha, h.count a, set2_row_of_ne _ _ _ ha]
      apply weight_congr
      intro q _ _ n _
      rw [Table.packets, Table.packets, Table.set_of_ne _ _ (fun hab => ha hab.1)]
  · rw [hcount, htotal, h.total]
    have hsum := sum_update_add ld.msg_count (ld.msg_count s - x.packets) hfits.1
    omega
  · intro a
    rw [hpq]
    by_cases ha : a = s
    · rw [ha]
      exact (h.extremes_unlink hx).1
    · have hmax : (ld.unlink s x.priority x.id x.packets).max_pq a = ld.max_pq a := by
        unfold PrioLink.unlink
        dsimp only
        split_ifs <;> first | rfl | exact update_of_ne ha _ _
      rw [hmax, set2_row_of_ne _ _ _ ha]
      exact h.top a
  · intro a
    rw [hpq]
    by_cases ha : a = s
    · rw [ha]
      exact (h.extremes_unlink hx).2
    · have hmin : (ld.unlink s x.priority x.id x.packets).min_pq a = ld.min_pq a := by
        unfold PrioLink.unlink
        dsimp only
        split_ifs <;> first | rfl | exact update_of_ne ha _ _
      rw [hmin, set2_row_of_ne _ _ _ ha]
      exact h.bottom a

theorem Implements.append (hkey : Q s key = none)
    (hfits : (1 ≤ s ∧ s ≤ MAX_NODES) ∧ (1 ≤ x.priority ∧ x.priority ≤ MAX_PRIORITY) ∧
      1 ≤ x.packets) (hfresh : ∀ n ∈ ld.pq s x.priority, n.id ≠ x.id) :
    Implements (Q.set s key (some x))
      (ld.append s x.priority x.packets ⟨x.id, x.timestamp, key⟩) := by
  have hother : ∀ q, ∀ n ∈ ld.pq s q, n.entry ≠ key := by
    intro q n hn heq
    obtain ⟨y, hy, -⟩ := h.node s q n hn
    rw [heq, hkey] at hy
    exact absurd hy (by simp)
  have hsame : ∀ a q, ∀ n ∈ ld.pq a q, Q.set s key (some x) a n.entry = Q a n.entry := by
    intro a q n hn
    apply Table.set_of_ne
    rintro ⟨rfl, heq⟩
    exact hother q n hn heq
  refine ⟨?_, ?_, ?_, ?_, ?_, ?_, ?_, ?_⟩
  · intro a q n hn
    dsimp only [PrioLink.append] at hn
    have hold : n ∈ ld.pq a q → ∃ y, Q.set s key (some x) a n.entry = some y ∧ y.id = n.id ∧
        y.priority = q ∧ y.timestamp = n.timestamp := by
      intro hmem
      rw [hsame a q n hmem]
      exact h.node a q n hmem
    by_cases haq : a = s ∧ q = x.priority
    · rw [haq.1, haq.2, set2_self, mem_append] at hn
      rcases hn with hn | hn
      · exact hold (by rw [haq.1, haq.2]; exact hn)
      · rw [mem_singleton.mp hn, haq.1, haq.2]
        exact ⟨x, Table.set_self _ _ _ _, rfl, rfl, rfl⟩
    · rw [set2_of_ne _ _ haq] at hn
      exact hold hn
  · intro a b y hy
    dsimp only [PrioLink.append]
    by_cases hab : a = s ∧ b = key
    · rw [hab.1, hab.2, Table.set_self] at hy
      rw [hab.1, hab.2, ← some.inj hy, set2_self]
      exact ⟨⟨x.id, x.timestamp, key⟩, by simp, rfl, rfl⟩
    · rw [Table.set_of_ne _ _ hab] at hy
      obtain ⟨n, hn, hid, hb⟩ := h.back a b y hy
      refine ⟨n, ?_, hid, hb⟩
      by_cases hap : a = s ∧ y.priority = x.priority
      · rw [hap.1, hap.2, set2_self]
        rw [hap.1, hap.2] at hn
        exact mem_append_left _ hn
      · rwa [set2_of_ne _ _ hap]
  · intro a q
    dsimp only [PrioLink.append]
    by_cases haq : a = s ∧ q = x.priority
    · rw [haq.1, haq.2, set2_self, map_append, map_cons, map_nil]
      apply List.Nodup.append (h.ids s x.priority) (nodup_singleton _)
      rw [disjoint_singleton]
      intro hmem
      obtain ⟨n, hn, hid⟩ := List.mem_map.mp hmem
      exact hfresh n hn hid
    · rw [set2_of_ne _ _ haq]
      exact h.ids a q
  · intro a b y hy
    by_cases hab : a = s ∧ b = key
    · rw [hab.1, hab.2, Table.set_self] at hy
      rw [hab.1, ← some.inj hy]
      exact hfits
    · rw [Table.set_of_ne _ _ hab] at hy
      exact h.fits a b y hy
  · intro a
    dsimp only [PrioLink.append]
    have hcongr : weight ((Q.set s key (some x)).packets a) MAX_PRIORITY (ld.pq a) =
        ld.msg_count a := by
      rw [h.count a]
      apply weight_congr
      intro q _ _ n hn
      rw [Table.packets, Table.packets, hsame a q n hn]
    by_cases ha : a = s
    · rw [ha] at hcongr ⊢
      have hupdate := weight_update ((Q.set s key (some x)).packets s) (ld.pq s)
        (ld.pq s x.priority ++ [⟨x.id, x.timestamp, key⟩]) hfits.2.1
      have hnew : (Q.set s key (some x)).packets s ⟨x.id, x.timestamp, key⟩ = x.packets := by
        rw [Table.packets, Table.set_self]
        rfl
      rw [map_append, sum_append, map_cons, map_nil, sum_singleton,
        hnew] at hupdate
      rw [update_self, set2_row]
      omega
    · rw [update_of_ne ha, set2_row_of_ne _ _ _ ha, hcongr]
  · dsimp only [PrioLink.append]
    have hsum := sum_update_add ld.msg_count (ld.msg_count s + x.packets) hfits.1
    rw [h.total]
    omega
  · intro a
    dsimp only [PrioLink.append]
    by_cases ha : a = s
    · rw [ha, update_self, set2_row]
      exact (h.top s).push hfits.2.1 (by simp)
    · rw [update_of_ne ha, set2_row_of_ne _ _ _ ha]
      exact h.top a
  · intro a
    dsimp only [PrioLink.append]
    by_cases ha : a = s
    · rw [ha, update_self, set2_row]
      exact (h.bottom s).push hfits.2.1 (by simp)
    · rw [update_of_ne ha, set2_row_of_ne _ _ _ ha]
      exact h.bottom a

theorem Implements.schedule (urgent norm : List SendFair) (in_send_queue : ℕ → Bool) :
    Implements Q { ld with urgent := urgent, norm := norm, in_send_queue := in_send_queue } :=
  ⟨h.node, h.back, h.ids, h.fits, h.count, h.total, h.top, h.bottom⟩

end Implements

/-! ## 4. The tables of a daemon -/

/-- `Calculate_Packets_In_Message` for a stored message. -/
def FloodValue.packets (cf : PrioConf) (v : FloodValue) : ℕ :=
  match v.msg_scat with
  | none => 0
  | some m => calculate_packets_in_message cf m v.link_mode

/-- What neighbour `k` has of a stored message. -/
def FloodValue.view (cf : PrioConf) (v : FloodValue) (k : ℕ) : Option Queued :=
  (v.status k).ngbr.map (fun id => ⟨id, v.priority, v.expire, v.packets cf⟩)

def Flood.queued (cf : PrioConf) (P : Flood) (k : ℕ) : Table :=
  fun s key => (P.belly s key).bind (fun v => v.view cf k)

def FloodValue.waiting (cf : PrioConf) (v : FloodValue) : ℕ :=
  ∑ k ∈ Finset.Icc 1 cf.degree, if (v.status k).ngbr = none then 0 else 1

/-- A stored message whose first `done` neighbours have been dealt with. -/
structure EntryOk (cf : PrioConf) (done : ℕ) (v : FloodValue) : Prop where
  done_le : done ≤ cf.degree
  need : v.need_count = v.waiting cf + (cf.degree - done)
  rest : ∀ k, done < k → k ≤ cf.degree → (v.status k).ngbr = none
  flag : v.need_count ≠ 0 → ∀ k, 1 ≤ k → k ≤ done →
    ((v.status k).flag = .need_msg ↔ (v.status k).ngbr ≠ none) ∧ (v.status k).flag ≠ .unset
  alive : v.need_count ≠ 0 → v.ns ≠ none ∧ v.msg_scat ≠ none
  priority : 1 ≤ v.priority ∧ v.priority ≤ MAX_PRIORITY

/-- The invariant. `done` says how many neighbours have been dealt with: for all
messages all of them, except while a new message goes through the loop of
`Priority_Flood_Disseminate`. -/
structure Inv (cf : PrioConf) (done : ℕ → PrioKey → ℕ) (P : Flood) : Prop where
  entry : ∀ s key v, P.belly s key = some v →
    (1 ≤ s ∧ s ≤ MAX_NODES) ∧ EntryOk cf (done s key) v
  link : ∀ k, cf.nbr k → Implements (P.queued cf k) (P.edge k)
  ids : ∀ k, cf.nbr k → ∀ s key x, P.queued cf k s key = some x → x.id < P.next_id
  pool : ∀ a ∈ P.ns_pool, ∀ k, cf.nbr k → (a k).ngbr = none

def Freed (P : Flood) : Prop :=
  ∀ s key v, P.belly s key = some v → v.need_count = 0 → v.ns = none ∧ v.msg_scat = none

theorem Table.set_eq_self {Q : Table} {s : ℕ} {key : PrioKey} {x : Option Queued}
    (h : Q s key = x) : Q.set s key x = Q := by
  rw [Table.set, ← h, Function.update_eq_self, Function.update_eq_self]

theorem view_eq_none {cf : PrioConf} {v : FloodValue} {k : ℕ} :
    v.view cf k = none ↔ (v.status k).ngbr = none := by
  rw [FloodValue.view, map_eq_none_iff]

section Tables

variable (cf : PrioConf) (P : Flood) (s : ℕ) (key : PrioKey) (v : FloodValue) (k : ℕ)

theorem set_entry_self : (P.set_entry s key v).belly s key = some v := by
  simp [Flood.set_entry]

theorem set_entry_of_ne {a : ℕ} {b : PrioKey} (h : ¬ (a = s ∧ b = key)) :
    (P.set_entry s key v).belly a b = P.belly a b := by
  simp only [Flood.set_entry]
  by_cases ha : a = s
  · rw [ha, update_self, update_of_ne (fun hb => h ⟨ha, hb⟩)]
  · rw [update_of_ne ha]

theorem queued_set_entry :
    (P.set_entry s key v).queued cf k = (P.queued cf k).set s key (v.view cf k) := by
  funext a b
  by_cases hab : a = s ∧ b = key
  · rw [hab.1, hab.2, Table.set_self, Flood.queued, set_entry_self]
    rfl
  · rw [Table.set_of_ne _ _ hab, Flood.queued, Flood.queued, set_entry_of_ne P s key v hab]

theorem queued_of_belly {P' : Flood} (h : P'.belly = P.belly) : P'.queued cf k = P.queued cf k := by
  unfold Flood.queued
  rw [h]

theorem queued_eq {v : FloodValue} (h : P.belly s key = some v) :
    P.queued cf k s key = v.view cf k := by
  rw [Flood.queued, h]
  rfl

@[simp] theorem set_status_self {v : FloodValue} (h : v.ns ≠ none) (st : NeighborStatus) :
    (v.set_status k st).status k = st := by
  obtain ⟨a, ha⟩ := ne_none_iff_exists'.mp h
  simp [FloodValue.set_status, FloodValue.status, ha]

theorem set_status_of_ne {j : ℕ} (h : j ≠ k) (st : NeighborStatus) :
    (v.set_status k st).status j = v.status j := by
  unfold FloodValue.set_status FloodValue.status
  cases v.ns with
  | none => rfl
  | some a => exact update_of_ne h _ _

end Tables

/-! ## 5. What the operations keep -/

section Waiting

variable {cf : PrioConf} {v v' : FloodValue} {i : ℕ}

theorem waiting_change (v v' : FloodValue) (hi : cf.nbr i)
    (h : ∀ k, k ≠ i → ((v'.status k).ngbr = none ↔ (v.status k).ngbr = none)) :
    v'.waiting cf + (if (v.status i).ngbr = none then 0 else 1) =
      v.waiting cf + (if (v'.status i).ngbr = none then 0 else 1) := by
  have hfun : (fun k => if (v'.status k).ngbr = none then 0 else 1) =
      update (fun k => if (v.status k).ngbr = none then 0 else 1) i
        (if (v'.status i).ngbr = none then 0 else 1) := by
    funext k
    by_cases hk : k = i
    · rw [hk, update_self]
    · rw [update_of_ne hk]
      simp only [h k hk]
  unfold FloodValue.waiting
  rw [hfun]
  have hsum := sum_update_add (fun k => if (v.status k).ngbr = none then 0 else 1)
    (if (v'.status i).ngbr = none then 0 else 1) hi
  exact hsum

theorem waiting_congr (h : ∀ k, cf.nbr k → ((v'.status k).ngbr = none ↔ (v.status k).ngbr = none)) :
    v'.waiting cf = v.waiting cf := by
  apply Finset.sum_congr rfl
  intro k hk
  simp only [h k (Finset.mem_Icc.mp hk)]

theorem waiting_zero (h : v.waiting cf = 0) {k : ℕ} (hk : cf.nbr k) : (v.status k).ngbr = none := by
  have hle := Finset.single_le_sum (f := fun k => if (v.status k).ngbr = none then 0 else 1)
    (fun _ _ => Nat.zero_le _) (Finset.mem_Icc.mpr hk)
  have hzero : (if (v.status k).ngbr = none then 0 else 1) ≤ v.waiting cf := hle
  by_contra hne
  rw [if_neg hne] at hzero
  omega

end Waiting

section Entries

variable {cf : PrioConf} {done : ℕ} {v : FloodValue} (h : EntryOk cf done v)
include h

theorem EntryOk.idle (hn : v.need_count = 0) :
    done = cf.degree ∧ ∀ k, cf.nbr k → (v.status k).ngbr = none := by
  have hneed := h.need
  have hle := h.done_le
  exact ⟨by omega, fun k hk => waiting_zero (by omega) hk⟩

theorem EntryOk.clear {i : ℕ} (hi : cf.nbr i) (hn : v.need_count ≠ 0)
    (hq : (v.status i).ngbr ≠ none) {flag : MsgStatus} (hf : flag ≠ .need_msg ∧ flag ≠ .unset) :
    EntryOk cf done { v.set_status i ⟨flag, none⟩ with need_count := v.need_count - 1 } := by
  have hns := (h.alive hn).1
  have hother : ∀ k, k ≠ i → (v.set_status i ⟨flag, none⟩).status k = v.status k :=
    fun k hk => set_status_of_ne v i hk _
  have hself : (v.set_status i ⟨flag, none⟩).status i = ⟨flag, none⟩ := set_status_self i hns _
  have hdone : i ≤ done := by
    by_contra hlt
    exact hq (h.rest i (by omega) hi.2)
  have hwait : (v.set_status i ⟨flag, none⟩).waiting cf + 1 = v.waiting cf := by
    have hchange := waiting_change v (v.set_status i ⟨flag, none⟩) hi
      (fun k hk => by rw [hother k hk])
    rw [if_neg hq, hself] at hchange
    simpa using hchange
  have hneed := h.need
  refine ⟨h.done_le, ?_, ?_, ?_, ?_, h.priority⟩
  · change v.need_count - 1 = (v.set_status i ⟨flag, none⟩).waiting cf + (cf.degree - done)
    omega
  · intro k hk hkd
    change ((v.set_status i ⟨flag, none⟩).status k).ngbr = none
    rw [hother k (by omega)]
    exact h.rest k hk hkd
  · intro _ k hk hkd
    change (((v.set_status i ⟨flag, none⟩).status k).flag = .need_msg ↔
      ((v.set_status i ⟨flag, none⟩).status k).ngbr ≠ none) ∧
        ((v.set_status i ⟨flag, none⟩).status k).flag ≠ .unset
    by_cases hki : k = i
    · rw [hki, hself]
      exact ⟨by simp [hf.1], hf.2⟩
    · rw [hother k hki]
      exact h.flag hn k hk hkd
  · intro _
    refine ⟨?_, (h.alive hn).2⟩
    simpa [FloodValue.set_status] using hns

theorem EntryOk.next {st : NeighborStatus} (hk : done < cf.degree) {n : ℕ}
    (hst : st.flag ≠ .unset ∧ (st.flag = .need_msg ↔ st.ngbr ≠ none))
    (hn : n + (if st.ngbr = none then 1 else 0) = v.need_count) :
    EntryOk cf (done + 1) { v.set_status (done + 1) st with need_count := n } := by
  have hnbr : cf.nbr (done + 1) := ⟨by omega, hk⟩
  have hneed := h.need
  have hpos : v.need_count ≠ 0 := by omega
  have hns := (h.alive hpos).1
  have hother : ∀ k, k ≠ done + 1 → (v.set_status (done + 1) st).status k = v.status k :=
    fun k hk => set_status_of_ne v (done + 1) hk _
  have hself : (v.set_status (done + 1) st).status (done + 1) = st :=
    set_status_self (done + 1) hns _
  have hwait : (v.set_status (done + 1) st).waiting cf =
      v.waiting cf + (if st.ngbr = none then 0 else 1) := by
    have hchange := waiting_change v (v.set_status (done + 1) st) hnbr
      (fun k hk => by rw [hother k hk])
    rw [if_pos (h.rest (done + 1) (by omega) hk), hself] at hchange
    simpa using hchange
  refine ⟨hk, ?_, ?_, ?_, ?_, h.priority⟩
  · change n = (v.set_status (done + 1) st).waiting cf + (cf.degree - (done + 1))
    rw [hwait]
    split at hn <;> rename_i hnone <;> simp only [hnone, if_true, if_false] <;> omega
  · intro k hlt hkd
    change ((v.set_status (done + 1) st).status k).ngbr = none
    rw [hother k (by omega)]
    exact h.rest k (by omega) hkd
  · intro _ k hk1 hkd
    change (((v.set_status (done + 1) st).status k).flag = .need_msg ↔
      ((v.set_status (done + 1) st).status k).ngbr ≠ none) ∧
        ((v.set_status (done + 1) st).status k).flag ≠ .unset
    by_cases hkn : k = done + 1
    · rw [hkn, hself]
      exact ⟨hst.2, hst.1⟩
    · rw [hother k hkn]
      exact h.flag hpos k hk1 (by omega)
  · intro _
    refine ⟨?_, (h.alive hpos).2⟩
    simpa [FloodValue.set_status] using hns

end Entries

def set_done (done : ℕ → PrioKey → ℕ) (s : ℕ) (key : PrioKey) (d : ℕ) : ℕ → PrioKey → ℕ :=
  Function.update done s (Function.update (done s) key d)

theorem set_done_self (done : ℕ → PrioKey → ℕ) (s : ℕ) (key : PrioKey) (d : ℕ) :
    set_done done s key d s key = d := by
  rw [set_done, update_self, update_self]

theorem set_done_of_ne (done : ℕ → PrioKey → ℕ) {s a : ℕ} {key b : PrioKey} (d : ℕ)
    (h : ¬ (a = s ∧ b = key)) : set_done done s key d a b = done a b := by
  unfold set_done
  by_cases ha : a = s
  · rw [ha, update_self, update_of_ne (fun hb => h ⟨ha, hb⟩)]
  · rw [update_of_ne ha]

structure Later (cf : PrioConf) (v v' : FloodValue) : Prop where
  expire : v'.expire = v.expire
  priority : v'.priority = v.priority
  link_mode : v'.link_mode = v.link_mode
  need : v'.need_count ≠ 0 → v.need_count ≠ 0 ∧ v'.msg_scat = v.msg_scat ∧
    ∀ k, cf.nbr k → ((v'.status k).flag = .not_in_mask ↔ (v.status k).flag = .not_in_mask)

theorem Later.refl (cf : PrioConf) (v : FloodValue) : Later cf v v :=
  ⟨rfl, rfl, rfl, fun hn => ⟨hn, rfl, fun _ _ => Iff.rfl⟩⟩

theorem Later.trans {cf : PrioConf} {v v' v'' : FloodValue} (h : Later cf v v')
    (h' : Later cf v' v'') : Later cf v v'' := by
  refine ⟨h'.expire.trans h.expire, h'.priority.trans h.priority,
    h'.link_mode.trans h.link_mode, fun hn => ?_⟩
  obtain ⟨hn', hmsg', hmask'⟩ := h'.need hn
  obtain ⟨hn, hmsg, hmask⟩ := h.need hn'
  exact ⟨hn, hmsg'.trans hmsg, fun k hk => (hmask' k hk).trans (hmask k hk)⟩

structure Cleaned (cf : PrioConf) (l : List ℕ) (v v' : FloodValue) : Prop
    extends Later cf v v' where
  msg_scat : v'.msg_scat = v.msg_scat
  cleared : ∀ j, j ∈ l ∨ (v.status j).ngbr = none → (v'.status j).ngbr = none

theorem Cleaned.packets {cf : PrioConf} {l : List ℕ} {v v' : FloodValue}
    (h : Cleaned cf l v v') : v'.packets cf = v.packets cf := by
  unfold FloodValue.packets
  rw [h.msg_scat, h.link_mode]

section Operations

variable {cf : PrioConf} {done : ℕ → PrioKey → ℕ} {P : Flood} {s : ℕ} {key : PrioKey}
  {v : FloodValue}

variable {P' : Flood} {i k : ℕ} {flag : MsgStatus}

theorem Inv.entry_set (h : Inv cf done P) (hs : 1 ≤ s ∧ s ≤ MAX_NODES) {v' w : FloodValue} {a d : ℕ}
    {b : PrioKey} (hok : EntryOk cf d v') (hw : (P.set_entry s key v').belly a b = some w) :
    (1 ≤ a ∧ a ≤ MAX_NODES) ∧ EntryOk cf (set_done done s key d a b) w := by
  by_cases hab : a = s ∧ b = key
  · rw [hab.1, hab.2, set_entry_self] at hw
    rw [hab.1, hab.2, set_done_self, ← some.inj hw]
    exact ⟨hs, hok⟩
  · rw [set_entry_of_ne P s key v' hab] at hw
    rw [set_done_of_ne _ _ hab]
    exact h.entry a b w hw

theorem Inv.silent (h : Inv cf done P) (hs : 1 ≤ s ∧ s ≤ MAX_NODES) {v' : FloodValue} {d : ℕ}
    (hok : EntryOk cf d v') (hview : ∀ k, cf.nbr k → v'.view cf k = P.queued cf k s key)
    (hbelly : P'.belly = (P.set_entry s key v').belly) (hedge : P'.edge = P.edge)
    (hid : P'.next_id = P.next_id) (hpool : ∀ a ∈ P'.ns_pool, ∀ k, cf.nbr k → (a k).ngbr = none) :
    Inv cf (set_done done s key d) P' := by
  have hqueued : ∀ k, cf.nbr k → P'.queued cf k = P.queued cf k := by
    intro k hk
    rw [queued_of_belly cf _ k hbelly, queued_set_entry, Table.set_eq_self (hview k hk).symm]
  refine ⟨fun a b w hw => ?_, fun k hk => ?_, fun k hk => ?_, hpool⟩
  · exact h.entry_set hs hok (hbelly ▸ hw)
  · rw [hqueued k hk, hedge]
    exact h.link k hk
  · rw [hqueued k hk, hid]
    exact h.ids k hk

theorem Inv.schedule (h : Inv cf done P) (k : ℕ) {f : PrioLink → PrioLink}
    (hf : ∀ ld, ∃ urgent norm in_send_queue,
      f ld = { ld with urgent := urgent, norm := norm, in_send_queue := in_send_queue }) :
    Inv cf done (P.on_edge k f) := by
  refine ⟨h.entry, fun j hj => ?_, h.ids, h.pool⟩
  have hlink := h.link j hj
  have hqueued : (P.on_edge k f).queued cf j = P.queued cf j := queued_of_belly cf P j rfl
  rw [hqueued]
  dsimp only [Flood.on_edge]
  by_cases hjk : j = k
  · obtain ⟨urgent, norm, q, heq⟩ := hf (P.edge k)
    rw [hjk, update_self, heq]
    rw [hjk] at hlink
    exact hlink.schedule urgent norm q
  · rw [update_of_ne hjk]
    exact hlink

theorem Inv.of_eq (h : Inv cf done P) (hbelly : P'.belly = P.belly) (hedge : P'.edge = P.edge)
    (hpool : P'.ns_pool = P.ns_pool) (hid : P'.next_id = P.next_id) : Inv cf done P' := by
  refine ⟨by rw [hbelly]; exact h.entry, fun k hk => ?_, fun k hk => ?_, by rw [hpool]; exact h.pool⟩
  · rw [queued_of_belly cf P k hbelly, hedge]
    exact h.link k hk
  · rw [queued_of_belly cf P k hbelly, hid]
    exact h.ids k hk

theorem set_done_eq_self (done : ℕ → PrioKey → ℕ) (s : ℕ) (key : PrioKey) :
    set_done done s key (done s key) = done := by
  rw [set_done, Function.update_eq_self, Function.update_eq_self]

theorem Inv.release (h : Inv cf done P) : Inv cf done (release cf s key P) := by
  unfold Priority.release
  cases hv : P.belly s key with
  | none => exact h
  | some v =>
    dsimp only
    split
    · rename_i hn
      obtain ⟨hs, hok⟩ := h.entry s key v hv
      obtain ⟨hdone, hidle⟩ := hok.idle hn
      have hok' : EntryOk cf (done s key) { v with ns := none, msg_scat := none } := by
        refine ⟨hok.done_le, ?_, fun _ _ _ => rfl, fun hne => absurd hn hne,
          fun hne => absurd hn hne, hok.priority⟩
        have hwait : FloodValue.waiting cf { v with ns := none, msg_scat := none } =
            v.waiting cf := waiting_congr (fun k hk =>
            ⟨fun _ => hidle k hk, fun _ => rfl⟩)
        rw [hwait]
        exact hok.need
      rw [← set_done_eq_self done s key]
      refine h.silent hs hok' (fun k hk => ?_) rfl rfl rfl (fun a ha k hk => ?_)
      · rw [queued_eq cf P s key k hv, view_eq_none.mpr (hidle k hk)]
        rfl
      · dsimp only at ha
        cases hns : v.ns with
        | none =>
          rw [hns] at ha
          exact h.pool a ha k hk
        | some a0 =>
          -- the array goes back to the pool without an address in it
          rw [hns] at ha
          dsimp only at ha
          have hcases : a = a0 ∨ a ∈ P.ns_pool := by
            split at ha
            · exact mem_cons.mp ha
            · exact .inr ha
          rcases hcases with rfl | ha
          · have hk' := hidle k hk
            rwa [FloodValue.status, hns] at hk'
          · exact h.pool a ha k hk
    · exact h

theorem Inv.loud (h : Inv cf done P) (hs : 1 ≤ s ∧ s ≤ MAX_NODES) {v' : FloodValue} {d : ℕ}
    (hok : EntryOk cf d v') (hview : ∀ k, cf.nbr k → k ≠ i → v'.view cf k = P.queued cf k s key)
    {ld : PrioLink} (hlink : cf.nbr i → Implements ((P.queued cf i).set s key (v'.view cf i)) ld)
    (hbelly : P'.belly = (P.set_entry s key v').belly)
    (hedge : P'.edge = update P.edge i ld) (hpool : P'.ns_pool = P.ns_pool)
    (hid : P.next_id ≤ P'.next_id) (hnew : ∀ x, v'.view cf i = some x → x.id < P'.next_id) :
    Inv cf (set_done done s key d) P' := by
  have hqueued : ∀ k, cf.nbr k → k ≠ i → P'.queued cf k = P.queued cf k := by
    intro k hk hki
    rw [queued_of_belly cf _ k hbelly, queued_set_entry, Table.set_eq_self (hview k hk hki).symm]
  have hqueued_i : P'.queued cf i = (P.queued cf i).set s key (v'.view cf i) := by
    rw [queued_of_belly cf _ i hbelly, queued_set_entry]
  refine ⟨fun a b w hw => ?_, fun k hk => ?_, fun k hk a b x hx => ?_, by rw [hpool]; exact h.pool⟩
  · exact h.entry_set hs hok (hbelly ▸ hw)
  · rw [hedge]
    by_cases hki : k = i
    · subst hki
      rw [hqueued_i, update_self]
      exact hlink hk
    · rw [hqueued k hk hki, update_of_ne hki]
      exact h.link k hk
  · by_cases hki : k = i
    · subst hki
      rw [hqueued_i] at hx
      by_cases hab : a = s ∧ b = key
      · rw [hab.1, hab.2, Table.set_self] at hx
        exact hnew x hx
      · rw [Table.set_of_ne _ _ hab] at hx
        exact (h.ids k hk a b x hx).trans_le hid
    · rw [hqueued k hk hki] at hx
      exact (h.ids k hk a b x hx).trans_le hid

/-- The flags that `Cleanup_prio_flood_ds` is called with. -/
structure MsgStatus.Done (flag : MsgStatus) : Prop where
  need : flag ≠ .need_msg
  set : flag ≠ .unset
  mask : flag ≠ .not_in_mask

theorem MsgStatus.expired_done : MsgStatus.expired_msg.Done := ⟨by decide, by decide, by decide⟩

theorem MsgStatus.recv_done : MsgStatus.recv_msg.Done := ⟨by decide, by decide, by decide⟩

theorem MsgStatus.on_link_done : MsgStatus.on_link_msg.Done := ⟨by decide, by decide, by decide⟩

theorem MsgStatus.dropped_done : MsgStatus.dropped_msg.Done := ⟨by decide, by decide, by decide⟩

theorem Inv.cleanup_ngbr (h : Inv cf done P) (hv : P.belly s key = some v) (hi : cf.nbr i)
    (hf : flag.Done) :
    Inv cf done (cleanup_ngbr s key (v.packets cf) flag P i) ∧
      ∃ v', (cleanup_ngbr s key (v.packets cf) flag P i).belly s key = some v' ∧
        Cleaned cf [i] v v' := by
  obtain ⟨hs, hok⟩ := h.entry s key v hv
  have hsame : (v.status i).ngbr = none → Cleaned cf [i] v v := by
    intro hi
    refine ⟨Later.refl cf v, rfl, fun j hj => ?_⟩
    rcases hj with hj | hj
    · rwa [mem_singleton.mp hj]
    · exact hj
  unfold Priority.cleanup_ngbr
  rw [hv]
  dsimp only
  split
  · rename_i hn
    exact ⟨h, v, hv, hsame ((hok.idle hn).2 i hi)⟩
  rename_i hn
  cases hq : (v.status i).ngbr with
  | none => exact ⟨h, v, hv, hsame hq⟩
  | some id =>
    have hview : P.queued cf i s key = some ⟨id, v.priority, v.expire, v.packets cf⟩ := by
      rw [queued_eq cf P s key i hv, FloodValue.view, hq]
      rfl
    have hne : (v.status i).ngbr ≠ none := by
      rw [hq]
      simp
    set v' : FloodValue :=
      { v.set_status i ⟨flag, none⟩ with need_count := v.need_count - 1 }
    have hok' : EntryOk cf (done s key) v' := hok.clear hi hn hne ⟨hf.need, hf.set⟩
    have hself : v'.status i = ⟨flag, none⟩ := set_status_self i (hok.alive hn).1 _
    have hother : ∀ k, k ≠ i → v'.status k = v.status k :=
      fun k hk => set_status_of_ne v i hk _
    have hgone : v'.view cf i = none := by
      rw [view_eq_none, hself]
    have hstay : ∀ k, cf.nbr k → k ≠ i → v'.view cf k = P.queued cf k s key := by
      intro k _ hki
      rw [queued_eq cf P s key k hv, FloodValue.view, FloodValue.view, hother k hki]
      rfl
    refine ⟨?_, v', set_entry_self _ s key v', ⟨rfl, rfl, rfl, fun _ => ⟨hn, rfl, ?_⟩⟩, rfl, ?_⟩
    · rw [← set_done_eq_self done s key]
      refine h.loud hs hok' hstay ?_ rfl rfl rfl (le_refl _) ?_
      · intro hnbr
        rw [hgone]
        exact (h.link i hnbr).unlink hview
      · intro x hx
        rw [hgone] at hx
        exact absurd hx (by simp)
    · -- the flag was `NEED_MSG` before
      intro k _
      by_cases hki : k = i
      · have hdone : i ≤ done s key := by
          by_contra hlt
          exact hne (hok.rest i (by omega) hi.2)
        have hneed := (hok.flag hn i hi.1 hdone).1.mpr hne
        rw [hki, hself, hneed]
        simp [hf.mask]
      · rw [hother k hki]
    · intro j hj
      by_cases hji : j = i
      · rw [hji, hself]
      · rw [hother j hji]
        rcases hj with hj | hj
        · exact absurd (mem_singleton.mp hj) hji
        · exact hj

theorem Inv.cleanup_loop (h : Inv cf done P) (hv : P.belly s key = some v) {l : List ℕ}
    (hl : ∀ i ∈ l, cf.nbr i) (hf : flag.Done) :
    Inv cf done (l.foldl (Priority.cleanup_ngbr s key (v.packets cf) flag) P) ∧
      ∃ v', (l.foldl (Priority.cleanup_ngbr s key (v.packets cf) flag) P).belly s key = some v' ∧
        Cleaned cf l v v' := by
  induction l generalizing P v with
  | nil => exact ⟨h, v, hv, Later.refl cf v, rfl, fun j hj => hj.resolve_left not_mem_nil⟩
  | cons i l ih =>
    obtain ⟨h1, v1, hv1, hc1⟩ := h.cleanup_ngbr hv (hl i (by simp)) hf
    have hrest := ih h1 hv1 (fun j hj => hl j (by simp [hj]))
    rw [hc1.packets] at hrest
    obtain ⟨h2, v2, hv2, hc2⟩ := hrest
    rw [foldl_cons]
    refine ⟨h2, v2, hv2, hc1.toLater.trans hc2.toLater, hc2.msg_scat.trans hc1.msg_scat, ?_⟩
    intro j hj
    apply hc2.cleared j
    rcases hj with hj | hj
    · rcases mem_cons.mp hj with hj | hj
      · exact .inr (hc1.cleared j (.inl (by simp [hj])))
      · exact .inl hj
    · exact .inr (hc1.cleared j (.inr hj))

theorem release_later (cf : PrioConf) (hv : P.belly s key = some v) :
    ∃ v', (Priority.release cf s key P).belly s key = some v' ∧ Later cf v v' ∧
      v'.need_count = v.need_count := by
  unfold Priority.release
  rw [hv]
  dsimp only
  split
  · rename_i hn
    exact ⟨_, set_entry_self P s key _, ⟨rfl, rfl, rfl, fun hne => absurd hn hne⟩, rfl⟩
  · exact ⟨v, hv, Later.refl cf v, rfl⟩

theorem mem_cleanup_range (hk : cf.nbr k ∨ flag = .expired_msg)
    (hi : i ∈ if flag = .expired_msg then range' 1 cf.degree else [k]) : cf.nbr i := by
  split at hi
  · rw [mem_range'_1] at hi
    exact ⟨hi.1, by omega⟩
  · rename_i hne
    rw [mem_singleton.mp hi]
    exact hk.resolve_right hne

/-- **`Cleanup_prio_flood_ds` keeps the invariant**, and what there is to know about a
message that stays stored. -/
theorem Inv.cleanup (h : Inv cf done P) (s : ℕ) (key : PrioKey)
    (hk : cf.nbr k ∨ flag = .expired_msg) (hf : flag.Done) :
    Inv cf done (cleanup_prio_flood_ds cf k s key flag P) ∧ ∀ v, P.belly s key = some v →
        ∃ v', (cleanup_prio_flood_ds cf k s key flag P).belly s key = some v' ∧ Later cf v v' := by
  unfold cleanup_prio_flood_ds
  cases hv : P.belly s key with
  | none => exact ⟨h, fun v hv' => absurd hv' (by simp)⟩
  | some v =>
    dsimp only
    split
    · refine ⟨h, fun w hw => ⟨w, hv.trans hw, Later.refl cf w⟩⟩
    · obtain ⟨hloop, v1, hv1, hc⟩ := h.cleanup_loop hv (fun i => mem_cleanup_range hk) hf
      obtain ⟨v2, hv2, hlater, -⟩ := release_later cf hv1
      refine ⟨hloop.release, fun w hw => ⟨v2, hv2, ?_⟩⟩
      rw [← some.inj hw]
      exact hc.toLater.trans hlater

theorem Inv.node_entry (h : Inv cf done P) {p : ℕ} (hk : cf.nbr k) {n : PqNode}
    (hn : n ∈ (P.edge k).pq s p) :
    ∃ v, P.belly s n.entry = some v ∧ v.priority = p ∧ (v.status k).ngbr = some n.id ∧
      v.need_count ≠ 0 ∧ P.queued cf k s n.entry = some ⟨n.id, p, v.expire, v.packets cf⟩ := by
  obtain ⟨x, hx, hid, hprio, -⟩ := (h.link k hk).node s p n hn
  cases hv : P.belly s n.entry with
  | none =>
    rw [Flood.queued, hv] at hx
    exact absurd hx (by simp)
  | some v =>
    have hview := queued_eq cf P s n.entry k hv
    rw [hview, FloodValue.view, map_eq_some_iff] at hx
    obtain ⟨id, hngbr, rfl⟩ := hx
    have hneed : v.need_count ≠ 0 := by
      intro h0
      have hnone := ((h.entry s n.entry v hv).2.idle h0).2 k hk
      exact absurd (hngbr.symm.trans hnone) (by simp)
    refine ⟨v, rfl, hprio, hngbr.trans (congrArg some hid), hneed, ?_⟩
    rw [hview, FloodValue.view, hngbr, ← hid, ← hprio]
    rfl

theorem Inv.cleanup_expired (h : Inv cf done P) (hv : P.belly s key = some v)
    (hdone : done s key = cf.degree) (k : ℕ) :
    ∃ v', (cleanup_prio_flood_ds cf k s key .expired_msg P).belly s key = some v' ∧
      v'.need_count = 0 := by
  unfold cleanup_prio_flood_ds
  rw [hv]
  dsimp only
  split
  · rename_i hn
    exact ⟨v, hv, hn⟩
  · obtain ⟨hloop, v1, hv1, hc⟩ := h.cleanup_loop hv
      (fun i => mem_cleanup_range (k := k) (.inr rfl)) MsgStatus.expired_done
    obtain ⟨v2, hv2, -, hneed⟩ := release_later cf hv1
    refine ⟨v2, hv2, ?_⟩
    have hok := (hloop.entry s key v1 hv1).2.need
    have hwait : v1.waiting cf = 0 := by
      apply Finset.sum_eq_zero
      intro i hi
      have hi' := Finset.mem_Icc.mp hi
      rw [if_pos (hc.cleared i (.inl ?_))]
      rw [if_pos rfl, mem_range'_1]
      omega
    omega

end Operations

section Freed

variable {cf : PrioConf} {P : Flood} {s : ℕ} {key : PrioKey}

theorem cleanup_ngbr_other (packets : ℕ) (flag : MsgStatus) (P : Flood) (i : ℕ) {a : ℕ}
    {b : PrioKey} (h : ¬ (a = s ∧ b = key)) :
    (cleanup_ngbr s key packets flag P i).belly a b = P.belly a b := by
  unfold cleanup_ngbr
  split
  · rfl
  · split
    · rfl
    · split
      · rfl
      · exact set_entry_of_ne _ s key _ h

theorem release_other (cf : PrioConf) (P : Flood) {a : ℕ} {b : PrioKey}
    (h : ¬ (a = s ∧ b = key)) : (release cf s key P).belly a b = P.belly a b := by
  unfold release
  split
  · rfl
  · split
    · exact set_entry_of_ne _ s key _ h
    · rfl

theorem cleanup_other (cf : PrioConf) (k : ℕ) (flag : MsgStatus) (P : Flood) {a : ℕ} {b : PrioKey}
    (h : ¬ (a = s ∧ b = key)) :
    (cleanup_prio_flood_ds cf k s key flag P).belly a b = P.belly a b := by
  have hfold : ∀ (packets : ℕ) (l : List ℕ) (P : Flood),
      (l.foldl (cleanup_ngbr s key packets flag) P).belly a b = P.belly a b := by
    intro packets l
    induction l with
    | nil => exact fun _ => rfl
    | cons i l ih =>
      intro P
      rw [foldl_cons, ih, cleanup_ngbr_other packets flag P i h]
  unfold cleanup_prio_flood_ds
  split
  · rfl
  · dsimp only
    split
    · rfl
    · rw [release_other cf _ h, hfold]

theorem release_freed {v : FloodValue} (h : (release cf s key P).belly s key = some v)
    (hn : v.need_count = 0) : v.ns = none ∧ v.msg_scat = none := by
  unfold release at h
  cases hv : P.belly s key with
  | none =>
    rw [hv] at h
    exact absurd (hv.symm.trans h) (by simp)
  | some w =>
    rw [hv] at h
    dsimp only at h
    split at h
    · have hw := (set_entry_self P s key { w with ns := none, msg_scat := none }).symm.trans h
      rw [← some.inj hw]
      exact ⟨rfl, rfl⟩
    · rename_i hne
      rw [hv] at h
      rw [← some.inj h] at hn
      exact absurd hn hne

theorem Freed.of_eq (h : Freed P) {P' : Flood} (hb : P'.belly = P.belly) : Freed P' := by
  intro a b v hv
  rw [hb] at hv
  exact h a b v hv

theorem Freed.release (h : Freed P) {P' : Flood}
    (hother : ∀ a b, ¬ (a = s ∧ b = key) → P'.belly a b = P.belly a b) :
    Freed (release cf s key P') := by
  intro a b v hv hn
  by_cases hab : a = s ∧ b = key
  · rw [hab.1, hab.2] at hv
    exact release_freed hv hn
  · rw [release_other cf P' hab, hother a b hab] at hv
    exact h a b v hv hn

theorem Freed.cleanup (h : Freed P) (cf : PrioConf) (k s : ℕ) (key : PrioKey) (flag : MsgStatus) :
    Freed (cleanup_prio_flood_ds cf k s key flag P) := by
  intro a b v hv hn
  by_cases hab : a = s ∧ b = key
  · rw [hab.1, hab.2] at hv
    unfold cleanup_prio_flood_ds at hv
    cases hw : P.belly s key with
    | none =>
      rw [hw] at hv
      exact absurd (hw.symm.trans hv) (by simp)
    | some w =>
      rw [hw] at hv
      dsimp only at hv
      split at hv
      · exact h s key v hv hn
      · exact release_freed hv hn
  · rw [cleanup_other cf k flag P hab] at hv
    exact h a b v hv hn

end Freed

/-! ## 6. The functions -/

structure Evolved (cf : PrioConf) (P P' : Flood) : Prop where
  halt : P'.halt = P.halt
  incarnation : P'.node_incarnation = P.node_incarnation
  absent : ∀ s key, P.belly s key = none → P'.belly s key = none
  later : ∀ s key v, P.belly s key = some v → ∃ v', P'.belly s key = some v' ∧ Later cf v v'

def Keeps (cf : PrioConf) (done : ℕ → PrioKey → ℕ) (P P' : Flood) : Prop :=
  Inv cf done P → Inv cf done P' ∧ (Freed P → Freed P') ∧ Evolved cf P P'

section Functions

variable {cf : PrioConf} {done : ℕ → PrioKey → ℕ} {P P' P'' : Flood}

theorem Evolved.of_eq (hb : P'.belly = P.belly) (hh : P'.halt = P.halt)
    (hi : P'.node_incarnation = P.node_incarnation) : Evolved cf P P' := by
  refine ⟨hh, hi, fun s key hn => ?_, fun s key v hv => ⟨v, ?_, Later.refl cf v⟩⟩
  · rw [hb, hn]
  · rw [hb, hv]

theorem Evolved.trans (h : Evolved cf P P') (h' : Evolved cf P' P'') : Evolved cf P P'' := by
  refine ⟨h'.halt.trans h.halt, h'.incarnation.trans h.incarnation,
    fun s key hn => h'.absent s key (h.absent s key hn), fun s key v hv => ?_⟩
  obtain ⟨v', hv', hl⟩ := h.later s key v hv
  obtain ⟨v'', hv'', hl'⟩ := h'.later s key v' hv'
  exact ⟨v'', hv'', hl.trans hl'⟩

theorem Keeps.refl : Keeps cf done P P := fun h => ⟨h, id, Evolved.of_eq rfl rfl rfl⟩

theorem Keeps.trans (h : Keeps cf done P P') (h' : Keeps cf done P' P'') : Keeps cf done P P'' := by
  intro hinv
  obtain ⟨hinv1, hfreed1, he1⟩ := h hinv
  obtain ⟨hinv2, hfreed2, he2⟩ := h' hinv1
  exact ⟨hinv2, fun hf => hfreed2 (hfreed1 hf), he1.trans he2⟩

theorem Keeps.schedule (k : ℕ) {f : PrioLink → PrioLink} (hf : ∀ ld, ∃ urgent norm in_send_queue,
      f ld = { ld with urgent := urgent, norm := norm, in_send_queue := in_send_queue }) :
    Keeps cf done P (P.on_edge k f) :=
  fun h => ⟨h.schedule k hf, fun hfreed => hfreed.of_eq rfl, Evolved.of_eq rfl rfl rfl⟩

theorem release_globals (cf : PrioConf) (s : ℕ) (key : PrioKey) (P : Flood) :
    (release cf s key P).halt = P.halt ∧
      (release cf s key P).node_incarnation = P.node_incarnation := by
  unfold release
  split
  · exact ⟨rfl, rfl⟩
  · split <;> exact ⟨rfl, rfl⟩

theorem cleanup_globals (cf : PrioConf) (k s : ℕ) (key : PrioKey) (flag : MsgStatus) (P : Flood) :
    (cleanup_prio_flood_ds cf k s key flag P).halt = P.halt ∧
      (cleanup_prio_flood_ds cf k s key flag P).node_incarnation = P.node_incarnation := by
  have hround : ∀ packets (P : Flood) i, (cleanup_ngbr s key packets flag P i).halt = P.halt ∧
      (cleanup_ngbr s key packets flag P i).node_incarnation = P.node_incarnation := by
    intro packets P i
    unfold cleanup_ngbr
    split
    · exact ⟨rfl, rfl⟩
    · split
      · exact ⟨rfl, rfl⟩
      · split <;> exact ⟨rfl, rfl⟩
  have hfold : ∀ packets (l : List ℕ) (P : Flood),
      (l.foldl (cleanup_ngbr s key packets flag) P).halt = P.halt ∧
      (l.foldl (cleanup_ngbr s key packets flag) P).node_incarnation = P.node_incarnation := by
    intro packets l
    induction l with
    | nil => exact fun _ => ⟨rfl, rfl⟩
    | cons i l ih =>
      intro P
      rw [foldl_cons, (ih _).1, (ih _).2]
      exact hround packets P i
  unfold cleanup_prio_flood_ds
  split
  · exact ⟨rfl, rfl⟩
  · dsimp only
    split
    · exact ⟨rfl, rfl⟩
    · rw [(release_globals cf s key _).1, (release_globals cf s key _).2]
      exact hfold _ _ P

variable {k s : ℕ} {Q : Table} {ld : PrioLink}

theorem Keeps.cleanup (s : ℕ) (key : PrioKey) {flag : MsgStatus}
    (hk : cf.nbr k ∨ flag = .expired_msg) (hf : flag.Done) :
    Keeps cf done P (cleanup_prio_flood_ds cf k s key flag P) := by
  intro h
  obtain ⟨hinv, hlater⟩ := h.cleanup s key hk hf
  obtain ⟨hhalt, hinc⟩ := cleanup_globals cf k s key flag P
  refine ⟨hinv, fun hfreed => hfreed.cleanup cf k s key flag, hhalt, hinc, fun a b hn => ?_,
    fun a b v hv => ?_⟩
  · by_cases hab : a = s ∧ b = key
    · rw [hab.1, hab.2] at hn ⊢
      unfold cleanup_prio_flood_ds
      rw [hn]
      exact hn
    · rwa [cleanup_other cf k flag P hab]
  · by_cases hab : a = s ∧ b = key
    · rw [hab.1, hab.2] at hv ⊢
      exact hlater v hv
    · exact ⟨v, by rwa [cleanup_other cf k flag P hab], Later.refl cf v⟩

theorem charge_schedule (penalty : ℕ) (ld : PrioLink) :
    ∃ urgent norm in_send_queue, ld.charge penalty =
      { ld with urgent := urgent, norm := norm, in_send_queue := in_send_queue } := by
  unfold PrioLink.charge
  split
  · exact ⟨_, ld.norm, ld.in_send_queue, rfl⟩
  · exact ⟨ld.urgent, _, ld.in_send_queue, rfl⟩
  · exact ⟨ld.urgent, ld.norm, ld.in_send_queue, rfl⟩

theorem rotate_schedule (penalty : ℕ) (ld : PrioLink) :
    ∃ urgent norm in_send_queue, ld.rotate penalty =
      { ld with urgent := urgent, norm := norm, in_send_queue := in_send_queue } := by
  unfold PrioLink.rotate
  split
  · exact ⟨_, _, ld.in_send_queue, rfl⟩
  · exact ⟨ld.urgent, _, ld.in_send_queue, rfl⟩
  · exact ⟨ld.urgent, ld.norm, ld.in_send_queue, rfl⟩

theorem Implements.not_empty (h : Implements Q ld) (hc : ld.msg_count s ≠ 0) :
    ¬∀ p, 1 ≤ p → p ≤ MAX_PRIORITY → ld.pq s p = [] := by
  intro hall
  refine hc ((h.count s).trans (Finset.sum_eq_zero fun p hp => ?_))
  have hp' := Finset.mem_Icc.mp hp
  rw [hall p hp'.1 hp'.2]
  rfl

theorem Implements.max_ne_nil (h : Implements Q ld) (hc : ld.msg_count s ≠ 0) :
    ld.pq s (ld.max_pq s) ≠ [] := by
  obtain ⟨hup, htop⟩ := h.top s
  rcases htop with h0 | h0
  · exact absurd (fun p hp hn => hup p (by omega) hn) (h.not_empty hc)
  · exact h0.2

theorem Implements.min_ne_nil (h : Implements Q ld) (hc : ld.msg_count s ≠ 0) :
    ld.pq s (ld.min_pq s) ≠ [] := by
  obtain ⟨hdown, hbot⟩ := h.bottom s
  rcases hbot with h0 | h0
  · exact absurd (fun p hp hn => hdown p hp (by omega)) (h.not_empty hc)
  · exact h0.2

theorem serve_keeps (hk : cf.nbr k) (mode : ℕ) (r : SendRound) (e : SendFair)
    (hc : (P.edge k).msg_count e.src_id ≠ 0) : Keeps cf done P (serve cf k mode r e P).1 := by
  intro h
  have hne := (h.link k hk).max_ne_nil hc
  obtain ⟨node, rest, hlist⟩ := exists_cons_of_ne_nil hne
  unfold serve
  dsimp only
  rw [hlist]
  dsimp only
  split
  · -- it expired for all neighbours
    exact ((Keeps.cleanup e.src_id node.entry (.inr rfl) MsgStatus.expired_done).trans
      (Keeps.schedule k (charge_schedule 1))) h
  · split
    · exact ((Keeps.schedule k (rotate_schedule _)).trans
        (Keeps.cleanup e.src_id node.entry (.inl hk) MsgStatus.on_link_done)) h
    · exact Keeps.schedule k (charge_schedule _) h

theorem pay_src_id (e : SendFair) : e.pay.src_id = e.src_id := by
  rw [SendFair.pay]

theorem send_round_keeps (hk : cf.nbr k) (mode : ℕ) (r : SendRound) :
    Keeps cf done P (send_round cf k mode P r).1 := by
  -- an entry that is served has messages
  have hserve : ∀ (e : SendFair) (f : PrioLink → PrioLink),
      (∀ ld, ∃ urgent norm in_send_queue,
        f ld = { ld with urgent := urgent, norm := norm, in_send_queue := in_send_queue }) →
      (P.edge k).msg_count e.src_id ≠ 0 →
      Keeps cf done P (serve cf k mode r e.pay (P.on_edge k f)).1 := by
    intro e f hf hc
    apply (Keeps.schedule k hf).trans
    apply serve_keeps hk
    obtain ⟨urgent, norm, q, heq⟩ := hf (P.edge k)
    dsimp only [Flood.on_edge]
    rw [update_self, pay_src_id, heq]
    exact hc
  unfold send_round
  dsimp only
  cases hu : (P.edge k).urgent with
  | cons e urgent =>
    dsimp only
    split
    · exact Keeps.schedule k (fun ld => ⟨_, _, ld.in_send_queue, rfl⟩)
    · rename_i hno
      apply hserve e _ (fun ld => ⟨_, ld.norm, ld.in_send_queue, rfl⟩)
      exact fun h0 => hno (.inr h0)
  | nil =>
    cases hn : (P.edge k).norm with
    | nil => exact Keeps.refl
    | cons e norm =>
      dsimp only
      split
      · exact Keeps.schedule k (fun ld => ⟨ld.urgent, _, ld.in_send_queue, rfl⟩)
      · split
        · exact Keeps.schedule k (fun ld => ⟨ld.urgent, _, _, rfl⟩)
        · rename_i hno
          exact hserve e _ (fun ld => ⟨ld.urgent, _, ld.in_send_queue, rfl⟩) hno

/-- What every round does, a call does, by induction on its rounds. -/
theorem send_one_of_round {R : Flood → Flood → Prop} {mode : ℕ} (hrefl : ∀ P, R P P)
    (htrans : ∀ {P P' P''}, R P P' → R P' P'' → R P P'')
    (hround : ∀ P r, R P (send_round cf k mode P r).1) (rounds : List SendRound) (P : Flood) :
    R P (priority_flood_send_one cf k mode rounds P) := by
  have hrounds : ∀ P, R P (send_rounds cf k mode rounds P) := by
    induction rounds with
    | nil => exact hrefl
    | cons r rounds ih =>
      intro P
      have hfirst := hround P r
      rw [send_rounds]
      split
      · rename_i P1 heq
        rw [heq] at hfirst
        exact htrans hfirst (ih P1)
      · rename_i P1 _ heq
        rw [heq] at hfirst
        exact hfirst
  rw [priority_flood_send_one]
  split
  · exact hrounds P
  · exact hrefl P

theorem send_one_keeps (hk : cf.nbr k) (mode : ℕ) (rounds : List SendRound) :
    Keeps cf done P (priority_flood_send_one cf k mode rounds P) :=
  send_one_of_round (fun _ => Keeps.refl) Keeps.trans
    (fun _ r => send_round_keeps hk mode r) rounds P

theorem Implements.count_range (h : Implements Q ld) (hs : ¬ (1 ≤ s ∧ s ≤ MAX_NODES)) :
    ld.msg_count s = 0 := by
  rw [h.count s]
  apply Finset.sum_eq_zero
  intro p _
  have hempty : ld.pq s p = [] := by
    rw [eq_nil_iff_forall_not_mem]
    intro n hn
    obtain ⟨x, hx, -⟩ := h.node s p n hn
    exact hs (h.fits s _ x hx).1
  rw [hempty]
  rfl

theorem find_hog_max (h : Implements Q ld) (s : ℕ) :
    ld.msg_count s ≤ ld.msg_count (find_hog ld) := by
  -- the pair is `(0, 0)` or a source with its count, which is the largest so far
  have hfold : ∀ (l : List ℕ) (c : ℕ × ℕ), (c.2 = 0 ∨ c.2 = ld.msg_count c.1) →
      ∀ i, i ∈ l ∨ ld.msg_count i ≤ c.2 →
        ld.msg_count i ≤ ld.msg_count (l.foldl (fun (c : ℕ × ℕ) i =>
          if 0 < ld.msg_count i ∧ c.2 < ld.msg_count i then (i, ld.msg_count i) else c) c).1 := by
    intro l
    induction l with
    | nil =>
      intro c hc i hi
      have hle := hi.resolve_left not_mem_nil
      rw [foldl_nil]
      omega
    | cons j l ih =>
      intro c hc i hi
      rw [foldl_cons]
      by_cases hlarger : 0 < ld.msg_count j ∧ c.2 < ld.msg_count j
      · rw [if_pos hlarger]
        apply ih _ (.inr rfl)
        rcases hi with hi | hi
        · rcases mem_cons.mp hi with rfl | hi
          · exact .inr (le_refl _)
          · exact .inl hi
        · exact .inr (hi.trans hlarger.2.le)
      · rw [if_neg hlarger]
        apply ih c hc
        rcases hi with hi | hi
        · rcases mem_cons.mp hi with rfl | hi
          · exact .inr (by omega)
          · exact .inl hi
        · exact .inr hi
  by_cases hs : 1 ≤ s ∧ s ≤ MAX_NODES
  · exact hfold _ (0, 0) (.inl rfl) s (.inl (by rw [mem_range'_1]; omega))
  · rw [h.count_range hs]
    exact Nat.zero_le _

theorem find_hog_spec (h : Implements Q ld) (ht : ld.total_msg ≠ 0) :
    ld.msg_count (find_hog ld) ≠ 0 := by
  intro hzero
  apply ht
  rw [h.total]
  apply Finset.sum_eq_zero
  intro s _
  exact Nat.le_zero.mp (hzero ▸ find_hog_max h s)

theorem drop_one_keeps (hk : cf.nbr k) (ht : (P.edge k).total_msg ≠ 0) :
    Keeps cf done P (drop_one cf k P) := by
  intro h
  have hlink := h.link k hk
  have hne := hlink.min_ne_nil (find_hog_spec hlink ht)
  obtain ⟨node, rest, hlist⟩ := exists_cons_of_ne_nil hne
  unfold drop_one
  dsimp only
  rw [hlist]
  exact Keeps.cleanup (find_hog (P.edge k)) node.entry (.inl hk) MsgStatus.dropped_done h

end Functions

end Spines.Priority
