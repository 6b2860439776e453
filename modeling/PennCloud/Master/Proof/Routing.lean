import PennCloud.Master.Master
import PennCloud.Lib.Ring
import PennCloud.Lib.SortedMap

/-!
# Routing

`get_server_id` finds the owner of a key on the ring of the node ids, and a node that registers takes
keys from one other node only.
-/

namespace PennCloud.Master

open Std (ExtTreeMap)
open Ring

variable {servers : Servers} {key id : Int}

/-- The ids on the ring. -/
def ids (servers : Servers) : Set Int := {n | n ∈ servers}

theorem mem_ids_iff : id ∈ ids servers ↔ id ∈ servers := Iff.rfl

theorem ids_insert (servers : Servers) (id : Int) (pair : Pair) :
    ids (servers.insert id pair) = insert id (ids servers) := by
  ext n
  rw [mem_ids_iff, ExtTreeMap.mem_insert, compare_eq_iff_eq, Set.mem_insert_iff, mem_ids_iff, eq_comm]

theorem ids_nonempty (hne : servers ≠ ∅) : (ids servers).Nonempty := by
  obtain ⟨n, hn⟩ := List.exists_mem_of_ne_nil _ (mt ExtTreeMap.keys_eq_nil_iff.mp hne)
  exact ⟨n, ExtTreeMap.mem_keys.mp hn⟩

theorem ne_empty_of_mem (hmem : id ∈ servers) : servers ≠ ∅ := by
  rintro rfl
  exact ExtTreeMap.not_mem_empty hmem

/-! ### The loop of `get_server_id` -/

/-- A key below every id matches no pair of neighbours. -/
theorem scan_of_lt {head prev : Int} {rest : List Int} (hprev : key < prev)
    (hrest : ∀ n ∈ rest, key < n) : scan key head prev rest = head := by
  induction rest generalizing prev with
  | nil => rfl
  | cons current rest ih =>
      rw [scan, if_neg fun hbetween => hprev.not_ge hbetween.1]
      exact ih (hrest current List.mem_cons_self) fun n hn => hrest n (List.mem_cons_of_mem _ hn)

/-- From an id at most `key` on, the loop stops at the first id above it. -/
theorem scan_of_le {head prev : Int} {rest : List Int} (hprev : prev ≤ key)
    (hsorted : rest.Pairwise (· < ·)) :
    IsLeast {n | n ∈ rest ∧ key < n} (scan key head prev rest) ∨
      (∀ n ∈ rest, n ≤ key) ∧ scan key head prev rest = head := by
  induction rest generalizing prev with
  | nil => exact Or.inr ⟨by simp, rfl⟩
  | cons current rest ih =>
      rw [List.pairwise_cons] at hsorted
      by_cases hcurrent : key < current
      · rw [scan, if_pos ⟨hprev, hcurrent⟩]
        refine Or.inl ⟨⟨List.mem_cons_self, hcurrent⟩, ?_⟩
        rintro n ⟨hn, _⟩
        rcases List.mem_cons.mp hn with rfl | hn
        · exact le_rfl
        · exact (hsorted.1 n hn).le
      · rw [scan, if_neg fun hbetween => hcurrent hbetween.2]
        rcases ih (not_lt.mp hcurrent) hsorted.2 with hleast | ⟨hall, hhead⟩
        · refine Or.inl ⟨⟨List.mem_cons_of_mem _ hleast.1.1, hleast.1.2⟩, ?_⟩
          rintro n ⟨hn, hkey⟩
          rcases List.mem_cons.mp hn with rfl | hn
          · exact absurd hkey hcurrent
          · exact hleast.2 ⟨hn, hkey⟩
        · refine Or.inr ⟨fun n hn => ?_, hhead⟩
          rcases List.mem_cons.mp hn with rfl | hn
          · exact not_lt.mp hcurrent
          · exact hall n hn

theorem getServerId_owns (hne : servers ≠ ∅) (key : Int) :
    Owns (ids servers) (getServerId servers key) key := by
  have hmem : ∀ n, n ∈ ids servers ↔ n ∈ servers.keys := fun n => ExtTreeMap.mem_keys.symm
  have hsorted : servers.keys.Pairwise (· < ·) :=
    (ExtTreeMap.ordered_keys (t := servers)).imp compare_lt_iff_lt.mp
  have hkeys := mt ExtTreeMap.keys_eq_nil_iff.mp hne
  rw [getServerId]
  cases hlist : servers.keys with
  | nil => exact absurd hlist hkeys
  | cons head rest =>
      simp only [hlist, List.mem_cons] at hmem
      rw [hlist, List.pairwise_cons] at hsorted
      have hleast : IsLeast (ids servers) head := by
        refine ⟨(hmem head).mpr (Or.inl rfl), fun n hn => ?_⟩
        rcases (hmem n).mp hn with rfl | hn
        · exact le_rfl
        · exact (hsorted.1 n hn).le
      dsimp only
      by_cases hlow : key < head
      · have hhead : (if 0 ≤ key ∧ key < head then head else scan key head head rest) = head := by
          split
          · rfl
          · exact scan_of_lt hlow fun n hn => hlow.trans (hsorted.1 n hn)
        rw [hhead]
        exact Or.inl ⟨⟨hleast.1, hlow⟩, fun n hn => hleast.2 hn.1⟩
      · rw [if_neg fun hbelow => hlow hbelow.2]
        have hfound : IsLeast {n | n ∈ rest ∧ key < n} (scan key head head rest) ∨ _ :=
          scan_of_le (not_lt.mp hlow) hsorted.2
        rcases hfound with hscan | ⟨hall, hscan⟩
        · refine Or.inl ⟨⟨(hmem _).mpr (Or.inr hscan.1.1), hscan.1.2⟩, ?_⟩
          rintro n ⟨hn, hkey⟩
          rcases (hmem n).mp hn with rfl | hn
          · exact absurd hkey hlow
          · exact hscan.2 ⟨hn, hkey⟩
        · rw [hscan]
          refine Or.inr ⟨Set.eq_empty_of_forall_notMem ?_, hleast⟩
          rintro n ⟨hn, hkey⟩
          rcases (hmem n).mp hn with rfl | hn
          · exact hlow hkey
          · exact (hall n hn).not_gt hkey

theorem getServerId_eq_iff (hne : servers ≠ ∅) {n : Int} :
    getServerId servers key = n ↔ Owns (ids servers) n key := by
  constructor
  · rintro rfl
    exact getServerId_owns hne key
  · exact (getServerId_owns hne key).unique

theorem getServerId_mem (hne : servers ≠ ∅) (key : Int) : getServerId servers key ∈ servers :=
  (getServerId_owns hne key).mem

/-! ### A node registers -/

theorem insert_ne_empty (servers : Servers) (id : Int) (pair : Pair) :
    servers.insert id pair ≠ ∅ :=
  ne_empty_of_mem (ExtTreeMap.mem_insert_self : id ∈ servers.insert id pair)

theorem insert_getD_self {n : Int} (hmem : n ∈ servers) :
    servers.insert n (servers.getD n Pair.blank) = servers := by
  refine ExtTreeMap.ext_getElem? fun k => ?_
  rw [SortedMap.getElem?_insert_eq]
  split
  · next heq =>
      subst heq
      exact (ExtTreeMap.getElem?_eq_some_getD hmem).symm
  · rfl

theorem joinNew_servers (m : Master) (hne : m.servers ≠ ∅) (id : Int) (server : Server) :
    (m.joinNew id server).1.servers = m.servers.insert id ⟨server, Server.blank⟩ := by
  rw [joinNew]
  split
  · rfl
  · change (m.servers.insert _ _).insert id _ = _
    rw [insert_getD_self (getServerId_mem hne id)]

/-- The owner of a key before and after a node joins. -/
theorem getServerId_insert (hne : servers ≠ ∅) (hnew : id ∉ servers) (pair : Pair) (key : Int) :
    (getServerId (servers.insert id pair) key = getServerId servers key ∨
        getServerId (servers.insert id pair) key = id) ∧
      (getServerId (servers.insert id pair) key ≠ getServerId servers key →
        getServerId servers key = getServerId servers id) := by
  have howns := getServerId_owns (insert_ne_empty servers id pair) key
  rw [ids_insert] at howns
  by_cases hself : getServerId (servers.insert id pair) key = id
  · rw [hself] at howns ⊢
    refine ⟨Or.inr rfl, fun _ => (getServerId_eq_iff hne).mpr ?_⟩
    exact Owns.of_insert_self hnew (getServerId_owns hne id) howns
  · have hsame := ((getServerId_eq_iff hne).mpr (howns.of_insert hself)).symm
    exact ⟨Or.inl hsame, fun hmoved => absurd hsame hmoved⟩

/-- `get_server_id` is the ring successor, and a new node takes over keys of one old node only. -/
theorem getServerId_ring (m : Master) (hne : m.servers ≠ ∅) (key : Int) :
    (IsLeast {n | n ∈ m.servers ∧ key < n} (getServerId m.servers key) ∨
        {n | n ∈ m.servers ∧ key < n} = ∅ ∧ IsLeast {n | n ∈ m.servers} (getServerId m.servers key)) ∧
      ∀ (id : Int) (server : Server), id ∉ m.servers →
        (getServerId (m.joinNew id server).1.servers key = getServerId m.servers key ∨
            getServerId (m.joinNew id server).1.servers key = id) ∧
          (getServerId (m.joinNew id server).1.servers key ≠ getServerId m.servers key →
            getServerId m.servers key = getServerId m.servers id) := by
  refine ⟨getServerId_owns hne key, fun id server hnew => ?_⟩
  rw [joinNew_servers m hne]
  exact getServerId_insert hne hnew _ key

theorem getServerId_ring_three_nodes :
    let m : Master := ⟨((∅ : Servers).insert 10 Pair.blank |>.insert 50 Pair.blank).insert 90 Pair.blank, ∅, ∅⟩
    getServerId (m.joinNew 70 Server.blank).1.servers 60 = getServerId m.servers 60 ∨
      getServerId (m.joinNew 70 Server.blank).1.servers 60 = 70 := by
  intro m
  exact ((getServerId_ring m (insert_ne_empty _ 90 _) 60).2 70 Server.blank (by decide)).1

end PennCloud.Master
