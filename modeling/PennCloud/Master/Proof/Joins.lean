import PennCloud.Master.Proof.Routing
import PennCloud.Lib.Run

/-!
# Joins

What a node that registers is told to take over. The users listed are those of one old node with a
hash below the new id, whether or not the ring turns over on the way.
-/

namespace PennCloud.Master

open Std (ExtTreeMap ExtTreeSet)
open Ring

variable {servers : Servers} {users : Users} {known : Set Str} {id dest : Int}

/-! ### The loop over the users of a node -/

/-- The users the loop picks. -/
def picked (id : Int) (list : List Str) : List Str := list.filter fun user => hashStr user < id

theorem mem_picked {list : List Str} {user : Str} :
    user ∈ picked id list ↔ user ∈ list ∧ hashStr user < id := by
  simp [picked]

theorem mem_moveUser_users {state : Str × Users} {user other : Str} {n : Int} :
    other ∈ (moveUser id dest state user).2.getD n ∅ ↔
      other ∈ state.2.getD n ∅ ∧ ¬ (n = dest ∧ other = user ∧ hashStr user < id) := by
  rw [moveUser]
  split
  · next hlt =>
      by_cases hdest : dest = n
      · subst hdest
        simp only [ExtTreeMap.getD_insert_self, ExtTreeSet.mem_erase, hlt, true_and, and_true]
        rw [ne_eq, Std.LawfulEqCmp.compare_eq_iff_eq, and_comm, eq_comm]
      · simp [ExtTreeMap.getD_insert, hdest, Ne.symm hdest]
  · next hge => simp [hge]

theorem foldl_moveUser (list : List Str) (state : Str × Users) :
    (list.foldl (moveUser id dest) state).1 =
        state.1 ++ Fields.terminate ',' (picked id list) ∧
      ∀ n user, user ∈ (list.foldl (moveUser id dest) state).2.getD n ∅ ↔
        user ∈ state.2.getD n ∅ ∧ ¬ (n = dest ∧ user ∈ picked id list) := by
  induction list generalizing state with
  | nil => simp [picked, Fields.terminate]
  | cons first list ih =>
      obtain ⟨hrep, hmem⟩ := ih (moveUser id dest state first)
      rw [List.foldl_cons]
      refine ⟨?_, fun n user => ?_⟩
      · rw [hrep, moveUser]
        by_cases hlt : hashStr first < id
        · simp [hlt, picked, Fields.terminate]
        · simp [hlt, picked]
      · rw [hmem, mem_moveUser_users, mem_picked, mem_picked, List.mem_cons]
        grind

/-! ### A node joins -/

/-- The reply that names the node to copy from and the users to ask it for. The first nodes of all have
nothing to copy. -/
def listing (m : Master) (dest : Int) (listed : List Str) : Str :=
  if m.users.isEmpty then "P".toList
  else
    "P ".toList ++ (m.servers.getD dest Pair.blank).primary.address ++ [','] ++
      Fields.terminate ',' listed

/-- The users in the reply to `!id`. -/
def listedUsers (m : Master) (id : Int) : List Str :=
  picked id (m.users.getD (getServerId m.servers id) ∅).toList

theorem mem_listedUsers {m : Master} {user : Str} :
    user ∈ m.listedUsers id ↔
      user ∈ m.users.getD (getServerId m.servers id) ∅ ∧ hashStr user < id := by
  rw [listedUsers, mem_picked, ExtTreeSet.mem_toList]

theorem getD_of_isEmpty (hempty : users.isEmpty) (n : Int) : users.getD n ∅ = ∅ := by
  rw [ExtTreeMap.isEmpty_iff.mp hempty, ExtTreeMap.getD_empty]

theorem joinNew_reply (m : Master) (id : Int) (server : Server) :
    (m.joinNew id server).2 = m.listing (getServerId m.servers id) (m.listedUsers id) := by
  rw [joinNew, listing]
  split
  · rfl
  · exact (foldl_moveUser _ _).1

/-- The users picked leave the index of the node they were under, and nothing else changes. -/
theorem mem_joinNew_users (m : Master) (id : Int) (server : Server) (n : Int) (user : Str) :
    user ∈ (m.joinNew id server).1.users.getD n ∅ ↔
      user ∈ m.users.getD n ∅ ∧
        ¬ (n = getServerId m.servers id ∧ user ∈ m.listedUsers id) := by
  rw [joinNew]
  split
  · next hempty =>
      have hnone : user ∉ m.users.getD n ∅ := by
        rw [getD_of_isEmpty hempty]
        exact ExtTreeSet.not_mem_empty
      simp [hnone]
  · have htouch : ∀ n, (m.users.insert (getServerId m.servers id)
        (m.users.getD (getServerId m.servers id) ∅)).getD n ∅ = m.users.getD n ∅ := by
      intro n
      rw [ExtTreeMap.getD_insert]
      split
      · next heq => rw [Std.LawfulEqCmp.compare_eq_iff_eq.mp heq]
      · rfl
    refine ((foldl_moveUser _ _).2 n user).trans ?_
    rw [htouch]
    rfl

/-! ### What the new node owns -/

/-- Each node's entry of the index holds the known users that the ring gives to that node. -/
def Indexed (m : Master) (known : Set Str) : Prop :=
  ∀ n user, user ∈ m.users.getD n ∅ ↔ user ∈ known ∧ getServerId m.servers (hashStr user) = n

/-- A registration under `id` lists exactly the known users that `id` owns from then on, and takes
exactly these out of the index of the node they were under. -/
def TakesOver (m : Master) (known : Set Str) (id : Int) (result : Master × Str) : Prop :=
  (∃ listed, result.2 = m.listing (getServerId m.servers id) listed ∧
      ∀ user, user ∈ listed ↔ user ∈ known ∧ getServerId result.1.servers (hashStr user) = id) ∧
    ∀ n user, user ∈ result.1.users.getD n ∅ ↔
      user ∈ m.users.getD n ∅ ∧
        ¬ (n = getServerId m.servers id ∧ user ∈ known ∧
          getServerId result.1.servers (hashStr user) = id)

/-- The ring turns over between `id` and `key`: all nodes stand between them. -/
def Wraps (servers : Servers) (id key : Int) : Prop :=
  (∀ n ∈ servers, id < n ∧ n ≤ key) ∨ ∀ n ∈ servers, key < n ∧ n < id

section Ring

variable (hne : servers ≠ ∅) (hnew : id ∉ servers)

include hne hnew

theorem getServerId_insert_eq_self (pair : Pair) (key : Int) :
    getServerId (servers.insert id pair) key = id ↔
      (key < id ∧ ∀ n ∈ servers, ¬ (key < n ∧ n < id)) ∨ ∀ n ∈ servers, id < n ∧ n ≤ key := by
  rw [getServerId_eq_iff (insert_ne_empty servers id pair), ids_insert]
  exact owns_insert_self_iff hnew (ids_nonempty hne)

theorem getServerId_eq_and_lt (key : Int) :
    getServerId servers key = getServerId servers id ∧ key < id ↔
      (key < id ∧ ∀ n ∈ servers, ¬ (key < n ∧ n < id)) ∨ ∀ n ∈ servers, key < n ∧ n < id := by
  rw [getServerId_eq_iff hne]
  exact owns_and_lt_iff hnew (getServerId_owns hne id)

/-- The users picked by their hash are the ones that move, unless the ring turns over. -/
theorem moves_iff_picked (pair : Pair) (key : Int) :
    (getServerId (servers.insert id pair) key = id ↔
        getServerId servers key = getServerId servers id ∧ key < id) ↔
      ¬ Wraps servers id key := by
  rw [getServerId_insert_eq_self hne hnew, getServerId_eq_and_lt hne hnew, Wraps]
  obtain ⟨n, hn⟩ := ids_nonempty hne
  constructor
  · rintro hiff (hbelow | habove)
    · rcases hiff.mp (Or.inr hbelow) with ⟨hlt, _⟩ | hall
      · exact absurd ((hbelow n hn).1.trans_le (hbelow n hn).2) hlt.not_gt
      · exact absurd (hall n hn).1 (hbelow n hn).2.not_gt
    · rcases hiff.mpr (Or.inr habove) with ⟨_, hfree⟩ | hall
      · exact hfree n hn (habove n hn)
      · exact absurd (hall n hn).1 (habove n hn).2.not_gt
  · intro hnot
    push Not at hnot
    constructor
    · rintro (hbetween | hall)
      · exact Or.inl hbetween
      · obtain ⟨n', hn', hno⟩ := hnot.1
        exact absurd ((hno (hall n' hn').1).trans_le (hall n' hn').2) (lt_irrefl _)
    · rintro (hbetween | hall)
      · exact Or.inl hbetween
      · obtain ⟨n', hn', hno⟩ := hnot.2
        exact absurd ((hall n' hn').2.trans_le (hno (hall n' hn').1)) (lt_irrefl _)

end Ring

theorem join_eq_joinNew {m : Master} {content : Str} (hnew : atoi content ∉ m.servers)
    (alive : Str → Int → Bool) (ip : Str) (port : UInt16) :
    ∃ index, m.join alive ip port content =
      joinNew ⟨m.servers, m.users, index⟩ (atoi content) (.sender (atoi content) ip port) := by
  have hnone : m.servers[atoi content]? = none := by simpa using hnew
  refine ⟨m.serverIndex.insert (Server.address (.sender (atoi content) ip port)) (atoi content), ?_⟩
  rw [join]
  simp only [hnone]

/-- A registration of a new node hands over exactly the users the node owns from then on iff the ring
does not turn over between its id and the hash of a known user. -/
theorem takesOver_iff {alive : Str → Int → Bool} {m : Master} {known : Set Str} {ip content : Str}
    {port : UInt16} (hne : m.servers ≠ ∅) (hindexed : m.Indexed known)
    (hnew : atoi content ∉ m.servers) :
    TakesOver m known (atoi content) (m.join alive ip port content) ↔
      ∀ user ∈ known, ¬ Wraps m.servers (atoi content) (hashStr user) := by
  obtain ⟨index, hjoin⟩ := join_eq_joinNew hnew alive ip port
  rw [hjoin]
  set id := atoi content
  set server : Server := .sender id ip port
  set m' : Master := ⟨m.servers, m.users, index⟩
  have hservers : (m'.joinNew id server).1.servers = _ := joinNew_servers m' hne id server
  have hlisted : ∀ user, user ∈ m'.listedUsers id ↔ user ∈ known ∧
      getServerId m.servers (hashStr user) = getServerId m.servers id ∧ hashStr user < id := by
    intro user
    rw [mem_listedUsers, hindexed, and_assoc]
  have hmoves := fun user => moves_iff_picked hne hnew ⟨server, Server.blank⟩ (hashStr user)
  constructor
  · rintro ⟨_, hremoved⟩ user hknown
    rw [← hmoves]
    by_cases hdest : getServerId m.servers (hashStr user) = getServerId m.servers id
    · have hmem : user ∈ m.users.getD (getServerId m.servers id) ∅ :=
        (hindexed _ _).mpr ⟨hknown, hdest⟩
      have hboth : user ∈ m.users.getD (getServerId m.servers id) ∅ ∧
            ¬ (getServerId m.servers id = getServerId m.servers id ∧ user ∈ m'.listedUsers id) ↔
          user ∈ m.users.getD (getServerId m.servers id) ∅ ∧
            ¬ (getServerId m.servers id = getServerId m.servers id ∧ user ∈ known ∧
              getServerId (m'.joinNew id server).1.servers (hashStr user) = id) :=
        (mem_joinNew_users m' id server _ user).symm.trans (hremoved _ _)
      simp only [hmem, hknown, true_and, not_iff_not, hlisted, hservers] at hboth
      exact hboth.symm
    · refine iff_of_false (fun hmoved => hdest ?_) fun hpicked => hdest hpicked.1
      refine (getServerId_insert hne hnew ⟨server, Server.blank⟩ (hashStr user)).2 fun hsame => ?_
      have hmem := getServerId_mem hne (hashStr user)
      rw [← hsame, hmoved] at hmem
      exact hnew hmem
  · intro hfree
    have hsame : ∀ user, user ∈ m'.listedUsers id ↔
        user ∈ known ∧ getServerId (m'.joinNew id server).1.servers (hashStr user) = id := by
      intro user
      rw [hlisted, hservers]
      exact and_congr_right fun hknown => ((hmoves user).mpr (hfree user hknown)).symm
    refine ⟨⟨m'.listedUsers id, joinNew_reply m' id server, hsame⟩, fun n user => ?_⟩
    rw [mem_joinNew_users, hsame]

/-- One node, under 100, and one known user, whose key is 83961. -/
def oneUser : Master :=
  ⟨(∅ : Servers).insert 100 Pair.blank, (∅ : Users).insert 100 ((∅ : ExtTreeSet Str).insert "a".toList), ∅⟩

theorem oneUser_indexed : oneUser.Indexed {"a".toList} := by
  have howner : getServerId oneUser.servers (hashStr "a".toList) = 100 := by decide +kernel
  intro n user
  have hentry : oneUser.users.getD n ∅ =
      if compare 100 n = .eq then (∅ : ExtTreeSet Str).insert "a".toList else ∅ := by
    rw [oneUser, ExtTreeMap.getD_insert, ExtTreeMap.getD_empty]
  rw [hentry]
  simp only [Std.LawfulEqCmp.compare_eq_iff_eq, Set.mem_singleton_iff]
  split
  · next heq =>
      subst heq
      rw [ExtTreeSet.mem_insert, Std.LawfulEqCmp.compare_eq_iff_eq]
      constructor
      · rintro (rfl | hnone)
        · exact ⟨rfl, howner⟩
        · exact absurd hnone ExtTreeSet.not_mem_empty
      · rintro ⟨rfl, _⟩
        exact Or.inl rfl
  · next hne =>
      refine iff_of_false ExtTreeSet.not_mem_empty ?_
      rintro ⟨rfl, howns⟩
      exact hne (howner.symm.trans howns)

theorem takesOver_iff_oneUser :
    TakesOver oneUser {"a".toList} (atoi "85000".toList)
        (oneUser.join (fun _ _ => true) "127.0.0.1".toList 8001 "85000".toList) ↔
      ∀ user ∈ ({"a".toList} : Set Str), ¬ Wraps oneUser.servers (atoi "85000".toList) (hashStr user) :=
  takesOver_iff (insert_ne_empty _ _ _) oneUser_indexed (by decide +kernel)

/-- A node below the only one becomes the owner of the key above it and does not hear of the user. -/
theorem not_takesOver_below :
    oneUser.servers ≠ ∅ ∧ oneUser.Indexed {"a".toList} ∧ atoi "50".toList ∉ oneUser.servers ∧
      ¬ TakesOver oneUser {"a".toList} (atoi "50".toList)
        (oneUser.join (fun _ _ => true) "127.0.0.1".toList 8001 "50".toList) := by
  refine ⟨insert_ne_empty _ _ _, oneUser_indexed, by decide +kernel, ?_⟩
  rintro ⟨_, hremoved⟩
  have hstays : "a".toList ∈ (oneUser.join (fun _ _ => true) "127.0.0.1".toList 8001
      "50".toList).1.users.getD 100 ∅ := by
    decide +kernel
  refine ((hremoved 100 "a".toList).mp hstays).2 ⟨?_, rfl, ?_⟩ <;> decide +kernel

end PennCloud.Master
