import PennCloud.Master.Proof.Joins

/-!
# The index over a run

A lookup enters its user into the index under the owner of the user's key. A registration keeps that
as long as it neither takes a known user over nor picks one for the list.
-/

namespace PennCloud.Master

open Std (ExtTreeMap ExtTreeSet)
open Ring

variable {m m' : Master} {n : Int} {user content : Str} {alive : Str → Int → Bool}

/-- A message with the outcomes of the liveness checks made for it. -/
structure Event where
  alive : Str → Int → Bool
  datagram : Datagram

def Event.message (event : Event) : Str := cstr event.datagram.buf

def Receives (m : Master) (event : Event) (m' : Master) : Prop :=
  ∃ rep, m.receive event.alive event.datagram = .ok (m', rep)

/-! ### One message -/

theorem ids_insert_of_mem {servers : Servers} {id : Int} (hmem : id ∈ servers) (pair : Pair) :
    ids (servers.insert id pair) = ids servers := by
  rw [ids_insert]
  exact Set.insert_eq_of_mem hmem

theorem getServerId_congr {servers servers' : Servers} (hids : ids servers = ids servers')
    (hne : servers ≠ ∅) (key : Int) : getServerId servers key = getServerId servers' key := by
  obtain ⟨n, hn⟩ := hids ▸ ids_nonempty hne
  have hne' : servers' ≠ ∅ := ne_empty_of_mem hn
  rw [getServerId_eq_iff hne, hids]
  exact getServerId_owns hne' key

theorem getD_insert_getD_self (users : Users) (k n : Int) :
    (users.insert k (users.getD k ∅)).getD n ∅ = users.getD n ∅ := by
  rw [ExtTreeMap.getD_insert]
  split
  · next heq => rw [Std.LawfulEqCmp.compare_eq_iff_eq.mp heq]
  · rfl

theorem lookUp_ids (hne : m.servers ≠ ∅) : ids (m.lookUp alive content).1.servers = ids m.servers :=
  ids_insert_of_mem (getServerId_mem hne _) _

theorem mem_lookUp_users : user ∈ (m.lookUp alive content).1.users.getD n ∅ ↔
    user ∈ m.users.getD n ∅ ∨ n = getServerId m.servers (hashStr content) ∧ user = content := by
  change user ∈ (m.users.insert _ ((m.users.getD _ ∅).insert content)).getD n ∅ ↔ _
  rw [ExtTreeMap.getD_insert]
  split
  · next heq =>
      rw [Std.LawfulEqCmp.compare_eq_iff_eq.mp heq, ExtTreeSet.mem_insert,
        Std.LawfulEqCmp.compare_eq_iff_eq]
      simp [or_comm, eq_comm]
  · next hne =>
      have hne' : n ≠ getServerId m.servers (hashStr content) := by
        rintro rfl
        exact hne Std.ReflCmp.compare_self
      simp [hne']

theorem receive_cases {event : Event} (hreceives : Receives m event m') :
    (∃ content, event.message = '?' :: content ∧ m' = (m.lookUp event.alive content).1) ∨
      (∃ content, event.message = '!' :: content ∧
        m' = (m.join event.alive event.datagram.ip event.datagram.port content).1) ∨
      (∀ content, event.message ≠ '?' :: content) ∧ (∀ content, event.message ≠ '!' :: content) ∧
        m'.servers = m.servers ∧ ∀ n, m'.users.getD n ∅ = m.users.getD n ∅ := by
  obtain ⟨rep, hreceive⟩ := hreceives
  rw [receive, ← Event.message] at hreceive
  split at hreceive
  · cases hreceive
  · next content hmessage =>
      exact Or.inl ⟨content, hmessage, (congrArg Prod.fst (Except.ok.inj hreceive)).symm⟩
  · next content hmessage =>
      exact Or.inr (Or.inl ⟨content, hmessage, (congrArg Prod.fst (Except.ok.inj hreceive)).symm⟩)
  · next content hmessage =>
      obtain rfl := congrArg Prod.fst (Except.ok.inj hreceive)
      exact Or.inr (Or.inr ⟨by simp [hmessage], by simp [hmessage], rfl, fun _ => rfl⟩)
  · next content hmessage =>
      refine Or.inr (Or.inr ⟨by simp [hmessage], by simp [hmessage], ?_⟩)
      rw [listUsers] at hreceive
      split at hreceive
      · cases hreceive
      · obtain rfl := congrArg Prod.fst (Except.ok.inj hreceive)
        exact ⟨rfl, getD_insert_getD_self m.users _⟩
  · next hlookup hregister _ _ =>
      obtain rfl := congrArg Prod.fst (Except.ok.inj hreceive)
      exact Or.inr (Or.inr ⟨hlookup, hregister, rfl, fun _ => rfl⟩)

theorem join_of_mem {ip : Str} {port : UInt16} (hmem : atoi content ∈ m.servers) :
    ids (m.join alive ip port content).1.servers = ids m.servers ∧
      (m.join alive ip port content).1.users = m.users := by
  have hsome := ExtTreeMap.getElem?_eq_some_getElem hmem
  rw [join]
  simp only [hsome]
  exact ⟨ids_insert_of_mem hmem _, rfl⟩

/-! ### A run -/

/-- A new node neither becomes the owner of a user in the index nor has one listed. -/
def Undisturbed (m : Master) (id : Int) : Prop :=
  ∀ n user, user ∈ m.users.getD n ∅ →
    getServerId (m.servers.insert id Pair.blank) (hashStr user) ≠ id ∧
      ¬ (getServerId m.servers (hashStr user) = getServerId m.servers id ∧ hashStr user < id)

/-- A message whose registration of a new node, if it is one, leaves the users in the index alone. -/
def Settles (m : Master) (event : Event) (m' : Master) : Prop :=
  Receives m event m' ∧ ∀ content, event.message = '!' :: content → atoi content ∉ m.servers →
    Undisturbed m (atoi content)

def LookedUp (events : List Event) (user : Str) : Prop :=
  ∃ event ∈ events, event.message = '?' :: user

def Registered (events : List Event) : Prop :=
  ∃ event ∈ events, ∃ content, event.message = '!' :: content

/-- A server registers before the first lookup. -/
def RegistersFirst (events : List Event) : Prop :=
  ∀ front event back user, events = front ++ event :: back → event.message = '?' :: user →
    Registered front

/-- Every user looked up is indexed under its owner. -/
def Known (events : List Event) (m : Master) : Prop :=
  (Registered events → m.servers ≠ ∅) ∧
    ∀ user, LookedUp events user → user ∈ m.users.getD (getServerId m.servers (hashStr user)) ∅

theorem lookedUp_concat {events : List Event} {event : Event} :
    LookedUp (events ++ [event]) user ↔ LookedUp events user ∨ event.message = '?' :: user := by
  simp [LookedUp, or_and_right, exists_or]

theorem registered_concat {events : List Event} {event : Event} :
    Registered (events ++ [event]) ↔
      Registered events ∨ ∃ content, event.message = '!' :: content := by
  simp [Registered, or_and_right, exists_or]

theorem RegistersFirst.front {events : List Event} {event : Event}
    (hfirst : RegistersFirst (events ++ [event])) : RegistersFirst events := by
  rintro front event' back user rfl hmessage
  exact hfirst front event' (back ++ [event]) user (by simp) hmessage

theorem RegistersFirst.registered {events : List Event} (hfirst : RegistersFirst events)
    (hlooked : LookedUp events user) : Registered events := by
  obtain ⟨event, hmem, hmessage⟩ := hlooked
  obtain ⟨front, back, rfl⟩ := List.append_of_mem hmem
  obtain ⟨event', hmem', content, hcontent⟩ := hfirst front event back user rfl hmessage
  exact ⟨event', List.mem_append_left _ hmem', content, hcontent⟩

section Step

variable {events : List Event} {event : Event}

theorem known_lookUp (hfirst : RegistersFirst (events ++ [event])) (hknown : Known events m)
    (hmessage : event.message = '?' :: content) :
    Known (events ++ [event]) (m.lookUp alive content).1 := by
  have hne := hknown.1 (hfirst events event [] content rfl hmessage)
  have hids : ids m.servers = ids (m.lookUp alive content).1.servers := (lookUp_ids hne).symm
  refine ⟨fun _ => insert_ne_empty _ _ _, fun user hlooked => ?_⟩
  rw [← getServerId_congr hids hne, mem_lookUp_users]
  rcases lookedUp_concat.mp hlooked with hbefore | hnow
  · exact Or.inl (hknown.2 user hbefore)
  · obtain rfl := List.tail_eq_of_cons_eq (hmessage.symm.trans hnow)
    exact Or.inr ⟨rfl, rfl⟩

/-- The users looked up before a registration stay under their owners. -/
theorem known_joinNew {id : Int} {server : Server} (hfirst : RegistersFirst (events ++ [event]))
    (hknown : Known events m) (hmessage : event.message = '!' :: content) (hnew : id ∉ m.servers)
    (hundisturbed : Undisturbed m id) : Known (events ++ [event]) (m.joinNew id server).1 := by
  refine ⟨fun _ => ?_, fun user hlooked => ?_⟩
  · rw [joinNew]
    split <;> exact insert_ne_empty _ _ _
  have hbefore : LookedUp events user := by
    rcases lookedUp_concat.mp hlooked with hbefore | hnow
    · exact hbefore
    · rw [hmessage] at hnow
      cases hnow
  have hne := hknown.1 (hfirst.front.registered hbefore)
  have hmem := hknown.2 user hbefore
  obtain ⟨hstays, hfree⟩ := hundisturbed _ _ hmem
  have hids : ids (m.joinNew id server).1.servers = ids (m.servers.insert id Pair.blank) := by
    rw [joinNew_servers m hne, ids_insert, ids_insert]
  have hsame : getServerId (m.joinNew id server).1.servers (hashStr user) =
      getServerId m.servers (hashStr user) := by
    rw [← getServerId_congr hids.symm (insert_ne_empty _ _ _)]
    exact (getServerId_insert hne hnew Pair.blank _).1.resolve_right hstays
  rw [hsame, mem_joinNew_users]
  refine ⟨hmem, fun hpicked => hfree ⟨hpicked.1, ?_⟩⟩
  exact (mem_listedUsers.mp hpicked.2).2

theorem known_of_same (hfirst : RegistersFirst (events ++ [event])) (hknown : Known events m)
    (hlookup : ∀ content, event.message ≠ '?' :: content)
    (hregister : (∃ content, event.message = '!' :: content) → m.servers ≠ ∅)
    (hids : ids m.servers = ids m'.servers) (husers : ∀ n, m'.users.getD n ∅ = m.users.getD n ∅) :
    Known (events ++ [event]) m' := by
  refine ⟨fun hregistered => ?_, fun user hlooked => ?_⟩
  · have hne : m.servers ≠ ∅ := (registered_concat.mp hregistered).elim hknown.1 hregister
    obtain ⟨n, hn⟩ := hids ▸ ids_nonempty hne
    exact ne_empty_of_mem hn
  · have hbefore := (lookedUp_concat.mp hlooked).resolve_right (hlookup user)
    have hne := hknown.1 (hfirst.front.registered hbefore)
    rw [husers, ← getServerId_congr hids hne]
    exact hknown.2 user hbefore

theorem known_joinAgain {ip : Str} {port : UInt16} (hfirst : RegistersFirst (events ++ [event]))
    (hknown : Known events m) (hmessage : event.message = '!' :: content)
    (hmem : atoi content ∈ m.servers) :
    Known (events ++ [event]) (m.join alive ip port content).1 := by
  obtain ⟨hids, husers⟩ : ids (m.join alive ip port content).1.servers = ids m.servers ∧ _ :=
    join_of_mem hmem
  refine known_of_same hfirst hknown ?_ (fun _ => ne_empty_of_mem hmem) hids.symm fun n => by rw [husers]
  simp [hmessage]

end Step

/-- In a run whose registrations leave the known users alone, each user looked up is in the index under
its owner. -/
theorem known_of_run {events : List Event} (hrun : Run.Runs Settles init events m)
    (hfirst : RegistersFirst events) {user : Str} (hlooked : LookedUp events user) :
    user ∈ m.users.getD (getServerId m.servers (hashStr user)) ∅ := by
  suffices hknown : Known events m from hknown.2 user hlooked
  revert hfirst
  refine Run.Runs.invariant (P := fun events m => RegistersFirst events → Known events m) ?_ ?_ hrun
  · intro _
    exact ⟨by simp [Registered], by simp [LookedUp]⟩
  · rintro events m event m' hbefore ⟨hreceives, hsettles⟩ hfirst
    have hknown := hbefore hfirst.front
    rcases receive_cases hreceives with
      ⟨content, hmessage, rfl⟩ | ⟨content, hmessage, rfl⟩ | ⟨hlookup, hregister, hservers, husers⟩
    · exact known_lookUp hfirst hknown hmessage
    · by_cases hmem : atoi content ∈ m.servers
      · exact known_joinAgain hfirst hknown hmessage hmem
      · obtain ⟨index, hjoin⟩ := join_eq_joinNew hmem event.alive event.datagram.ip event.datagram.port
        rw [hjoin]
        exact known_joinNew (m := ⟨m.servers, m.users, index⟩) hfirst hknown hmessage hmem
          (hsettles content hmessage hmem)
    · refine known_of_same hfirst hknown hlookup ?_ (congrArg ids hservers).symm husers
      rintro ⟨content, hmessage⟩
      exact absurd hmessage (hregister content)

theorem receives_lookUp {event : Event} (hmessage : event.message = '?' :: content) (m : Master) :
    Receives m event (m.lookUp event.alive content).1 := by
  refine ⟨(m.lookUp event.alive content).2, ?_⟩
  rw [receive, ← Event.message, hmessage]
  rfl

theorem receives_join {event : Event} (hmessage : event.message = '!' :: content) (m : Master) :
    Receives m event (m.join event.alive event.datagram.ip event.datagram.port content).1 := by
  refine ⟨(m.join event.alive event.datagram.ip event.datagram.port content).2, ?_⟩
  rw [receive, ← Event.message, hmessage]
  rfl

theorem registersFirst_cons {event : Event} (hmessage : event.message = '!' :: content)
    (events : List Event) : RegistersFirst (event :: events) := by
  rintro (_ | ⟨first, front⟩) event' back user heq hlookup
  · obtain rfl := (List.cons.inj heq).1
    rw [hmessage] at hlookup
    cases hlookup
  · obtain rfl := (List.cons.inj heq).1
    exact ⟨event, List.mem_cons_self, content, hmessage⟩

/-- A registration of an address, a lookup, and a second registration, all nodes being up. -/
def twoJoins (user id : Str) : List Event :=
  [⟨fun _ _ => true, "127.0.0.1".toList, 8000, "!100".toList⟩,
    ⟨fun _ _ => true, "127.0.0.1".toList, 9000, '?' :: user⟩,
    ⟨fun _ _ => true, "127.0.0.1".toList, 8001, '!' :: id⟩]

/-- The master after them. -/
def afterTwoJoins (user id : Str) : Master :=
  (((init.join (fun _ _ => true) "127.0.0.1".toList 8000 "100".toList).1.lookUp
    (fun _ _ => true) user).1.join (fun _ _ => true) "127.0.0.1".toList 8001 id).1

/-- Nobody is disturbed when the key of the known user is not next to the new node. -/
theorem known_of_run_bob :
    "bob".toList ∈ (afterTwoJoins "bob".toList "20000".toList).users.getD
      (getServerId (afterTwoJoins "bob".toList "20000".toList).servers (hashStr "bob".toList)) ∅ := by
  have hrun : Run.Runs Settles init (twoJoins "bob".toList "20000".toList)
      (afterTwoJoins "bob".toList "20000".toList) := by
    refine .cons ⟨receives_join rfl _, fun content hmessage _ n user hmem => ?_⟩
      (.cons ⟨receives_lookUp rfl _, fun content hmessage => ?_⟩
        (.cons ⟨receives_join rfl _, fun content hmessage hnew n user hmem => ?_⟩ .nil))
    · exact absurd hmem (by rw [getD_of_isEmpty rfl]; exact ExtTreeSet.not_mem_empty)
    · cases hmessage
    · obtain rfl : "20000".toList = content := List.tail_eq_of_cons_eq hmessage
      rcases mem_lookUp_users.mp hmem with hempty | ⟨_, rfl⟩
      · exact absurd hempty (by rw [getD_of_isEmpty rfl]; exact ExtTreeSet.not_mem_empty)
      · decide +kernel
  exact known_of_run hrun (registersFirst_cons rfl _) ⟨_, List.mem_cons_of_mem _ List.mem_cons_self, rfl⟩

/-- A user handed over is not in the entry of its new owner. -/
theorem not_known_handed_over :
    ∃ (events : List Event) (m : Master) (user : Str), Run.Runs Receives init events m ∧
      RegistersFirst events ∧ LookedUp events user ∧
      user ∉ m.users.getD (getServerId m.servers (hashStr user)) ∅ := by
  refine ⟨twoJoins "a".toList "85000".toList, afterTwoJoins "a".toList "85000".toList, "a".toList,
    .cons (receives_join rfl _) (.cons (receives_lookUp rfl _) (.cons (receives_join rfl _) .nil)),
    registersFirst_cons rfl _, ⟨_, List.mem_cons_of_mem _ List.mem_cons_self, rfl⟩, ?_⟩
  decide +kernel

end PennCloud.Master
