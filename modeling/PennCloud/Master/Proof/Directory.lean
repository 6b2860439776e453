import PennCloud.Master.Proof.Backups

/-!
# What the master hands out

A lookup indexes the map of the servers, and a failover puts whatever is in the second place into the first. As long
as each lookup finds a primary that answers or a backup, all ids and addresses come from registrations.
-/

namespace PennCloud.Master

open Std (ExtTreeMap)

variable {m m' : Master} {event : Event} {content rep address : Str} {newcomer : Server} {pair : Pair} {n id : Int}
  {alive : Str → Int → Bool} {steps : List (Event × Str)} {step : Event × Str}

/-! ### Earlier registrations -/

def Announced (steps : List (Event × Str)) (id : Int) : Prop :=
  ∃ step ∈ steps, ∃ content, step.1.message = '!' :: content ∧ atoi content = id

def FromRegistration (steps : List (Event × Str)) (address : Str) : Prop :=
  ∃ step ∈ steps, ∃ content, step.1.message = '!' :: content ∧ address = (step.1.server (atoi content)).address

theorem Announced.snoc (h : Announced steps id) (step : Event × Str) : Announced (steps ++ [step]) id := by
  obtain ⟨step', hmem, hannounced⟩ := h
  exact ⟨step', List.mem_append_left _ hmem, hannounced⟩

theorem FromRegistration.snoc (h : FromRegistration steps address) (step : Event × Str) :
    FromRegistration (steps ++ [step]) address := by
  obtain ⟨step', hmem, hregistered⟩ := h
  exact ⟨step', List.mem_append_left _ hmem, hregistered⟩

/-- Both servers of a pair have registered. -/
structure OfRegistered (steps : List (Event × Str)) (pair : Pair) : Prop where
  primary : FromRegistration steps pair.primary.address
  secondary : pair.secondary.ip = [] ∨ FromRegistration steps pair.secondary.address

theorem OfRegistered.snoc (h : OfRegistered steps pair) (step : Event × Str) : OfRegistered (steps ++ [step]) pair :=
  ⟨h.primary.snoc step, h.secondary.imp_right fun hsecondary => hsecondary.snoc step⟩

/-- The primary answers, or there is a backup. -/
def Available (alive : Str → Int → Bool) (pair : Pair) : Prop :=
  alive pair.primary.ip pair.primary.port = true ∨ pair.secondary.ip ≠ []

theorem OfRegistered.failOver (h : OfRegistered steps pair) (havailable : Available alive pair) :
    OfRegistered steps (failOver alive pair) := by
  rw [Master.failOver]
  split
  · exact h
  · next hdown => exact ⟨h.secondary.resolve_left (havailable.resolve_left hdown), Or.inl rfl⟩

/-- What the directory is made of. -/
structure Handed (steps : List (Event × Str)) (m : Master) : Prop where
  announced : ∀ n ∈ m.servers, Announced steps n
  pairs : AllPairs (OfRegistered steps) m
  users : m.users.isEmpty = false → m.servers ≠ ∅

/-! ### One message -/

theorem Handed.insert (h : Handed steps m) (hid : Announced (steps ++ [step]) id)
    (hpair : OfRegistered (steps ++ [step]) pair) (hservers : m'.servers = m.servers.insert id pair) :
    Handed (steps ++ [step]) m' := by
  have hpairs : AllPairs (OfRegistered (steps ++ [step])) m := fun n pair hget => (h.pairs n pair hget).snoc step
  refine ⟨fun n hn => ?_, hpairs.insert hpair hservers, fun _ => ?_⟩
  · rw [hservers, ExtTreeMap.mem_insert, Std.LawfulEqCmp.compare_eq_iff_eq] at hn
    rcases hn with rfl | hbefore
    · exact hid
    · exact (h.announced n hbefore).snoc step
  · rw [hservers]
    exact insert_ne_empty _ _ _

theorem Handed.lookUp (h : Handed steps m) (hne : m.servers ≠ ∅)
    (havailable : Available alive (m.servers.getD (getServerId m.servers (hashStr content)) Pair.blank)) :
    Handed (steps ++ [step]) (m.lookUp alive content).1 ∧ FromRegistration steps (m.lookUp alive content).2 := by
  have hmem := getServerId_mem hne (hashStr content)
  have howner := h.pairs.getD fun habsent => absurd hmem habsent
  have hpair := howner.failOver havailable
  exact ⟨h.insert ((h.announced _ hmem).snoc step) (hpair.snoc step) rfl, hpair.primary⟩

theorem Handed.joinNew_servers (h : Handed steps m) :
    (m.joinNew id newcomer).1.servers = m.servers.insert id ⟨newcomer, Server.blank⟩ := by
  cases hempty : m.users.isEmpty with
  | true =>
      rw [joinNew, if_pos hempty]
  | false => exact Master.joinNew_servers m (h.users hempty) id newcomer

theorem OfRegistered.joinAgain (h : OfRegistered steps pair)
    (hnewcomer : FromRegistration (steps ++ [step]) newcomer.address) (m : Master) (id : Int) :
    ∃ pair', (m.joinAgain alive id newcomer pair).1.servers = m.servers.insert id pair' ∧
      OfRegistered (steps ++ [step]) pair' := by
  have hpair := h.snoc step
  cases halive : alive pair.primary.ip pair.primary.port with
  | true =>
      rw [joinAgain_alive halive]
      exact ⟨_, rfl, hpair.primary, Or.inr hnewcomer⟩
  | false =>
      by_cases halone : pair.secondary.ip = []
      · rw [joinAgain_alone halive halone]
        exact ⟨_, rfl, hnewcomer, Or.inl halone⟩
      · rw [joinAgain_backup halive halone]
        exact ⟨_, rfl, hpair.secondary.resolve_left halone, Or.inr hnewcomer⟩

theorem Handed.join (h : Handed steps m) (hmessage : event.message = '!' :: content) :
    Handed (steps ++ [(event, rep)]) (m.join event.alive event.datagram.ip event.datagram.port content).1 := by
  have hlast : (event, rep) ∈ steps ++ [(event, rep)] := List.mem_append_right _ List.mem_cons_self
  have hid : Announced (steps ++ [(event, rep)]) (atoi content) := ⟨_, hlast, content, hmessage, rfl⟩
  have hnewcomer : FromRegistration (steps ++ [(event, rep)]) (event.server (atoi content)).address :=
    ⟨_, hlast, content, hmessage, rfl⟩
  rw [Master.join]
  dsimp only
  split
  · exact h.insert hid ⟨hnewcomer, Or.inl rfl⟩ (Handed.joinNew_servers ⟨h.announced, h.pairs, h.users⟩)
  · next pair hget =>
      obtain ⟨pair', hservers, hpair'⟩ := (h.pairs _ pair hget).joinAgain hnewcomer _ _
      exact h.insert hid hpair' hservers

/-- The list of the servers consists of marked addresses. -/
def Lists (steps : List (Event × Str)) (rep : Str) : Prop :=
  ∃ entries : List (Char × Str), (∀ entry ∈ entries, FromRegistration steps entry.2) ∧
    rep = entries.flatMap fun entry => entry.1 :: entry.2 ++ [',']

/-- The marked addresses of a pair. -/
def entries (pair : Pair) : List (Char × Str) :=
  ('P', pair.primary.address) :: if pair.secondary.ip = [] then [] else [('S', pair.secondary.address)]

theorem entries_text (pair : Pair) :
    ((entries pair).flatMap fun entry => entry.1 :: entry.2 ++ [',']) = 'P' :: pair.primary.address ++ [','] ++
      if pair.secondary.ip = [] then [] else 'S' :: pair.secondary.address ++ [','] := by
  rw [entries, List.flatMap_cons]
  split
  · rfl
  · rw [List.flatMap_singleton]

theorem Handed.lists (h : Handed steps m) : Lists steps m.listServers := by
  refine ⟨m.servers.toList.flatMap fun entry => entries entry.2, fun entry hentry => ?_, ?_⟩
  · obtain ⟨⟨n, pair⟩, hmem, hentry⟩ := List.mem_flatMap.mp hentry
    have hpair := h.pairs n pair (ExtTreeMap.mem_toList_iff_getElem?_eq_some.mp hmem)
    rcases List.mem_cons.mp hentry with rfl | hsecond
    · exact hpair.primary
    · split at hsecond
      · exact absurd hsecond List.not_mem_nil
      · next hbackup =>
          rw [List.mem_singleton.mp hsecond]
          exact hpair.secondary.resolve_left hbackup
  · rw [List.flatMap_assoc, listServers]
    exact List.flatMap_congr fun entry _ => (entries_text entry.2).symm

/-! ### A run -/

/-- A lookup, a registration or a request for the list, with its reply. -/
def Serves (m : Master) (step : Event × Str) (m' : Master) : Prop :=
  Replies m step m' ∧ ∃ content, step.1.message = '?' :: content ∨ step.1.message = '!' :: content ∨
    step.1.message = 'A' :: content

/-- Here a lookup finds a server, and the primary or a backup can answer. -/
def ServesAvailable (m : Master) (step : Event × Str) (m' : Master) : Prop :=
  Serves m step m' ∧ ∀ content, step.1.message = '?' :: content → m.servers ≠ ∅ ∧
    Available step.1.alive (m.servers.getD (getServerId m.servers (hashStr content)) Pair.blank)

/-- The reply to a lookup is an address that has registered, and the list has only such addresses. -/
structure Names (steps : List (Event × Str)) (step : Event × Str) : Prop where
  lookUp : ∀ content, step.1.message = '?' :: content → FromRegistration steps step.2
  list : ∀ content, step.1.message = 'A' :: content → Lists steps step.2

theorem Handed.serves (h : Handed steps m) (hserves : ServesAvailable m (event, rep) m') :
    Handed (steps ++ [(event, rep)]) m' ∧ Names steps (event, rep) := by
  obtain ⟨⟨hreplies, content, hkind⟩, havailable⟩ := hserves
  rw [Replies] at hreplies
  rcases hkind with hmessage | hmessage | hmessage
  · rw [receive_lookUp hmessage] at hreplies
    obtain ⟨hm', hrep⟩ := Prod.mk.inj (Except.ok.inj hreplies)
    obtain ⟨hne, hpair⟩ := havailable content hmessage
    obtain ⟨hhanded, hname⟩ : Handed (steps ++ [(event, rep)]) _ ∧ _ := h.lookUp hne hpair
    refine ⟨hm' ▸ hhanded, fun _ _ => hrep ▸ hname, fun content' hlist => ?_⟩
    rw [hmessage] at hlist
    cases hlist
  · rw [receive_join hmessage] at hreplies
    obtain ⟨hm', _⟩ := Prod.mk.inj (Except.ok.inj hreplies)
    refine ⟨hm' ▸ h.join hmessage, fun content' hlookup => ?_, fun content' hlist => ?_⟩
    · rw [hmessage] at hlookup
      cases hlookup
    · rw [hmessage] at hlist
      cases hlist
  · rw [receive_list hmessage] at hreplies
    obtain ⟨hm', hrep⟩ := Prod.mk.inj (Except.ok.inj hreplies)
    have hpairs : AllPairs (OfRegistered (steps ++ [(event, rep)])) m :=
      fun n pair hget => (h.pairs n pair hget).snoc _
    refine ⟨hm' ▸ ⟨fun n hn => (h.announced n hn).snoc _, hpairs, h.users⟩, fun content' hlookup => ?_,
      fun _ _ => hrep ▸ h.lists⟩
    rw [hmessage] at hlookup
    cases hlookup

/-- All ids were announced before, and all addresses in the replies had registered before. -/
structure HandsOut (steps : List (Event × Str)) (m : Master) : Prop where
  announced : ∀ n ∈ m.servers, Announced steps n
  names : ∀ front step back, steps = front ++ step :: back → Names front step

theorem handsOut_of_run (hrun : Run.Runs ServesAvailable init steps m) : HandsOut steps m := by
  suffices h : Handed steps m ∧ ∀ front step back, steps = front ++ step :: back → Names front step from
    ⟨h.1.announced, h.2⟩
  refine Run.Runs.invariant (P := fun steps m => Handed steps m ∧
    ∀ front step back, steps = front ++ step :: back → Names front step) ?_ ?_ hrun
  · refine ⟨⟨fun n hn => absurd hn ExtTreeMap.not_mem_empty, fun n pair hget => ?_, fun husers => ?_⟩,
      fun front step back hnil => ?_⟩
    · rw [init, ExtTreeMap.getElem?_empty] at hget
      cases hget
    · cases husers
    · cases front <;> cases hnil
  · rintro steps m ⟨event, rep⟩ m' ⟨hhanded, hearlier⟩ hserves
    obtain ⟨hhanded', hnow⟩ := hhanded.serves hserves
    refine ⟨hhanded', fun front step back hsplit => ?_⟩
    rcases List.eq_nil_or_concat back with rfl | ⟨back, last, rfl⟩
    · obtain ⟨hfront, hstep⟩ := List.append_inj' hsplit rfl
      rw [← hfront, ← List.singleton_inj.mp hstep]
      exact hnow
    · rw [List.concat_eq_append, ← List.cons_append, ← List.append_assoc] at hsplit
      exact hearlier front step back (List.append_inj' hsplit rfl).1

/-- A server registers, and a user is looked up while the server answers. -/
theorem handsOut_of_run_one :
    HandsOut [(registration [] 8000, (registered init [] 8000).2),
        (⟨fun _ _ => true, [], 9000, "?a".toList⟩,
          ((registered init [] 8000).1.lookUp (fun _ _ => true) "a".toList).2)]
      ((registered init [] 8000).1.lookUp (fun _ _ => true) "a".toList).1 := by
  have hjoin : ServesAvailable init (registration [] 8000, (registered init [] 8000).2) (registered init [] 8000).1 := by
    refine ⟨⟨replies_registration [] 8000 init, "1".toList, Or.inr (Or.inl rfl)⟩, fun content hmessage => ?_⟩
    cases hmessage
  have hlookup : ServesAvailable (registered init [] 8000).1 (⟨fun _ _ => true, [], 9000, "?a".toList⟩,
      ((registered init [] 8000).1.lookUp (fun _ _ => true) "a".toList).2)
      ((registered init [] 8000).1.lookUp (fun _ _ => true) "a".toList).1 :=
    ⟨⟨receive_lookUp rfl _, "a".toList, Or.inl rfl⟩, fun _ _ => ⟨insert_ne_empty _ _ _, Or.inl rfl⟩⟩
  exact handsOut_of_run (.cons hjoin (.cons hlookup .nil))

/-- A lookup before the first registration makes a server up. -/
theorem not_handsOut_early : ∃ (steps : List (Event × Str)) (m : Master),
    Run.Runs Serves init steps m ∧ (∃ n ∈ m.servers, ¬ Announced steps n) ∧
      ∃ front step back, steps = front ++ step :: back ∧ ¬ Names front step := by
  have hmem : (-1 : Int) ∈ (init.lookUp (fun _ _ => true) "a".toList).1.servers := by decide +kernel
  refine ⟨[(⟨fun _ _ => true, [], 9000, "?a".toList⟩, (init.lookUp (fun _ _ => true) "a".toList).2)],
    (init.lookUp (fun _ _ => true) "a".toList).1,
    .cons ⟨receive_lookUp rfl _, "a".toList, Or.inl rfl⟩ .nil, ⟨-1, hmem, ?_⟩, [], _, [], rfl, fun hnames => ?_⟩
  · rintro ⟨step, hstep, content, hmessage, _⟩
    rw [List.mem_singleton.mp hstep] at hmessage
    cases hmessage
  · obtain ⟨step, hstep, _⟩ := hnames.lookUp "a".toList rfl
    exact List.not_mem_nil hstep

end PennCloud.Master
