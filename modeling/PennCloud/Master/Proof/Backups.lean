import PennCloud.Kv.Proof.Numbers
import PennCloud.Master.Proof.Lookups

/-!
# Primaries and their backups

A server that registers under a known id becomes the backup of the primary, or of the old backup if the primary is
down. In that case nothing is compared: an old backup that registers again is made the backup of itself.
-/

namespace PennCloud

theorem Server.address_inj {server server' : Server} (h : server.address = server'.address) :
    server.ip = server'.ip ∧ server.port = server'.port := by
  have hport : ∀ n : Int, ':' ∉ toStr n := fun n => notMem_toStr (by decide) (by decide)
  rw [address, address] at h
  have hreverse := congrArg List.reverse h
  simp only [List.reverse_append, List.reverse_cons, List.append_assoc, List.singleton_append] at hreverse
  have hcut := congrArg (Fields.cut ':') hreverse
  rw [Fields.cut_append (by simpa using hport _), Fields.cut_append (by simpa using hport _)] at hcut
  obtain ⟨hports, hips⟩ := Prod.mk.inj (Option.some.inj hcut)
  have hsame := congrArg atoi (List.reverse_inj.mp hports)
  rw [atoi_toStr server.isInt, atoi_toStr server'.isInt] at hsame
  exact ⟨List.reverse_inj.mp hips, hsame⟩

/-- The two servers of a pair have different addresses, unless there is no secondary. -/
def Pair.Distinct (pair : Pair) : Prop := pair.secondary.ip = [] ∨ pair.primary.address ≠ pair.secondary.address

namespace Master

variable {m m' : Master} {event : Event} {content rep : Str} {newcomer : Server} {pair : Pair} {n : Int}
  {alive : Str → Int → Bool}

/-! ### Messages and replies -/

/-- A message, with the outcomes of the liveness checks made for it, and its reply. -/
def Replies (m : Master) (step : Event × Str) (m' : Master) : Prop :=
  m.receive step.1.alive step.1.datagram = .ok (m', step.2)

/-- The server that a registration is from. -/
def Event.server (event : Event) (id : Int) : Server := .sender id event.datagram.ip event.datagram.port

theorem receive_lookUp (hmessage : event.message = '?' :: content) (m : Master) :
    m.receive event.alive event.datagram = .ok (m.lookUp event.alive content) := by
  rw [receive, ← Event.message, hmessage]
  rfl

theorem receive_join (hmessage : event.message = '!' :: content) (m : Master) :
    m.receive event.alive event.datagram = .ok (m.join event.alive event.datagram.ip event.datagram.port content) := by
  rw [receive, ← Event.message, hmessage]
  rfl

theorem receive_list (hmessage : event.message = 'A' :: content) (m : Master) :
    m.receive event.alive event.datagram = .ok (m, m.listServers) := by
  rw [receive, ← Event.message, hmessage]
  rfl

/-- What holds of all pairs. -/
def AllPairs (P : Pair → Prop) (m : Master) : Prop := ∀ (n : Int) (pair : Pair), m.servers[n]? = some pair → P pair

variable {P : Pair → Prop}

theorem AllPairs.insert (h : AllPairs P m) (hpair : P pair) (hservers : m'.servers = m.servers.insert n pair) :
    AllPairs P m' := by
  intro k pair' hget
  rw [hservers, SortedMap.getElem?_insert_eq] at hget
  split at hget
  · exact Option.some.inj hget ▸ hpair
  · exact h k pair' hget

theorem AllPairs.congr (h : AllPairs P m) (hservers : m'.servers = m.servers) : AllPairs P m' := by
  intro k pair hget
  rw [hservers] at hget
  exact h k pair hget

theorem AllPairs.getD (h : AllPairs P m) (hblank : n ∉ m.servers → P Pair.blank) : P (m.servers.getD n Pair.blank) := by
  rw [Std.ExtTreeMap.getD_eq_getD_getElem?]
  cases hget : m.servers[n]? with
  | none => exact hblank (by rw [Std.ExtTreeMap.mem_iff_isSome_getElem?, hget]; exact Bool.false_ne_true)
  | some pair => exact h n pair hget

theorem AllPairs.lookUp (h : AllPairs P m)
    (hpair : P (failOver alive (m.servers.getD (getServerId m.servers (hashStr content)) Pair.blank))) :
    AllPairs P (m.lookUp alive content).1 := h.insert hpair rfl

/-- A new node is stored, and a pair for the owner of its id when there are users. -/
theorem AllPairs.joinNew (h : AllPairs P m) (hnew : P ⟨newcomer, Server.blank⟩)
    (hdest : m.users.isEmpty = false → P (m.servers.getD (getServerId m.servers n) Pair.blank)) :
    AllPairs P (m.joinNew n newcomer).1 := by
  rw [Master.joinNew]
  split
  · exact h.insert hnew rfl
  · next husers =>
      let servers := m.servers.insert (getServerId m.servers n) (m.servers.getD (getServerId m.servers n) Pair.blank)
      have hdest' : AllPairs P ⟨servers, m.users, m.serverIndex⟩ := h.insert (hdest (by simpa using husers)) rfl
      exact hdest'.insert hnew rfl

/-! ### Nobody is its own backup -/

/-- The address of a registering server does not answer, and when the primary of its pair does not answer
either, the server is not the backup of the pair. -/
structure Careful (servers : Servers) (event : Event) (id : Int) : Prop where
  down : event.alive event.datagram.ip event.datagram.port.toNat = false
  other : ∀ pair, servers[id]? = some pair → event.alive pair.primary.ip pair.primary.port = false →
    pair.secondary.address ≠ (event.server id).address

theorem Pair.Distinct.failOver {pair : Pair} (h : pair.Distinct) : (failOver alive pair).Distinct := by
  rw [Master.failOver]
  split
  · exact h
  · exact Or.inl rfl

/-- A primary that answers is not the server that registers. -/
theorem Careful.address_ne {servers : Servers} {id : Int} (h : Careful servers event id) {primary : Server}
    (halive : event.alive primary.ip primary.port = true) : primary.address ≠ (event.server id).address := by
  intro heq
  obtain ⟨hip, hport⟩ := Server.address_inj heq
  rw [hip, hport] at halive
  exact absurd (h.down.symm.trans halive) Bool.false_ne_true

theorem joinAgain_alive (halive : alive pair.primary.ip pair.primary.port = true) :
    m.joinAgain alive n newcomer pair = (⟨m.servers.insert n ⟨pair.primary, newcomer⟩, m.users, m.serverIndex⟩,
      "P=".toList ++ pair.primary.address) := by
  rw [Master.joinAgain]
  simp only [if_pos halive]

theorem joinAgain_alone (hdown : alive pair.primary.ip pair.primary.port = false) (halone : pair.secondary.ip = []) :
    m.joinAgain alive n newcomer pair = (⟨m.servers.insert n ⟨newcomer, pair.secondary⟩, m.users, m.serverIndex⟩,
      "P".toList) := by
  rw [Master.joinAgain]
  simp only [hdown, Bool.false_eq_true, if_false, if_pos halone]

theorem joinAgain_backup (hdown : alive pair.primary.ip pair.primary.port = false) (hbackup : pair.secondary.ip ≠ []) :
    m.joinAgain alive n newcomer pair = (⟨m.servers.insert n ⟨pair.secondary, newcomer⟩, m.users, m.serverIndex⟩,
      "P=".toList ++ pair.secondary.address) := by
  rw [Master.joinAgain]
  simp only [hdown, Bool.false_eq_true, if_false, if_neg hbackup]

theorem Careful.joinAgain (h : Careful m.servers event n) (hget : m.servers[n]? = some pair)
    (hdistinct : AllPairs Pair.Distinct m) :
    AllPairs Pair.Distinct (m.joinAgain event.alive n (event.server n) pair).1 ∧
      (m.joinAgain event.alive n (event.server n) pair).2 ≠ "P=".toList ++ (event.server n).address := by
  cases halive : event.alive pair.primary.ip pair.primary.port with
  | true =>
      have hne := h.address_ne halive
      rw [joinAgain_alive halive]
      exact ⟨hdistinct.insert (Or.inr hne) rfl, fun heq => hne (List.append_cancel_left heq)⟩
  | false =>
      have hother := h.other pair hget halive
      by_cases halone : pair.secondary.ip = []
      · rw [joinAgain_alone halive halone]
        have hpair : Pair.Distinct ⟨event.server n, pair.secondary⟩ := Or.inl halone
        refine ⟨hdistinct.insert hpair rfl, fun heq => ?_⟩
        cases heq
      · rw [joinAgain_backup halive halone]
        exact ⟨hdistinct.insert (Or.inr hother) rfl, fun heq => hother (List.append_cancel_left heq)⟩

theorem joinNew_reply_ne (m : Master) (id : Int) (newcomer : Server) (address : Str) :
    (m.joinNew id newcomer).2 ≠ "P=".toList ++ address := by
  rw [joinNew_reply, listing]
  split
  · exact fun heq => by cases heq
  · intro heq
    rw [List.append_assoc, List.append_assoc] at heq
    cases heq

/-- A message that is answered keeps the pairs apart. -/
theorem Replies.distinct (hreplies : Replies m (event, rep) m') (hdistinct : AllPairs Pair.Distinct m)
    (hcareful : ∀ content, event.message = '!' :: content → Careful m.servers event (atoi content)) :
    AllPairs Pair.Distinct m' ∧ ∀ content, event.message = '!' :: content →
      rep ≠ "P=".toList ++ (event.server (atoi content)).address := by
  have hblank : ∀ n : Int, n ∉ m.servers → Pair.blank.Distinct := fun _ _ => Or.inl rfl
  rcases receive_cases ⟨rep, hreplies⟩ with ⟨content, hmessage, rfl⟩ | ⟨content, hmessage, rfl⟩ |
    ⟨_, hregister, hservers, _⟩
  · refine ⟨hdistinct.lookUp (Pair.Distinct.failOver (hdistinct.getD (hblank _))), fun content' hmessage' => ?_⟩
    rw [hmessage] at hmessage'
    cases hmessage'
  · have hreply := hreplies
    rw [Replies, receive_join hmessage] at hreply
    have hrep : _ = rep := congrArg Prod.snd (Except.ok.inj hreply)
    have hboth : AllPairs Pair.Distinct (m.join event.alive event.datagram.ip event.datagram.port content).1 ∧
        (m.join event.alive event.datagram.ip event.datagram.port content).2 ≠
          "P=".toList ++ (event.server (atoi content)).address := by
      rw [join]
      dsimp only
      split
      · exact ⟨AllPairs.joinNew hdistinct (Or.inl rfl) fun _ => hdistinct.getD (hblank _), joinNew_reply_ne _ _ _ _⟩
      · next hget => exact Careful.joinAgain (hcareful content hmessage) hget hdistinct
    refine ⟨hboth.1, fun content' hmessage' => ?_⟩
    rw [← List.tail_eq_of_cons_eq (hmessage.symm.trans hmessage'), ← hrep]
    exact hboth.2
  · exact ⟨hdistinct.congr hservers, fun content hmessage => absurd hmessage (hregister content)⟩

/-! ### A run -/

/-- A message and its reply, where a registration is with care. -/
def RepliesCarefully (m : Master) (step : Event × Str) (m' : Master) : Prop :=
  Replies m step m' ∧ ∀ content, step.1.message = '!' :: content → Careful m.servers step.1 (atoi content)

/-- The two servers of each pair are different, and no server hears that it is the primary it should be the
backup of. -/
theorem distinct_of_run {steps : List (Event × Str)} (hrun : Run.Runs RepliesCarefully init steps m) :
    AllPairs Pair.Distinct m ∧ ∀ step ∈ steps, ∀ content, step.1.message = '!' :: content →
      step.2 ≠ "P=".toList ++ (step.1.server (atoi content)).address := by
  refine Run.Runs.invariant (P := fun steps m => AllPairs Pair.Distinct m ∧ ∀ step ∈ steps, ∀ content,
    step.1.message = '!' :: content → step.2 ≠ "P=".toList ++ (step.1.server (atoi content)).address) ?_ ?_ hrun
  · refine ⟨fun n pair hget => ?_, fun step hmem => absurd hmem List.not_mem_nil⟩
    rw [init, Std.ExtTreeMap.getElem?_empty] at hget
    cases hget
  · rintro steps m ⟨event, rep⟩ m' ⟨hdistinct, hearlier⟩ ⟨hreplies, hcareful⟩
    obtain ⟨hdistinct', hnow⟩ := Replies.distinct hreplies hdistinct hcareful
    refine ⟨hdistinct', fun step hmem => ?_⟩
    rcases List.mem_append.mp hmem with hbefore | hlast
    · exact hearlier step hbefore
    · rw [List.mem_singleton.mp hlast]
      exact hnow

/-- A registration under the id 1 from `port`, while the ports `up` answer. -/
def registration (up : List Int) (port : UInt16) : Event :=
  ⟨fun _ port => port ∈ up, "127.0.0.1".toList, port, "!1".toList⟩

/-- The master and its reply after such a registration. -/
def registered (m : Master) (up : List Int) (port : UInt16) : Master × Str :=
  m.join (registration up port).alive "127.0.0.1".toList port "1".toList

/-- Two servers register under one id, and one of them registers again when both are down. -/
def afterBoth : Master := (registered (registered init [] 8000).1 [8000] 8001).1

def afterThree (port : UInt16) : Master := (registered afterBoth [] port).1

def threeRegistrations (port : UInt16) : List (Event × Str) :=
  [(registration [] 8000, (registered init [] 8000).2),
    (registration [8000] 8001, (registered (registered init [] 8000).1 [8000] 8001).2),
    (registration [] port, (registered afterBoth [] port).2)]

theorem replies_registration (up : List Int) (port : UInt16) (m : Master) :
    Replies m (registration up port, (registered m up port).2) (registered m up port).1 := by
  have hmessage : (registration up port).message = '!' :: "1".toList := rfl
  exact receive_join hmessage m

theorem repliesCarefully_registration {up : List Int} {port : UInt16} (hdown : (port.toNat : Int) ∉ up)
    (hother : (m.servers[(1 : Int)]?).all (fun pair => decide (pair.primary.port ∈ up ∨
      pair.secondary.address ≠ ((registration up port).server 1).address)) = true) :
    RepliesCarefully m (registration up port, (registered m up port).2) (registered m up port).1 := by
  refine ⟨replies_registration up port m, fun content hmessage => ?_⟩
  have hcontent : "1".toList = content := List.tail_eq_of_cons_eq hmessage
  rw [← hcontent]
  refine ⟨decide_eq_false hdown, fun pair hget hprimary => ?_⟩
  have hone : m.servers[(1 : Int)]? = some pair := hget
  rw [hone] at hother
  exact (of_decide_eq_true hother).resolve_left (of_decide_eq_false hprimary)

/-- The old primary comes back behind the old backup. -/
theorem distinct_of_run_primary :
    AllPairs Pair.Distinct (afterThree 8000) ∧ ∀ step ∈ threeRegistrations 8000, ∀ content,
      step.1.message = '!' :: content → step.2 ≠ "P=".toList ++ (step.1.server (atoi content)).address := by
  have hthird : (afterBoth.servers[(1 : Int)]?).all (fun pair => decide (pair.primary.port ∈ ([] : List Int) ∨
      pair.secondary.address ≠ ((registration [] 8000).server 1).address)) = true := by decide +kernel
  have hrun : Run.Runs RepliesCarefully init (threeRegistrations 8000) (afterThree 8000) :=
    .cons (repliesCarefully_registration (by decide) (by decide +kernel))
      (.cons (repliesCarefully_registration (by decide) (by decide +kernel))
        (.cons (repliesCarefully_registration (by decide) hthird) .nil))
  exact distinct_of_run hrun

/-- The old backup comes back as the backup of itself. -/
theorem not_distinct_backup : ∃ (steps : List (Event × Str)) (m : Master),
    Run.Runs Replies init steps m ∧
      (∀ step ∈ steps, step.1.alive step.1.datagram.ip step.1.datagram.port.toNat = false) ∧
      ¬ AllPairs Pair.Distinct m ∧ ∃ step ∈ steps, ∃ content, step.1.message = '!' :: content ∧
        step.2 = "P=".toList ++ (step.1.server (atoi content)).address := by
  have hpair : ((afterThree 8001).servers[(1 : Int)]?).any (fun pair => decide (pair.secondary.ip ≠ [] ∧
      pair.primary.address = pair.secondary.address)) = true := by decide +kernel
  have hreply : (registered afterBoth [] 8001).2 = "P=127.0.0.1:8001".toList := by decide +kernel
  have hrun : Run.Runs Replies init (threeRegistrations 8001) (afterThree 8001) :=
    .cons (replies_registration ..) (.cons (replies_registration ..) (.cons (replies_registration ..) .nil))
  refine ⟨threeRegistrations 8001, afterThree 8001, hrun, ?_, fun hdistinct => ?_,
    (registration [] 8001, (registered afterBoth [] 8001).2), by simp [threeRegistrations], "1".toList, rfl, ?_⟩
  · intro step hmem
    simp only [threeRegistrations, List.mem_cons, List.not_mem_nil, or_false] at hmem
    rcases hmem with rfl | rfl | rfl <;> decide
  · obtain ⟨pair, hget, hsame⟩ := (Option.any_eq_true _ _).mp hpair
    obtain ⟨hbackup, haddress⟩ := of_decide_eq_true hsame
    exact (hdistinct 1 pair hget).elim hbackup fun hne => hne haddress
  · rw [hreply]
    decide +kernel

end Master

end PennCloud
