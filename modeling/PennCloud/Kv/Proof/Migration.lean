import PennCloud.Kv.Proof.Requests
import PennCloud.Kv.Proof.Wired

/-!
# Migration

`migrate_data` follows the pointer of `tablets` whoever the user is, and its second loop erases the very
element the iterator stands on. So it comes to an end for no user: a user who is not in memory has no
node, and the first file of one who is takes the iterator with it.
-/

namespace PennCloud.Chunkserver

open LRUCache Std

variable {s s' : Chunkserver} {user filename : Str} {users : List Str} {fuel : Nat} {commFd seqNum : Int}
  {external isMigration : Bool} {line : Str} {node : Ref}

/-- A node executes one put, get or dele. -/
inductive Stores (s : Chunkserver) (line : Str) (s' : Chunkserver) : Prop where
  | put (fuel : Nat) (external : Bool) (commFd seqNum : Int) :
      s.put fuel line external commFd seqNum = .ok s' → Stores s line s'
  | get (fuel : Nat) (commFd : Int) : s.get fuel line commFd = .ok s' → Stores s line s'
  | dele (fuel : Nat) (external isMigration : Bool) (commFd seqNum : Int) :
      s.dele fuel line external isMigration commFd seqNum = .ok s' → Stores s line s'

/-! ### Every state is wired -/

theorem perform_exec {op : Op} (hrun : s.perform fuel line user external op = .ok s') :
    ∃ lru, s.lru.exec fuel op = .ok lru ∧ s'.lru.heap = lru.heap ∧ s'.lru.nodes = lru.nodes ∧
      s'.lru.tablets = lru.tablets ∧ s'.lru.virmemMeta = lru.virmemMeta := by
  obtain ⟨lru, hexec, hrun⟩ := Run.bind_eq_ok.mp hrun
  refine ⟨lru, hexec, ?_⟩
  split at hrun
  · dsimp only at hrun
    split at hrun
    · rw [sendToSecondary] at hrun
      split at hrun
      · cases hrun
      · obtain rfl := Except.ok.inj hrun
        exact ⟨rfl, rfl, rfl, rfl⟩
    · obtain rfl := Except.ok.inj hrun
      exact ⟨rfl, rfl, rfl, rfl⟩
  · obtain rfl := Except.ok.inj hrun
    exact ⟨rfl, rfl, rfl, rfl⟩

/-- A message that is read as a write makes the node execute it. -/
theorem worker_exec {buffer command : Str} {request : PennCloud.Request} (hcommand : parseCommand (cstr buffer) = .ok command)
    (hrequest : writeRequest command (cstr buffer) = some (.ok (some request))) (hrun : s.worker fuel commFd buffer = .ok s') :
    ∃ lru, s.lru.exec fuel (request commFd 0) = .ok lru ∧ s'.lru.heap = lru.heap ∧ s'.lru.nodes = lru.nodes ∧
      s'.lru.tablets = lru.tablets ∧ s'.lru.virmemMeta = lru.virmemMeta := by
  rw [worker_write hcommand hrequest, Run.ok_bind] at hrun
  obtain ⟨t, hperform, hdone⟩ := Run.bind_eq_ok.mp hrun
  obtain rfl := Except.ok.inj hdone
  obtain ⟨lru, hexec, hkept⟩ := perform_exec hperform
  exact ⟨lru, hexec, hkept⟩

theorem wired_perform {op : Op} (h : s.lru.Wired)
    (hrun : s.perform fuel line user external op = .ok s') : s'.lru.Wired := by
  obtain ⟨lru, hexec, hheap, hnodes, htablets, hvirmem⟩ := perform_exec hrun
  exact (closed_wired.exec h hexec).congr hheap hnodes htablets fun u hu => by rwa [hvirmem]

theorem wired_error (h : s.lru.Wired) : (s.error commFd).lru.Wired := h.congr rfl rfl rfl fun _ hu => hu

theorem Stores.wired (hstep : Stores s line s') (h : s.lru.Wired) : s'.lru.Wired := by
  cases hstep with
  | put fuel external commFd seqNum hrun =>
      obtain ⟨arguments, _, hrun⟩ := Run.bind_eq_ok.mp hrun
      split at hrun
      · exact wired_perform h hrun
      · exact Except.ok.inj hrun ▸ wired_error h
  | get fuel commFd hrun =>
      obtain ⟨arguments, _, hrun⟩ := Run.bind_eq_ok.mp hrun
      split at hrun
      · next user filename _ =>
          obtain ⟨lru, hget, hrun⟩ := Run.bind_eq_ok.mp hrun
          obtain rfl := Except.ok.inj hrun
          have hexec : s.lru.exec fuel (.get user (chopTwo filename) commFd) = .ok lru := hget
          exact closed_wired.exec h hexec
      · exact Except.ok.inj hrun ▸ wired_error h
  | dele fuel external isMigration commFd seqNum hrun =>
      obtain ⟨arguments, _, hrun⟩ := Run.bind_eq_ok.mp hrun
      split at hrun
      · exact wired_perform h hrun
      · exact Except.ok.inj hrun ▸ wired_error h

theorem wired_of_run {capacity secondaryFd : Int} {isPrimary : Bool} {lines : List Str}
    (hrun : Run.Runs Stores (fresh capacity isPrimary secondaryFd) lines s) : s.lru.Wired :=
  Run.Runs.invariant (P := fun _ s => s.lru.Wired) wired_init (fun _ _ _ _ h hstep => hstep.wired h) hrun

/-! ### One user -/

theorem getHelper_of_resident {t t' : LRUCache} {found : Option Str} (h : t.Wired)
    (hresident : t.tablets[user]? = some node)
    (hrun : t.getHelper fuel user filename commFd = .ok (found, t')) :
    found = (t.heap node).value[filename]? ∧ t'.tablets = t.tablets ∧
      ∀ r, (t'.heap r).value = (t.heap r).value := by
  rcases getHelper_ok hrun with ⟨habsent, _⟩ | ⟨t₀, r, t₁, t₂, hfetched, hr, hdetach, hmove, hfound, ht'⟩
  · rw [hresident] at habsent
    exact absurd habsent (Option.some_ne_none node)
  · have hvirmem : t.virmemMeta.contains user = false := by
      rw [ExtTreeMap.contains_eq_isSome_getElem?, h.tidy.disjoint user node hresident]
      rfl
    rw [fetched, hvirmem] at hfetched
    obtain rfl : t = t₀ := Except.ok.inj hfetched
    obtain rfl := Option.some.inj (hresident.symm.trans hr)
    obtain ⟨p, n, _, _, rfl⟩ := detach_ok hdetach
    obtain ⟨L, rfl⟩ := moveToTail_relink hmove
    rw [ht']
    exact ⟨hfound, rfl, fun _ => rfl⟩

theorem dele_erases (h : s.lru.Wired) (huser : ',' ∉ user) (hresident : s.lru.tablets[user]? = some node)
    (hfile : (s.lru.heap node).value[filename]? ≠ none)
    (hrun : s.dele fuel ("dele ".toList ++ user ++ ',' :: (filename ++ "\r\n".toList)) external true
      commFd seqNum = .ok s') : (s'.lru.heap node).value[filename]? = none := by
  have harguments : argumentsOf ("dele ".toList ++ (user ++ ',' :: (filename ++ "\r\n".toList))) 5 = _ :=
    argumentsOf_append _ _
  rw [dele, List.append_assoc, harguments, Run.ok_bind, parseLine_two huser] at hrun
  obtain ⟨lru, hexec, hheap, _⟩ := perform_exec hrun
  rw [chopTwo_append] at hexec
  obtain ⟨found, t, hget, hcase⟩ := dele_ok hexec
  obtain ⟨hfound, htablets, hvalues⟩ := getHelper_of_resident h hresident hget
  rcases hcase with ⟨hnone, _⟩ | ⟨value, r, _, hr, hlru⟩
  · exact absurd (hfound.symm.trans hnone) hfile
  · rw [htablets, hresident] at hr
    obtain rfl := Option.some.inj hr
    rw [hheap, hlru]
    change ((t.setValue node ((t.heap node).value.erase filename)).heap node).value[filename]? = none
    rw [setValue_value_self, SortedMap.getElem?_erase_eq, if_pos rfl]

theorem forEachFile_invariant {P : Chunkserver → Prop} {body : Chunkserver → Str → Except Fault Chunkserver}
    (hbody : ∀ s key s', P s → body s key = .ok s' → P s') {key : Option Str} (hs : P s)
    (hrun : s.forEachFile fuel node key body = .ok s') : P s' := by
  induction fuel generalizing s key with
  | zero => cases hrun
  | succ fuel ih =>
      cases key with
      | none => exact Except.ok.inj hrun ▸ hs
      | some key =>
          obtain ⟨t, hfirst, hrun⟩ := Run.bind_eq_ok.mp hrun
          dsimp only at hrun
          split at hrun
          · exact ih (hbody s key t hs hfirst) hrun
          · cases hrun

/-- A loop whose body erases the first element does not get past it. -/
theorem forEachFile_ne_ok {body : Chunkserver → Str → Except Fault Chunkserver} {key : Str}
    (hbody : ∀ t, body s key = .ok t → (t.lru.heap node).value[key]? = none) :
    s.forEachFile fuel node (some key) body ≠ .ok s' := by
  intro hrun
  cases fuel with
  | zero => cases hrun
  | succ fuel =>
      obtain ⟨t, hfirst, hrun⟩ := Run.bind_eq_ok.mp hrun
      have herased : (t.lru.heap node).value.contains key = false := by
        rw [ExtTreeMap.contains_eq_isSome_getElem?, hbody t hfirst]
        rfl
      dsimp only at hrun
      rw [herased] at hrun
      cases hrun

theorem keys_head?_mem {files : Map Str} (hne : files ≠ ∅) :
    ∃ key, files.keys.head? = some key ∧ files[key]? ≠ none := by
  cases hkeys : files.keys with
  | nil => exact absurd (ExtTreeMap.keys_eq_nil_iff.mp hkeys) hne
  | cons key keys =>
      have hmem : key ∈ files := ExtTreeMap.mem_keys.mp (hkeys ▸ List.mem_cons_self)
      exact ⟨key, rfl, by simpa using hmem⟩

theorem migrateData_ne_ok (h : s.lru.Wired) (huser : ',' ∉ user) : s.migrateData fuel user commFd ≠ .ok s' := by
  intro hrun
  obtain ⟨node, hnode, hrun⟩ := Run.bind_eq_ok.mp hrun
  obtain ⟨t, hsends, hrun⟩ := Run.bind_eq_ok.mp hrun
  have ht : t.lru.Wired := by
    refine forEachFile_invariant (P := fun s => s.lru.Wired) ?_ h hsends
    intro s key s' hs hbody
    obtain ⟨⟨found, lru⟩, hget, hbody⟩ := Run.bind_eq_ok.mp hbody
    have hlru := closed_wired.getHelper hs hget
    cases found with
    | none => exact Except.ok.inj hbody ▸ hlru
    | some value => exact Except.ok.inj hbody ▸ hlru.congr rfl rfl rfl fun _ hu => hu
  obtain ⟨node, hnode, hrun⟩ := Run.bind_eq_ok.mp hrun
  have hresident := deref_eq_ok.mp hnode
  obtain ⟨key, hhead, hfile⟩ := keys_head?_mem (ht.occupied user node hresident)
  rw [hhead] at hrun
  refine forEachFile_ne_ok ?_ hrun
  intro t' hbody
  obtain ⟨⟨found, lru⟩, hget, hbody⟩ := Run.bind_eq_ok.mp hbody
  obtain ⟨rfl, htablets, hvalues⟩ := getHelper_of_resident ht hresident hget
  cases hvalue : (t.lru.heap node).value[key]? with
  | none => exact absurd hvalue hfile
  | some value =>
      rw [hvalue] at hbody
      refine dele_erases (closed_wired.getHelper ht hget) huser ?_ ?_ hbody
      · exact htablets ▸ hresident
      · exact (congrArg (·[key]?) (hvalues node)).trans_ne hfile

/-! ### A request for migration -/

def faultOf {α : Type} : Except Fault α → Option Fault
  | .ok _ => none
  | .error fault => some fault

theorem faultOf_eq_none {α : Type} {run : Except Fault α} : faultOf run = none ↔ ∃ a, run = .ok a := by
  cases run <;> simp [faultOf]

/-- The message that stores a file on the node that asked for it. -/
def putMessage (user : Str) (file : Str × Str) : Str :=
  "put ".toList ++ user ++ ',' :: (file.1 ++ ',' :: file.2)

/-- What a node has sent on a descriptor. -/
def sentOn (s : Chunkserver) (commFd : Int) : List Str :=
  (s.lru.sent.filter fun message => message.1 = commFd).map (·.2)

/-- Every file of the users has been sent once, the last message says so, and no file is left. -/
structure Migrated (s s' : Chunkserver) (users : List Str) (commFd : Int) : Prop where
  messages : ∃ puts, puts.Perm (users.flatMap fun u => (s.lru.filesOf u).toList.map (putMessage u)) ∧
    s'.sentOn commFd = s.sentOn commFd ++ puts ++ ["MIGRATION DONE\r\n".toList]
  gone : ∀ user ∈ users, s'.lru.filesOf user = ∅

/-- The request of a new node for a list of users. -/
def migrationRequest (users : List Str) : Str := "REQUEST ".toList ++ Fields.terminate ',' users

theorem substr_migrationRequest (users : List Str) :
    substr (migrationRequest users) 8 ((migrationRequest users).length - 8) =
      .ok (Fields.terminate ',' users) :=
  substr_append "REQUEST ".toList _

theorem dataMigration_eq (husers : ∀ user ∈ users, ',' ∉ user) :
    s.dataMigration fuel (migrationRequest users) commFd =
      users.foldlM (fun s user => s.migrateData fuel user commFd) s >>=
        fun s => .ok (s.send commFd "MIGRATION DONE\r\n".toList) := by
  rw [dataMigration, substr_migrationRequest, Run.ok_bind, Fields.pieces_terminate husers]

/-- A migration moves the users it was asked for iff it was asked for none. -/
theorem migrated_iff {capacity secondaryFd : Int} {isPrimary : Bool} {lines : List Str}
    (hrun : Run.Runs Stores (fresh capacity isPrimary secondaryFd) lines s)
    (husers : ∀ user ∈ users, ',' ∉ user) :
    (∃ fuel s', s.dataMigration fuel (migrationRequest users) commFd = .ok s' ∧
      Migrated s s' users commFd) ↔ users = [] := by
  constructor
  · rintro ⟨fuel, s', hmigration, _⟩
    rw [dataMigration_eq husers] at hmigration
    cases users with
    | nil => rfl
    | cons user users =>
        rw [List.foldlM_cons] at hmigration
        obtain ⟨t, hall, _⟩ := Run.bind_eq_ok.mp hmigration
        obtain ⟨t', hfirst, _⟩ := Run.bind_eq_ok.mp hall
        exact absurd hfirst (migrateData_ne_ok (wired_of_run hrun) (husers user List.mem_cons_self))
  · rintro rfl
    refine ⟨0, _, dataMigration_eq husers, ⟨[], .nil, ?_⟩, fun user huser => absurd huser List.not_mem_nil⟩
    simp [sentOn, send, LRUCache.send]

/-- The line of a client that stores a file. -/
def putLine : Str := "put u,f,v".toList

theorem migrated_iff_put :
    ∃ s, Run.Runs Stores (fresh 10 true 5) [putLine] s ∧
      ((∃ fuel s', s.dataMigration fuel (migrationRequest ["u".toList]) 7 = .ok s' ∧
        Migrated s s' ["u".toList] 7) ↔ ["u".toList] = []) := by
  have hreturns : faultOf ((fresh 10 true 5).put 3 putLine true 7 0) = none := by decide +kernel
  obtain ⟨s, hput⟩ := faultOf_eq_none.mp hreturns
  have hrun : Run.Runs Stores (fresh 10 true 5) [putLine] s := .cons (.put 3 true 7 0 hput) .nil
  refine ⟨s, hrun, migrated_iff hrun ?_⟩
  simp

/-- The file is sent and erased, and the iterator is on the erased element. A user who has stored nothing
has no node. -/
theorem not_migrated_put :
    ∃ s, Run.Runs Stores (fresh 10 true 5) [putLine] s ∧
      faultOf (s.dataMigration 3 (migrationRequest ["u".toList]) 7) = some .danglingIterator ∧
      faultOf (s.dataMigration 3 (migrationRequest ["w".toList]) 7) = some .nullDeref ∧
      ¬ ∃ fuel s', s.dataMigration fuel (migrationRequest ["u".toList]) 7 = .ok s' ∧
        Migrated s s' ["u".toList] 7 := by
  have hfaults : (match (fresh 10 true 5).put 3 putLine true 7 0 with
      | .ok s => decide (
          faultOf (s.dataMigration 3 (migrationRequest ["u".toList]) 7) = some .danglingIterator ∧
          faultOf (s.dataMigration 3 (migrationRequest ["w".toList]) 7) = some .nullDeref)
      | .error _ => false) = true := by
    decide +kernel
  cases hput : (fresh 10 true 5).put 3 putLine true 7 0 with
  | error fault => simp [hput] at hfaults
  | ok s =>
      rw [hput] at hfaults
      obtain ⟨hdangling, hnull⟩ := of_decide_eq_true hfaults
      have hrun : Run.Runs Stores (fresh 10 true 5) [putLine] s := .cons (.put 3 true 7 0 hput) .nil
      refine ⟨s, hrun, hdangling, hnull, ?_⟩
      rintro ⟨fuel, s', hmigration, _⟩
      rw [dataMigration_eq (by simp), List.foldlM_cons] at hmigration
      obtain ⟨t, hall, _⟩ := Run.bind_eq_ok.mp hmigration
      obtain ⟨t', hfirst, _⟩ := Run.bind_eq_ok.mp hall
      exact migrateData_ne_ok (wired_of_run hrun) (by simp) hfirst

end PennCloud.Chunkserver
