import PennCloud.Kv.Identity
import PennCloud.Kv.Proof.Migration
import PennCloud.Kv.Proof.Numbers
import PennCloud.Master.Proof.Joins

/-!
# A list of users on its way

The master tells a new node which users to ask another node for. The list goes through a datagram, a C string and a
request. It arrives as long as the datagram fits into the buffer of the new node.
-/

namespace PennCloud

open Chunkserver Master

variable {ip text rest : Str} {port : Int} {users : List Str}

/-- The list comes out of the reply with the address, and out of the request. -/
def Survives (reply ip : Str) (port : Int) (users : List Str) : Prop :=
  ∃ list, contactMaster reply = .ok (.newcomer ip port list) ∧ requestedUsers (cstr (requestData list)) = .ok users

/-- An address as `inet_ntoa` and `ntohs` give it. -/
structure IsAddress (ip : Str) (port : Int) : Prop where
  ip : ∀ c ∈ ip, c.isDigit = true ∨ c = '.'
  port : 0 ≤ port ∧ port < 2 ^ 16

/-- The reply to a node that the master does not know yet. -/
def announcement (ip : Str) (port : Int) (users : List Str) : Str :=
  "P ".toList ++ (ip ++ ':' :: toStr port) ++ ',' :: Fields.terminate ',' users

theorem IsAddress.notMem (h : IsAddress ip port) {c : Char} (hdigit : c.isDigit = false) (hdot : c ≠ '.') : c ∉ ip := by
  intro hmem
  rcases h.ip c hmem with hc | hc
  · exact absurd (hdigit.symm.trans hc) Bool.false_ne_true
  · exact hdot hc

theorem IsAddress.notMem_front (h : IsAddress ip port) {c : Char} (hdigit : c.isDigit = false) (hdot : c ≠ '.') (hminus : c ≠ '-')
    (hfixed : c ∉ "P :".toList) : c ∉ "P ".toList ++ (ip ++ ':' :: toStr port) := by
  have hsplit : c ∉ "P ".toList ∧ c ≠ ':' := by
    constructor <;> rintro hc
    · exact hfixed (List.mem_append_left [':'] hc)
    · exact hfixed (hc ▸ List.mem_append_right "P ".toList (List.mem_singleton_self ':'))
  intro hmem
  rcases List.mem_append.mp hmem with hmem | hmem
  · exact hsplit.1 hmem
  · rcases List.mem_append.mp hmem with hmem | hmem
    · exact h.notMem hdigit hdot hmem
    · exact (List.mem_cons.mp hmem).elim hsplit.2 (notMem_toStr hdigit hminus)

theorem notMem_terminate {c : Char} (hc : c ≠ ',') (husers : ∀ user ∈ users, c ∉ user) : c ∉ Fields.terminate ',' users := by
  intro hmem
  obtain ⟨user, huser, hmem⟩ := List.mem_flatMap.mp hmem
  exact (List.mem_append.mp hmem).elim (husers user huser) fun hmem => hc (List.mem_singleton.mp hmem)

theorem requestedUsers_requestData (list : Str) : requestedUsers (requestData list) = .ok (Fields.pieces ',' list) := by
  have htext : substr (requestData list) 8 ((requestData list).length - 8) = .ok list := substr_append "REQUEST ".toList list
  rw [requestedUsers, htext, Run.ok_bind]

theorem worker_requestData (s : Chunkserver) (fuel : Nat) (commFd : Int) (list : Str) :
    s.worker fuel commFd (requestData list) = requestedUsers (cstr (requestData list)) >>= fun users =>
      users.foldlM (fun s user => s.migrateData fuel user commFd) s >>=
        fun s => .ok (s.send commFd "MIGRATION DONE\r\n".toList) := by
  have hcstr : cstr (requestData list) = "REQUEST".toList ++ ' ' :: cstr list := cstr_append (by decide : '\x00' ∉ "REQUEST ".toList) list
  have hcommand : parseCommand (cstr (requestData list)) = .ok "request".toList := by
    rw [hcstr]
    exact parseCommand_append "REQUEST".toList (by decide) (by decide) _
  rw [worker_request hcommand, dataMigration, requestedUsers, bind_assoc]
  rfl

theorem parseIpAndPort_address (h : IsAddress ip port) (hcolon : ':' ∉ rest) (hends : EndsNumber rest) :
    parseIpAndPort [] (ip ++ ':' :: (toStr port ++ rest)) = .ok (ip, port) := by
  have hip : ':' ∉ ip := h.notMem (by decide) (by decide)
  have hback : ':' ∉ toStr port ++ rest := by
    intro hmem
    exact (List.mem_append.mp hmem).elim (notMem_toStr (by decide) (by decide)) hcolon
  have hmax : intMax = 2 ^ 31 - 1 := rfl
  have hport := h.port
  rw [parseIpAndPort, Fields.remainder_append_cons hip, Fields.remainder_of_notMem hback, Fields.pieces_append_cons hip,
    Fields.pieces_of_notMem hback, stoi_toStr hends (by omega) (by omega), Run.ok_bind, Int.emod_eq_of_lt h.port.1 (by omega)]
  rfl

theorem confirmIdentity_announcement (h : IsAddress ip port) (hnul : ∀ user ∈ users, '\x00' ∉ user)
    (hcolon : ∀ user ∈ users, ':' ∉ user) :
    confirmIdentity (announcement ip port users) = .ok (.newcomer ip port (Fields.terminate ',' users)) := by
  have hcstr : cstr (announcement ip port users) = announcement ip port users := by
    refine cstr_of_notMem fun hmem => ?_
    rcases List.mem_append.mp hmem with hmem | hmem
    · exact h.notMem_front (by decide) (by decide) (by decide) (by decide) hmem
    · exact (List.mem_cons.mp hmem).elim (by decide) (notMem_terminate (by decide) hnul)
  have hne : announcement ip port users ≠ "P".toList := fun heq => absurd (List.cons.inj heq).2 (List.cons_ne_nil _ _)
  have hblank : ((announcement ip port users).drop 1).head? = some ' ' := rfl
  have hsubstr : substr (announcement ip port users) 2 ("P ".toList ++ (ip ++ ':' :: toStr port)).length =
      .ok (ip ++ ':' :: (toStr port ++ (',' :: Fields.terminate ',' users).take 2)) := by
    have hshape : ∀ front back : Str, substr ("P ".toList ++ front ++ back) 2 ("P ".toList ++ front).length = .ok (front ++ back.take 2) := by
      intro front back
      have hdrop : ("P ".toList ++ (front ++ back)).drop 2 = front ++ back := rfl
      rw [substr, if_neg (by simp), List.append_assoc, hdrop, List.take_append, List.length_append,
        List.take_of_length_le (by omega), 
        show "P ".toList.length + front.length - front.length = 2 from Nat.add_sub_cancel ..]
    rw [announcement, hshape, List.append_assoc]
    rfl
  have htwo : ':' ∉ (',' :: Fields.terminate ',' users).take 2 := by
    intro hmem
    exact (List.mem_cons.mp (List.mem_of_mem_take hmem)).elim (by decide) (notMem_terminate (by decide) hcolon)
  rw [confirmIdentity, hcstr]
  dsimp only
  rw [if_neg hne, if_pos hblank, announcement, Fields.cut_append (h.notMem_front (by decide) (by decide) (by decide) (by decide))]
  dsimp only
  rw [← announcement, hsubstr, Run.ok_bind, parseIpAndPort_address h htwo (endsNumber_cons (by decide)), Run.ok_bind]

/-- A beginning of the announcement that names the whole list is all of it. -/
theorem eq_announcement {reply list : Str} (h : IsAddress ip port) (hstarts : cstr reply <+: announcement ip port users)
    (hconfirm : confirmIdentity reply = .ok (.newcomer ip port list))
    (hlist : requestedUsers (cstr (requestData list)) = .ok users) : cstr reply = announcement ip port users := by
  have hcut : ∃ front, cstr reply = front ++ ',' :: list ∧ ',' ∉ front := by
    rw [confirmIdentity] at hconfirm
    dsimp only at hconfirm
    split at hconfirm
    · cases hconfirm
    · split at hconfirm
      · split at hconfirm
        · next front rest hcut =>
            obtain ⟨_, _, hconfirm⟩ := Run.bind_eq_ok.mp hconfirm
            obtain ⟨_, _, hconfirm⟩ := Run.bind_eq_ok.mp hconfirm
            cases hconfirm
            exact ⟨front, Fields.cut_eq_some.mp hcut⟩
        · cases hconfirm
      · obtain ⟨_, _, hconfirm⟩ := Run.bind_eq_ok.mp hconfirm
        obtain ⟨_, _, hconfirm⟩ := Run.bind_eq_ok.mp hconfirm
        cases hconfirm
  obtain ⟨front, hreply, hfront⟩ := hcut
  obtain ⟨back, hback⟩ := hstarts
  have hnul : '\x00' ∉ requestData list := by
    intro hmem
    rcases List.mem_append.mp hmem with hmem | hmem
    · exact absurd hmem (by decide)
    · apply notMem_cstr reply
      rw [hreply]
      exact List.mem_append_right _ (List.mem_cons_of_mem _ hmem)
  rw [cstr_of_notMem hnul, requestedUsers_requestData] at hlist
  have hwhole : Fields.cut ',' (announcement ip port users) = some (front, list ++ back) := by
    rw [← hback, hreply, List.append_assoc, List.cons_append, Fields.cut_append hfront]
  rw [announcement, Fields.cut_append (h.notMem_front (by decide) (by decide) (by decide) (by decide))] at hwhole
  obtain ⟨_, hrest⟩ := Prod.mk.inj (Option.some.inj hwhole)
  have hfields := (Fields.terminate_pieces_append (d := ',') list).1
  rw [Except.ok.inj hlist] at hfields
  rw [← hfields, List.append_assoc] at hrest
  have hnil := List.append_right_eq_self.mp hrest.symm
  rw [← hback, (List.append_eq_nil_iff.mp hnil).2, List.append_nil]

/-- The list survives iff the datagram fits and no name ends it as a C string. -/
theorem survives_iff {m : Master} {id : Int} {server : Server} (husers : m.users.isEmpty = false)
    (haddress : IsAddress (m.servers.getD (getServerId m.servers id) Pair.blank).primary.ip
      (m.servers.getD (getServerId m.servers id) Pair.blank).primary.port)
    (hnames : ∀ user ∈ m.listedUsers id, ',' ∉ user ∧ ':' ∉ user) :
    Survives (m.joinNew id server).2 (m.servers.getD (getServerId m.servers id) Pair.blank).primary.ip
        (m.servers.getD (getServerId m.servers id) Pair.blank).primary.port (m.listedUsers id) ↔
      (m.joinNew id server).2.length ≤ feedbackSize ∧ ∀ user ∈ m.listedUsers id, '\x00' ∉ user := by
  have hreply : (m.joinNew id server).2 = announcement (m.servers.getD (getServerId m.servers id) Pair.blank).primary.ip
      (m.servers.getD (getServerId m.servers id) Pair.blank).primary.port (m.listedUsers id) := by
    rw [joinNew_reply, listing, husers, if_neg Bool.false_ne_true, announcement, Server.address, List.append_assoc]
    rfl
  rw [hreply, Survives, contactMaster]
  generalize (m.servers.getD (getServerId m.servers id) Pair.blank).primary = dest at haddress ⊢
  generalize m.listedUsers id = users at hnames ⊢
  constructor
  · rintro ⟨list, hconfirm, hlist⟩
    have hstarts : cstr ((announcement dest.ip dest.port users).take feedbackSize) <+: announcement dest.ip dest.port users :=
      (List.takeWhile_prefix _).trans (List.take_prefix _ _)
    have hall := eq_announcement haddress hstarts hconfirm hlist
    refine ⟨?_, fun user huser hmem => ?_⟩
    · rw [← hall]
      exact (List.takeWhile_prefix _).length_le.trans (List.length_take_le _ _)
    · have hnul := notMem_cstr ((announcement dest.ip dest.port users).take feedbackSize)
      rw [hall] at hnul
      apply hnul
      exact List.mem_append_right _ (List.mem_cons_of_mem _ (List.mem_flatMap.mpr ⟨user, huser, List.mem_append_left _ hmem⟩))
  · rintro ⟨hfits, hnul⟩
    refine ⟨Fields.terminate ',' users, ?_, ?_⟩
    · rw [List.take_of_length_le hfits]
      exact confirmIdentity_announcement haddress hnul fun user huser => (hnames user huser).2
    · have hrequest : '\x00' ∉ requestData (Fields.terminate ',' users) := fun hmem =>
        (List.mem_append.mp hmem).elim (by decide) (notMem_terminate (by decide) hnul)
      rw [cstr_of_notMem hrequest, requestedUsers_requestData, Fields.pieces_terminate fun user huser => (hnames user huser).1]

/-- A master that knows one node and these users of it. -/
def crowded (users : List Str) : Master :=
  ⟨(∅ : Servers).insert 80000 ⟨.sender 80000 "10.0.0.1".toList 5000, Server.blank⟩,
    (∅ : Users).insert 80000 (Std.ExtTreeSet.ofList users), ∅⟩

theorem isAddress_crowded (users : List Str) :
    IsAddress (((crowded users).servers.getD (getServerId (crowded users).servers 85000) Pair.blank).primary.ip)
      ((crowded users).servers.getD (getServerId (crowded users).servers 85000) Pair.blank).primary.port := by
  have hall : "10.0.0.1".toList.all (fun c => c.isDigit || c = '.') = true := by decide
  have hip : ∀ c ∈ "10.0.0.1".toList, c.isDigit = true ∨ c = '.' := by
    intro c hc
    simpa using List.all_eq_true.mp hall c hc
  have hport : (0 : Int) ≤ 5000 ∧ (5000 : Int) < 2 ^ 16 := by decide
  exact ⟨hip, hport⟩

theorem survives_iff_two :
    Survives ((crowded ["u".toList, "v".toList]).joinNew 85000 Server.blank).2 "10.0.0.1".toList 5000
        ["u".toList, "v".toList] := by
  have hlisted : (crowded ["u".toList, "v".toList]).listedUsers 85000 = ["u".toList, "v".toList] := by decide +kernel
  have hsurvives : Survives ((crowded ["u".toList, "v".toList]).joinNew 85000 Server.blank).2 _ _
      ((crowded ["u".toList, "v".toList]).listedUsers 85000) ↔ _ :=
    survives_iff rfl (isAddress_crowded _) (by rw [hlisted]; decide)
  rw [hlisted] at hsurvives
  exact hsurvives.mpr ⟨by decide +kernel, by decide⟩

/-- One name of 255 bytes. -/
def longName : Str := "user0".toList ++ List.replicate 250 'x'

/-- A name that does not fit takes its comma with it, and the list is empty. -/
theorem not_survives_longName :
    ¬ ∀ (m : Master) (id : Int) (server : Server), m.users.isEmpty = false →
      IsAddress (m.servers.getD (getServerId m.servers id) Pair.blank).primary.ip
        (m.servers.getD (getServerId m.servers id) Pair.blank).primary.port →
      (∀ user ∈ m.listedUsers id, user ≠ [] ∧ ',' ∉ user ∧ ':' ∉ user) →
      Survives (m.joinNew id server).2 (m.servers.getD (getServerId m.servers id) Pair.blank).primary.ip
        (m.servers.getD (getServerId m.servers id) Pair.blank).primary.port (m.listedUsers id) := by
  intro hall
  have hlisted : (crowded [longName]).listedUsers 85000 = [longName] := by decide +kernel
  obtain ⟨list, hconfirm, hlist⟩ := hall (crowded [longName]) 85000 Server.blank rfl (isAddress_crowded _)
    (by rw [hlisted]; decide +kernel)
  have hname : (contactMaster ((crowded [longName]).joinNew 85000 Server.blank).2).toOption =
      some (.newcomer "10.0.0.1".toList 5000 (longName.take 238)) := by decide +kernel
  rw [hconfirm] at hname
  cases Option.some.inj hname
  rw [hlisted] at hlist
  have hnone : (requestedUsers (cstr (requestData (longName.take 238)))).toOption = some [] := by decide +kernel
  rw [hlist] at hnone
  exact absurd (Option.some.inj hnone) (List.cons_ne_nil _ _)

end PennCloud
