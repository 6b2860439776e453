import Mathlib.Data.Prod.Basic
import PennCloud.Kv.Proof.Residents
import PennCloud.Kv.Proof.Restart

/-!
# The list of the files of a user

`getlist` counts all files of a user, and puts the headline in front of the first of them: it is missing when that file
is not of the type that was asked for. A user on disk has no list at all.
-/

namespace PennCloud.LRUCache

open Std

variable {s : LRUCache} {user type : Str} {files : Map Str} {wanted : Str → Bool} {entry : Str → Str → Str}

/-- The entries of the files that are wanted, in the order of their names. -/
def entries (wanted : Str → Bool) (entry : Str → Str → Str) (files : Map Str) : Str :=
  (files.toList.filter fun file => wanted file.1).flatMap fun file => entry file.1 file.2

/-- A list of all files of a type. -/
def completeList (type : Str) (files : Map Str) : Str :=
  "+OK list as follows: \r\n".toList ++ entries (isOfType type) typeEntry files

/-- Whether the first file of all is wanted. -/
def firstWanted (wanted : Str → Bool) (files : Map Str) : Bool := files.toList.head?.any fun file => wanted file.1

/-- The files of a user, in a node or in a row on disk. -/
inductive Lives (s : LRUCache) (user : Str) (files : Map Str) : Prop where
  | resident (r : Ref) (node : s.tablets[user]? = some r) (value : (s.heap r).value = files)
  | evicted (absent : s.tablets[user]? = none) (virmem : s.virmemMeta[user]? ≠ none)
      (row : readRow s.disk .virtualMemory (s.virmemMeta.getD user []) = .ok (formatNode files).1)

theorem flatten_listed {n : Nat} (hn : n ≠ 0) (files : List (Str × Str)) :
    ((files.zipIdx n).flatMap (listed wanted entry)).flatten =
      (files.filter fun file => wanted file.1).flatMap fun file => entry file.1 file.2 := by
  induction files generalizing n with
  | nil => rfl
  | cons file files ih =>
      rw [List.zipIdx_cons, List.flatMap_cons, List.flatten_append, ih (Nat.succ_ne_zero n), List.filter_cons, listed,
        if_neg hn]
      split
      · rw [List.nil_append, List.flatten_singleton, List.flatMap_cons]
      · rfl

theorem flatten_listing (wanted : Str → Bool) (entry : Str → Str → Str) (files : Map Str) :
    (listing wanted entry files).flatten =
      (if firstWanted wanted files then "+OK list as follows: \r\n".toList else []) ++ entries wanted entry files := by
  rw [listing, entries, firstWanted]
  cases files.toList with
  | nil => rfl
  | cons file files =>
      rw [List.zipIdx_cons, List.flatMap_cons, List.flatten_append, flatten_listed (Nat.succ_ne_zero 0), List.filter_cons,
        listed, List.head?_cons, Option.any_some]
      cases hwanted : wanted file.1 with
      | false => rfl
      | true =>
          rw [if_pos rfl, if_pos rfl, if_pos rfl, List.flatten_append, List.flatten_singleton, List.flatten_singleton,
            List.append_assoc, if_pos rfl, List.flatMap_cons]

theorem listText_eq_complete_iff :
    (listing (isOfType type) typeEntry files).flatten = completeList type files ↔ firstWanted (isOfType type) files = true := by
  have hfront (b : Bool) {front : Str} (hne : front ≠ []) (rest : Str) :
      (if b then front else []) ++ rest = front ++ rest ↔ b = true := by
    rw [List.append_cancel_right_eq]
    cases b with
    | true => exact iff_of_true rfl rfl
    | false => exact iff_of_false hne.symm Bool.false_ne_true
  rw [flatten_listing]
  exact hfront _ (by decide) _

/-- The reply is complete for a user in memory whose first file is of the type. -/
theorem getlist_complete_iff {capacity fd : Int} {isPrimary optN : Bool} {disk : Disk} {startFuel : Nat}
    {node₀ node : Chunkserver} {rounds : List Chunkserver.Round}
    (hstart : (Chunkserver.boot capacity isPrimary fd disk).initialization startFuel optN = .ok node₀)
    (hreached : Run.Runs Chunkserver.Takes node₀ rounds node) (hlives : node.lru.Lives user files)
    (fuel : Nat) (commFd : Int) :
    ∃ (lru : LRUCache) (texts : List Str), node.lru.getlist fuel user type commFd = .ok lru ∧
      lru.sent = node.lru.sent ++ texts.map (Prod.mk commFd) ∧
      (texts.flatten = completeList type files ↔
        node.lru.tablets[user]? ≠ none ∧ firstWanted (isOfType type) files = true) := by
  have hwired := Chunkserver.wired_rounds hstart hreached
  cases hlives with
  | resident r hresident hvalue =>
      obtain ⟨lru, hrun⟩ := hwired.listFiles_returns hresident fuel commFd (isOfType type) typeEntry
      refine ⟨lru, _, hrun, sent_listFiles hwired hresident hrun, ?_⟩
      rw [hvalue, listText_eq_complete_iff, hresident]
      exact (and_iff_right (Option.some_ne_none r)).symm
  | evicted habsent _ _ =>
      refine ⟨node.lru.servermsg "-ERR User not exist\r\n" commFd, ["-ERR User not exist\r\n".toList], ?_, rfl, ?_⟩
      · rw [getlist_eq, listFiles, habsent]
      · refine iff_of_false (fun heq => ?_) fun h => h.1 habsent
        have hplus : (completeList type files).head? = some '+' := rfl
        rw [← heq] at hplus
        exact absurd hplus (by decide)

/-- The rounds of a client. -/
def serve (node : Chunkserver) : Chunkserver.Round → Except Fault Chunkserver
  | .client commFd buffer => node.worker 5 commFd buffer
  | _ => .error .exited

def mailRun (rounds : List Chunkserver.Round) : Except Fault (Chunkserver × Chunkserver) := do
  let node₀ ← (Chunkserver.boot 100 true 5 Disk.empty).initialization 5 true
  let node ← rounds.foldlM serve node₀
  .ok (node₀, node)

def mailEnds (files : List (Str × Str)) : Chunkserver × Chunkserver → Bool
  | (_, node) => decide (node.lru.tablets["u".toList]? = some (.node 0) ∧ (node.lru.heap (.node 0)).value.toList = files)

theorem runs_of_mailRun {rounds : List Chunkserver.Round} {node₀ node : Chunkserver}
    (hrun : mailRun rounds = .ok (node₀, node)) :
    (Chunkserver.boot 100 true 5 Disk.empty).initialization 5 true = .ok node₀ ∧
      Run.Runs Chunkserver.Takes node₀ rounds node := by
  obtain ⟨_, hstart, hrest⟩ := Run.bind_eq_ok.mp hrun
  obtain ⟨_, hserved, hrest⟩ := Run.bind_eq_ok.mp hrest
  cases hrest
  refine ⟨hstart, Run.Runs.of_foldlM (fun round _ s s' hserve => ?_) hserved⟩
  cases round with
  | client commFd buffer => exact ⟨5, hserve⟩
  | primary sockFd buffer => cases hserve
  | checkpoint => cases hserve

/-- The puts of two mails and a file. -/
def twoMails : List Chunkserver.Round :=
  [.client 7 "put u,a,z\r\n".toList, .client 7 "put u,##n,y\r\n".toList, .client 7 "put u,##m,x\r\n".toList]

def twoMailsFiles : List (Str × Str) :=
  [("##m".toList, "x\r\n".toList), ("##n".toList, "y\r\n".toList), ("a".toList, "z\r\n".toList)]

theorem getlist_complete_iff_two_mails : ∃ (node : Chunkserver) (files : Map Str) (lru : LRUCache) (texts : List Str),
    files.toList = twoMailsFiles ∧ node.lru.getlist 5 "u".toList "email".toList 7 = .ok lru ∧
    lru.sent = node.lru.sent ++ texts.map (Prod.mk 7) ∧ texts.flatten = completeList "email".toList files := by
  have hends : (mailRun twoMails).toOption.any (mailEnds twoMailsFiles) = true := by decide +kernel
  cases hrun : mailRun twoMails with
  | error fault => exact absurd hends (by rw [hrun]; exact Bool.false_ne_true)
  | ok states =>
      obtain ⟨node₀, node⟩ := states
      rw [hrun] at hends
      obtain ⟨hresident, hfiles⟩ := of_decide_eq_true hends
      obtain ⟨hstart, hreached⟩ := runs_of_mailRun hrun
      obtain ⟨lru, texts, hlist, hsent, hcomplete⟩ := @getlist_complete_iff _ "email".toList _ _ _ _ _ _ _ _ _ _
        hstart hreached (.resident _ hresident rfl) 5 7
      refine ⟨node, _, lru, texts, hfiles, hlist, hsent, hcomplete.mpr ⟨?_, ?_⟩⟩
      · rw [hresident]
        exact Option.some_ne_none _
      · rw [firstWanted, hfiles]
        rfl

/-- A file in front of the mail takes the headline away. -/
theorem not_getlist_complete :
    ¬ ∀ (node₀ node : Chunkserver) (rounds : List Chunkserver.Round) (user type : Str) (files : Map Str),
      (Chunkserver.boot 100 true 5 Disk.empty).initialization 5 true = .ok node₀ →
      Run.Runs Chunkserver.Takes node₀ rounds node → node.lru.Lives user files →
      (∃ filename ∈ files, isOfType type filename = true) →
      ∃ (fuel : Nat) (lru : LRUCache) (texts : List Str), node.lru.getlist fuel user type 7 = .ok lru ∧
        lru.sent = node.lru.sent ++ texts.map (Prod.mk 7) ∧ texts.flatten = completeList type files := by
  intro hall
  have hends : (mailRun [.client 7 "put u,!a,x\r\n".toList, .client 7 "put u,##m,x\r\n".toList]).toOption.any
      (mailEnds [("!a".toList, "x\r\n".toList), ("##m".toList, "x\r\n".toList)]) = true := by decide +kernel
  cases hrun : mailRun [.client 7 "put u,!a,x\r\n".toList, .client 7 "put u,##m,x\r\n".toList] with
  | error fault => exact absurd hends (by rw [hrun]; exact Bool.false_ne_true)
  | ok states =>
      obtain ⟨node₀, node⟩ := states
      rw [hrun] at hends
      obtain ⟨hresident, hfiles⟩ := of_decide_eq_true hends
      obtain ⟨hstart, hreached⟩ := runs_of_mailRun hrun
      have hmail : "##m".toList ∈ (node.lru.heap (.node 0)).value := by
        have hentry : ("##m".toList, "x\r\n".toList) ∈ (node.lru.heap (.node 0)).value.toList := by
          rw [hfiles]
          exact List.mem_cons_of_mem _ List.mem_cons_self
        have hvalue := ExtTreeMap.mem_toList_iff_getElem?_eq_some.mp hentry
        exact ExtTreeMap.isSome_getElem?_iff_mem.mp (Option.isSome_of_eq_some hvalue)
      obtain ⟨fuel, lru, texts, hlist, hsent, hcomplete⟩ := hall node₀ node _ "u".toList "email".toList _ hstart hreached
        (.resident _ hresident rfl) ⟨_, hmail, rfl⟩
      have hlisting := sent_listFiles (Chunkserver.wired_rounds hstart hreached) hresident hlist
      rw [hsent] at hlisting
      obtain rfl : texts = _ := List.map_injective_iff.mpr (Prod.mk_right_injective (7 : Int)) (List.append_cancel_left hlisting)
      have hfirst := listText_eq_complete_iff.mp hcomplete
      rw [firstWanted, hfiles] at hfirst
      exact absurd hfirst (by decide)

end PennCloud.LRUCache
