import PennCloud.Kv.Proof.Alike
import PennCloud.Kv.Proof.Counters
import PennCloud.Kv.Proof.Exchange
import PennCloud.Kv.Proof.Snapshot

/-!
# A cache that has room for everything

A cache whose counters are exact holds a store. A command that finds room does to it what the store says, and leaves the disk and
the chunk counters as they are. What the cache holds is then also what a checkpoint of it describes.
-/

namespace PennCloud.LRUCache

open DList Std Run

variable {s s' t : LRUCache} {store : Store} {user : Str} {commFd : Int} {fuel : Nat} {op : Op}

/-! ### What a command leaves alone -/

theorem Alike.get {filename : Str} (h : Alike s t) : Related Alike (s.get fuel user filename commFd) (t.get fuel user filename commFd) := by
  refine Related.bind (R := AlikeWith) h.getHelper ?_
  rintro ⟨found, s'⟩ ⟨_, t'⟩ ⟨rfl, h'⟩
  cases found with
  | none => exact .ok h'
  | some value => exact .ok ((h'.send ..).send ..)

theorem Alike.exec (h : Alike s t) (op : Op) : Related Alike (s.exec fuel op) (t.exec fuel op) := by
  cases op with
  | put => exact h.put
  | get => exact h.get
  | cput => exact h.cput
  | dele => exact h.dele
  | rename => exact h.rename

/-- Either something has been written to a file, or the disk, the chunk counters and the users with a size are as described. -/
def Calm (disk : Disk) (info : ChunkType → List Int) (named : Str → Prop) (s : LRUCache) : Prop :=
  s.syscalls ≠ [] ∨ s.disk = disk ∧ s.chunkInfo = info ∧ ∀ u, u ∈ s.userSize → named u

section Calm

variable {disk : Disk} {info : ChunkType → List Int} {named : Str → Prop}

theorem Calm.congr (h : Calm disk info named s) (hsyscalls : s'.syscalls = s.syscalls) (hdisk : s'.disk = s.disk)
    (hinfo : s'.chunkInfo = s.chunkInfo) (hsizes : ∀ u, u ∈ s'.userSize → named u ∨ u ∈ s.userSize) : Calm disk info named s' := by
  refine h.imp (fun hwritten => by rwa [hsyscalls]) fun hcalm => ?_
  exact ⟨hdisk.trans hcalm.1, hinfo.trans hcalm.2.1, fun u hu => (hsizes u hu).elim id (hcalm.2.2 u)⟩

theorem Calm.same (h : Calm disk info named s) (hsyscalls : s'.syscalls = s.syscalls) (hdisk : s'.disk = s.disk)
    (hinfo : s'.chunkInfo = s.chunkInfo) (hsizes : s'.userSize = s.userSize) : Calm disk info named s' :=
  h.congr hsyscalls hdisk hinfo fun _ hu => Or.inr (hsizes ▸ hu)

theorem mem_insert_userSize {sizes : Map Int} {n : Int} {u : Str} (huser : named user) (hu : u ∈ sizes.insert user n) :
    named u ∨ u ∈ sizes := by
  rw [ExtTreeMap.mem_insert, Std.compare_eq_iff_eq] at hu
  rcases hu with rfl | hu
  · exact Or.inl huser
  · exact Or.inr hu

theorem Calm.discharged (h : Calm disk info named s) (huser : named user) (size : Int) :
    Calm disk info named (s.discharged user size) :=
  h.congr rfl rfl rfl fun _ hu => mem_insert_userSize huser hu

theorem Calm.touched (h : Calm disk info named s) (huser : named user) (external isCPUT : Bool) :
    Calm disk info named (s.touched user external isCPUT) := by
  cases external with
  | true => exact h.congr rfl rfl rfl fun _ hu => mem_insert_userSize huser hu
  | false =>
      cases isCPUT with
      | true => exact h.congr rfl rfl rfl fun _ hu => mem_insert_userSize huser hu
      | false => exact h

theorem Calm.charged {value : Str} {external isCPUT : Bool} {seqNum : Int} (h : Calm disk info named s) (huser : named user) :
    Calm disk info named (s.charged user value commFd external isCPUT seqNum) := by
  rw [charged_eq]
  refine h.congr rfl rfl rfl fun u hu => ?_
  split at hu
  · exact mem_insert_userSize huser hu
  · exact Or.inr hu

theorem steady_calm (huser : named user) : Steady (Calm disk info named) (fun _ => True) (fun _ _ => True) user commFd where
  inner := trivial
  touched _ external isCPUT h := h.touched huser external isCPUT
  overQuota _ h := h
  oversized _ h := h
  charged _ _ _ _ _ _ h := h.charged huser
  cleared _ h := h
  insert _ _ _ _ _ h _ _ hrun := by
    obtain ⟨p, _, rfl⟩ := insertUser_ok hrun
    exact h
  store _ _ _ _ _ _ _ h hrun := by
    obtain ⟨r, _, hrun⟩ := Run.bind_eq_ok.mp hrun
    obtain ⟨L, rfl⟩ := moveToTail_relink hrun
    exact h
  evict _ _ _ hrun := Or.inl (useVirtualMemory_syscalls hrun)
  pairs _ _ _ := trivial

theorem Calm.exec (h : Calm disk info named s) (huser : named op.user) (hrun : s.exec fuel op = .ok s') :
    Calm disk info named s' := by
  have hget {user filename : Str} {commFd : Int} {found : Option Str} {t : LRUCache} (huser : named user)
      (hrun : s.getHelper fuel user filename commFd = .ok (found, t)) (sent : List (Int × Str)) :
      Calm disk info named { t with sent := sent } := by
    have ht : Calm disk info named t :=
      (steady_calm huser).getHelper (fun _ _ ht => ht) (fun _ ht => ht) (fun _ ht => ht) h hrun
    exact ht
  cases op with
  | put user filename value commFd seqNum => exact (steady_calm huser).put trivial h trivial hrun
  | get user filename commFd =>
      obtain ⟨found, t, hrun, hs'⟩ := get_ok hrun
      rw [hs']
      exact hget huser hrun _
  | cput user filename oldValue newValue commFd seqNum =>
      obtain ⟨found, t, hrun, hcase⟩ := cput_ok hrun
      have ht : Calm disk info named t := hget huser hrun t.sent
      rcases hcase with ⟨_, hs'⟩ | ⟨_, stored, hput⟩
      · rw [hs']
        exact ht
      · refine (steady_calm huser).putHelper (fun s s' hs hload => ?_) trivial (ht.discharged huser _) trivial hput
        exact (steady_calm huser).loadUserFromDisk hs hload
  | dele user filename commFd seqNum isMigration =>
      obtain ⟨found, t, hrun, hcase⟩ := dele_ok hrun
      have ht : Calm disk info named t := hget huser hrun t.sent
      rcases hcase with ⟨_, rfl⟩ | ⟨value, r, _, _, hs'⟩
      · exact ht
      · rw [hs']
        exact ht.discharged huser _
  | rename user oldFilename newFilename commFd seqNum =>
      obtain ⟨found, t, hrun, hcase⟩ := rename_ok hrun
      have ht : Calm disk info named t := hget huser hrun t.sent
      rcases hcase with ⟨_, rfl⟩ | ⟨value, r, _, _, hs'⟩
      · exact ht
      · rw [hs']
        exact ht

end Calm

/-- What a command that evicts nobody leaves alone. -/
structure Spares (s s' : LRUCache) (user : Str) : Prop where
  disk : s'.disk = s.disk
  chunkInfo : s'.chunkInfo = s.chunkInfo
  named : ∀ u, u ∈ s'.userSize → u = user ∨ u ∈ s.userSize

theorem Settled.spares (h : s.Settled) (hroom : s.HasRoom op) (hrun : s.exec fuel op = .ok s') :
    Spares s s' op.user := by
  -- the same state with nothing on record
  have halike : Alike s { s with syscalls := [] } := ⟨_, _, _, _, rfl⟩
  obtain ⟨t, hexec, ht⟩ := (halike.exec op).exists_ok hrun
  have hsettled : ({ s with syscalls := [] } : LRUCache).Settled := h.congr rfl rfl rfl rfl
  have hroom' : ({ s with syscalls := [] } : LRUCache).HasRoom op := by
    cases op <;> exact hroom
  have hnothing : t.syscalls = [] := (hsettled.obeys_of_exec hroom' hexec).sets.syscalls
  have hstart : Calm s.disk s.chunkInfo (fun u => u = op.user ∨ u ∈ s.userSize) { s with syscalls := [] } :=
    Or.inr ⟨rfl, rfl, fun _ hu => Or.inr hu⟩
  obtain ⟨hdisk, hinfo, hnamed⟩ := (hstart.exec (Or.inl rfl) hexec).resolve_left fun hsome => hsome hnothing
  have hlog := (answers_exec hrun).log
  obtain ⟨_, _, _, _, rfl⟩ := ht
  refine ⟨?_, hinfo, hnamed⟩
  have hfiles := congrArg Disk.files hdisk
  calc s'.disk = ⟨s'.disk.files, s'.disk.log⟩ := rfl
    _ = ⟨s.disk.files, s.disk.log⟩ := by rw [hlog]; exact congrArg (Disk.mk · s.disk.log) hfiles

/-! ### The cache and the store -/

/-- A cache that holds a store, with exact counters and nobody on disk. Names have none of the separators of the metadata, and
names of files and values no commas. -/
structure Stocked (s : LRUCache) (store : Store) : Prop where
  tallied : s.Tallied
  contents : s.filesOf = store
  small : s.capacity ≤ intMax
  roomy : (s.residentTotal : Int) ≤ s.capacity
  plain : ∀ u, Plain (store u)
  named : ∀ u, store u ≠ ∅ ∨ u ∈ s.userSize → Unseparated u
  counters : ∀ type, (s.chunkInfo type).length ≤ 2 ∧ ∀ n ∈ s.chunkInfo type, IsInt n
  bare : s.disk.files .virtualMemory = ∅ ∧ s.disk.files .cpVirtualMemory = ∅

/-- A read, or a write other than a rename that brings no separator and finds room next to all that is in memory. -/
def Admits (s : LRUCache) : Op → Prop
  | .put user filename value _ _ => Unseparated user ∧ ',' ∉ filename ∧ ',' ∉ value ∧ s.memoryUsed + value.length < s.capacity
  | .get _ _ _ => True
  | .cput user _ _ newValue _ _ => Unseparated user ∧ ',' ∉ newValue ∧ s.memoryUsed + newValue.length < s.capacity
  | .dele user _ _ _ _ => Unseparated user ∧ s.memoryUsed < s.capacity
  | .rename _ _ _ _ _ => False

theorem Admits.of_eq (h : s.Admits op) (hmemory : s'.memoryUsed = s.memoryUsed) (hcapacity : s'.capacity = s.capacity) :
    s'.Admits op := by
  cases op with
  | put => exact ⟨h.1, h.2.1, h.2.2.1, by rw [hmemory, hcapacity]; exact h.2.2.2⟩
  | get => trivial
  | cput => exact ⟨h.1, h.2.1, by rw [hmemory, hcapacity]; exact h.2.2⟩
  | dele => exact ⟨h.1, by rw [hmemory, hcapacity]; exact h.2⟩
  | rename => exact h

theorem Stocked.settled (h : Stocked s store) : s.Settled := h.tallied.settled

theorem Settled.filesOf_eq_getD (h : s.Settled) (user : Str) : s.filesOf user = (s.residentFiles user).getD ∅ := by
  cases hresident : s.tablets[user]? with
  | none => rw [h.absent hresident, residentFiles_eq_none.mpr hresident, Option.getD_none]
  | some r => rw [filesOf_of_resident hresident, residentFiles_of_resident hresident, Option.getD_some]

theorem residentTotal_congr (h : s'.residentFiles = s.residentFiles) : s'.residentTotal = s.residentTotal := by
  have hkeyed (t : LRUCache) : t.residentTotal = SortedMap.sum (fun u _ => total ((t.residentFiles u).getD ∅)) t.tablets := by
    rw [residentTotal, weigh]
    refine SortedMap.sum_congr fun u r hr => ?_
    rw [residentFiles_of_resident hr, Option.getD_some]
  rw [hkeyed, hkeyed, h]
  refine SortedMap.sum_keys_congr (fun u => total ((s.residentFiles u).getD ∅)) fun u => ?_
  rw [mem_tablets_iff, mem_tablets_iff, h]

/-- Settled caches with the same contents have the same users in memory. -/
theorem Settled.residentFiles_eq (h : s.Settled) (user : Str) :
    s.residentFiles user = if s.filesOf user = ∅ then none else some (s.filesOf user) := by
  cases hresident : s.tablets[user]? with
  | none => rw [if_pos (h.absent hresident), residentFiles_eq_none.mpr hresident]
  | some r => rw [if_neg (h.filesOf_ne_empty hresident), residentFiles_of_resident hresident, filesOf_of_resident hresident]

/-- Caches that hold the same store count the same bytes. -/
theorem Stocked.memoryUsed_eq (h : Stocked s store) (h' : Stocked s' store) : s'.memoryUsed = s.memoryUsed := by
  rw [h.tallied.memory, h'.tallied.memory, residentTotal_congr]
  funext user
  rw [h.settled.residentFiles_eq, h'.settled.residentFiles_eq, h.contents, h'.contents]

/-! ### A command -/

theorem Stocked.hasRoom (h : Stocked s store) (hop : s.Admits op) : s.HasRoom op := by
  have hmemory := h.tallied.memory
  have hwithin : Within s s.filesOf s.residentTotal := by
    refine ⟨h.settled, rfl, h.small, ⟨by omega, by omega⟩, fun u => ?_⟩
    have hsize := h.tallied.sizes u
    have htotal := h.settled.total_le u
    exact ⟨by omega, by omega⟩
  cases op with
  | put =>
      obtain ⟨_, _, _, hroom⟩ := hop
      exact hwithin.hasRoom (by rw [Op.volume]; omega)
  | get => trivial
  | cput =>
      obtain ⟨_, _, hroom⟩ := hop
      exact hwithin.hasRoom (by rw [Op.volume]; omega)
  | dele => trivial
  | rename => trivial

theorem plain_apply (h : ∀ u, Plain (store u)) (hop : s.Admits op) (user : Str) : Plain (store.apply op user) := by
  by_cases huser : user = op.user
  · subst huser
    cases op with
    | put user filename value commFd seqNum =>
        rw [Store.apply, Op.user, Function.update_self]
        exact (h user).addFile hop.2.1 hop.2.2.1
    | get user filename commFd => exact h user
    | cput user filename oldValue newValue commFd seqNum =>
        rw [Store.apply, Op.user]
        split
        · next hmatch =>
            rw [Function.update_self]
            exact (h user).insert ((h user).names _ _ hmatch) hop.2.1
        · exact h user
    | dele user filename commFd seqNum isMigration =>
        rw [Store.apply, Op.user, Function.update_self]
        exact (h user).erase
    | rename => exact hop.elim
  · rw [Store.apply_of_ne huser]
    exact h user

theorem Admits.overwritten (hop : s.Admits op) : store.overwritten op = 0 := by
  cases op with
  | rename => exact hop.elim
  | put => rfl
  | get => rfl
  | cput => rfl
  | dele => rfl

/-- The bytes a command that is admitted brings find room. -/
theorem Admits.room (hop : s.Admits op) (hread : (s.memoryUsed : Int) ≤ s.capacity) : s.memoryUsed + op.volume ≤ s.capacity := by
  cases op with
  | put => exact Int.le_of_lt hop.2.2.2
  | get => rwa [Op.volume, Int.natCast_zero, Int.add_zero]
  | cput => exact Int.le_of_lt hop.2.2
  | dele => rwa [Op.volume, Int.natCast_zero, Int.add_zero]
  | rename => exact hop.elim

theorem Settled.get_userSize {filename : Str} (h : s.Settled) (hrun : s.exec fuel (.get user filename commFd) = .ok s') :
    s'.userSize = s.userSize := by
  obtain ⟨found, t, hget, hs'⟩ := get_ok hrun
  have ht : t.userSize = s.userSize := by
    cases hresident : s.tablets[user]? with
    | none =>
        rw [getHelper_of_unknown hresident (h.unused user)] at hget
        obtain ⟨_, rfl⟩ := Prod.mk.inj (Except.ok.inj hget)
        rfl
    | some r =>
        obtain ⟨L, _, hrelinked⟩ := h.wired.getHelper hresident
        rw [hrelinked] at hget
        split at hget
        · obtain ⟨_, rfl⟩ := Prod.mk.inj (Except.ok.inj hget)
          rfl
        · obtain ⟨_, rfl⟩ := Prod.mk.inj (Except.ok.inj hget)
          rfl
  rw [hs']
  exact ht

theorem Stocked.named_exec (h : Stocked s store) (hop : s.Admits op) (hrun : s.exec fuel op = .ok s') (user : Str)
    (huser : store.apply op user ≠ ∅ ∨ user ∈ s'.userSize) : Unseparated user := by
  have hspares := h.settled.spares (h.hasRoom hop) hrun
  have hwrite (hname : Unseparated op.user) : Unseparated user := by
    by_cases hsame : user = op.user
    · exact hsame ▸ hname
    · rw [Store.apply_of_ne hsame] at huser
      exact h.named user (huser.imp_right fun hmem => (hspares.named user hmem).resolve_left hsame)
  cases op with
  | put => exact hwrite hop.1
  | get =>
      rw [h.settled.get_userSize hrun] at huser
      exact h.named user huser
  | cput => exact hwrite hop.1
  | dele => exact hwrite hop.1
  | rename => exact hop.elim

/-- **One command.** What the cache holds follows the store, and the disk stays as it is. -/
theorem Stocked.exec (h : Stocked s store) (hop : s.Admits op) (hrun : s.exec fuel op = .ok s') :
    Stocked s' (store.apply op) ∧ s'.disk = s.disk ∧ s'.capacity = s.capacity := by
  have hobeys := h.settled.obeys_of_exec (h.hasRoom hop) hrun
  have hspares := h.settled.spares (h.hasRoom hop) hrun
  have hsmall := h.small
  have hroomy := h.roomy
  have hmemory := h.tallied.memory
  have hvolume := hop.room (by omega)
  have hdelta := Store.delta_le_volume s.filesOf op
  have htallied := h.tallied.obeys (by omega) hop.overwritten hobeys
  have hcontents : s'.filesOf = store.apply op := by
    funext u
    rw [hobeys.sets.filesOf, h.contents]
    split
    · next heq => rw [heq]
    · next hne => rw [Store.apply_of_ne (Ne.symm hne)]
  have htotal := Store.total_apply s.filesOf op
  have hresident := hobeys.sets.resident
  have hoverwritten : Store.overwritten s.filesOf op = 0 := hop.overwritten
  refine ⟨⟨htallied, hcontents, by rw [hobeys.sets.capacity]; exact hsmall, ?_, plain_apply h.plain hop, h.named_exec hop hrun,
    fun type => ?_, ?_⟩, hspares.disk, hobeys.sets.capacity⟩
  · rw [hobeys.sets.capacity]
    omega
  · rw [hspares.chunkInfo]
    exact h.counters type
  · rw [hspares.disk]
    exact h.bare

/-- A command that is admitted returns. -/
theorem Stocked.exists_exec (h : Stocked s store) (hop : s.Admits op) (fuel : Nat) : ∃ s', s.exec (fuel + 1) op = .ok s' ∧
    Stocked s' (store.apply op) ∧ s'.disk = s.disk ∧ s'.capacity = s.capacity := by
  obtain ⟨s', hexec, _⟩ := h.settled.exec op (h.hasRoom hop) fuel
  exact ⟨s', hexec, h.exec hop hexec⟩

/-- What is sent, who a node is and what it has logged are not part of what it holds. -/
theorem Stocked.of_eq (h : Stocked s store) (hheap : s'.heap = s.heap) (hnodes : s'.nodes = s.nodes) (htablets : s'.tablets = s.tablets)
    (hvirmem : s'.virmemMeta = s.virmemMeta) (hmemory : s'.memoryUsed = s.memoryUsed) (hsizes : s'.userSize = s.userSize)
    (hcapacity : s'.capacity = s.capacity) (hcounters : ∀ type, (s'.chunkInfo type).length ≤ 2 ∧ ∀ n ∈ s'.chunkInfo type, IsInt n)
    (hbare : s'.disk.files .virtualMemory = ∅ ∧ s'.disk.files .cpVirtualMemory = ∅) : Stocked s' store := by
  have hsettled : s'.Settled := h.settled.congr hheap hnodes htablets hvirmem
  have hfiles : s'.filesOf = s.filesOf := funext fun _ => h.settled.filesOf_eq hheap hnodes htablets hvirmem
  have htotal : s'.residentTotal = s.residentTotal := by rw [residentTotal, residentTotal, weigh, weigh, hheap, htablets]
  refine ⟨⟨hsettled, by rw [hmemory, htotal, h.tallied.memory], fun u => ?_, by rw [htotal]; exact h.tallied.small⟩,
    hfiles.trans h.contents, by rw [hcapacity]; exact h.small, by rw [htotal, hcapacity]; exact h.roomy, h.plain, fun u hu => ?_,
    hcounters, hbare⟩
  · rw [userSizeOf, hsizes, hfiles]
    exact h.tallied.sizes u
  · rw [hsizes] at hu
    exact h.named u hu

theorem Stocked.appendLog (h : Stocked s store) (line : Str) : Stocked (s.act (.appendLog line)) store :=
  h.of_eq rfl rfl rfl rfl rfl rfl rfl h.counters h.bare

theorem Stocked.send (h : Stocked s store) (commFd : Int) (msg : Str) : Stocked (s.send commFd msg) store :=
  h.of_eq rfl rfl rfl rfl rfl rfl rfl h.counters h.bare

/-! ### A checkpoint and what is loaded of it -/

theorem Stocked.restorable (h : Stocked s store) (hrows : s.rowBytes ≤ chunkSize) : s.Restorable := by
  have hunused := h.settled.unused
  have hsmall := h.tallied.small
  have hfiles {u : Str} {r : Ref} (hu : s.tablets[u]? = some r) : (s.heap r).value = store u := by
    rw [← h.contents, filesOf_of_resident hu]
  refine ⟨h.settled.wired.tidy.keyed, h.settled.wired.tidy.disjoint, h.roomy, h.small, fun u r hu => ?_, hrows, fun u records hu => ?_,
    h.counters, fun u n hu => ?_, fun u hu => ?_⟩
  · exact ⟨hfiles hu ▸ h.plain u, h.settled.wired.occupied u r hu⟩
  · rw [hunused] at hu
    cases hu
  · have hsize := h.tallied.sizes u
    have htotal := h.settled.total_le u
    have hn : s.userSizeOf u = n := by rw [userSizeOf, ExtTreeMap.getD_eq_getD_getElem?, hu, Option.getD_some]
    simp only [IsInt, intMax] at hsmall ⊢
    omega
  · rcases hu with hu | hu | hu
    · obtain ⟨r, hr⟩ := Option.isSome_iff_exists.mp (ExtTreeMap.mem_iff_isSome_getElem?.mp hu)
      exact h.named u (Or.inl (hfiles hr ▸ h.settled.wired.occupied u r hr))
    · obtain ⟨records, hrecords⟩ := Option.isSome_iff_exists.mp (ExtTreeMap.mem_iff_isSome_getElem?.mp hu)
      rw [hunused] at hrecords
      cases hrecords
    · exact h.named u (Or.inr hu)

/-- A property that loading users keeps, and that does not depend on the disk, holds of what a new process has loaded. -/
theorem loadCheckpointing_invariant {I : LRUCache → Prop} {capacity : Int} {isPrimary : Bool} {d : Disk}
    (hstart : ∀ cp vm sizes info, I (informed capacity isPrimary d cp vm sizes info))
    (hload : ∀ t user t', I t → t.loadUserFromDisk fuel .checkpointing user (-1) = .ok t' → I t')
    (hdisk : ∀ t disk syscalls, I t → I { t with disk := disk, syscalls := syscalls })
    (hrun : (init capacity isPrimary (fun _ => []) d).loadCheckpointing fuel = .ok t) : I t := by
  obtain ⟨t₁, hmetadata, hrun⟩ := Run.bind_eq_ok.mp hrun
  obtain ⟨t₂, husers, hrun⟩ := Run.bind_eq_ok.mp hrun
  have ht₁ : I t₁ := by
    obtain ⟨u₁, hcp, hmetadata⟩ := Run.bind_eq_ok.mp hmetadata
    obtain ⟨u₂, hvm, hmetadata⟩ := Run.bind_eq_ok.mp hmetadata
    obtain ⟨u₃, hinfo, hsizes⟩ := Run.bind_eq_ok.mp hmetadata
    obtain ⟨_, rfl⟩ := loadCpVmMeta_ok hcp
    obtain ⟨_, rfl⟩ := loadCpVmMeta_ok hvm
    obtain ⟨_, rfl⟩ := loadChunkInfo_ok hinfo
    obtain ⟨_, rfl⟩ := loadUserSize_ok hsizes
    exact hstart _ _ _ _
  have ht₂ : I t₂ := Run.foldlM_invariant (P := I) (fun t entry t' _ ht hstep => hload t entry.1 t' ht hstep) ht₁ husers
  obtain rfl := Except.ok.inj hrun
  rw [copyDir_eq_foldl, foldl_act, clearDir_eq]
  exact hdisk _ _ _ (hdisk t₂ _ _ ht₂)

theorem steady_capacity (capacity : Int) : Steady (fun s => s.capacity = capacity) (fun _ => True) (fun _ _ => True) user commFd where
  inner := trivial
  touched _ _ _ h := by rwa [touched_capacity]
  overQuota _ h := h
  oversized _ h := h
  charged _ _ _ _ _ _ h := by rwa [charged_capacity]
  cleared _ h := h
  insert _ _ _ _ _ h _ _ hrun := by
    obtain ⟨p, _, rfl⟩ := insertUser_ok hrun
    exact h
  store _ _ _ _ _ _ _ h hrun := by
    obtain ⟨r, _, hrun⟩ := Run.bind_eq_ok.mp hrun
    obtain ⟨L, rfl⟩ := moveToTail_relink hrun
    exact h
  evict _ _ h hrun := by
    obtain ⟨x, n, t, _, _, hwrite, rfl⟩ := useVirtualMemory_ok hrun
    exact (chunkStep_writeToChunkWith hwrite).capacity.trans h
  pairs _ _ _ := trivial

theorem wired_informed {capacity : Int} {isPrimary : Bool} {d : Disk} (cp vm : Map Records) (sizes : Map Int)
    (info : ChunkType → List Int) : (informed capacity isPrimary d cp vm sizes info).Wired := by
  have hinit : (init capacity isPrimary info d).Wired := wired_init
  exact hinit.of_nobody rfl rfl rfl rfl

theorem loaded_wired {capacity : Int} {isPrimary : Bool} {d : Disk}
    (hrun : (init capacity isPrimary (fun _ => []) d).loadCheckpointing fuel = .ok t) : t.Wired ∧ t.capacity = capacity := by
  refine loadCheckpointing_invariant (I := fun t => t.Wired ∧ t.capacity = capacity) (fun cp vm sizes info => ⟨wired_informed .., rfl⟩)
    (fun t user t' ht hload => ?_) (fun t disk syscalls ht => ⟨ht.1.congr rfl rfl rfl fun _ hu => hu, ht.2⟩) hrun
  exact ⟨(closed_wired.kept user (-1)).loadUserFromDisk ht.1 hload, (steady_capacity capacity).loadUserFromDisk ht.2 hload⟩

/-- Every new process loads the store from the files of a disk, whatever the log is, and leaves the disk as it is. -/
def LoadsBack (capacity : Int) (d : Disk) (store : Store) : Prop :=
  ∀ log isPrimary fuel, ∃ t, (init capacity isPrimary (fun _ => []) { d with log := log }).loadCheckpointing (fuel + 1) = .ok t ∧
    Stocked t store ∧ t.disk = { d with log := log } ∧ t.capacity = capacity

theorem setFiles_of_eq {d : Disk} {dir : Dir} {files : Map Str} (hfiles : d.files dir = files) : d.setFiles dir files = d := by
  rw [← hfiles, Disk.setFiles_self]

/-- What has been loaded is stocked when it is what was saved. -/
theorem Stocked.of_loaded (h : Stocked s store) (hwired : t.Wired) (hcapacity : t.capacity = s.capacity)
    (hheld : t.residentFiles = s.residentFiles) (hvirmem : t.virmemMeta = s.virmemMeta) (hsizes : t.userSize = s.userSize)
    (hmemory : t.memoryUsed = s.residentTotal)
    (hcounters : ∀ type, (t.chunkInfo type).length ≤ 2 ∧ ∀ n ∈ t.chunkInfo type, IsInt n)
    (hbare : t.disk.files .virtualMemory = ∅ ∧ t.disk.files .cpVirtualMemory = ∅) : Stocked t store := by
  have hsettled : t.Settled := ⟨hwired, fun u => by rw [hvirmem, h.settled.unused]⟩
  have hfiles : t.filesOf = s.filesOf := funext fun u => by rw [hsettled.filesOf_eq_getD, h.settled.filesOf_eq_getD, hheld]
  have htotal := residentTotal_congr hheld
  refine ⟨⟨hsettled, by rw [hmemory, htotal], fun u => ?_, by rw [htotal]; exact h.tallied.small⟩, hfiles.trans h.contents,
    by rw [hcapacity]; exact h.small, by rw [htotal, hcapacity]; exact h.roomy, h.plain, fun u hu => ?_, hcounters, hbare⟩
  · rw [userSizeOf, hsizes, hfiles]
    exact h.tallied.sizes u
  · rw [hsizes] at hu
    exact h.named u hu

/-- The disk of a completed checkpoint. -/
theorem saved_disk (hrun : s.checkpointing = .ok s') (hbare : s.disk.files .virtualMemory = ∅) :
    s'.disk.log = none ∧ s'.disk.files .virtualMemory = ∅ ∧ s'.disk.files .cpVirtualMemory = ∅ := by
  obtain ⟨t, cp, vm, info, sizes, actions, hrows, _, rfl⟩ := checkpointing_ok hrun
  have hstep := rowsStep_writeRows hrows
  have hvirtual : t.disk.files .virtualMemory = ∅ := by
    rw [hstep.files _ (by decide), emptied_disk, bareDisk, Disk.files_setFiles, hbare]
  refine ⟨?_, ?_, ?_⟩
  · change (savedDisk t.disk cp vm info sizes).log = none
    rw [savedDisk_log, hstep.log, emptied_disk]
    rfl
  · exact (savedDisk_files (by decide) (by decide)).trans hvirtual
  · exact savedDisk_cpVirtualMemory.trans hvirtual

/-- **A checkpoint saves the store.** -/
theorem Stocked.checkpointing (h : Stocked s store) (hrows : s.rowBytes ≤ chunkSize) (hrun : s.checkpointing = .ok s') :
    Stocked s' store ∧ s'.disk.log = none ∧ s'.capacity = s.capacity ∧ LoadsBack s.capacity s'.disk store := by
  have hrestorable := h.restorable hrows
  obtain ⟨hlog, hbare⟩ := saved_disk hrun h.bare.1
  obtain ⟨t, ht, hrun'⟩ := hrestorable.checkpointing_eq (hrestorable.indexable hrun)
  have hs' : s' = (closing s t).foldl act t := Except.ok.inj (hrun.symm.trans hrun')
  have hcounters (type : ChunkType) : (t.chunkInfo type).length ≤ 2 ∧ ∀ n ∈ t.chunkInfo type, IsInt n := by
    obtain ⟨chunk, fill, hinfo, hchunk, hfill⟩ := ht.describable.info type
    rw [hinfo]
    exact ⟨Nat.le_refl 2, by simp [hchunk, hfill]⟩
  have hinfo : s'.chunkInfo = t.chunkInfo := by rw [hs', foldl_act]
  obtain ⟨t₀, cp, vm, info, sizes, actions, hwritten, _, hs₀⟩ := checkpointing_ok hrun
  have hstep := rowsStep_writeRows hwritten
  rw [emptied_eq] at hstep
  have hcapacity : s'.capacity = s.capacity := by rw [hs₀]; exact hstep.capacity
  refine ⟨h.of_eq ?_ ?_ ?_ ?_ ?_ ?_ hcapacity (fun type => hinfo ▸ hcounters type) hbare, hlog, hcapacity, ?_⟩
  · rw [hs₀]; exact hstep.heap
  · rw [hs₀]; exact hstep.nodes
  · rw [hs₀]; exact hstep.tablets
  · rw [hs₀]; exact hstep.virmemMeta
  · rw [hs₀]; exact hstep.memoryUsed
  · rw [hs₀]; exact hstep.userSize
  · intro log isPrimary fuel
    have hlength : (closing s t).length = 4 + (s.disk.files .virtualMemory).toList.length := by
      rw [closing, List.length_append, copies, List.length_map]
      rfl
    have hcarries := ht.carries (closing s t).length
    have hend : s'.disk = (closing s t).foldl Disk.apply t.disk := by rw [hs', foldl_act]
    rw [List.take_length, ← hend] at hcarries
    have hcarries' : Carries t (closing s t).length { s'.disk with log := log } := ⟨hcarries.metadata, hcarries.rows⟩
    obtain ⟨u, hload, hheld, hvirmem, hsizes, hinfo', hmemory, hfiles⟩ := hrestorable.exists_recalled ht hcarries' fuel isPrimary
    rw [if_pos (by omega)] at hheld hvirmem hsizes hinfo'
    have hsame : u.disk = { s'.disk with log := log } := by
      rw [hfiles]
      refine setFiles_of_eq ?_
      exact hbare.1.trans hbare.2.symm
    obtain ⟨hwired, hcapacity'⟩ := loaded_wired hload
    refine ⟨u, hload, h.of_loaded hwired hcapacity' hheld hvirmem hsizes (hmemory (by omega)) (fun type => hinfo' ▸ hcounters type) ?_,
      hsame, hcapacity'⟩
    rw [hsame]
    exact hbare

end PennCloud.LRUCache
