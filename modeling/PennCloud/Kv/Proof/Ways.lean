import PennCloud.Kv.Proof.SoundSteps

/-!
# Ways to load a user

Loading a user puts its files one by one. Either there is room for all of them, or the list holds exactly
the residents, with the node of the user behind all the others: then somebody else can be evicted as long
as the next file does not fit.
-/

namespace PennCloud.LRUCache

open DList Std

variable {s s' t : LRUCache} {user filename value u : Str} {r p x n : Ref} {files : Map Str}
  {fuel need : Nat}

/-- Why the puts that load a user are safe. -/
inductive Way where
  /-- there is room for all of them -/
  | room
  /-- the list holds these nodes and then the user's own -/
  | listed (others : List Ref)

/-- The way is open to a user with these files that needs so many bytes more. -/
def Way.Open (way : Way) (s : LRUCache) (user : Str) (files : Map Str) (need : Nat) : Prop :=
  match way with
  | .room => (s.residentTotal + need : Int) ≤ s.capacity
  | .listed others =>
      Forward s.links .head .tail (others ++ s.tablets[user]?.toList) ∧
        s.Lists (others ++ s.tablets[user]?.toList) ∧ (total files + need : Int) ≤ s.capacity

/-- Recursion deep enough, and room in the chunk file for the rows of all others. -/
def Way.Suffices (way : Way) (s : LRUCache) (user : Str) (fuel : Nat) : Prop :=
  match way with
  | .room => 0 < fuel
  | .listed others => others.length < fuel ∧ s.Spare (s.tablets.erase user)

theorem Way.Suffices.mono {way : Way} {fuel' : Nat} (h : way.Suffices s user fuel) (hle : fuel ≤ fuel') :
    way.Suffices s user fuel' := by
  cases way with
  | room => exact Nat.lt_of_lt_of_le h hle
  | listed others => exact ⟨Nat.lt_of_lt_of_le h.1 hle, h.2⟩

/-! ### The byte counter and the test for room -/

theorem residentTotal_le_of_fits (hexact : s.Exact) (hnonneg : 0 ≤ s.capacity) (hsmall : s.capacity ≤ intMax)
    (hlow : s.residentTotal ≤ intMax) (hvalue : value.length ≤ toSize s.capacity) :
    s.fits value = true ↔ s.residentTotal + value.length ≤ s.capacity := by
  have hmemory : s.memoryUsed = s.residentTotal := by
    rw [hexact, toInt32_of_range (by simp only [intMax]; omega) hlow]
  rw [fits_iff (by omega) (by omega) hnonneg hsmall hvalue, hmemory]

theorem residentTotal_of_lists_nil (htidy : s.Tidy) (hlists : s.Lists []) : s.residentTotal = 0 := by
  have hempty : s.tablets = ∅ := by
    refine ExtTreeMap.ext_getElem? fun u => ?_
    rw [ExtTreeMap.getElem?_empty]
    cases hu : s.tablets[u]? with
    | none => rfl
    | some r => exact absurd (hlists.mem htidy hu) List.not_mem_nil
  rw [residentTotal, hempty]
  simp [weigh]

theorem Way.Open.length_le {way : Way} (hnonneg : 0 ≤ s.capacity) (hsmall : s.capacity ≤ intMax)
    (hopen : way.Open s user files (value.length + need)) : value.length ≤ toSize s.capacity := by
  rw [toSize_of_nonneg hnonneg hsmall]
  cases way with
  | room =>
      have hroom : (s.residentTotal + (value.length + need : Nat) : Int) ≤ s.capacity := hopen
      omega
  | listed others =>
      have hroom := hopen.2.2
      omega

theorem Way.residentTotal_alone (htidy : s.Tidy) (hbuilding : s.Building user files)
    (hlists : s.Lists s.tablets[user]?.toList) : s.residentTotal = total files := by
  have hnone : s.tablets.erase user = ∅ := by
    refine ExtTreeMap.ext_getElem? fun u => ?_
    rw [SortedMap.getElem?_erase_eq, ExtTreeMap.getElem?_empty]
    split
    · rfl
    · next hne =>
        cases hu : s.tablets[u]? with
        | none => rfl
        | some r =>
            have hmem := hlists.mem htidy hu
            rw [Option.mem_toList] at hmem
            exact absurd (htidy.user_eq hmem hu) hne
  rcases hbuilding.held with ⟨habsent, rfl⟩ | ⟨i, hresident, hvalue⟩
  · rw [SortedMap.erase_eq_self habsent] at hnone
    rw [residentTotal, hnone]
    simp [weigh, total]
  · rw [residentTotal_of_resident hresident, hnone, hvalue]
    simp [weigh]

theorem Way.exists_other {way : Way} (htidy : s.Tidy) (hnonneg : 0 ≤ s.capacity) (hsmall : s.capacity ≤ intMax)
    (hexact : s.Exact) (hbuilding : s.Building user files)
    (hopen : way.Open s user files (value.length + need)) (hfits : s.fits value = false) :
    ∃ x others, way = .listed (x :: others) := by
  have hlength := hopen.length_le hnonneg hsmall
  have hlarge : ¬ (s.residentTotal : Int) + value.length ≤ s.capacity := by
    intro hroom
    have hfits' := (residentTotal_le_of_fits hexact hnonneg hsmall (by omega) hlength).mpr hroom
    exact absurd (hfits.symm.trans hfits') Bool.false_ne_true
  cases way with
  | room =>
      have hroom : (s.residentTotal + (value.length + need : Nat) : Int) ≤ s.capacity := hopen
      omega
  | listed others =>
      cases others with
      | cons x others => exact ⟨x, others, rfl⟩
      | nil =>
          obtain ⟨_, hlists, hroom⟩ := hopen
          have htotal := residentTotal_alone htidy hbuilding hlists
          omega

/-! ### Evicting somebody else -/

theorem Way.Open.key_ne {others : List Ref} (hopen : (Way.listed (x :: others)).Open s user files need) :
    (s.heap x).key ≠ user := by
  intro hkey
  have hresident := hopen.2.1.resident List.mem_cons_self
  rw [hkey] at hresident
  have hnodup := hopen.1.nodup_nodes
  rw [List.cons_append, List.nodup_cons] at hnodup
  refine hnodup.1 (List.mem_append_right _ ?_)
  rw [hresident]
  exact List.mem_singleton.mpr rfl

/-- What the user has so far is not touched, and the way stays open. -/
theorem Way.Open.evicted {others : List Ref}
    (hopen : (Way.listed (x :: others)).Open s user files need) (hbuilding : s.Building user files)
    (hprev : ∃ p, t.links.prev .tail = some p)
    (hforward : Forward t.links .head .tail (others ++ s.tablets[user]?.toList))
    (hlists : t.Lists (others ++ s.tablets[user]?.toList))
    (htablets : t.tablets = s.tablets.erase (s.heap x).key)
    (hvalues : ∀ r, (t.heap r).value = (s.heap r).value)
    (hvirmem : ∀ u, u ≠ (s.heap x).key → t.virmemMeta[u]? = s.virmemMeta[u]?)
    (hcapacity : t.capacity = s.capacity) :
    t.Building user files ∧ (Way.listed others).Open t user files need := by
  have hown : t.tablets[user]? = s.tablets[user]? := by
    rw [htablets, SortedMap.getElem?_erase_eq, if_neg hopen.key_ne]
  refine ⟨⟨?_, ?_, hprev⟩, ?_, ?_, ?_⟩
  · rw [hown]
    refine hbuilding.held.imp_right ?_
    rintro ⟨i, hresident, hvalue⟩
    exact ⟨i, hresident, (hvalues _).trans hvalue⟩
  · rw [hvirmem user (Ne.symm hopen.key_ne), hbuilding.virmem]
  · rw [hown]
    exact hforward
  · rw [hown]
    exact hlists
  · rw [hcapacity]
    exact hopen.2.2

/-! ### Placing a file -/

theorem Way.Open.addNode {way : Way} (htidy : s.Tidy) (hunknown : s.Unknown user)
    (hp : s.links.prev .tail = some p) (hopen : way.Open s user ∅ (value.length + need)) :
    way.Open (((s.addNode user filename value).toTail (.node s.nodes) p).addMemory value.length) user
      ((∅ : Map Str).insert filename value) need := by
  have hnew : (s.addNode user filename value).tablets[user]? = some (.node s.nodes) := by
    rw [addNode_tablets, if_pos rfl]
  have htotal : total ((∅ : Map Str).insert filename value) = value.length := by
    rw [total_insert, SortedMap.erase_eq_self ExtTreeMap.getElem?_empty, total_empty, Nat.add_zero]
  cases way with
  | room =>
      have hresident : (((s.addNode user filename value).toTail (.node s.nodes) p).addMemory
          value.length).residentTotal = value.length + s.residentTotal := by
        rw [← htotal]
        exact weigh_addNode htidy hunknown.1
      have hroom : (s.residentTotal + (value.length + need : Nat) : Int) ≤ s.capacity := hopen
      change (_ : Int) ≤ s.capacity
      rw [hresident]
      omega
  | listed others =>
      obtain ⟨hforward, hlists, hroom⟩ := hopen
      rw [hunknown.1, Option.toList_none, List.append_nil] at hforward hlists
      have hfresh := hlists.fresh_notMem htidy
      have hne : ∀ r ∈ Ref.head :: Ref.tail :: others, r ≠ .node s.nodes :=
        fun r hr heq => hfresh (heq ▸ hr)
      obtain rfl : p = others.getLastD .head := Option.some.inj (hp.symm.trans hforward.last)
      have hadded : Forward (s.addNode user filename value).links .head .tail others := by
        refine hforward.congr (fun r hr => ?_) ?_
        · rw [addNode_next (hne r ((List.Sublist.cons_cons _ (List.sublist_cons_self _ others)).subset hr))]
        · rw [addNode_prev (by simp)]
      refine ⟨?_, ?_, ?_⟩
      · rw [addMemory_tablets, toTail_tablets, hnew]
        exact hadded.moveToTail hfresh
      · rw [addMemory_tablets, toTail_tablets, hnew]
        exact (hlists.addNode hunknown.1).congr rfl fun _ => rfl
      · rw [htotal]
        rw [total_empty] at hroom
        change _ ≤ s.capacity
        omega

/-- The node of the user is the last one, and moving it to the tail leaves it there. -/
theorem Way.Open.setValue {way : Way} (htidy : s.Tidy) (hresident : s.tablets[user]? = some r)
    (hp : s.links.prev .tail = some p) (hopen : way.Open s user (s.filesOf user) (value.length + need)) :
    way.Open (((s.setValue r (addFile (s.filesOf user) (filename, value))).toTail r p).addMemory value.length)
      user (addFile (s.filesOf user) (filename, value)) need := by
  have htotal : total (addFile (s.filesOf user) (filename, value)) = total (s.filesOf user) + value.length :=
    total_addFile (s.filesOf user) (filename, value)
  cases way with
  | room =>
      have hweigh : (((s.setValue r (addFile (s.filesOf user) (filename, value))).toTail r p).addMemory
          value.length).residentTotal = _ := residentTotal_setValue htidy hresident
      have hbefore := residentTotal_of_resident hresident
      rw [← filesOf_of_resident hresident] at hbefore
      have hroom : (s.residentTotal + (value.length + need : Nat) : Int) ≤ s.capacity := hopen
      change (_ : Int) ≤ s.capacity
      rw [hweigh]
      omega
  | listed others =>
      obtain ⟨hforward, hlists, hroom⟩ := hopen
      rw [hresident, Option.toList_some] at hforward hlists
      obtain rfl : p = r := by
        have hlast := hforward.last
        rw [List.getLastD_concat] at hlast
        exact Option.some.inj (hp.symm.trans hlast)
      have htablets : (((s.setValue p (addFile (s.filesOf user) (filename, value))).toTail p p).addMemory
          value.length).tablets[user]? = some p := hresident
      refine ⟨?_, ?_, ?_⟩
      · rw [htablets, addMemory_links, toTail_links, links_setValue]
        exact hforward.moveToTail_last
      · rw [htablets]
        exact hlists.congr rfl fun _ => setValue_key
      · rw [htotal]
        change _ ≤ s.capacity
        omega

end PennCloud.LRUCache
