import PennCloud.Frontend.AdminConsole
import PennCloud.Frontend.Proof.Forms
import PennCloud.Lib.SortedMap

/-!
# The table of the console

A visit puts the servers of the answer into the table under their numbers. Nothing is taken out of it, so that a list that is
shorter than an earlier one leaves servers behind that the master no longer has.
-/

namespace PennCloud

variable {c : Char} {text rest front : Str} {pos : Nat}

theorem findFrom_of_notMem (htext : c ∉ text.drop pos) : findFrom [c] text pos = npos := by
  rw [findFrom, Search.find_of_notMem htext]
  rfl

theorem findFrom_append (hpos : pos ≤ front.length) (hfront : c ∉ front.drop pos) (rest : Str) :
    findFrom [c] (front ++ c :: rest) pos = front.length := by
  rw [findFrom, Search.find_cons hpos hfront]
  rfl

namespace AdminConsole

variable {servers : Servers} {table : BackendServers} {l : List (PennCloud.Server × Bool)} {data tail : Str}

/-- The servers of the pairs in the order of the answer, and whether they are primaries. -/
def listed (servers : Servers) : List (PennCloud.Server × Bool) :=
  servers.toList.flatMap fun entry =>
    (entry.2.primary, true) :: if entry.2.secondary.ip = [] then [] else [(entry.2.secondary, false)]

def typeOf (isPrimary : Bool) : Int := if isPrimary then 1 else 2

/-- The table has the servers of the master, numbered from one, and as many as have been counted. -/
def Shows (servers : Servers) (count : Int) (table : BackendServers) : Prop :=
  table.toList.map (fun entry => (entry.1, entry.2.ip, entry.2.port, entry.2.backendType)) =
      (listed servers).mapIdx (fun i e => ((i : Int) + 1, e.1.ip, e.1.port, typeOf e.2)) ∧
    table.size = count

def entryText (e : PennCloud.Server × Bool) : Str := (if e.2 then 'P' else 'S') :: e.1.address ++ [',']

theorem listServers_eq (m : Master) : m.listServers = (listed m.servers).flatMap entryText := by
  rw [Master.listServers, listed, List.flatMap_assoc]
  refine List.flatMap_congr fun entry _ => ?_
  rw [List.flatMap_cons]
  refine congrArg (entryText (entry.2.primary, true) ++ ·) ?_
  split
  · rfl
  · exact (List.append_nil _).symm

/-! ### A run of the loop -/

def shown (id : Int) (e : PennCloud.Server × Bool) : Server := ⟨id, e.1.ip, e.1.port, false, typeOf e.2⟩

/-- The servers one after another, under the numbers from `id` on. -/
def fill (id : Int) (table : BackendServers) : List (PennCloud.Server × Bool) → BackendServers
  | [] => table
  | e :: l => fill (id + 1) (table.insert id (shown id e)) l

theorem substr_middle {front middle rest : Str} {len : Nat} (hpos : pos = front.length) (hlen : len = middle.length) :
    substr (front ++ (middle ++ rest)) pos len = .ok middle := by
  subst hpos hlen
  rw [substr, if_neg (by rw [List.length_append]; omega), List.drop_left, List.take_left]

theorem toSize_of_natCast {n : Nat} (hn : n < npos) : toSize n = n := by
  rw [toSize, Int.emod_eq_of_lt (Int.natCast_nonneg n) (by unfold npos at hn; omega), Int.toNat_natCast]

theorem backendTypeOf_head (isPrimary : Bool) : backendTypeOf [if isPrimary then 'P' else 'S'] = typeOf isPrimary := by
  cases isPrimary
  all_goals rfl

theorem parseServers_round {e : PennCloud.Server × Bool} {done : Str} {pos2 pos3 : Nat}
    (hips : ':' ∉ e.1.ip ∧ ',' ∉ e.1.ip ∧ '\x00' ∉ e.1.ip) (hdata : data = done ++ (entryText e ++ rest)) (hsize : data.length < npos)
    (hcolon : pos2 ≤ done.length ∧ ':' ∉ done.drop pos2) (hcomma : pos3 ≤ done.length ∧ ',' ∉ done.drop pos3)
    (n : Nat) (id : Int) (table : BackendServers) :
    ∃ pos2' pos3', (pos2' ≤ (done ++ entryText e).length ∧ ':' ∉ (done ++ entryText e).drop pos2') ∧
      (pos3' ≤ (done ++ entryText e).length ∧ ',' ∉ (done ++ entryText e).drop pos3') ∧
        parseServers data (n + 1) done.length (findFrom [':'] data pos2) (findFrom [','] data pos3) id table =
          parseServers data n (done ++ entryText e).length (findFrom [':'] data pos2') (findFrom [','] data pos3') (id + 1)
            (table.insert id (shown id e)) := by
  obtain ⟨server, isPrimary⟩ := e
  obtain ⟨hipColon, hipComma, hipNul⟩ : ':' ∉ server.ip ∧ ',' ∉ server.ip ∧ '\x00' ∉ server.ip := hips
  let type := if isPrimary then 'P' else 'S'
  let port := toStr server.port
  have htype : type ≠ ':' ∧ type ≠ ',' := by cases isPrimary <;> decide
  have hportColon : ':' ∉ port := notMem_toStr (by decide) (by decide)
  have hportComma : ',' ∉ port := notMem_toStr (by decide) (by decide)
  have hportNul : '\x00' ∉ port := notMem_toStr (by decide) (by decide)
  -- The text up to the `:` of the server, and up to the `,` behind it.
  let front2 := done ++ type :: server.ip
  let front3 := front2 ++ ':' :: port
  have hdone : done ++ entryText (server, isPrimary) = front3 ++ [','] := by
    simp [entryText, PennCloud.Server.address, front2, front3, type, port]
  have hdata3 : data = front3 ++ ',' :: rest := by
    rw [hdata, ← List.append_assoc, hdone, List.append_assoc, List.singleton_append]
  have hdata2 : data = front2 ++ ':' :: (port ++ ',' :: rest) := by
    rw [hdata3, List.append_assoc, List.cons_append]
  have hlength2 : front2.length = done.length + 1 + server.ip.length := by simp [front2]; omega
  have hlength3 : front3.length = front2.length + 1 + port.length := by simp [front3]; omega
  have hlength : front3.length < data.length := by simp [hdata3]
  have hfound2 : findFrom [':'] data pos2 = front2.length := by
    rw [hdata2]
    refine findFrom_append (by omega) ?_ _
    rw [List.drop_append_of_le_length hcolon.1, List.mem_append, List.mem_cons]
    rintro (hmem | heq | hmem)
    · exact hcolon.2 hmem
    · exact htype.1 heq.symm
    · exact hipColon hmem
  have hfound3 : findFrom [','] data pos3 = front3.length := by
    rw [hdata3]
    refine findFrom_append (by omega) ?_ _
    have hfront : front3 = done ++ (type :: server.ip ++ ':' :: port) := by simp [front3, front2]
    rw [hfront, List.drop_append_of_le_length hcomma.1]
    simp only [List.mem_append, List.mem_cons, not_or]
    exact ⟨hcomma.2, ⟨htype.2.symm, hipComma⟩, by decide, hportComma⟩
  have hposition {pos : Nat} (hpos : pos ≤ data.length) : pos % 2 ^ 64 = pos := by
    refine Nat.mod_eq_of_lt ?_
    unfold npos at hsize
    omega
  have hsizeOf {len : Nat} (hlen : len < data.length) : toSize (len : Int) = len := toSize_of_natCast (by omega)
  have hip : substr data ((done.length + 1) % 2 ^ 64) (toSize (front2.length - done.length - 1)) = .ok server.ip := by
    have hlen : ((front2.length : Int) - done.length - 1) = server.ip.length := by omega
    rw [hlen, hposition (by omega), hsizeOf (by omega), hdata2]
    have hmiddle : front2 ++ ':' :: (port ++ ',' :: rest) = (done ++ [type]) ++ (server.ip ++ ':' :: (port ++ ',' :: rest)) := by
      simp [front2]
    rw [hmiddle]
    exact substr_middle (by simp) rfl
  have hport : substr data ((front2.length + 1) % 2 ^ 64) (toSize (front3.length - front2.length - 1)) = .ok port := by
    have hlen : ((front3.length : Int) - front2.length - 1) = port.length := by omega
    rw [hlen, hposition (by omega), hsizeOf (by omega), hdata2]
    have hmiddle : front2 ++ ':' :: (port ++ ',' :: rest) = (front2 ++ [':']) ++ (port ++ ',' :: rest) := by
      simp
    rw [hmiddle]
    exact substr_middle (by simp) rfl
  have hbackend : substr data done.length 1 = .ok [type] := by
    have hmiddle : data = done ++ ([type] ++ (server.ip ++ ':' :: (port ++ ',' :: rest))) := by
      rw [hdata2]
      simp [front2]
    rw [hmiddle]
    exact substr_middle rfl rfl
  refine ⟨front2.length + 1, front3.length + 1, ?_, ?_, ?_⟩
  · have hrest : front3 ++ [','] = (front2 ++ [':']) ++ (port ++ [',']) := by simp [front3]
    rw [hdone, hrest, List.drop_left' (by simp)]
    exact ⟨by simp, by simp [hportColon]⟩
  · rw [hdone, List.drop_eq_nil_of_le (by simp)]
    exact ⟨by simp, List.not_mem_nil⟩
  · have hend : (front3 ++ [',']).length = front3.length + 1 := by simp
    rw [parseServers, hfound2, hfound3, if_neg (by omega), hip, Run.ok_bind, hport, Run.ok_bind, hbackend, Run.ok_bind,
      hposition (by omega : front2.length + 1 ≤ data.length), hposition (by omega : front3.length + 1 ≤ data.length), hdone,
      backendTypeOf_head, Chunkserver.cstr_of_notMem hportNul, atoi_toStr server.isInt, hend]
    rfl

/-- The loop over complete servers, with a tail that has no other. -/
theorem parseServers_eq (hips : ∀ e ∈ l, ':' ∉ e.1.ip ∧ ',' ∉ e.1.ip ∧ '\x00' ∉ e.1.ip) (htail : ':' ∉ tail) (done : Str)
    (hdata : data = done ++ (l.flatMap entryText ++ tail)) (hsize : data.length < npos) {n pos2 pos3 : Nat} (hn : l.length < n)
    (hcolon : pos2 ≤ done.length ∧ ':' ∉ done.drop pos2) (hcomma : pos3 ≤ done.length ∧ ',' ∉ done.drop pos3)
    (id : Int) (table : BackendServers) : parseServers data n done.length (findFrom [':'] data pos2) (findFrom [','] data pos3) id table =
      .ok (id - 1 + l.length, fill id table l) := by
  induction l generalizing done n pos2 pos3 id table with
  | nil =>
      obtain ⟨n, rfl⟩ := Nat.exists_eq_succ_of_ne_zero (Nat.ne_zero_of_lt hn)
      have hnone : ':' ∉ data.drop pos2 := by
        rw [hdata, List.flatMap_nil, List.nil_append, List.drop_append_of_le_length hcolon.1]
        exact fun hmem => (List.mem_append.mp hmem).elim hcolon.2 htail
      rw [parseServers, findFrom_of_notMem hnone, if_pos rfl, fill, List.length_nil, Int.natCast_zero, Int.add_zero]
  | cons e l ih =>
      obtain ⟨n, rfl⟩ := Nat.exists_eq_succ_of_ne_zero (Nat.ne_zero_of_lt hn)
      obtain ⟨he, hips⟩ := List.forall_mem_cons.mp hips
      rw [List.flatMap_cons, List.append_assoc] at hdata
      obtain ⟨pos2', pos3', hcolon', hcomma', hround⟩ := parseServers_round he hdata hsize hcolon hcomma n id table
      rw [hround, ih hips _ (by rw [hdata, List.append_assoc]) (Nat.lt_of_succ_lt_succ hn) hcolon' hcomma', fill, List.length_cons]
      refine congrArg (fun count => Except.ok (count, _)) ?_
      push_cast
      omega

/-! ### The answer as the console sees it -/

/-- The answer ends at a NUL, which only an address can have: before it there are complete servers, and in front of it no `:`. -/
theorem exists_cstr_entries (hips : ∀ e ∈ l, ':' ∉ e.1.ip) : ∃ seen tail, cstr (l.flatMap entryText) = seen.flatMap entryText ++ tail ∧
    ':' ∉ tail ∧ (∀ e ∈ seen, e ∈ l ∧ '\x00' ∉ e.1.ip) ∧ ((∀ e ∈ l, '\x00' ∉ e.1.ip) → seen = l) ∧
      (seen.length = l.length → ∀ e ∈ l, '\x00' ∉ e.1.ip) := by
  induction l with
  | nil => exact ⟨[], [], rfl, List.not_mem_nil, fun e he => absurd he List.not_mem_nil, fun _ => rfl, fun _ e he => absurd he List.not_mem_nil⟩
  | cons e l ih =>
      obtain ⟨he, hips⟩ := List.forall_mem_cons.mp hips
      have htype : (if e.2 then 'P' else 'S') ≠ '\x00' ∧ (if e.2 then 'P' else 'S') ≠ ':' := by cases e.2 <;> decide
      by_cases hnul : '\x00' ∈ e.1.ip
      · refine ⟨[], (if e.2 then 'P' else 'S') :: cstr e.1.ip, ?_, ?_, fun e he => absurd he List.not_mem_nil, fun hall => ?_, fun hlength => ?_⟩
        · have htext : (e :: l).flatMap entryText =
              ((if e.2 then 'P' else 'S') :: e.1.ip) ++ (':' :: toStr e.1.port ++ [','] ++ l.flatMap entryText) := by
            simp [entryText, PennCloud.Server.address]
          rw [htext, cstr_append_of_mem (List.mem_cons_of_mem _ hnul), cstr, List.takeWhile_cons_of_pos (by simpa using htype.1)]
          rfl
        · intro hmem
          rcases List.mem_cons.mp hmem with heq | hmem
          · exact htype.2 heq.symm
          · exact he (mem_of_mem_cstr hmem)
        · exact absurd hnul (hall e List.mem_cons_self)
        · cases hlength
      · obtain ⟨seen, tail, hcstr, htail, hseen, hall, hlength⟩ := ih hips
        refine ⟨e :: seen, tail, ?_, htail, ?_, ?_, ?_⟩
        · have hentry : '\x00' ∉ entryText e := by
            simp only [entryText, PennCloud.Server.address, List.cons_append, List.append_assoc, List.mem_cons, List.mem_append, not_or]
            exact ⟨htype.1.symm, hnul, by decide, notMem_toStr (by decide) (by decide), by decide⟩
          rw [List.flatMap_cons, Chunkserver.cstr_append hentry, hcstr, List.flatMap_cons, List.append_assoc]
        · refine List.forall_mem_cons.mpr ⟨⟨List.mem_cons_self, hnul⟩, fun e' he' => ?_⟩
          exact ⟨List.mem_cons_of_mem _ (hseen e' he').1, (hseen e' he').2⟩
        · exact fun hall' => congrArg (e :: ·) (hall fun e' he' => hall' e' (List.mem_cons_of_mem _ he'))
        · exact fun heq => List.forall_mem_cons.mpr ⟨hnul, hlength (Nat.succ.inj heq)⟩

theorem length_le_flatMap (l : List (PennCloud.Server × Bool)) : l.length ≤ (l.flatMap entryText).length := by
  induction l with
  | nil => exact le_rfl
  | cons e l ih =>
      rw [List.flatMap_cons, List.length_append, List.length_cons, entryText, List.cons_append, List.length_cons]
      omega

theorem visit_eq {m : Master} (hips : ∀ e ∈ listed m.servers, ':' ∉ e.1.ip ∧ ',' ∉ e.1.ip) (hfits : m.listServers.length ≤ 1023) :
    ∃ seen : List (PennCloud.Server × Bool), (∀ table, visit m table = .ok (seen.length, fill 1 table seen)) ∧
      ((∀ e ∈ listed m.servers, '\x00' ∉ e.1.ip) → seen = listed m.servers) ∧
        (seen.length = (listed m.servers).length → ∀ e ∈ listed m.servers, '\x00' ∉ e.1.ip) := by
  obtain ⟨seen, tail, hcstr, htail, hseen, hall, hlength⟩ := exists_cstr_entries fun e he => (hips e he).1
  refine ⟨seen, fun table => ?_, hall, hlength⟩
  have hdata : cstr (feedback m.listServers) = seen.flatMap entryText ++ tail := by
    rw [← hcstr, ← listServers_eq, feedback, List.take_of_length_le hfits, cstr_append_nul]
  have hsize : (seen.flatMap entryText ++ tail).length < npos := by
    rw [← hcstr, ← listServers_eq]
    have hcut := (List.takeWhile_sublist (l := m.listServers) (· != '\x00')).length_le
    rw [cstr]
    unfold npos
    omega
  have hrounds : seen.length < (seen.flatMap entryText ++ tail).length + 1 := by
    have hentries : seen.length ≤ (seen.flatMap entryText).length := length_le_flatMap seen
    rw [List.length_append]
    omega
  have hseenIps (e : PennCloud.Server × Bool) (he : e ∈ seen) : ':' ∉ e.1.ip ∧ ',' ∉ e.1.ip ∧ '\x00' ∉ e.1.ip :=
    ⟨(hips e (hseen e he).1).1, (hips e (hseen e he).1).2, (hseen e he).2⟩
  rw [visit, parseBackendServers, hdata]
  have hrun := parseServers_eq hseenIps htail [] rfl hsize hrounds ⟨le_rfl, List.not_mem_nil⟩ ⟨le_rfl, List.not_mem_nil⟩ 1 table
  rw [show (1 : Int) - 1 + seen.length = seen.length by omega] at hrun
  exact hrun

/-! ### The table -/

theorem getElem?_fill (id : Int) (l : List (PennCloud.Server × Bool)) (table : BackendServers) (k : Int) :
    (fill id table l)[k]? = if id ≤ k ∧ k < id + l.length then l[(k - id).toNat]?.map (shown k) else table[k]? := by
  induction l generalizing id table with
  | nil =>
      rw [fill, if_neg]
      simp
  | cons e l ih =>
      rw [fill, ih, SortedMap.getElem?_insert_eq, List.length_cons]
      by_cases heq : id = k
      · subst heq
        rw [if_neg (by omega), if_pos rfl, if_pos (by omega), Int.sub_self]
        rfl
      · rw [if_neg heq]
        by_cases hrange : id + 1 ≤ k ∧ k < id + 1 + l.length
        · have hindex : (k - id).toNat = (k - (id + 1)).toNat + 1 := by omega
          rw [if_pos hrange, if_pos (by push_cast; omega), hindex, List.getElem?_cons_succ]
        · rw [if_neg hrange, if_neg (by push_cast; omega)]

theorem toList_fill (l : List (PennCloud.Server × Bool)) (h : ∀ id ∈ table, 1 ≤ id ∧ id ≤ l.length) :
    (fill 1 table l).toList = l.mapIdx fun i e => ((i : Int) + 1, shown (i + 1) e) := by
  have hsorted : (l.mapIdx fun i e => ((i : Int) + 1, shown (i + 1) e)).Pairwise fun a b => compare a.1 b.1 = .lt := by
    rw [List.pairwise_iff_getElem]
    intro i j hi hj hij
    rw [List.getElem_mapIdx, List.getElem_mapIdx, Int.compare_eq_lt]
    omega
  have hmem (entry : Int × Server) :
      entry ∈ (fill 1 table l).toList ↔ entry ∈ l.mapIdx fun i e => ((i : Int) + 1, shown (i + 1) e) := by
    rw [Std.ExtTreeMap.mem_toList_iff_getElem?_eq_some, getElem?_fill, List.mem_mapIdx]
    constructor
    · intro hget
      split at hget
      · next hrange =>
          obtain ⟨e, he, hshown⟩ := Option.map_eq_some_iff.mp hget
          obtain ⟨hindex, rfl⟩ := List.getElem?_eq_some_iff.mp he
          have hnumber : (((entry.1 - 1).toNat : Nat) : Int) + 1 = entry.1 := by omega
          exact ⟨_, hindex, by rw [hnumber, hshown]⟩
      · next hrange =>
          -- The number has an entry of the earlier table.
          obtain ⟨hlow, hhigh⟩ := h entry.1 (Std.ExtTreeMap.mem_iff_isSome_getElem?.mpr (hget ▸ rfl))
          exact absurd ⟨hlow, by omega⟩ hrange
    · rintro ⟨i, hi, rfl⟩
      dsimp only
      have hindex : ((i : Int) + 1 - 1).toNat = i := by omega
      rw [if_pos (by omega), hindex, List.getElem?_eq_getElem hi]
      rfl
  have hnodup : (l.mapIdx fun i e => ((i : Int) + 1, shown (i + 1) e)).Nodup := hsorted.imp fun {a b} hlt heq => by
    rw [heq, Int.compare_eq_lt] at hlt
    exact Int.lt_irrefl _ hlt
  refine List.Perm.eq_of_pairwise (fun a b _ _ hlt hgt => ?_) Std.ExtTreeMap.ordered_keys_toList hsorted
    ((List.perm_ext_iff_of_nodup (SortedMap.nodup_toList _) hnodup).mpr hmem)
  rw [Int.compare_eq_lt] at hlt hgt
  omega

/-- A visit shows the servers of the master iff it sees all of them, and no earlier visit has filled more numbers. -/
theorem visit_shows_iff {m : Master} (hips : ∀ e ∈ listed m.servers, ':' ∉ e.1.ip ∧ ',' ∉ e.1.ip)
    (hfits : m.listServers.length ≤ 1023) (table : BackendServers) :
    ∃ count table', visit m table = .ok (count, table') ∧ (Shows m.servers count table' ↔
      (∀ id ∈ table, 1 ≤ id ∧ id ≤ (listed m.servers).length) ∧ ∀ e ∈ listed m.servers, '\x00' ∉ e.1.ip) := by
  obtain ⟨seen, hvisit, hall, hlength⟩ := visit_eq hips hfits
  refine ⟨_, _, hvisit table, ?_, ?_⟩
  · rintro ⟨hlist, hcount⟩
    have hsize : (fill 1 table seen).size = (listed m.servers).length := by
      rw [← Std.ExtTreeMap.length_toList]
      have hlengths := congrArg List.length hlist
      rwa [List.length_map, List.length_mapIdx] at hlengths
    refine ⟨fun id hid => ?_, hlength (by omega)⟩
    have hkept : ∃ server, (fill 1 table seen)[id]? = some server := by
      obtain ⟨server, hserver⟩ := Option.isSome_iff_exists.mp (Std.ExtTreeMap.mem_iff_isSome_getElem?.mp hid)
      rw [getElem?_fill]
      split
      · next hrange =>
          have hindex : (id - 1).toNat < seen.length := by omega
          exact ⟨_, congrArg (Option.map (shown id)) (List.getElem?_eq_getElem hindex)⟩
      · exact ⟨server, hserver⟩
    obtain ⟨server, hserver⟩ := hkept
    have hmem := List.mem_map_of_mem (f := fun entry : Int × Server => (entry.1, entry.2.ip, entry.2.port, entry.2.backendType))
      (Std.ExtTreeMap.mem_toList_iff_getElem?_eq_some.mpr hserver)
    rw [hlist, List.mem_mapIdx] at hmem
    obtain ⟨i, hi, heq⟩ := hmem
    have hid : (i : Int) + 1 = id := congrArg Prod.fst heq
    omega
  · rintro ⟨hids, hnul⟩
    obtain rfl := hall hnul
    have hlist := toList_fill (listed m.servers) hids
    refine ⟨?_, ?_⟩
    · rw [hlist]
      refine List.ext_getElem? fun i => ?_
      rw [List.getElem?_map, List.getElem?_mapIdx, List.getElem?_mapIdx, Option.map_map]
      rfl
    · rw [← Std.ExtTreeMap.length_toList, hlist, List.length_mapIdx]

/-- A master with a primary and its secondary. -/
def pairOfServers : Master :=
  ⟨(∅ : Servers).insert 1 ⟨.sender 1 "10.0.0.1".toList 8000, .sender 1 "10.0.0.2".toList 8000⟩, ∅, ∅⟩

/-- A master with one node. -/
def oneServer : Master := (pairOfServers.getBackendInfo (fun _ _ => false) 1).1

/-- Behind a visit that has seen one server, a visit shows both. -/
theorem visit_shows_iff_pair : ∃ count table count' table', visit oneServer ∅ = .ok (count, table) ∧ table.keys = [1] ∧
    visit pairOfServers table = .ok (count', table') ∧ Shows pairOfServers.servers count' table' := by
  have hkeys : (visit oneServer ∅).toOption.map (fun answer => answer.2.keys) = some [1] := by decide +kernel
  cases hvisit : visit oneServer ∅ with
  | error fault =>
      rw [hvisit] at hkeys
      cases hkeys
  | ok answer =>
      rw [hvisit] at hkeys
      have hkeys : answer.2.keys = [1] := Option.some.inj hkeys
      have hlength : (listed pairOfServers.servers).length = 2 := by decide +kernel
      have hids : ∀ id ∈ answer.2, 1 ≤ id ∧ id ≤ (listed pairOfServers.servers).length := by
        intro id hid
        rw [← Std.ExtTreeMap.mem_keys, hkeys, List.mem_singleton] at hid
        rw [hid, hlength]
        decide
      obtain ⟨count', table', hvisit', hshows⟩ := visit_shows_iff (m := pairOfServers) (by decide) (by decide) answer.2
      exact ⟨answer.1, answer.2, count', table', rfl, hkeys, hvisit', hshows.mpr ⟨hids, by decide⟩⟩

/-- The primary is down and the secondary has taken its place, but the console still shows two servers. -/
theorem not_visit_shows_failOver : ∃ count table, visit pairOfServers ∅ = .ok (count, table) ∧
    ∀ count' table', visit oneServer table = .ok (count', table') → ¬ Shows oneServer.servers count' table' := by
  have hruns : ((visit pairOfServers ∅).toOption.bind fun first =>
      (visit oneServer first.2).toOption).map (fun second => (second.1, second.2.size)) =
        some (1, 2) := by decide +kernel
  cases hfirst : visit pairOfServers ∅ with
  | error fault =>
      rw [hfirst] at hruns
      cases hruns
  | ok first =>
      refine ⟨first.1, first.2, rfl, fun count' table' hsecond hshows => ?_⟩
      rw [hfirst] at hruns
      have hruns : (visit oneServer first.2).toOption.map
          (fun second => (second.1, second.2.size)) = some (1, 2) := hruns
      rw [hsecond] at hruns
      obtain ⟨rfl, hsize⟩ := Prod.mk.inj (Option.some.inj hruns)
      have hcount : ((table'.size : Nat) : Int) = 1 := hshows.2
      rw [hsize] at hcount
      cases hcount

end AdminConsole

end PennCloud
