import PennCloud.Lib.Rotation
import PennCloud.Lib.Run
import PennCloud.Frontend.LoadBalancer

/-!
# The load balancer goes round the running servers

The cursor of `main` stands for the list of all ids from it on, round the end. A request stops at the first
running server of that list.
-/

namespace PennCloud.LoadBalancer

variable {lb : LoadBalancer} {servers : Nat → Server} {n h fuel count target : Nat}

/-- The ids from the cursor on, round the end. -/
def order (n h : Nat) : List Nat := (List.range' 1 n).rotate (h - 1)

theorem advance_range (hn : 1 ≤ n) : 1 ≤ advance n h ∧ advance n h ≤ n := by
  rw [advance]
  have hlt : (h + 1) % n < n := Nat.mod_lt _ hn
  split
  · exact ⟨hn, Nat.le_refl n⟩
  · next hne => omega

theorem order_advance (hlow : 1 ≤ h) (hhigh : h ≤ n) : order n (advance n h) = (order n h).rotate 1 := by
  have hlength : (List.range' 1 n).length = n := List.length_range'
  rw [order, order, List.rotate_rotate, ← List.rotate_mod, hlength, ← List.rotate_mod _ (h - 1 + 1), hlength]
  congr 1
  rw [advance, Nat.sub_add_cancel hlow]
  rcases Nat.lt_or_ge h n with hlt | hge
  · rcases Nat.lt_or_ge (h + 1) n with hlt' | hge'
    · rw [Nat.mod_eq_of_lt hlt', if_neg (by omega), Nat.add_sub_cancel]
    · obtain rfl : n = h + 1 := by omega
      rw [Nat.mod_self, if_pos rfl, Nat.add_sub_cancel]
  · obtain rfl : n = h := by omega
    rw [Nat.add_mod_left, Nat.mod_self]
    rcases Nat.lt_or_ge 1 n with hlt | hge
    · rw [Nat.mod_eq_of_lt hlt, if_neg (by decide), Nat.sub_self, Nat.zero_mod]
    · obtain rfl : n = 1 := by omega
      rfl

theorem order_eq_cons (hlow : 1 ≤ h) (hhigh : h ≤ n) : ∃ rest, order n h = h :: rest := by
  have hlength : h - 1 < (List.range' 1 n).length := by
    rw [List.length_range']
    omega
  have hhead : (order n h).head? = some h := by
    rw [order, List.head?_rotate hlength, List.getElem?_range' (by omega)]
    congr 1
    omega
  obtain ⟨rest, hrest⟩ := List.head?_eq_some_iff.mp hhead
  exact ⟨rest, hrest⟩

theorem order_perm : (order n h).Perm (List.range' 1 n) := List.rotate_perm _ _

theorem length_order : (order n h).length = n := by
  rw [order, List.length_rotate, List.length_range']

theorem mem_order : target ∈ order n h ↔ 1 ≤ target ∧ target ≤ n := by
  rw [order_perm.mem_iff, List.mem_range'_1]
  omega

/-! ### One request -/

theorem search_eq {front back : List Nat} (hlow : 1 ≤ h) (hhigh : h ≤ n) (horder : order n h = front ++ target :: back)
    (hfront : ∀ i ∈ front, (servers i).running = false) (hrunning : (servers target).running = true)
    (hcount : count + front.length < n) (hfuel : front.length < fuel) :
    search fuel servers n h count = .ok (target, count + front.length) ∧
      order n (advance n target) = back ++ front ++ [target] := by
  induction front generalizing h count fuel back with
  | nil =>
      obtain ⟨rest, hcons⟩ := order_eq_cons hlow hhigh
      obtain ⟨rfl, rfl⟩ := List.cons.inj (hcons.symm.trans horder)
      obtain ⟨fuel, rfl⟩ : ∃ k, fuel = k + 1 := ⟨fuel - 1, by omega⟩
      rw [search, if_pos hrunning, order_advance hlow hhigh, hcons, List.rotate_cons_succ, List.rotate_zero,
        List.append_nil]
      exact ⟨rfl, rfl⟩
  | cons i front ih =>
      obtain ⟨rest, hcons⟩ := order_eq_cons hlow hhigh
      obtain ⟨rfl, rfl⟩ := List.cons.inj (hcons.symm.trans horder)
      obtain ⟨fuel, rfl⟩ : ∃ k, fuel = k + 1 := ⟨fuel - 1, by omega⟩
      rw [List.length_cons] at hcount hfuel ⊢
      obtain ⟨hlow', hhigh'⟩ : 1 ≤ advance n h ∧ advance n h ≤ n := advance_range (by omega)
      have horder' : order n (advance n h) = front ++ target :: (back ++ [h]) := by
        rw [order_advance hlow hhigh, horder, List.cons_append, List.rotate_cons_succ, List.rotate_zero, List.append_assoc,
          List.cons_append]
      have hsearch : search fuel servers n (advance n h) (count + 1) = .ok (target, count + 1 + front.length) ∧
          order n (advance n target) = back ++ [h] ++ front ++ [target] :=
        ih hlow' hhigh' horder' (fun j hj => hfront j (List.mem_cons_of_mem h hj)) (by omega) (by omega)
      have hstopped : ¬ (servers h).running = true := by
        rw [hfront h List.mem_cons_self]
        exact Bool.false_ne_true
      refine ⟨?_, by rw [hsearch.2, List.append_assoc back]; rfl⟩
      rw [search, if_neg hstopped]
      dsimp only
      rw [if_neg (by omega), hsearch.1, Nat.add_assoc, Nat.add_comm 1]

theorem search_none (hn : 1 ≤ n) (hlow : 1 ≤ h) (hhigh : h ≤ n)
    (hnone : ∀ i, 1 ≤ i → i ≤ n → (servers i).running = false) (hcount : count < n) (hfuel : n ≤ count + fuel) :
    ∃ h', search fuel servers n h count = .ok (h', n) ∧ 1 ≤ h' ∧ h' ≤ n := by
  induction fuel generalizing h count with
  | zero => omega
  | succ fuel ih =>
      obtain ⟨hlow', hhigh'⟩ : 1 ≤ advance n h ∧ advance n h ≤ n := advance_range hn
      have hstopped : ¬ (servers h).running = true := by
        rw [hnone h hlow hhigh]
        exact Bool.false_ne_true
      rw [search, if_neg hstopped]
      dsimp only
      split
      · next hall =>
          obtain rfl : n = count + 1 := by omega
          exact ⟨_, rfl, hlow', hhigh'⟩
      · exact ih hlow' hhigh' (by omega) (by omega)

/-! ### Requests in a row -/

/-- The cursor is the id of a server. -/
def InRange (lb : LoadBalancer) : Prop := 1 ≤ lb.handlerServerId ∧ lb.handlerServerId ≤ lb.numOfServers

def isRunning (lb : LoadBalancer) (i : Nat) : Bool := (lb.servers i).running

/-- The id a client is sent to. -/
def Page.serverId : Page → Option Nat
  | .noServerRunning => none
  | .redirect serverId _ => some serverId

theorem serve_running {front back : List Nat} (h : lb.InRange)
    (horder : order lb.numOfServers lb.handlerServerId = front ++ target :: back)
    (hfront : ∀ i ∈ front, lb.isRunning i = false) (hrunning : lb.isRunning target = true)
    (hfuel : lb.numOfServers ≤ fuel) :
    ∃ page lb', lb.serve fuel = .ok (page, lb') ∧ page.serverId = some target ∧ lb'.InRange ∧
      lb'.servers = lb.servers ∧ lb'.numOfServers = lb.numOfServers ∧
      order lb'.numOfServers lb'.handlerServerId = back ++ front ++ [target] := by
  have hlength : front.length < lb.numOfServers := by
    rw [← length_order (n := lb.numOfServers) (h := lb.handlerServerId), horder, List.length_append, List.length_cons]
    omega
  have hcount : 0 + front.length < lb.numOfServers := by omega
  obtain ⟨hsearch, hnext⟩ := search_eq h.1 h.2 horder hfront hrunning hcount (Nat.lt_of_lt_of_le hlength hfuel)
  have hrange : 1 ≤ advance lb.numOfServers target ∧ advance lb.numOfServers target ≤ lb.numOfServers :=
    advance_range (Nat.le_trans h.1 h.2)
  refine ⟨.redirect target ((lb.servers target).ip ++ ':' :: toStr (lb.servers target).port),
    { lb with handlerServerId := advance lb.numOfServers target }, ?_, rfl, hrange, rfl, rfl, hnext⟩
  rw [serve, hsearch, Run.ok_bind]
  dsimp only
  rw [if_neg (by omega)]

theorem serve_none (h : lb.InRange) (hnone : ∀ i, 1 ≤ i → i ≤ lb.numOfServers → lb.isRunning i = false)
    (hfuel : lb.numOfServers ≤ fuel) :
    ∃ lb', lb.serve fuel = .ok (.noServerRunning, lb') ∧ lb'.InRange := by
  have hn := Nat.le_trans h.1 h.2
  have hcount : 0 < lb.numOfServers := hn
  have hfuel' : lb.numOfServers ≤ 0 + fuel := by rwa [Nat.zero_add]
  obtain ⟨h', hsearch, hrange⟩ := search_none hn h.1 h.2 hnone hcount hfuel'
  refine ⟨{ lb with handlerServerId := h' }, ?_, hrange⟩
  rw [serve, hsearch, Run.ok_bind]
  exact if_pos (Nat.le_refl _)

/-- The servers that requests in a row are sent to are the stops of the cursor. -/
theorem serveMany_stops {m : Nat} (h : lb.InRange) (hfuel : lb.numOfServers ≤ fuel)
    (hsome : ∃ i, 1 ≤ i ∧ i ≤ lb.numOfServers ∧ lb.isRunning i = true) :
    ∃ pages lb', lb.serveMany fuel m = .ok (pages, lb') ∧
      pages.map Page.serverId = (Rotation.stops lb.isRunning m (order lb.numOfServers lb.handlerServerId)).map some := by
  induction m generalizing lb with
  | zero => exact ⟨[], lb, rfl, rfl⟩
  | succ m ih =>
      obtain ⟨i, hlow, hhigh, hi⟩ := hsome
      obtain ⟨front, target, back, horder, hfront, hrunning⟩ := Rotation.exists_split ⟨i, mem_order.mpr ⟨hlow, hhigh⟩, hi⟩
      obtain ⟨page, lb₁, hserve, hpage, hrange, hservers, hnumber, hnext⟩ := serve_running h horder hfront hrunning hfuel
      have hsame : lb₁.isRunning = lb.isRunning := by
        funext j
        rw [isRunning, isRunning, hservers]
      obtain ⟨pages, lb₂, hmany, hpages⟩ := ih hrange (by rw [hnumber]; exact hfuel)
        ⟨i, hlow, by rw [hnumber]; exact hhigh, by rw [hsame]; exact hi⟩
      refine ⟨page :: pages, lb₂, ?_, ?_⟩
      · rw [serveMany, hserve, Run.ok_bind]
        dsimp only
        rw [hmany]
        rfl
      · rw [List.map_cons, hpage, hpages, hsame, hnext, horder, Rotation.stops, Rotation.stop_append hfront hrunning]
        rfl

/-- The id `k` places behind the cursor, round the end. -/
def ahead (lb : LoadBalancer) (k : Nat) : Nat := (lb.handlerServerId - 1 + k) % lb.numOfServers + 1

theorem order_getElem? {k : Nat} (hk : k < lb.numOfServers) :
    (order lb.numOfServers lb.handlerServerId)[k]? = some (lb.ahead k) := by
  have hlt : (k + (lb.handlerServerId - 1)) % lb.numOfServers < lb.numOfServers := Nat.mod_lt _ (by omega)
  rw [order, List.getElem?_rotate (by rwa [List.length_range']), List.length_range', List.getElem?_range' hlt, ahead,
    Nat.add_comm k, Nat.one_mul, Nat.add_comm 1]

/-- The ids of the servers that run. -/
def runningIds (lb : LoadBalancer) : List Nat := (List.range' 1 lb.numOfServers).filter lb.isRunning

theorem mem_runningIds {i : Nat} : i ∈ lb.runningIds ↔ (1 ≤ i ∧ i ≤ lb.numOfServers) ∧ lb.isRunning i = true := by
  rw [runningIds, List.mem_filter, List.mem_range'_1, Nat.add_comm 1, Nat.lt_succ_iff]

/-- **The load balancer is a fair round robin.** A request is sent to the first running server from the cursor on,
after fewer advances than there are servers; it is told that none runs exactly when none does; and as many
requests as there are running servers go to each of them once. -/
theorem serve_round_robin (hcursor : lb.InRange) (hfuel : lb.numOfServers ≤ fuel) :
    (lb.runningIds ≠ [] → ∃ k < lb.numOfServers, lb.isRunning (lb.ahead k) = true ∧
      (∀ j < k, lb.isRunning (lb.ahead j) = false) ∧
      search fuel lb.servers lb.numOfServers lb.handlerServerId 0 = .ok (lb.ahead k, k) ∧
      ∃ page lb', lb.serve fuel = .ok (page, lb') ∧ page.serverId = some (lb.ahead k) ∧ lb'.InRange) ∧
    (lb.runningIds = [] → ∃ lb', lb.serve fuel = .ok (.noServerRunning, lb') ∧ lb'.InRange) ∧
    (lb.runningIds ≠ [] → ∃ pages lb', lb.serveMany fuel lb.runningIds.length = .ok (pages, lb') ∧
      (pages.map Page.serverId).Perm (lb.runningIds.map some)) := by
  have hsome : lb.runningIds ≠ [] → ∃ i, 1 ≤ i ∧ i ≤ lb.numOfServers ∧ lb.isRunning i = true := by
    intro hne
    obtain ⟨i, hi⟩ := List.exists_mem_of_ne_nil _ hne
    obtain ⟨hrange, hrunning⟩ := mem_runningIds.mp hi
    exact ⟨i, hrange.1, hrange.2, hrunning⟩
  refine ⟨fun hne => ?_, fun hnone => ?_, fun hne => ?_⟩
  · obtain ⟨i, hlow, hhigh, hi⟩ := hsome hne
    obtain ⟨front, target, back, horder, hfront, hrunning⟩ := Rotation.exists_split ⟨i, mem_order.mpr ⟨hlow, hhigh⟩, hi⟩
    obtain ⟨page, lb', hserve, hpage, hrange, _⟩ := serve_running hcursor horder hfront hrunning hfuel
    have hlength : front.length < lb.numOfServers := by
      rw [← length_order (n := lb.numOfServers) (h := lb.handlerServerId), horder, List.length_append, List.length_cons]
      omega
    have htarget : target = lb.ahead front.length := by
      have hget := order_getElem? hlength
      rw [horder, List.getElem?_append_right (Nat.le_refl _), Nat.sub_self] at hget
      exact Option.some.inj hget
    have hcount : 0 + front.length < lb.numOfServers := by omega
    obtain ⟨hsearch, _⟩ := search_eq hcursor.1 hcursor.2 horder hfront hrunning hcount (Nat.lt_of_lt_of_le hlength hfuel)
    rw [Nat.zero_add] at hsearch
    refine ⟨front.length, hlength, htarget ▸ hrunning, fun j hj => ?_, htarget ▸ hsearch, page, lb', hserve,
      htarget ▸ hpage, hrange⟩
    have hget := order_getElem? (Nat.lt_trans hj hlength)
    rw [horder, List.getElem?_append_left hj] at hget
    exact hfront _ (List.mem_of_getElem? hget)
  · refine serve_none hcursor (fun i hlow hhigh => ?_) hfuel
    by_contra hrunning
    have hmem : i ∈ lb.runningIds := mem_runningIds.mpr ⟨⟨hlow, hhigh⟩, by simpa using hrunning⟩
    rw [hnone] at hmem
    exact List.not_mem_nil hmem
  · obtain ⟨pages, lb', hmany, hpages⟩ := serveMany_stops hcursor hfuel (hsome hne) (m := lb.runningIds.length)
    refine ⟨pages, lb', hmany, ?_⟩
    have hperm : ((order lb.numOfServers lb.handlerServerId).filter lb.isRunning).Perm lb.runningIds :=
      order_perm.filter _
    rw [hpages, Rotation.stops_eq_take (Nat.le_of_eq hperm.length_eq.symm), ← hperm.length_eq, List.take_length]
    exact hperm.map _

/-- Three servers of which the second does not run, and the cursor on it. -/
theorem serve_round_robin_three :
    let lb : LoadBalancer := ⟨3, fun i => ⟨i, "127.0.0.1".toList, 8000 + i, i != 2⟩, 2⟩
    lb.runningIds = [1, 3] ∧ ∃ pages lb', lb.serveMany 3 lb.runningIds.length = .ok (pages, lb') ∧
      (pages.map Page.serverId).Perm (lb.runningIds.map some) := by
  refine ⟨by decide, ?_⟩
  exact (serve_round_robin ⟨by decide, by decide⟩ (Nat.le_refl 3)).2.2 (by decide)

end PennCloud.LoadBalancer
