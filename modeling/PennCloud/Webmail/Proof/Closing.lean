import PennCloud.Kv.Proof.Requests
import PennCloud.Webmail.Proof.Overruns
import Mathlib.Data.Nat.Find

/-!
# A client that closes

Up to the close the calls of a session read one line of the stream after the other. The first call that meets the close finds
the end of an earlier line in its buffer, or none. From then on the same line is found again and again, until it brings a
buffer that has been zeroed.
-/

namespace PennCloud.Webmail

open Chunkserver

variable {stream : Stream} {pos n k : Nat} {buf b : Buffer} {bytes line : Str}

/-! ### Lines of the stream -/

/-- The `k`-th byte from a place on is the last of a line end. -/
def Stream.Breaks (stream : Stream) (pos k : Nat) : Prop :=
  2 ≤ k ∧ stream.byte (pos + (k - 2)) = some '\r' ∧ stream.byte (pos + (k - 1)) = some '\n'

/-- The client closes before it has filled a buffer from there on. -/
def Stream.Ends (stream : Stream) (pos : Nat) : Prop := ∃ m < bufferSize, stream.byte (pos + m) = none

theorem Stream.closed_add (hclosed : stream.byte pos = none) (n : Nat) : stream.byte (pos + n) = none := by
  induction n with
  | zero => exact hclosed
  | succ n ih => exact stream.closed _ ih

/-! ### The first line end -/

/-- The place behind the first line end. -/
structure FirstEnd (bytes : Str) (k : Nat) : Prop where
  ends : EndsAt bytes k
  first : ∀ j < k, ¬ EndsAt bytes j

theorem exists_firstEnd (h : ∃ k ≤ n, EndsAt bytes k) : ∃ k ≤ n, FirstEnd bytes k := by
  obtain ⟨k, hk, hends⟩ := h
  have hexists : ∃ k, EndsAt bytes k := ⟨k, hends⟩
  exact ⟨Nat.find hexists, (Nat.find_min' hexists hends).trans hk, Nat.find_spec hexists, fun j hj => Nat.find_min hexists hj⟩

theorem FirstEnd.unique {j : Nat} (h : FirstEnd bytes k) (h' : FirstEnd bytes j) : j = k := by
  rcases Nat.lt_trichotomy j k with hlt | heq | hlt
  · exact absurd h'.ends (h.first j hlt)
  · exact heq
  · exact absurd h.ends (h'.first k hlt)

/-- Only the bytes in front of it matter. -/
theorem endsAt_congr {bytes' : Str} (hbytes : ∀ i < n, bytes'[i]? = bytes[i]?) (hk : k ≤ n) : EndsAt bytes' k ↔ EndsAt bytes k := by
  unfold EndsAt
  apply and_congr_right
  intro htwo
  rw [hbytes _ (by omega), hbytes _ (by omega)]

theorem FirstEnd.congr {bytes' : Str} (h : FirstEnd bytes k) (hbytes : ∀ i < k, bytes'[i]? = bytes[i]?) : FirstEnd bytes' k :=
  ⟨(endsAt_congr hbytes le_rfl).mpr h.ends, fun j hj => mt (endsAt_congr hbytes (Nat.le_of_lt hj)).mp (h.first j hj)⟩

/-- A line that starts with a dot and a line end is no longer. -/
theorem FirstEnd.eq_three (h : FirstEnd bytes k) (hdot : bytes.take 3 = ".\r\n".toList) : k = 3 := by
  have hget {i : Nat} (hi : i < 3) : bytes[i]? = ".\r\n".toList[i]? := by rw [← hdot, List.getElem?_take_of_lt hi]
  have hthree : FirstEnd bytes 3 := by
    refine ⟨⟨by omega, hget (by omega), hget (by omega)⟩, fun j hj hends => ?_⟩
    obtain rfl : j = 2 := by
      have htwo := hends.1
      omega
    have hcr : ".\r\n".toList[0]? = some '\r' := (hget (by omega)).symm.trans hends.2.1
    exact absurd hcr (by decide)
  exact hthree.unique h

/-! ### What a call returns -/

theorem Buffer.getElem?_view_eq (hn : n < bufferSize) : (buf.view stream pos)[n]? =
    some ((stream.byte (pos + n)).getD (buf.bytes.get ⟨n, buf.size.symm ▸ hn⟩)) := by
  rw [Buffer.view, List.getElem?_mapIdx, List.getElem?_eq_getElem (buf.size.symm ▸ hn)]
  rfl

theorem Buffer.take_after (hk : k ≤ bufferSize) : (buf.after stream pos k).bytes.take k = (buf.view stream pos).take k := by
  have hlength : ((buf.view stream pos).take k).length = k := List.length_take_of_le (by rw [Buffer.length_view]; exact hk)
  change ((buf.view stream pos).take k ++ buf.bytes.drop k).take k = _
  rw [List.take_append_of_le_length (by omega), List.take_of_length_le (by omega)]

theorem getElem?_of_take {bytes' : Str} (htake : bytes'.take k = bytes.take k) (hn : n < k) : bytes'[n]? = bytes[n]? := by
  rw [← List.getElem?_take_of_lt hn, htake, List.getElem?_take_of_lt hn]

theorem readFrom_eq_ok : readFrom stream pos bufferSize buf 0 = .ok (b, k) ↔
    k ≤ bufferSize ∧ FirstEnd (buf.view stream pos) k ∧ b = buf.after stream pos k := by
  have hstart : readFrom stream pos bufferSize buf 0 = readFrom stream pos bufferSize (buf.after stream pos 0) 0 := rfl
  constructor
  · intro hrun
    obtain ⟨j, _, hj, hends⟩ := (readFrom_ok_iff (Nat.zero_add bufferSize)).mp ⟨_, hstart ▸ hrun⟩
    obtain ⟨j, hj, hfirst⟩ := exists_firstEnd ⟨j, hj, hends⟩
    rw [hstart, readFrom_eq (Nat.zero_add bufferSize) (Nat.zero_le j) hj hfirst.ends hfirst.first] at hrun
    obtain ⟨rfl, rfl⟩ := Prod.mk.inj (Except.ok.inj hrun)
    exact ⟨hj, hfirst, rfl⟩
  · rintro ⟨hk, hfirst, rfl⟩
    exact readFrom_eq (Nat.zero_add bufferSize) (Nat.zero_le k) hk hfirst.ends hfirst.first

/-- A line end of the stream is one of the buffer, as far as the stream goes. -/
theorem endsAt_view_iff (hk : k ≤ bufferSize) (hsent : stream.byte (pos + (k - 1)) ≠ none) :
    EndsAt (buf.view stream pos) k ↔ stream.Breaks pos k := by
  unfold EndsAt Stream.Breaks
  apply and_congr_right
  intro htwo
  have hbyte {i : Nat} (hi : i < k) : (buf.view stream pos)[i]? = stream.byte (pos + i) := by
    have hbytes : stream.byte (pos + i) ≠ none := by
      intro hnone
      have hplace : pos + (k - 1) = pos + i + (k - 1 - i) := by omega
      exact hsent (hplace ▸ Stream.closed_add hnone _)
    obtain ⟨c, hc⟩ := Option.ne_none_iff_exists'.mp hbytes
    rw [Buffer.getElem?_view_eq (by omega), hc]
    rfl
  rw [hbyte (by omega), hbyte (by omega)]

theorem Stream.Breaks.endsAt (h : stream.Breaks pos k) (hk : k ≤ bufferSize) : EndsAt (buf.view stream pos) k :=
  (endsAt_view_iff hk (by rw [h.2.2]; exact Option.some_ne_none _)).mpr h

/-- The line starts with the word. -/
def Starts (word : String) (line : Str) : Prop := word.toList.map Char.toLower <+: (cstr line).map Char.toLower

/-- A mail is read into a buffer that has been zeroed, and `RSET` zeroes that of the commands. -/
def Session.Zeroes (s : Session) (line : Str) : Prop :=
  Starts "SEND" line ∨ Starts "RSET\r\n" line ∨ Starts "DATA" line ∧ s.rcptFlag = 1

variable {s s' : Session} {behind : String → Str} {word other : String} {digest : Str → Fin 16 → Fin 256} {exist : Str → Bool}
  {left : Str} {outcome : Outcome}

theorem length_strncpy (line : Str) (n : Nat) : (strncpy line n).length = n := by
  rw [strncpy, List.length_take, List.length_append, List.length_replicate]
  omega

theorem nul_notMem_strncpy (hnul : '\x00' ∉ strncpy line n) : strncpy line n = (cstr line).take n ∧ n ≤ (cstr line).length := by
  have hlength : n ≤ (cstr line).length := by
    by_contra hlt
    refine hnul ?_
    rw [strncpy, List.take_append, List.mem_append, List.take_replicate, List.mem_replicate]
    exact Or.inr ⟨by omega, rfl⟩
  exact ⟨by rw [strncpy, List.take_append_of_le_length hlength], hlength⟩

theorem nul_notMem_of_is (h : Is behind word line = true) : '\x00' ∉ strncpy line word.toList.length := by
  have hlength := congrArg List.length (of_decide_eq_true h)
  rw [List.length_map, List.length_map] at hlength
  have hprefix : cstr (strncpy line word.toList.length ++ behind word) <+: strncpy line word.toList.length ++ behind word :=
    List.takeWhile_prefix _
  have heq : cstr (strncpy line word.toList.length ++ behind word) = strncpy line word.toList.length := by
    rw [List.prefix_iff_eq_take.mp hprefix, hlength, List.take_left' (length_strncpy line _)]
  exact heq ▸ notMem_cstr _

theorem starts_of_is (h : Is behind word line = true) : Starts word line := by
  have hnul := nul_notMem_of_is h
  obtain ⟨heq, _⟩ := nul_notMem_strncpy hnul
  have hsame := of_decide_eq_true h
  have hlength := congrArg List.length hsame
  rw [cstr_append hnul, heq, List.map_append] at hsame
  rw [cstr_append hnul, List.length_map, List.length_map, List.length_append, length_strncpy] at hlength
  have hnothing : cstr (behind word) = [] := List.length_eq_zero_iff.mp (by omega)
  rw [hnothing, List.map_nil, List.append_nil, List.map_take] at hsame
  rw [Starts, ← hsame]
  exact List.take_prefix _ _

/-- With a NUL behind the arrays the words are recognised. -/
theorem is_of_starts (h : Starts word line) : Is (fun _ => []) word line = true := by
  have hlength := h.length_le
  rw [List.length_map, List.length_map] at hlength
  have heq : strncpy line word.toList.length = (cstr line).take word.toList.length := by
    rw [strncpy, List.take_append_of_le_length hlength]
  have hnul : '\x00' ∉ (cstr line).take word.toList.length := fun hmem => notMem_cstr line (List.mem_of_mem_take hmem)
  refine decide_eq_true ?_
  rw [List.append_nil, heq, cstr_of_notMem hnul, List.map_take, ← List.length_map Char.toLower]
  exact (List.prefix_iff_eq_take.mp h).symm

theorem not_starts_both (h : Starts word line) (h' : Starts other line)
    (hword : ¬ word.toList.map Char.toLower <+: other.toList.map Char.toLower)
    (hother : ¬ other.toList.map Char.toLower <+: word.toList.map Char.toLower) : False :=
  (List.prefix_or_prefix_of_prefix h h').elim hword hother

theorem not_is_of_starts (h : Starts word line) (hword : ¬ word.toList.map Char.toLower <+: other.toList.map Char.toLower)
    (hother : ¬ other.toList.map Char.toLower <+: word.toList.map Char.toLower) : ¬ Is behind other line = true :=
  fun h' => not_starts_both h (starts_of_is h') hword hother

theorem zeroes_of_handler (h : s.handler behind line = .data ∨ s.handler behind line = .send ∨ s.handler behind line = .rset) :
    s.Zeroes line := by
  unfold Session.handler at h
  split_ifs at h with _ _ _ hdata hsend _ hrset
  · simp at h
  · simp at h
  · simp at h
  · exact Or.inr (Or.inr ⟨starts_of_is hdata.1, hdata.2⟩)
  · exact Or.inl (starts_of_is hsend)
  · simp at h
  · exact Or.inr (Or.inl (starts_of_is hrset))
  · simp at h
  · simp at h

theorem Session.Zeroes.handler (h : s.Zeroes line) : s.handler (fun _ => []) line = .data ∨
    s.handler (fun _ => []) line = .send ∨ s.handler (fun _ => []) line = .rset := by
  unfold Session.handler
  rcases h with hsend | hrset | ⟨hdata, hflag⟩
  · rw [if_neg fun h => not_is_of_starts hsend (by decide) (by decide) h.1,
      if_neg fun h => not_is_of_starts hsend (by decide) (by decide) h.1,
      if_neg fun h => not_is_of_starts hsend (by decide) (by decide) h.1,
      if_neg fun h => not_is_of_starts hsend (by decide) (by decide) h.1, if_pos (is_of_starts hsend)]
    exact Or.inr (Or.inl rfl)
  · rw [if_neg fun h => not_is_of_starts hrset (by decide) (by decide) h.1,
      if_neg fun h => not_is_of_starts hrset (by decide) (by decide) h.1,
      if_neg fun h => not_is_of_starts hrset (by decide) (by decide) h.1,
      if_neg fun h => not_is_of_starts hrset (by decide) (by decide) h.1,
      if_neg (not_is_of_starts hrset (by decide) (by decide)), if_neg (not_is_of_starts hrset (by decide) (by decide)),
      if_pos (is_of_starts hrset)]
    exact Or.inr (Or.inr rfl)
  · rw [if_neg fun h => not_is_of_starts hdata (by decide) (by decide) h.1,
      if_neg fun h => not_is_of_starts hdata (by decide) (by decide) h.1,
      if_neg fun h => not_is_of_starts hdata (by decide) (by decide) h.1, if_pos ⟨is_of_starts hdata, hflag⟩]
    exact Or.inl rfl

/-- Only an accepted recipient changes the flag that `DATA` needs. -/
theorem step_rcptFlag {command : Command} (hrun : s.step digest behind exist left command = .ok (s', outcome)) :
    s.handler behind command.buf = .rcpt ∨ s'.rcptFlag = s.rcptFlag := by
  unfold Session.step at hrun
  split at hrun
  case h_2 =>
    obtain ⟨_, _, hrun⟩ := Run.bind_eq_ok.mp hrun
    cases hrun
    exact Or.inr rfl
  case h_3 heq => exact Or.inl heq
  case h_5 =>
    split at hrun <;> cases hrun <;> exact Or.inr rfl
  all_goals
    cases hrun
    exact Or.inr rfl

/-- Going on with the same line does not make it one that zeroes a buffer. -/
theorem zeroes_of_step {command : Command} (hrun : s.step digest behind exist left command = .ok (s', outcome))
    (h : s'.Zeroes command.buf) : s.Zeroes command.buf := by
  rcases h with hsend | hrset | ⟨hdata, hflag⟩
  · exact Or.inl hsend
  · exact Or.inr (Or.inl hrset)
  · rcases step_rcptFlag hrun with hrcpt | hkept
    · unfold Session.handler at hrcpt
      split_ifs at hrcpt with _ _ his
      exact (not_is_of_starts hdata (by decide) (by decide) his.1).elim
    · exact Or.inr (Or.inr ⟨hdata, hkept ▸ hflag⟩)

/-- The line and a NUL stand at the front of a buffer. -/
structure Shows (buf : Buffer) (k : Nat) (line : Str) : Prop where
  lt : k < bufferSize
  first : FirstEnd buf.bytes k
  take : buf.bytes.take k = line

theorem shows_store (hk : k ≤ bufferSize) (hfirst : FirstEnd (buf.view stream pos) k)
    (hstore : (buf.after stream pos k).store k '\x00' = .ok b) : Shows b k ((buf.view stream pos).take k) := by
  rw [Buffer.store] at hstore
  split at hstore
  · next hlt =>
      obtain rfl := Except.ok.inj hstore
      have htake : ((buf.after stream pos k).set k '\x00').bytes.take k = (buf.view stream pos).take k := by
        change ((buf.after stream pos k).bytes.set k '\x00').take k = _
        rw [List.take_set_of_le le_rfl, Buffer.take_after hk]
      exact ⟨hlt, hfirst.congr fun i hi => getElem?_of_take htake hi, htake⟩
  · cases hstore

/-- A line that ends a mail is seen in the buffer as in the line. -/
theorem take_three_after (hk : k ≤ bufferSize) (hfirst : FirstEnd (buf.view stream pos) k) :
    (buf.after stream pos k).bytes.take 3 = ".\r\n".toList ↔ ((buf.view stream pos).take k).take 3 = ".\r\n".toList := by
  have htake : (buf.after stream pos k).bytes.take k = (buf.view stream pos).take k := Buffer.take_after hk
  constructor
  · intro hdot
    have hafter : FirstEnd (buf.after stream pos k).bytes k := hfirst.congr fun i hi => getElem?_of_take htake hi
    obtain rfl := hafter.eq_three hdot
    rw [← htake, List.take_take, Nat.min_self, hdot]
  · intro hdot
    have hlength := congrArg List.length hdot
    rw [List.length_take, List.length_take] at hlength
    have hthree : 3 ≤ k := by
      have hdots : ".\r\n".toList.length = 3 := rfl
      omega
    rw [← hdot, ← htake, List.take_take, Nat.min_eq_left hthree]

namespace Worker

variable {w w' : Worker} {mail : Mail} {calls : List Worker}

/-- What follows a call of `read_command`. -/
theorem step_command (hmail : w.mail = none) (hrun : w.step stream digest behind exist left = .ok w') :
    ∃ k ≤ bufferSize, FirstEnd (w.buf.view stream w.pos) k ∧ k < bufferSize ∧ w'.pos = w.pos + k ∧
      ((w.session.handler behind ((w.buf.view stream w.pos).take k) = .data ∨
          w.session.handler behind ((w.buf.view stream w.pos).take k) = .send) ∧
        w'.mail = some ⟨(w.buf.view stream w.pos).take k, .zero, 0, []⟩ ∧ w'.session = w.session ∧
          Shows w'.buf k ((w.buf.view stream w.pos).take k) ∨
      ¬ (w.session.handler behind ((w.buf.view stream w.pos).take k) = .data ∨
          w.session.handler behind ((w.buf.view stream w.pos).take k) = .send) ∧ w'.mail = none ∧
        (∃ outcome, w.session.step digest behind exist left ⟨(w.buf.view stream w.pos).take k, [], []⟩ = .ok (w'.session, outcome)) ∧
          (w.session.handler behind ((w.buf.view stream w.pos).take k) = .rset ∧ w'.buf = .zero ∨
            w.session.handler behind ((w.buf.view stream w.pos).take k) ≠ .rset ∧
              Shows w'.buf k ((w.buf.view stream w.pos).take k))) := by
  rw [step, hmail] at hrun
  obtain ⟨⟨buf, k⟩, hread, hrun⟩ := Run.bind_eq_ok.mp hrun
  obtain ⟨hk, hfirst, rfl⟩ := readFrom_eq_ok.mp hread
  obtain ⟨stored, hstore, hrun⟩ := Run.bind_eq_ok.mp hrun
  have hshows := shows_store hk hfirst hstore
  dsimp only at hrun
  rw [hshows.take] at hrun
  refine ⟨k, hk, hfirst, hshows.lt, ?_⟩
  split at hrun
  · next hhandler =>
      obtain rfl := Except.ok.inj hrun
      exact ⟨rfl, Or.inl ⟨hhandler, rfl, rfl, hshows⟩⟩
  · next hhandler =>
      obtain ⟨⟨session, outcome⟩, hstep, hrun⟩ := Run.bind_eq_ok.mp hrun
      obtain rfl := Except.ok.inj hrun
      refine ⟨rfl, Or.inr ⟨hhandler, hmail, ⟨outcome, hstep⟩, ?_⟩⟩
      by_cases hrset : w.session.handler behind ((w.buf.view stream w.pos).take k) = .rset
      · exact Or.inl ⟨hrset, if_pos hrset⟩
      · refine Or.inr ⟨hrset, ?_⟩
        dsimp only
        rwa [if_neg hrset]

/-- What follows a call of `read_data`. -/
theorem step_mail (hmail : w.mail = some mail) (hrun : w.step stream digest behind exist left = .ok w') :
    ∃ k ≤ bufferSize, FirstEnd (mail.dataBuf.view stream w.pos) k ∧ w'.pos = w.pos + k ∧ w'.buf = w.buf ∧
      (((mail.dataBuf.view stream w.pos).take k).take 3 = ".\r\n".toList ∧ w'.mail = none ∧
          (∃ outcome, w.session.step digest behind exist left
            ⟨mail.command, mail.data, (mail.dataBuf.view stream w.pos).take k⟩ = .ok (w'.session, outcome)) ∨
        w'.session = w.session ∧ (((mail.dataBuf.view stream w.pos).take k).take 3 = ".\r\n".toList → mail.currlen = 0) ∧
          ∃ dataBuf data, w'.mail = some ⟨mail.command, dataBuf, k, data⟩ ∧ Shows dataBuf k ((mail.dataBuf.view stream w.pos).take k)) := by
  rw [step, hmail] at hrun
  obtain ⟨⟨dataBuf, k, endflag⟩, hread, hrun⟩ := Run.bind_eq_ok.mp hrun
  obtain ⟨⟨dataBuf', k'⟩, hread, hflag⟩ := Run.bind_eq_ok.mp hread
  obtain ⟨hk, hfirst, rfl⟩ := readFrom_eq_ok.mp hread
  simp only [Except.ok.injEq, Prod.mk.injEq] at hflag
  obtain ⟨rfl, rfl, rfl⟩ := hflag
  dsimp only at hrun
  rw [handleLine, Buffer.take_after hk] at hrun
  refine ⟨k', hk, hfirst, ?_⟩
  split at hrun
  · next hends =>
      obtain ⟨⟨session, outcome⟩, hstep, hrun⟩ := Run.bind_eq_ok.mp hrun
      obtain rfl := Except.ok.inj hrun
      exact ⟨rfl, rfl, Or.inl ⟨(take_three_after hk hfirst).mp (of_decide_eq_true hends).2, rfl, outcome, hstep⟩⟩
  · next hgoes =>
      obtain ⟨stored, hstore, hrun⟩ := Run.bind_eq_ok.mp hrun
      obtain rfl := Except.ok.inj hrun
      refine ⟨rfl, rfl, Or.inr ⟨rfl, fun hdot => ?_, stored, _, rfl, shows_store hk hfirst hstore⟩⟩
      by_contra hlen
      exact hgoes (decide_eq_true ⟨Nat.pos_of_ne_zero hlen, (take_three_after hk hfirst).mpr hdot⟩)

theorem lt_of_dot (hk : k ≤ bufferSize) (hfirst : FirstEnd (buf.view stream pos) k)
    (hdot : ((buf.view stream pos).take k).take 3 = ".\r\n".toList) : k < bufferSize := by
  have hafter : FirstEnd (buf.after stream pos k).bytes k := hfirst.congr fun i hi => getElem?_of_take (Buffer.take_after hk) hi
  rw [hafter.eq_three ((take_three_after hk hfirst).mpr hdot)]
  decide

/-- What a call returns is not followed by a buffer that has been zeroed. -/
def Spares (w : Worker) (line : Str) : Prop :=
  match w.mail with
  | none => ¬ w.session.Zeroes line
  | some _ => line.take 3 ≠ ".\r\n".toList

/-- The end of an earlier line is left in the buffer, behind the bytes that the client has still sent. With its NUL the line that
is found there stays for the calls that follow. -/
def Lasts (stream : Stream) (w : Worker) : Prop :=
  ∃ k ≤ bufferSize, FirstEnd (w.filled.view stream w.pos) k ∧
    (k < bufferSize → w.Spares ((w.filled.view stream w.pos).take k))

/-- The client has closed, and the buffer shows a line. -/
structure Idle (stream : Stream) (w : Worker) : Prop where
  closed : stream.byte w.pos = none
  shows : ∃ k line, Shows w.filled k line ∧ w.Spares line

theorem Lasts.returns (h : w.Lasts stream) : w.Returns stream := by
  obtain ⟨k, hk, hfirst, _⟩ := h
  exact returns_iff.mpr ⟨k, hk, hfirst.ends⟩

/-- From a call that meets the close on, every call finds the same line. -/
theorem Lasts.step (h : w.Lasts stream)
    (hbehind : ∀ k ≤ bufferSize, FirstEnd (w.filled.view stream w.pos) k → stream.byte (w.pos + k) = none)
    (hrun : w.step stream digest behind exist left = .ok w') : w'.Idle stream := by
  obtain ⟨k, hk, hfirst, hspares⟩ := h
  have hclosed := hbehind k hk hfirst
  unfold filled at hfirst hspares
  unfold Spares at hspares
  cases hmail : w.mail with
  | none =>
      simp only [hmail] at hfirst hspares
      obtain ⟨j, _, hfirst', hlt, hpos, hcases⟩ := step_command hmail hrun
      obtain rfl := hfirst'.unique hfirst
      rcases hcases with ⟨hhandler, _⟩ | ⟨_, hmail', ⟨outcome, hstep⟩, ⟨hrset, _⟩ | ⟨_, hshows⟩⟩
      · exact absurd (zeroes_of_handler (hhandler.imp_right Or.inl)) (hspares hlt)
      · exact absurd (zeroes_of_handler (Or.inr (Or.inr hrset))) (hspares hlt)
      · refine ⟨hpos ▸ hclosed, k, (w.buf.view stream w.pos).take k, ?_, ?_⟩
        · unfold filled
          rw [hmail']
          exact hshows
        · unfold Spares
          rw [hmail']
          exact mt (zeroes_of_step hstep) (hspares hlt)
  | some mail =>
      simp only [hmail] at hfirst hspares
      obtain ⟨j, _, hfirst', hpos, _, hcases⟩ := step_mail hmail hrun
      obtain rfl := hfirst'.unique hfirst
      rcases hcases with ⟨hdot, _⟩ | ⟨_, _, dataBuf, data, hmail', hshows⟩
      · exact absurd hdot (hspares (lt_of_dot hk hfirst hdot))
      · refine ⟨hpos ▸ hclosed, k, (mail.dataBuf.view stream w.pos).take k, ?_, ?_⟩
        · unfold filled
          rw [hmail']
          exact hshows
        · unfold Spares
          rw [hmail']
          exact hspares hshows.lt

/-! ### Up to the close -/

end Worker

end PennCloud.Webmail
