import PennCloud.Frontend.Proof.Lines
import PennCloud.Kv.Proof.Requests
import PennCloud.Webmail.Proof.Overruns
import Mathlib.Data.List.Induction

/-!
# The text of a mail

`handle_data` reads the dot at the end over what the earlier lines have left. What stands behind it is shown as well, unless
the last line that reached so far ended there.
-/

namespace PennCloud.Webmail

variable {stream : Stream} {pos n : Nat} {buf : Buffer} {line last content : Str} {data : List Str}

/-! ### A line in the buffer -/

/-- These bytes are sent from here on. -/
def Stream.Sends (stream : Stream) (pos : Nat) (text : Str) : Prop := ∀ i < text.length, stream.byte (pos + i) = text[i]?

theorem Stream.Sends.left {front back : Str} (h : stream.Sends pos (front ++ back)) : stream.Sends pos front := by
  intro i hi
  rw [h i (by rw [List.length_append]; omega), List.getElem?_append_left hi]

theorem Stream.Sends.right {front back : Str} (h : stream.Sends pos (front ++ back)) :
    stream.Sends (pos + front.length) back := by
  intro i hi
  have hbyte := h (front.length + i) (by rw [List.length_append]; omega)
  rw [← Nat.add_assoc, List.getElem?_append_right (Nat.le_add_right _ _), Nat.add_sub_cancel_left] at hbyte
  exact hbyte

/-- A buffer that a line has been read into. -/
def Buffer.overwrite (buf : Buffer) (line : Str) (h : line.length ≤ bufferSize) : Buffer where
  bytes := line ++ buf.bytes.drop line.length
  size := by
    rw [List.length_append, List.length_drop, buf.size]
    omega

theorem Buffer.getElem?_view (hline : line.length ≤ bufferSize) (hsends : stream.Sends pos line) {i : Nat} (hi : i < line.length) :
    (buf.view stream pos)[i]? = (line)[i]? := by
  have hbytes : i < buf.bytes.length := buf.size.symm ▸ Nat.lt_of_lt_of_le hi hline
  rw [Buffer.view, List.getElem?_mapIdx, List.getElem?_eq_getElem hbytes, hsends i hi, List.getElem?_eq_getElem hi]
  rfl

theorem Buffer.after_length (hline : line.length ≤ bufferSize) (hsends : stream.Sends pos line) :
    buf.after stream pos line.length = buf.overwrite line hline := by
  have htake : (buf.view stream pos).take line.length = line := by
    apply List.ext_getElem?
    intro i
    by_cases hi : i < line.length
    · rw [List.getElem?_take_of_lt hi, Buffer.getElem?_view hline hsends hi]
    · rw [List.getElem?_eq_none (by rw [List.length_take]; omega), List.getElem?_eq_none (by omega)]
  apply Buffer.ext
  exact congrArg (· ++ buf.bytes.drop line.length) htake

theorem noBreak_getElem? {text : Str} (h : NoBreak text) {i : Nat} (hreturn : text[i]? = some '\r') : text[i + 1]? ≠ some '\n' := by
  intro hnewline
  obtain ⟨hi, hfirst⟩ := List.getElem?_eq_some_iff.mp hreturn
  obtain ⟨hi', hsecond⟩ := List.getElem?_eq_some_iff.mp hnewline
  apply h (text.take i) (text.drop (i + 2))
  calc text = text.take i ++ text.drop i := (List.take_append_drop i text).symm
    _ = text.take i ++ '\r' :: '\n' :: text.drop (i + 2) := by
        rw [List.drop_eq_getElem_cons hi, List.drop_eq_getElem_cons hi', hfirst, hsecond]

/-- A line with its end and no other line end in it. -/
structure IsLine (line : Str) : Prop where
  ends : ∃ content, NoBreak content ∧ line = content ++ "\r\n".toList
  notMem : '\x00' ∉ line
  short : line.length < bufferSize

theorem IsLine.endsAt (h : IsLine line) : EndsAt line line.length := by
  obtain ⟨content, _, rfl⟩ := h.ends
  refine ⟨by simp, ?_, ?_⟩
  · rw [List.length_append, List.getElem?_append_right (by simp)]
    simp
  · rw [List.length_append, List.getElem?_append_right (by simp)]
    simp

theorem IsLine.not_endsAt (h : IsLine line) {j : Nat} (hj : j < line.length) : ¬ EndsAt line j := by
  obtain ⟨content, hbreak, rfl⟩ := h.ends
  rintro ⟨htwo, hreturn, hnewline⟩
  obtain ⟨i, rfl⟩ := Nat.exists_eq_add_of_le htwo
  rw [List.length_append] at hj
  have hi : i < content.length := by
    have hcrlf : "\r\n".toList.length = 2 := rfl
    omega
  rw [show 2 + i - 2 = i from by omega, List.getElem?_append_left hi] at hreturn
  rw [show 2 + i - 1 = i + 1 from by omega] at hnewline
  by_cases hlast : i + 1 < content.length
  · rw [List.getElem?_append_left hlast] at hnewline
    exact noBreak_getElem? hbreak hreturn hnewline
  · rw [List.getElem?_append_right (by omega), show i + 1 - content.length = 0 from by omega] at hnewline
    exact absurd (Option.some.inj hnewline) (by decide)

theorem readFrom_line (buf : Buffer) (h : IsLine line) (hsends : stream.Sends pos line) :
    readFrom stream pos bufferSize buf 0 = .ok (buf.overwrite line h.short.le, line.length) := by
  have hview {j : Nat} (hj : j ≤ line.length) : EndsAt (buf.view stream pos) j ↔ EndsAt line j := by
    unfold EndsAt
    apply and_congr_right
    intro htwo
    rw [Buffer.getElem?_view h.short.le hsends (by omega), Buffer.getElem?_view h.short.le hsends (by omega)]
  have hread := readFrom_eq (Nat.zero_add bufferSize) (Nat.zero_le line.length) h.short.le ((hview le_rfl).mpr h.endsAt)
    fun j hj => mt (hview hj.le).mp (h.not_endsAt hj)
  rwa [Buffer.after_zero, Buffer.after_length h.short.le hsends] at hread

/-! ### A mail in the buffer -/

theorem IsLine.two_le (h : IsLine line) : 2 ≤ line.length := h.endsAt.1

theorem IsLine.take_three (h : IsLine line) (rest : Str) : (line ++ rest).take 3 = ".\r\n".toList ↔ ".\r\n".toList <+: line := by
  have hthree : ".\r\n".toList.length = 3 := rfl
  constructor
  · intro htake
    have hdot : ".\r\n".toList <+: line ++ rest := htake ▸ List.take_prefix 3 _
    apply List.prefix_of_prefix_length_le hdot (List.prefix_append line rest)
    by_contra hshort
    have htwo : line.length = 2 := by
      have := h.two_le
      omega
    obtain ⟨content, _, rfl⟩ := h.ends
    obtain rfl : content = [] := List.eq_nil_of_length_eq_zero (by simpa using htwo)
    exact absurd (List.cons.inj htake).1 (by decide)
  · rintro ⟨back, rfl⟩
    rw [List.append_assoc]
    exact List.take_left' hthree

theorem readDataInto_line (h : IsLine line) (hsends : stream.Sends pos line) (lastlen : Nat) :
    readDataInto stream pos buf lastlen =
      .ok (buf.overwrite line h.short.le, line.length, decide (0 < lastlen ∧ ".\r\n".toList <+: line)) := by
  have hends : decide (0 < lastlen ∧ (buf.overwrite line h.short.le).bytes.take 3 = ".\r\n".toList) =
      decide (0 < lastlen ∧ ".\r\n".toList <+: line) := decide_eq_decide.mpr (and_congr_right fun _ => h.take_three _)
  rw [readDataInto, readFrom_line buf h hsends, Run.ok_bind]
  dsimp only
  rw [hends]

theorem set_terminator {bytes : Str} (hshort : line.length < bytes.length) :
    (line ++ bytes.drop line.length).set line.length '\x00' = line ++ '\x00' :: bytes.drop (line.length + 1) := by
  rw [List.set_append_right _ _ le_rfl, Nat.sub_self, List.drop_eq_getElem_cons hshort]
  rfl

theorem cstr_terminated (hnul : '\x00' ∉ line) (rest : Str) : cstr (line ++ '\x00' :: rest) = line := by
  rw [Chunkserver.cstr_append hnul]
  exact List.append_nil line

/-- The text is the one that the lines give. -/
theorem lineData_eq (buf : Buffer) (lastlen : Nat) (hdata : ∀ line ∈ data, IsLine line ∧ ¬ ".\r\n".toList <+: line) (hlast : IsLine last ∧ ".\r\n".toList <+: last)
    (hsends : stream.Sends pos (data.flatten ++ last)) (hfirst : data = [] → 0 < lastlen) (hn : data.length < n) :
    lineData stream n pos buf lastlen = .ok (lineDataFrom buf.bytes data last, pos + (data.flatten ++ last).length) := by
  obtain ⟨n, rfl⟩ : ∃ m, n = m + 1 := ⟨n - 1, by omega⟩
  induction data generalizing buf pos lastlen n with
  | nil =>
      rw [lineData, readDataInto_line hlast.1 hsends, Run.ok_bind]
      dsimp only
      rw [if_pos (decide_eq_true ⟨hfirst rfl, hlast.2⟩)]
      rfl
  | cons line data ih =>
      obtain ⟨hline, hdata⟩ := List.forall_mem_cons.mp hdata
      rw [List.flatten_cons, List.append_assoc] at hsends
      rw [List.length_cons] at hn
      obtain ⟨n, rfl⟩ : ∃ m, n = m + 1 := ⟨n - 1, by omega⟩
      have hgo : ¬ decide (0 < lastlen ∧ ".\r\n".toList <+: line) = true := fun hends => hline.2 (of_decide_eq_true hends).2
      have hnext := ih ((buf.overwrite line hline.1.short.le).set line.length '\x00') line.length hdata hsends.right (fun _ => Nat.lt_of_lt_of_le Nat.zero_lt_two hline.1.two_le) n (by omega)
      rw [lineData, readDataInto_line hline.1 hsends.left, Run.ok_bind]
      dsimp only
      rw [if_neg hgo, Buffer.store, if_pos hline.1.short, Run.ok_bind, hnext, Run.ok_bind]
      dsimp only
      rw [Nat.add_assoc, ← List.length_append, List.flatten_cons, List.append_assoc]
      rfl

/-- Fewer rounds do not reach the end of the mail. -/
theorem lineData_outOfFuel (hdata : ∀ line ∈ data, IsLine line ∧ ¬ ".\r\n".toList <+: line)
    (hsends : stream.Sends pos data.flatten) {lastlen : Nat} (hn : n ≤ data.length) :
    lineData stream n pos buf lastlen = .error .outOfFuel := by
  induction n generalizing buf pos lastlen data with
  | zero => rfl
  | succ n ih =>
      obtain _ | ⟨line, data⟩ := data
      · cases hn
      · obtain ⟨hline, hdata⟩ := List.forall_mem_cons.mp hdata
        rw [List.flatten_cons] at hsends
        have hgo : ¬ decide (0 < lastlen ∧ ".\r\n".toList <+: line) = true := fun hends => hline.2 (of_decide_eq_true hends).2
        rw [lineData, readDataInto_line hline.1 hsends.left, Run.ok_bind]
        dsimp only
        rw [if_neg hgo, Buffer.store, if_pos hline.1.short, Run.ok_bind,
          ih hdata hsends.right (Nat.le_of_succ_le_succ hn)]
        rfl

/-! ### What is left -/

/-- The bytes of the buffer behind these lines. -/
def leftOver (bytes : Str) (data : List Str) : Str :=
  data.foldl (fun bytes line => line ++ '\x00' :: bytes.drop (line.length + 1)) bytes

theorem length_terminated {bytes : Str} (hshort : line.length < bytes.length) :
    (line ++ '\x00' :: bytes.drop (line.length + 1)).length = bytes.length := by
  rw [List.length_append, List.length_cons, List.length_drop]
  omega

theorem length_leftOver {bytes : Str} (hdata : ∀ line ∈ data, line.length < bytes.length) :
    (leftOver bytes data).length = bytes.length := by
  induction data generalizing bytes with
  | nil => rfl
  | cons line data ih =>
      obtain ⟨hline, hdata⟩ := List.forall_mem_cons.mp hdata
      have hstep := length_terminated hline
      exact (ih fun l hl => hstep.symm ▸ hdata l hl).trans hstep

theorem lineDataFrom_eq {bytes : Str} (hdata : ∀ line ∈ data, '\x00' ∉ line ∧ line.length < bytes.length) :
    lineDataFrom bytes data ".\r\n".toList = data.flatten ++ ".\r\n".toList ++ cstr ((leftOver bytes data).drop 3) := by
  induction data generalizing bytes with
  | nil => exact Chunkserver.cstr_append (by decide) (bytes.drop 3)
  | cons line data ih =>
      obtain ⟨⟨hnul, hline⟩, hdata⟩ := List.forall_mem_cons.mp hdata
      rw [lineDataFrom, set_terminator hline, cstr_terminated hnul, ih ((length_terminated hline).symm ▸ hdata), List.flatten_cons,
        List.append_assoc, List.append_assoc, List.append_assoc]
      rfl

/-- Of the lines that reach as far as the dot, the last one ends there. -/
def Closes (data : List Str) : Prop := ∀ line, (data.filter fun line => 3 ≤ line.length).getLast? = some line → line.length = 3

theorem leftOver_three (bytes : Str) (hbyte : bytes[3]? = some '\x00')
    (hdata : ∀ line ∈ data, '\x00' ∉ line ∧ 2 ≤ line.length) : (leftOver bytes data)[3]? = some '\x00' ↔ Closes data := by
  induction data using List.reverseRecOn with
  | nil => exact iff_of_true hbyte nofun
  | append_singleton data line ih =>
      obtain ⟨hdata, hline⟩ := List.forall_mem_append.mp hdata
      obtain ⟨hnul, htwo⟩ := hline line (List.mem_singleton_self line)
      have hstep : leftOver bytes (data ++ [line]) = line ++ '\x00' :: (leftOver bytes data).drop (line.length + 1) := by
        rw [leftOver, List.foldl_append]
        rfl
      unfold Closes
      rw [hstep, List.filter_append]
      by_cases hthree : 3 ≤ line.length
      · have hlast (filtered : List Str) : (filtered ++ [line].filter fun line => 3 ≤ line.length).getLast? = some line := by
          rw [List.filter_cons_of_pos (p := fun line : Str => decide (3 ≤ line.length)) (decide_eq_true hthree)]
          exact List.getLast?_concat
        have hends : (∀ l, some line = some l → l.length = 3) ↔ line.length = 3 :=
          ⟨fun h => h line rfl, fun h l hl => Option.some.inj hl ▸ h⟩
        rw [hlast, hends]
        rcases hthree.eq_or_lt with heq | hlong
        · rw [← heq, List.getElem?_append_right heq.ge, ← heq]
          exact iff_of_true rfl rfl
        · rw [List.getElem?_append_left hlong]
          exact iff_of_false (fun hbyte => hnul (List.mem_of_getElem? hbyte)) (by omega)
      · have htwo : line.length = 2 := by omega
        rw [List.filter_cons_of_neg (by simpa using hthree), List.filter_nil, List.append_nil,
          List.getElem?_append_right (by omega), htwo]
        have hbehind : ('\x00' :: (leftOver bytes data).drop 3)[1]? = (leftOver bytes data)[3]? := List.getElem?_drop
        exact Iff.trans (by rw [hbehind]) (ih hdata)

/-- A mail: lines that end with a `\r\n`, of which the last, which is not the first, and no other starts with a dot. -/
structure IsMail (data : List Str) (last : Str) : Prop where
  lines : ∀ line ∈ data, IsLine line ∧ ¬ ".\r\n".toList <+: line
  ends : IsLine last ∧ ".\r\n".toList <+: last
  ne_nil : data ≠ []

theorem IsLine.eq_dot (h : IsLine last) (hdot : ".\r\n".toList <+: last) : last = ".\r\n".toList := by
  obtain ⟨back, rfl⟩ := hdot
  by_contra hback
  refine h.not_endsAt (j := 3) ?_ ⟨by decide, rfl, rfl⟩
  have hne : back ≠ [] := by
    rintro rfl
    exact hback (List.append_nil _)
  have hlength := List.length_pos_iff.mpr hne
  rw [List.length_append]
  have hthree : ".\r\n".toList.length = 3 := rfl
  omega

/-- Nothing is shown behind the dot iff the next byte ends the text. -/
theorem cstr_drop_three {bytes : Str} (hbytes : 3 < bytes.length) : cstr (bytes.drop 3) = [] ↔ bytes[3]? = some '\x00' := by
  rw [List.drop_eq_getElem_cons hbytes, List.getElem?_eq_getElem hbytes, cstr, Option.some_inj]
  by_cases hbyte : bytes[3] = '\x00'
  · rw [List.takeWhile_cons_of_neg (by simp [hbyte])]
    exact iff_of_true rfl hbyte
  · rw [List.takeWhile_cons_of_pos (by simp [hbyte])]
    exact iff_of_false (List.cons_ne_nil _ _) hbyte

/-- The text of a mail is what was received iff the buffer is closed behind the dot. -/
theorem lineData_iff (hmail : IsMail data last) (hsends : stream.Sends pos (data.flatten ++ last)) :
    (∃ n next, lineData stream n pos .zero 0 = .ok (data.flatten ++ last, next)) ↔ Closes data := by
  obtain rfl := hmail.ends.1.eq_dot hmail.ends.2
  have hzero : Buffer.zero.bytes.length = bufferSize := Buffer.zero.size
  have hshort (line : Str) (hline : line ∈ data) : line.length < Buffer.zero.bytes.length :=
    hzero.symm ▸ (hmail.lines line hline).1.short
  have htext := lineDataFrom_eq fun line hline => ⟨(hmail.lines line hline).1.notMem, hshort line hline⟩
  have hthree := leftOver_three Buffer.zero.bytes (by decide)
    fun line hline => ⟨(hmail.lines line hline).1.notMem, (hmail.lines line hline).1.two_le⟩
  have hroom : 3 < (leftOver Buffer.zero.bytes data).length := by
    rw [length_leftOver hshort, hzero]
    decide
  have hrun {n : Nat} (hn : data.length < n) := lineData_eq .zero 0 hmail.lines hmail.ends hsends
    (fun hnil => absurd hnil hmail.ne_nil) hn
  rw [← hthree, ← cstr_drop_three hroom]
  constructor
  · rintro ⟨n, next, hdata⟩
    by_cases hn : data.length < n
    · rw [hrun hn, htext] at hdata
      exact List.append_right_eq_self.mp (Prod.mk.inj (Except.ok.inj hdata)).1
    · rw [lineData_outOfFuel hmail.lines hsends.left (Nat.le_of_not_lt hn)] at hdata
      cases hdata
  · intro hclosed
    refine ⟨data.length + 1, pos + (data.flatten ++ ".\r\n".toList).length, ?_⟩
    rw [hrun (Nat.lt_succ_self _), htext, hclosed, List.append_nil]

/-! ### Two mails -/

/-- A client that sends a text and closes. -/
def sent (text : Str) : Stream where
  byte i := text[i]?
  closed _ hi := List.getElem?_eq_none (Nat.le_succ_of_le (List.getElem?_eq_none_iff.mp hi))

theorem sends_sent (text : Str) : (sent text).Sends 0 text := by
  intro i _
  rw [Nat.zero_add]
  rfl

theorem isLine_of_notMem (content : Str) (hreturn : '\r' ∉ content) (hnul : '\x00' ∉ content) (hshort : content.length + 2 < bufferSize) :
    IsLine (content ++ "\r\n".toList) where
  ends := ⟨content, noBreak_of_notMem hreturn, rfl⟩
  notMem hmem := (List.mem_append.mp hmem).elim hnul (by decide)
  short := by
    rw [List.length_append]
    exact hshort

/-- A long line, the shortest line that is not empty, which closes the buffer behind the dot, and an empty line. -/
def letter : List Str := ["hello\r\n".toList, "a\r\n".toList, "\r\n".toList]

theorem lineData_iff_letter : IsMail letter ".\r\n".toList ∧
    ∃ n next, lineData (sent "hello\r\na\r\n\r\n.\r\n".toList) n 0 .zero 0 = .ok ("hello\r\na\r\n\r\n.\r\n".toList, next) := by
  have hmail : IsMail letter ".\r\n".toList := by
    refine ⟨fun line hline => ?_, ⟨?_, by decide⟩, by decide⟩
    · simp only [letter, List.mem_cons, List.not_mem_nil, or_false] at hline
      rcases hline with rfl | rfl | rfl
      · exact ⟨isLine_of_notMem "hello".toList (by decide) (by decide) (by decide), by decide⟩
      · exact ⟨isLine_of_notMem ['a'] (by decide) (by decide) (by decide), by decide⟩
      · exact ⟨isLine_of_notMem [] (by decide) (by decide) (by decide), by decide⟩
    · exact isLine_of_notMem ['.'] (by decide) (by decide) (by decide)
  have hcloses : Closes letter := by
    rintro line hline
    obtain rfl : "a\r\n".toList = line := Option.some.inj hline
    rfl
  exact ⟨hmail, (lineData_iff hmail (sends_sent _)).mpr hcloses⟩

/-- Behind the dot stands the rest of the line. -/
theorem not_lineData_hello : IsMail ["hello\r\n".toList] ".\r\n".toList ∧
    lineData (sent "hello\r\n.\r\n".toList) 2 0 .zero 0 = .ok ("hello\r\n.\r\nlo\r\n".toList, 10) := by
  constructor
  · refine ⟨List.forall_mem_singleton.mpr ⟨?_, by decide⟩, ⟨?_, by decide⟩, by decide⟩
    · exact isLine_of_notMem "hello".toList (by decide) (by decide) (by decide)
    · exact isLine_of_notMem ['.'] (by decide) (by decide) (by decide)
  · decide +kernel

end PennCloud.Webmail
