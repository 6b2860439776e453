import PennCloud.Frontend.Proof.Forms
import PennCloud.Frontend.Proof.ViewEmail
import PennCloud.Webmail.Connection

/-!
# From the form to the mailbox

The frontend decodes a form, takes it apart and sends a mail to the mail server, which reads it line by line. A mail
arrives as it was typed exactly when nothing in it looks like a part of the form, no `+` was meant, and no line looks
like the end of the mail.
-/

namespace PennCloud

open Frontend

variable {line stream rest last text sentTo time title content sender : Str} {data lines : List Str} {command : Webmail.Command}

/-! ### Reading lines -/

namespace Webmail

theorem readLine_cons {c : Char} (hbreak : c = '\r' → stream.head? ≠ some '\n') :
    readLine (c :: stream) = (readLine stream).map fun line => (c :: line.1, line.2) := by
  rw [readLine]
  rintro rest' rfl rfl
  exact hbreak rfl rfl

theorem readLine_append (hline : NoBreak line) (rest : Str) :
    readLine (line ++ '\r' :: '\n' :: rest) = some (line ++ "\r\n".toList, rest) := by
  induction line with
  | nil => rfl
  | cons c line ih =>
      have hbreak (hc : c = '\r') : (line ++ '\r' :: '\n' :: rest).head? ≠ some '\n' := by
        subst hc
        cases line with
        | nil => simp
        | cons c' line => exact hline.head_ne
      rw [List.cons_append, readLine_cons hbreak, ih hline.of_cons]
      rfl

theorem readLine_join (h : readLine stream = some (line, rest)) : stream = line ++ rest := by
  induction stream generalizing line with
  | nil => cases h
  | cons c stream ih =>
      by_cases hbreak : c = '\r' ∧ stream.head? = some '\n'
      · obtain ⟨rfl, hhead⟩ := hbreak
        obtain ⟨back, rfl⟩ := List.head?_eq_some_iff.mp hhead
        obtain ⟨rfl, rfl⟩ := Prod.mk.inj (Option.some.inj h)
        rfl
      · rw [readLine_cons fun hc hhead => hbreak ⟨hc, hhead⟩, Option.map_eq_some_iff] at h
        obtain ⟨⟨read, left⟩, hread, heq⟩ := h
        obtain ⟨rfl, rfl⟩ := Prod.mk.inj heq
        rw [ih hread]
        rfl

theorem take_dot (hline : NoBreak line) : (line ++ "\r\n".toList).take 3 = ".\r\n".toList ↔ line = ['.'] := by
  change (line ++ ['\r', '\n']).take 3 = ['.', '\r', '\n'] ↔ _
  constructor
  · intro htake
    rcases line with _ | ⟨c, _ | ⟨d, _ | ⟨e, back⟩⟩⟩
    · exact absurd htake (by decide)
    · obtain ⟨rfl, _⟩ := List.cons.inj htake
      rfl
    · simp at htake
    · obtain ⟨rfl, rfl, rfl⟩ : c = '.' ∧ d = '\r' ∧ e = '\n' := by simpa using htake
      exact absurd rfl hline.of_cons.head_ne
  · rintro rfl
    rfl

theorem readData_join {n : Nat} (h : readData n stream = some (data, last, rest)) : stream = data.flatten ++ last ++ rest := by
  induction n generalizing stream data with
  | zero => cases h
  | succ n ih =>
      obtain ⟨⟨line, left⟩, hline, h⟩ := Option.bind_eq_some_iff.mp h
      dsimp only at h
      have hjoin := readLine_join hline
      split at h
      · obtain ⟨rfl, rfl, rfl⟩ : [] = data ∧ line = last ∧ left = rest := by simpa using h
        exact hjoin
      · obtain ⟨⟨data', last', rest'⟩, hdata, h⟩ := Option.bind_eq_some_iff.mp h
        obtain ⟨rfl, rfl, rfl⟩ : line :: data' = data ∧ last' = last ∧ rest' = rest := by simpa using h
        rw [hjoin, ih hdata, List.flatten_cons, List.append_assoc, List.append_assoc, List.append_assoc]

theorem readData_lines {n : Nat} (hlines : ∀ line ∈ lines, NoBreak line) (hdot : ['.'] ∉ lines) (rest : Str)
    (hn : lines.length < n) :
    readData n (joinLines lines ++ (".\r\n".toList ++ rest)) = some (lines.map (· ++ "\r\n".toList), ".\r\n".toList, rest) := by
  induction lines generalizing n with
  | nil =>
      obtain ⟨n, rfl⟩ := Nat.exists_eq_add_of_lt hn
      rfl
  | cons line lines ih =>
      obtain ⟨hline, hlines⟩ := List.forall_mem_cons.mp hlines
      rw [List.mem_cons, not_or] at hdot
      rw [List.length_cons] at hn
      obtain ⟨n, rfl⟩ : ∃ m, n = m + 1 := ⟨n - 1, by omega⟩
      have hnext := ih hlines hdot.2 (n := n) (by omega)
      have hgo : ¬ (line ++ "\r\n".toList).take 3 = ".\r\n".toList := fun h => hdot.1 ((take_dot hline).mp h).symm
      rw [joinLines_cons, readData, readLine_append hline]
      change (if _ then _ else _) = _
      rw [if_neg hgo, hnext]
      rfl

/-! ### The recipient -/

theorem findFirstOf_append {c : Char} (front : Str) (hfront : c ∉ front) (rest : Str) :
    findFirstOf c (front ++ c :: rest) 0 = some front.length := by
  have hnone : front.findIdx? (· == c) = none := by
    rw [List.findIdx?_eq_none_iff]
    intro c' hc'
    simpa using fun heq : c' = c => hfront (heq ▸ hc')
  have hindex : (front ++ c :: rest).findIdx? (· == c) = some front.length := by
    rw [List.findIdx?_append, hnone, List.findIdx?_cons, if_pos (beq_self_eq_true c)]
    simp
  rw [findFirstOf, List.drop_zero, hindex, Option.map_some, Nat.zero_add]

/-- A local address: what `handle_send` takes for one, and closed by no bracket. -/
structure IsLocal (rcvr : Str) : Prop where
  server : (serverName rcvr).take 13 = "localhost.com".toList
  closed : '>' ∉ rcvr

def IsPrintable (c : Char) : Prop := 32 ≤ c.toNat ∧ c.toNat < 127 ∨ 128 ≤ c.toNat ∧ c.toNat < 256

instance (c : Char) : Decidable (IsPrintable c) := inferInstanceAs (Decidable (_ ∨ _))

def Printable (text : Str) : Prop := ∀ c ∈ text, IsPrintable c

instance (text : Str) : Decidable (Printable text) := List.decidableBAll IsPrintable text

/-- Printable bytes and line breaks. -/
def Typed (text : Str) : Prop := ∀ line ∈ linesOf text, Printable line

instance (text : Str) : Decidable (Typed text) := List.decidableBAll Printable (linesOf text)

theorem IsPrintable.byte {c : Char} (h : IsPrintable c) : c.toNat < 256 ∧ c ≠ '\x00' ∧ c ≠ '\r' := by
  refine ⟨by unfold IsPrintable at h; omega, ?_, ?_⟩
  · rintro rfl
    exact absurd h (by decide)
  · rintro rfl
    exact absurd h (by decide)

theorem Typed.byte {c : Char} (h : Typed text) (hc : c ∈ text) : c.toNat < 256 ∧ c ≠ '\x00' := by
  have hmem : c ∈ joinLines (linesOf text) := by
    rw [joinLines_linesOf]
    exact List.mem_append_left _ hc
  obtain ⟨line, hline, hc⟩ := List.mem_flatMap.mp hmem
  rcases List.mem_append.mp hc with hc | hc
  · exact ⟨(h line hline c hc).byte.1, (h line hline c hc).byte.2.1⟩
  · rcases (by simpa using hc : c = '\r' ∨ c = '\n') with rfl | rfl
    · decide
    · decide

/-! ### The mail on the wire -/

def fromLine (sender : Str) : Str := "From: <".toList ++ sender ++ ['>']

/-- The lines of a mail between the first and the last one. -/
def mailLines (sentTo time title content : Str) : List Str :=
  ["To: <".toList ++ sentTo ++ ['>'], "Date: ".toList ++ time] ++
    (linesOf ("Subject: ".toList ++ title) ++ linesOf content)

theorem composeEmail_lines (sender sentTo time title content : Str) : composeEmail sender sentTo time title content =
    fromLine sender ++ '\r' :: '\n' :: (joinLines (mailLines sentTo time title content) ++ ".\r\n".toList) := by
  have hlines : ∀ a b c d : Str, joinLines ([a, b, c, d] ++ linesOf content ++ [['.']]) =
      a ++ '\r' :: '\n' :: (joinLines ([b, c] ++ (linesOf d ++ linesOf content)) ++ ".\r\n".toList) := by
    intro a b c d
    rw [joinLines_append, joinLines_append, joinLines_append, joinLines_append, joinLines_linesOf, joinLines_linesOf]
    simp [joinLines]
  rw [composeEmail_eq]
  exact hlines ..

theorem readMail_join (h : readMail stream = some (command, rest)) :
    stream = command.buf ++ (command.data.flatten ++ command.last) ++ rest ∧ (rcvrs command.data).length ≤ 20 ∧
      ∃ stream₁, readLine stream = some (command.buf, stream₁) := by
  obtain ⟨⟨buf, stream₁⟩, hbuf, h⟩ := Option.bind_eq_some_iff.mp h
  obtain ⟨⟨line, stream₂⟩, hline, h⟩ := Option.bind_eq_some_iff.mp h
  obtain ⟨⟨data, last, stream₃⟩, hdata, h⟩ := Option.bind_eq_some_iff.mp h
  dsimp only at h hline hdata
  split at h
  · next hroom =>
      obtain ⟨rfl, rfl⟩ := Prod.mk.inj (Option.some.inj h)
      refine ⟨?_, hroom, stream₁, hbuf⟩
      rw [readLine_join hbuf, readLine_join hline, readData_join hdata, List.flatten_cons]
      simp only [List.append_assoc]
  · cases h

theorem readLine_send (stream : Str) : readLine ("Send\r\n".toList ++ stream) = some ("Send\r\n".toList, stream) :=
  readLine_append (noBreak_of_notMem (by decide : '\r' ∉ "Send".toList)) stream

theorem readMail_buf (h : readMail ("Send\r\n".toList ++ stream) = some (command, rest)) : command.buf = "Send\r\n".toList := by
  obtain ⟨_, _, stream₁, hbuf⟩ := readMail_join h
  exact (Prod.mk.inj (Option.some.inj ((readLine_send stream).symm.trans hbuf))).1.symm

theorem readMail_lines (hfirst : NoBreak line) (hlines : ∀ line ∈ lines, NoBreak line) (hdot : ['.'] ∉ lines) (rest : Str) :
    readMail ("Send\r\n".toList ++ (line ++ '\r' :: '\n' :: (joinLines lines ++ (".\r\n".toList ++ rest)))) =
      if (rcvrs ((line :: lines).map (· ++ "\r\n".toList))).length ≤ 20 then
        some (⟨"Send\r\n".toList, (line :: lines).map (· ++ "\r\n".toList), ".\r\n".toList⟩, rest)
      else none := by
  have hlength : lines.length < (joinLines lines ++ (".\r\n".toList ++ rest)).length := by
    have hjoin : lines.length ≤ (joinLines lines).length := by
      induction lines with
      | nil => exact le_rfl
      | cons line lines ih =>
          have hshort := ih (fun l hl => hlines l (List.mem_cons_of_mem _ hl)) fun hmem => hdot (List.mem_cons_of_mem _ hmem)
          have hlonger := congrArg List.length (joinLines_cons line lines [])
          simp only [List.append_nil, List.length_append, List.length_cons] at hlonger ⊢
          omega
    rw [List.length_append]
    exact Nat.lt_of_le_of_lt hjoin (Nat.lt_add_of_pos_right (Nat.succ_pos _))
  rw [readMail, readLine_send]
  change (readLine _ >>= _) = _
  rw [readLine_append hfirst]
  change (readData _ _ >>= _) = _
  rw [readData_lines hlines hdot rest hlength]
  rfl

/-! ### The form -/

/-- What the form of a mail sends. -/
def emailBody (sentTo title content : Str) : Str :=
  form ([("sentto".toList, sentTo), ("title".toList, title), ("content".toList, content)].map fun field =>
    (field.1, urlencode field.2))

variable {req : Frontend.Request} {ii : Int} {x y z : Str}

variable {site : Site}

theorem noBreak_fromLine (hsender : '\r' ∉ sender) : NoBreak (fromLine sender) := by
  apply noBreak_of_notMem
  intro hmem
  exact (List.mem_append.mp hmem).elim (fun hmem => (List.mem_append.mp hmem).elim (by decide) hsender) (by decide)

theorem noBreak_mailLines (hx : '\r' ∉ x) (htime : '\r' ∉ time) : ∀ line ∈ mailLines x time y z, NoBreak line := by
  rw [mailLines, List.forall_mem_append, List.forall_mem_append, List.forall_mem_cons, List.forall_mem_singleton]
  refine ⟨⟨noBreak_of_notMem fun hmem => ?_, noBreak_of_notMem fun hmem => ?_⟩, noBreak_of_mem_linesOf _, noBreak_of_mem_linesOf _⟩
  · exact (List.mem_append.mp hmem).elim (fun hmem => (List.mem_append.mp hmem).elim (by decide) hx) (by decide)
  · exact (List.mem_append.mp hmem).elim (by decide) htime

/-- What is put into a form, from a site that can show the page behind it. -/
structure Sends (time : Str) (site : Site) (req : Frontend.Request) (sentTo title content : Str) : Prop where
  body : req.body = emailBody sentTo title content
  size : req.body.length ≤ npos
  page : ∃ response, site.shows req "html/send-email-success.html" = .ok response
  rcvr : Printable sentTo
  isLocal : IsLocal sentTo
  subject : Typed title
  text : Typed content
  sender : '\r' ∉ site.userName ∧ '\x00' ∉ site.userName
  time : '\r' ∉ time ∧ '\x00' ∉ time

namespace Sends

theorem length_le (h : Sends time site req sentTo title content) : title.length ≤ npos ∧ content.length ≤ npos := by
  have hbody : (emailBody sentTo title content).length ≤ npos := h.body ▸ h.size
  have hshape : (emailBody sentTo title content).length =
      "sentto=&title=&content=".length + (urlencode sentTo).length + (urlencode title).length + (urlencode content).length := by
    have hlength : ∀ a b c d e f : Str, (form [(a, b), (c, d), (e, f)]).length =
        a.length + c.length + e.length + 5 + b.length + d.length + f.length := by
      intro a b c d e f
      simp only [form, List.length_append, List.length_cons]
      omega
    exact hlength ..
  have htitle := length_urlencode title
  have hcontent := length_urlencode content
  exact ⟨by omega, by omega⟩

end Sends

theorem map_cstr_of_notMem (hdata : '\x00' ∉ data.flatten) : data.map cstr = data := by
  refine (List.map_congr_left fun line hline => ?_).trans (List.map_id data)
  exact Chunkserver.cstr_of_notMem fun hmem => hdata (List.mem_flatten_of_mem hline hmem)

theorem text_of_readMail (htext : '\x00' ∉ text)
    (hread : readMail ("Send\r\n".toList ++ text ++ "QUIT\r\n".toList) = some (command, rest)) :
    command.text ++ rest = text ++ "QUIT\r\n".toList := by
  obtain ⟨hjoin, _⟩ := readMail_join hread
  rw [List.append_assoc] at hread
  rw [readMail_buf hread, List.append_assoc, List.append_assoc] at hjoin
  have hsent := List.append_cancel_left hjoin
  have hnul : '\x00' ∉ command.data.flatten ++ command.last := by
    intro hmem
    have hall := hsent.symm ▸ List.mem_append_left rest hmem
    exact (List.mem_append.mp hall).elim htext (by decide)
  have hdata : command.text = command.data.flatten ++ command.last := by
    rw [Command.text, map_cstr_of_notMem fun hmem => hnul (List.mem_append_left _ hmem),
      Chunkserver.cstr_of_notMem fun hmem => hnul (List.mem_append_right _ hmem)]
  rw [hdata, ← hsent]

/-- What is sent to the storage has a NUL only in the user or in the text. -/
theorem notMem_mailMessage_iff {digest : Str → Fin 16 → Fin 256} {user : Str} : '\x00' ∉ mailMessage digest user text ↔ '\x00' ∉ user ∧ '\x00' ∉ text := by
  have hdigits : '\x00' ∉ hashToMD5 digest text := notMem_hashToMD5 (by decide) digest text
  rw [mailMessage]
  simp [hdigits]

theorem notMem_userName {rcvr : Str} (h : '\x00' ∉ rcvr) : '\x00' ∉ userName rcvr := by
  rw [userName]
  split
  · exact fun hmem => h (List.mem_of_mem_take hmem)
  · exact h

end Webmail

end PennCloud
