import PennCloud.Frontend.Request
import PennCloud.Frontend.Proof.Forms
import PennCloud.Frontend.Proof.Lines
import PennCloud.Kv.Proof.Requests

/-!
# Requests on the wire

A request that is written as its lines, an empty line and its body is read back however the connection splits it, unless what
`debug` takes for a format has a conversion, a NUL cuts the request line short, or the buffer for the body has no length.
-/

namespace PennCloud.Frontend

open Chunkserver

variable {chunks : List Str} {line rest text field more : Str} {c d : Char} {n : Nat}

/-! ### Reading from the connection -/

/-- However the bytes are split, the next ones are read. -/
theorem doRead_eq (chunks : List Str) (len : Nat) :
    (doRead chunks len).1 = chunks.flatten.take len ∧ (doRead chunks len).2.flatten = chunks.flatten.drop len := by
  induction chunks generalizing len with
  | nil => exact ⟨(List.take_nil ..).symm, (List.drop_nil ..).symm⟩
  | cons chunk chunks ih =>
      rw [doRead, List.flatten_cons]
      split
      · next hlen =>
          rw [List.take_append_of_le_length hlen.le, List.drop_append_of_le_length hlen.le]
          exact ⟨rfl, List.flatten_cons⟩
      · next hlen =>
          obtain ⟨hread, hleft⟩ := ih (len - chunk.length)
          rw [List.take_append, List.drop_append, List.take_of_length_le (Nat.le_of_not_lt hlen),
            List.drop_eq_nil_of_le (Nat.le_of_not_lt hlen), List.nil_append]
          exact ⟨congrArg (chunk ++ ·) hread, hleft⟩

theorem doRead_one (h : chunks.flatten = c :: rest) : ∃ left, doRead chunks 1 = ([c], left) ∧ left.flatten = rest := by
  obtain ⟨hread, hleft⟩ := doRead_eq chunks 1
  rw [h] at hread hleft
  exact ⟨(doRead chunks 1).2, Prod.ext hread rfl, hleft⟩

theorem readLineFrom_eq (hline : '\r' ∉ line ∧ '\n' ∉ line) (h : chunks.flatten = line ++ "\r\n".toList ++ rest) (front : Str)
    (hn : line.length < n) : ∃ left, readLineFrom n front chunks = .ok (front ++ line, left) ∧ left.flatten = rest := by
  induction line generalizing chunks front n with
  | nil =>
      obtain ⟨n, rfl⟩ := Nat.exists_eq_add_of_lt hn
      obtain ⟨left₁, hreturn, hleft₁⟩ := doRead_one (show chunks.flatten = '\r' :: '\n' :: rest from h)
      obtain ⟨left₂, hnewline, hleft₂⟩ := doRead_one hleft₁
      refine ⟨left₂, ?_, hleft₂⟩
      rw [readLineFrom, hreturn, List.append_nil]
      dsimp only
      rw [if_pos rfl, hnewline]
      dsimp only
      rw [if_pos rfl]
  | cons c line ih =>
      obtain ⟨hreturn, hnewline⟩ := hline
      rw [List.mem_cons, not_or] at hreturn hnewline
      rw [List.length_cons] at hn
      obtain ⟨n, rfl⟩ : ∃ m, n = m + 1 := ⟨n - 1, by omega⟩
      obtain ⟨left, hread, hleft⟩ := doRead_one h
      obtain ⟨back, hrest, hback⟩ := ih (n := n) ⟨hreturn.2, hnewline.2⟩ hleft (front ++ [c]) (by omega)
      refine ⟨back, ?_, hback⟩
      rw [readLineFrom, hread]
      dsimp only
      rw [if_neg (Ne.symm hreturn.1), if_neg (Ne.symm hnewline.1), hrest, List.append_assoc]
      rfl

theorem readLine_eq (hline : '\r' ∉ line ∧ '\n' ∉ line) (h : chunks.flatten = line ++ "\r\n".toList ++ rest) :
    ∃ left, readLine chunks = .ok (line, left) ∧ left.flatten = rest := by
  refine readLineFrom_eq hline h [] ?_
  rw [h, List.length_append, List.length_append]
  omega

/-! ### Formats -/

theorem isFormat_cons (hc : c ≠ '%') (text : Str) : isFormat (c :: text) = isFormat text := by
  rw [isFormat]
  · rintro rest rfl
    exact absurd rfl hc
  · rintro rfl
    exact absurd rfl hc

theorem isFormat_single (htext : text.head? ≠ some '%') : isFormat ('%' :: text) = false := by
  cases text with
  | nil => rfl
  | cons c text =>
      rw [isFormat]
      rintro rest heq
      exact htext (congrArg some (List.cons.inj heq).1)

theorem isFormat_append (hd : d ≠ '%') (field more : Str) : isFormat (field ++ d :: more) = (isFormat field && isFormat more) := by
  fun_induction isFormat field with
  | case1 rest ih =>
      rw [← ih]
      rfl
  | case2 rest hlast =>
      refine isFormat_single ?_
      cases rest with
      | nil => exact fun heq => hd (Option.some.inj heq)
      | cons c rest => exact fun heq => hlast rest (congrArg (· :: rest) (Option.some.inj heq))
  | case3 c rest _ hsingle ih => exact (isFormat_cons hsingle _).trans ih
  | case4 => exact isFormat_cons hd more

theorem isFormat_of_mem_terminate (hd : d ≠ '%') {fields : List Str}
    (h : isFormat (Fields.terminate d fields ++ more) = true) : (∀ field ∈ fields, isFormat field = true) ∧ isFormat more = true := by
  induction fields with
  | nil => exact ⟨nofun, h⟩
  | cons field fields ih =>
      rw [Fields.terminate_cons, List.append_assoc, List.cons_append, isFormat_append hd, Bool.and_eq_true] at h
      obtain ⟨hfields, hmore⟩ := ih h.2
      exact ⟨List.forall_mem_cons.mpr ⟨h.1, hfields⟩, hmore⟩

theorem mem_pieces_or_eq_remainder (hfield : field ∈ split text d) : field ∈ Fields.pieces d text ∨ field = Fields.remainder d text := by
  rcases List.mem_append.mp hfield with hfield | hfield
  · exact Or.inl hfield
  · split at hfield
    · cases hfield
    · exact Or.inr (List.mem_singleton.mp hfield)

theorem isFormat_of_mem_split (hd : d ≠ '%') (h : isFormat text = true) (hfield : field ∈ split text d) : isFormat field = true := by
  rw [← (Fields.terminate_pieces_append text).1] at h
  obtain ⟨hpieces, hremainder⟩ := isFormat_of_mem_terminate hd h
  rcases mem_pieces_or_eq_remainder hfield with hfield | rfl
  · exact hpieces field hfield
  · exact hremainder

theorem debug_eq_ok : debug text = .ok () ↔ isFormat (cstr text) = true := by
  rw [debug]
  split
  · next h => exact iff_of_true rfl h
  · next h => exact iff_of_false nofun h

/-! ### The lines of the head -/

theorem debug_of_mem_split (hd : d ≠ '%') (hformat : isFormat text = true) (hnul : '\x00' ∉ text) (hfield : field ∈ split text d) :
    debug field = .ok () := by
  apply debug_eq_ok.mpr
  rw [cstr_of_notMem fun hmem => hnul (mem_split hfield hmem)]
  exact isFormat_of_mem_split hd hformat hfield

theorem readCookies_ok (hline : isFormat (cstr line) = true) (hcookie : line.take 8 = "Cookie: ".toList) (cookies : Map Str) :
    ∃ cookies', readCookies cookies line = .ok cookies' := by
  have hrest : isFormat (cstr (line.drop 8)) = true := by
    have hcstr : cstr line = "Cookie:".toList ++ ' ' :: cstr (line.drop 8) := by
      conv_lhs => rw [← List.take_append_drop 8 line, hcookie]
      exact cstr_append (by decide) _
    rw [hcstr, isFormat_append (by decide), Bool.and_eq_true] at hline
    exact hline.2
  have hnul := notMem_cstr (line.drop 8)
  have htokens : ∀ token ∈ split (cstr (line.drop 8)) ';', isFormat token = true ∧ '\x00' ∉ token := fun token htoken =>
    ⟨isFormat_of_mem_split (by decide) hrest htoken, fun hmem => hnul (mem_split htoken hmem)⟩
  rw [readCookies]
  generalize split (cstr (line.drop 8)) ';' = tokens at htokens
  induction tokens generalizing cookies with
  | nil => exact ⟨cookies, rfl⟩
  | cons token tokens ih =>
      obtain ⟨⟨hformat, htoken⟩, htokens⟩ := List.forall_mem_cons.mp htokens
      have hdebug (field : Str) (hfield : field ∈ split token '=') : debug field = .ok () :=
        debug_of_mem_split (by decide) hformat htoken hfield
      rw [List.foldlM_cons, cstr_of_notMem htoken]
      split
      · next name value hpair =>
          rw [hdebug name (by rw [hpair]; exact List.mem_cons_self),
            hdebug value (by rw [hpair]; exact List.mem_cons_of_mem _ List.mem_cons_self)]
          exact ih _ htokens
      · exact ih _ htokens

/-- The length that a line leaves. -/
def lengthBehind (contentLength : Int) (line : Str) : Int :=
  if line.take 16 = "Content-Length: ".toList then atoi (cstr (line.drop 16)) else contentLength

theorem readHeader_ok (hline : isFormat (cstr line) = true) (cookies : Map Str) (contentLength : Int) :
    ∃ cookies', readHeader cookies contentLength line = .ok (cookies', lengthBehind contentLength line) := by
  rw [readHeader, debug_eq_ok.mpr hline, Run.ok_bind]
  by_cases hcookie : line.take 8 = "Cookie: ".toList
  · obtain ⟨cookies', hread⟩ := readCookies_ok hline hcookie cookies
    rw [if_pos hcookie, hread]
    exact ⟨cookies', rfl⟩
  · rw [if_neg hcookie]
    exact ⟨cookies, rfl⟩

theorem isFormat_of_readHeader {cookies : Map Str} {contentLength : Int} {read : Map Str × Int}
    (h : readHeader cookies contentLength line = .ok read) : isFormat (cstr line) = true := by
  obtain ⟨_, hdebug, _⟩ := Run.bind_eq_ok.mp h
  exact debug_eq_ok.mp hdebug

theorem readHeaders_nil (n : Nat) (cookies : Map Str) (contentLength : Int) (chunks : List Str) :
    readHeaders (n + 1) cookies contentLength [] chunks = .ok (cookies, contentLength, chunks) := by
  rw [readHeaders, if_pos rfl]

theorem readHeaders_round {cookies cookies' : Map Str} {contentLength contentLength' : Int} {next : Str} {left : List Str}
    (hline : line ≠ []) (hread : readHeader cookies contentLength line = .ok (cookies', contentLength'))
    (hnext : readLine chunks = .ok (next, left)) (n : Nat) :
    readHeaders (n + 1) cookies contentLength line chunks = readHeaders n cookies' contentLength' next left := by
  rw [readHeaders, if_neg hline, hread, Run.ok_bind]
  dsimp only
  rw [hnext, Run.ok_bind]

theorem readLine_headers {header : Str} {headers : List Str} (hheader : '\r' ∉ header ∧ '\n' ∉ header)
    (h : chunks.flatten = joinLines (header :: headers) ++ rest) :
    ∃ left, readLine chunks = .ok (header, left) ∧ left.flatten = joinLines headers ++ rest := by
  rw [joinLines_cons] at h
  refine readLine_eq hheader (h.trans ?_)
  rw [List.append_assoc]
  rfl

/-- The loop reads the lines up to the empty one, and each of them does what it does to the cookies and the length. -/
theorem readHeaders_eq {headers : List Str} (hheaders : ∀ header ∈ headers, header ≠ [] ∧ '\r' ∉ header ∧ '\n' ∉ header)
    (hline : line ≠ []) (h : chunks.flatten = joinLines headers ++ ("\r\n".toList ++ rest)) (hn : headers.length + 1 < n) :
    ∃ left, left.flatten = rest ∧ ∀ cookies contentLength, readHeaders n cookies contentLength line chunks =
      (line :: headers).foldlM (fun read header => readHeader read.1 read.2 header) (cookies, contentLength) >>=
        fun read => .ok (read.1, read.2, left) := by
  induction headers generalizing line chunks n with
  | nil =>
      obtain ⟨n, rfl⟩ : ∃ m, n = m + 1 + 1 := ⟨n - 2, by simp at hn; omega⟩
      obtain ⟨left, hnext, hleft⟩ := readLine_eq ⟨List.not_mem_nil, List.not_mem_nil⟩ (show chunks.flatten = [] ++ "\r\n".toList ++ rest from h)
      refine ⟨left, hleft, fun cookies contentLength => ?_⟩
      rw [List.foldlM_cons]
      cases hread : readHeader cookies contentLength line with
      | error fault =>
          rw [readHeaders, if_neg hline, hread]
          rfl
      | ok read =>
          rw [readHeaders_round hline hread hnext, readHeaders_nil]
          rfl
  | cons header headers ih =>
      obtain ⟨⟨hne, hheader⟩, hheaders⟩ := List.forall_mem_cons.mp hheaders
      rw [List.length_cons] at hn
      obtain ⟨n, rfl⟩ : ∃ m, n = m + 1 := ⟨n - 1, by omega⟩
      obtain ⟨left, hnext, hleft⟩ := readLine_headers hheader h
      obtain ⟨left', hleft', hrest⟩ := ih (n := n) hheaders hne hleft (by omega)
      refine ⟨left', hleft', fun cookies contentLength => ?_⟩
      rw [List.foldlM_cons]
      cases hread : readHeader cookies contentLength line with
      | error fault =>
          rw [readHeaders, if_neg hline, hread]
          rfl
      | ok read => rw [readHeaders_round hline hread hnext, hrest, Run.ok_bind]

theorem foldlM_readHeader {headers : List Str} (hformat : ∀ header ∈ headers, isFormat (cstr header) = true) (cookies : Map Str)
    (contentLength : Int) : ∃ cookies', headers.foldlM (fun read header => readHeader read.1 read.2 header) (cookies, contentLength) =
      .ok (cookies', headers.foldl lengthBehind contentLength) := by
  induction headers generalizing cookies contentLength with
  | nil => exact ⟨cookies, rfl⟩
  | cons header headers ih =>
      obtain ⟨hfirst, hformat⟩ := List.forall_mem_cons.mp hformat
      obtain ⟨cookies', hread⟩ := readHeader_ok hfirst cookies contentLength
      rw [List.foldlM_cons, hread, Run.ok_bind]
      exact ih hformat cookies' _

/-- Each of the lines has been taken for a format. -/
theorem isFormat_of_foldlM {headers : List Str} {read read' : Map Str × Int}
    (hrun : headers.foldlM (fun read header => readHeader read.1 read.2 header) read = .ok read') :
    ∀ header ∈ headers, isFormat (cstr header) = true := by
  induction headers generalizing read with
  | nil => exact nofun
  | cons header headers ih =>
      rw [List.foldlM_cons] at hrun
      obtain ⟨next, hfirst, hrest⟩ := Run.bind_eq_ok.mp hrun
      exact List.forall_mem_cons.mpr ⟨isFormat_of_readHeader hfirst, ih hrest⟩

/-! ### The whole request -/

/-- A word of the request line. -/
structure IsWord (word : Str) : Prop where
  ne_nil : word ≠ []
  notMem_blank : ' ' ∉ word
  noBreak : '\r' ∉ word ∧ '\n' ∉ word

/-- The lines between the request line and the empty one. One of them, and no other, is the length of the body. -/
structure IsHead (headers : List Str) (n : Nat) : Prop where
  lines : ∀ header ∈ headers, header ≠ [] ∧ '\r' ∉ header ∧ '\n' ∉ header
  length : ∃ front back, headers = front ++ ("Content-Length: ".toList ++ toStr n) :: back ∧
    ∀ header ∈ front ++ back, header.take 16 ≠ "Content-Length: ".toList

def requestLine (path version : Str) : Str := "POST ".toList ++ (path ++ ' ' :: version)

/-- A request as it is written. -/
def render (path version : Str) (headers : List Str) (body : Str) : Str :=
  joinLines (requestLine path version :: headers) ++ ("\r\n".toList ++ body)

/-- The request is read back, and nothing behind it is read. -/
def ReadsBack (malloced : Nat → Char) (uninitialised : Int) (socket : Socket) (path version body rest : Str) : Prop :=
  ∃ req left, Request.read malloced uninitialised socket = .ok (some req, left) ∧ req.method = "POST".toList ∧
    req.path = path ∧ req.httpVersion = version ∧ req.body = body ∧ left.flatten = rest

/-- What is not in the way of reading a request back. -/
structure Harmless (path version : Str) (headers : List Str) (n : Nat) : Prop where
  notMem : '\x00' ∉ path ∧ '\x00' ∉ version
  format : isFormat path = true ∧ isFormat version = true ∧ ∀ header ∈ headers, isFormat (cstr header) = true
  room : (n : Int) < intMax

variable {path version body : Str} {headers : List Str}

theorem IsHead.foldl_lengthBehind (h : IsHead headers n) (hlength : (n : Int) ≤ intMax) (contentLength : Int) : headers.foldl lengthBehind contentLength = n := by
  obtain ⟨front, back, rfl, hothers⟩ := h.length
  have hskip (lines : List Str) (hlines : lines ⊆ front ++ back) (contentLength : Int) :
      lines.foldl lengthBehind contentLength = contentLength := by
    induction lines with
    | nil => rfl
    | cons line lines ih =>
        obtain ⟨hline, hlines⟩ := List.cons_subset.mp hlines
        rw [List.foldl_cons, lengthBehind, if_neg (hothers line hline)]
        exact ih hlines
  have hread : lengthBehind contentLength ("Content-Length: ".toList ++ toStr n) = n := by
    have hint : IsInt n := by
      simp only [IsInt, intMax] at hlength ⊢
      omega
    have hdrop : ("Content-Length: ".toList ++ toStr (n : Int)).drop 16 = toStr n := List.drop_left' rfl
    have htake : ("Content-Length: ".toList ++ toStr (n : Int)).take 16 = "Content-Length: ".toList := List.take_left' rfl
    rw [lengthBehind, if_pos htake, hdrop, cstr_of_notMem (notMem_toStr (by decide) (by decide)), atoi_toStr hint]
  rw [List.foldl_append, hskip front (List.subset_append_left _ _), List.foldl_cons, hread,
    hskip back (List.subset_append_right _ _)]

theorem split_words {first second third : Str} (hfirst : ' ' ∉ first) (hsecond : ' ' ∉ second) (hthird : ' ' ∉ third)
    (hne : third ≠ []) : split (first ++ ' ' :: (second ++ ' ' :: third)) ' ' = [first, second, third] := by
  rw [split_append hfirst, split_append hsecond, split_of_notMem hthird hne]

theorem notMem_requestLine {c : Char} (hc : c ∉ "POST ".toList) (hpath : c ∉ path) (hversion : c ∉ version) :
    c ∉ requestLine path version := by
  intro hmem
  rcases List.mem_append.mp hmem with hmem | hmem
  · exact hc hmem
  · rcases List.mem_append.mp hmem with hmem | hmem
    · exact hpath hmem
    · rcases List.mem_cons.mp hmem with rfl | hmem
      · exact hc (by decide)
      · exact hversion hmem

theorem readLine_requestLine {socket : Socket} (hpath : IsWord path) (hversion : IsWord version)
    (h : socket.chunks.flatten = render path version headers body ++ rest) :
    ∃ left, readLine socket.chunks = .ok (requestLine path version, left) ∧
      left.flatten = joinLines headers ++ ("\r\n".toList ++ (body ++ rest)) := by
  have hbreak : '\r' ∉ requestLine path version ∧ '\n' ∉ requestLine path version :=
    ⟨notMem_requestLine (by decide) hpath.noBreak.1 hversion.noBreak.1,
      notMem_requestLine (by decide) hpath.noBreak.2 hversion.noBreak.2⟩
  refine readLine_headers hbreak ?_
  rw [h, render, List.append_assoc, List.append_assoc]

theorem readBody_eq (malloced : Nat → Char) (hroom : (body.length : Int) < intMax) (h : chunks.flatten = body ++ rest) :
    ∃ left, readBody malloced body.length chunks = .ok (body, left) ∧ left.flatten = rest := by
  obtain ⟨hread, hleft⟩ := doRead_eq chunks body.length
  rw [h, List.take_left] at hread
  rw [h, List.drop_left] at hleft
  refine ⟨(doRead chunks body.length).2, ?_, hleft⟩
  rw [readBody, if_neg (by omega)]
  dsimp only
  rw [Int.toNat_natCast, hread, Nat.sub_self, List.range_zero, List.map_nil, List.append_nil]

theorem length_le_joinLines (lines : List Str) : lines.length ≤ (joinLines lines).length := by
  induction lines with
  | nil => exact le_rfl
  | cons line lines ih =>
      have hjoin := congrArg List.length (joinLines_cons line lines [])
      simp only [List.append_nil, List.length_append, List.length_cons] at hjoin ⊢
      omega

theorem lengthBehind_requestLine (path version : Str) (contentLength : Int) :
    lengthBehind contentLength (requestLine path version) = contentLength := by
  refine if_neg fun htake => ?_
  have hfirst : 'P' = 'C' := (List.cons.inj htake).1
  exact absurd hfirst (by decide)

theorem isFormat_requestLine : isFormat (requestLine path version) = (isFormat path && isFormat version) := by
  have hwords : requestLine path version = "POST".toList ++ ' ' :: (path ++ ' ' :: version) := rfl
  rw [hwords, isFormat_append (by decide), isFormat_append (by decide)]
  rfl

theorem notMem_token (hfield : field ∈ split (cstr line) ' ') : '\x00' ∉ field :=
  fun hmem => notMem_cstr line (mem_split hfield hmem)

theorem requestLine_ne_nil (path version : Str) : requestLine path version ≠ [] := List.append_ne_nil_of_left_ne_nil (by decide) _

theorem length_lt_rounds {headers : List Str} (h : chunks.flatten = joinLines headers ++ more) :
    headers.length + 1 < chunks.flatten.length + 2 := by
  have hheaders := length_le_joinLines headers
  rw [h, List.length_append]
  omega

/-- The head of a request is read if nothing in it has a conversion. -/
theorem readHeaders_request (hhead : IsHead headers body.length) (hlength : (body.length : Int) ≤ intMax)
    (hformat : ∀ header ∈ requestLine path version :: headers, isFormat (cstr header) = true)
    (h : chunks.flatten = joinLines headers ++ ("\r\n".toList ++ (body ++ rest))) (uninitialised : Int) : ∃ cookies left,
    readHeaders (chunks.flatten.length + 2) ∅ uninitialised (requestLine path version) chunks = .ok (cookies, body.length, left) ∧
      left.flatten = body ++ rest := by
  obtain ⟨left, hleft, hread⟩ := readHeaders_eq hhead.lines (requestLine_ne_nil path version) h (length_lt_rounds h)
  obtain ⟨cookies, hfold⟩ := foldlM_readHeader hformat ∅ uninitialised
  rw [List.foldl_cons, lengthBehind_requestLine, hhead.foldl_lengthBehind hlength] at hfold
  refine ⟨cookies, left, ?_, hleft⟩
  rw [hread, hfold]
  rfl

variable {socket : Socket} {malloced : Nat → Char} {uninitialised : Int}

theorem ReadsBack.harmless (hpath : IsWord path) (hversion : IsWord version) (hhead : IsHead headers body.length)
    (hlength : (body.length : Int) ≤ intMax) (hsocket : socket.chunks.flatten = render path version headers body ++ rest)
    (h : ReadsBack malloced uninitialised socket path version body rest) : Harmless path version headers body.length := by
  obtain ⟨left, hline, hleft⟩ := readLine_requestLine hpath hversion hsocket
  have hne := requestLine_ne_nil path version
  obtain ⟨req, rest', hrun, hmethod, hreqPath, hreqVersion, hbody, hrest⟩ := h
  rw [Request.read, hline, Run.ok_bind] at hrun
  dsimp only at hrun
  rw [if_neg hne] at hrun
  split at hrun
  · next method path' version' htokens =>
      obtain ⟨_, _, hrun⟩ := Run.bind_eq_ok.mp hrun
      obtain ⟨_, hdebugPath, hrun⟩ := Run.bind_eq_ok.mp hrun
      obtain ⟨_, hdebugVersion, hrun⟩ := Run.bind_eq_ok.mp hrun
      obtain ⟨⟨cookies, contentLength, left'⟩, hheaders, hrun⟩ := Run.bind_eq_ok.mp hrun
      dsimp only at hrun
      have hrun : ∃ read, (if method = "POST".toList ∧ 0 < contentLength then readBody malloced contentLength left'
          else .ok ([], left')) = .ok read ∧
          .ok (some (Request.mk method path' version' contentLength cookies read.1), read.2) = Except.ok (ε := Fault) (some req, rest') := by
        split at hrun
        · next hbody =>
            rw [if_pos hbody]
            exact Run.bind_eq_ok.mp hrun
        · next hbody =>
            rw [if_neg hbody]
            exact ⟨_, rfl, hrun⟩
      obtain ⟨⟨body', left''⟩, hread, hrun⟩ := hrun
      obtain ⟨hreq, rfl⟩ := Prod.mk.inj (Except.ok.inj hrun)
      obtain rfl := Option.some.inj hreq
      obtain rfl : path' = path := hreqPath
      obtain rfl : version' = version := hreqVersion
      obtain rfl : method = "POST".toList := hmethod
      -- What the tokens come from ends at a NUL.
      have hnul (token : Str) (htoken : token ∈ ["POST".toList, path', version']) : '\x00' ∉ token :=
        notMem_token (show token ∈ split (cstr (requestLine path' version')) ' ' from htokens ▸ htoken)
      have hpathNul := hnul path' (by simp)
      have hversionNul := hnul version' (by simp)
      obtain ⟨_, _, hread'⟩ := readHeaders_eq hhead.lines hne hleft (length_lt_rounds hleft)
      rw [hread'] at hheaders
      obtain ⟨_, hfold, _⟩ := Run.bind_eq_ok.mp hheaders
      have hlines := isFormat_of_foldlM hfold
      rw [← hread'] at hheaders
      obtain ⟨cookies', left₂, hheaders', hleft₂⟩ := readHeaders_request hhead hlength hlines hleft uninitialised
      obtain ⟨-, hcontent⟩ := Prod.mk.inj (Except.ok.inj (hheaders.symm.trans hheaders'))
      obtain rfl : contentLength = body.length := (Prod.mk.inj hcontent).1
      refine ⟨⟨hpathNul, hversionNul⟩, ⟨?_, ?_, (List.forall_mem_cons.mp hlines).2⟩, ?_⟩
      · have hformat := debug_eq_ok.mp hdebugPath
        rwa [cstr_of_notMem hpathNul] at hformat
      · have hformat := debug_eq_ok.mp hdebugVersion
        rwa [cstr_of_notMem hversionNul] at hformat
      · -- One more byte than the length is asked for.
        refine Int.lt_iff_le_and_ne.mpr ⟨hlength, fun hfull => ?_⟩
        rw [hfull, if_pos ⟨rfl, by decide⟩, readBody, if_pos (by decide)] at hread
        cases hread
  · cases hrun

theorem Harmless.readsBack (hpath : IsWord path) (hversion : IsWord version) (hhead : IsHead headers body.length)
    (hsocket : socket.chunks.flatten = render path version headers body ++ rest) (h : Harmless path version headers body.length) :
    ReadsBack malloced uninitialised socket path version body rest := by
  obtain ⟨left, hline, hleft⟩ := readLine_requestLine hpath hversion hsocket
  obtain ⟨⟨hpathNul, hversionNul⟩, ⟨hpathFormat, hversionFormat, hformat⟩, hroom⟩ := h
  have hcstr : cstr (requestLine path version) = requestLine path version :=
    cstr_of_notMem (notMem_requestLine (by decide) hpathNul hversionNul)
  have htokens : split (requestLine path version) ' ' = ["POST".toList, path, version] :=
    split_words (show ' ' ∉ "POST".toList by decide) hpath.notMem_blank hversion.notMem_blank hversion.ne_nil
  have hpathDebug : debug path = .ok () := debug_eq_ok.mpr ((cstr_of_notMem hpathNul).symm ▸ hpathFormat)
  have hversionDebug : debug version = .ok () := debug_eq_ok.mpr ((cstr_of_notMem hversionNul).symm ▸ hversionFormat)
  have hlines : ∀ header ∈ requestLine path version :: headers, isFormat (cstr header) = true := by
    refine List.forall_mem_cons.mpr ⟨?_, hformat⟩
    rw [hcstr, isFormat_requestLine, hpathFormat, hversionFormat]
    rfl
  obtain ⟨cookies, left', hheaders, hleft'⟩ := readHeaders_request hhead (Int.le_of_lt hroom) hlines hleft uninitialised
  have hread : ∃ left'', (if "POST".toList = "POST".toList ∧ (0 : Int) < body.length then readBody malloced body.length left'
      else .ok ([], left')) = .ok (body, left'') ∧ left''.flatten = rest := by
    by_cases hempty : body = []
    · subst hempty
      exact ⟨left', rfl, hleft'⟩
    · have hpositive : 0 < body.length := List.length_pos_iff.mpr hempty
      rw [if_pos ⟨rfl, by omega⟩]
      exact readBody_eq malloced hroom hleft'
  obtain ⟨left'', hread, hleft''⟩ := hread
  refine ⟨⟨"POST".toList, path, version, body.length, cookies, body⟩, left'', ?_, rfl, rfl, rfl, rfl, hleft''⟩
  rw [Request.read, hline, Run.ok_bind]
  dsimp only
  rw [if_neg (requestLine_ne_nil path version), hcstr, htokens]
  dsimp only
  rw [debug_eq_ok.mpr (by decide), Run.ok_bind, hpathDebug, Run.ok_bind, hversionDebug, Run.ok_bind, hheaders, Run.ok_bind]
  dsimp only
  split
  · next hbody =>
      rw [if_pos hbody] at hread
      rw [hread]
      rfl
  · next hbody =>
      rw [if_neg hbody] at hread
      rw [hread]
      rfl

/-- A request is read back iff nothing is in the way. -/
theorem readsBack_iff (hpath : IsWord path) (hversion : IsWord version) (hhead : IsHead headers body.length)
    (hlength : (body.length : Int) ≤ intMax) (hsocket : socket.chunks.flatten = render path version headers body ++ rest) :
    ReadsBack malloced uninitialised socket path version body rest ↔ Harmless path version headers body.length :=
  ⟨ReadsBack.harmless hpath hversion hhead hlength hsocket, Harmless.readsBack hpath hversion hhead hsocket⟩

theorem readsBack_iff_login :
    ReadsBack (fun _ => '\x00') 0 ⟨["POST /login HT".toList, "TP/1.1\r\nContent-Length: 3\r\n\r\na=".toList, "b".toList], by decide⟩
      "/login".toList "HTTP/1.1".toList "a=b".toList [] ↔
    Harmless "/login".toList "HTTP/1.1".toList ["Content-Length: 3".toList] 3 :=
  readsBack_iff ⟨by decide, by decide, by decide⟩ ⟨by decide, by decide, by decide⟩
    ⟨by decide, [], [], by decide, by decide⟩ (by decide) (by decide)

/-- The request line ends at the NUL for the tokens, and there are two of them. -/
theorem not_readsBack_nul :
    IsWord "/a\x00b".toList ∧ IsWord "HTTP/1.1".toList ∧ IsHead ["Content-Length: 3".toList] 3 ∧
      ¬ ReadsBack (fun _ => '\x00') 0 ⟨[render "/a\x00b".toList "HTTP/1.1".toList ["Content-Length: 3".toList] "a=b".toList], by decide⟩
        "/a\x00b".toList "HTTP/1.1".toList "a=b".toList [] := by
  refine ⟨⟨by decide, by decide, by decide⟩, ⟨by decide, by decide, by decide⟩, ⟨by decide, [], [], by decide, by decide⟩, ?_⟩
  rintro ⟨req, left, hread, -⟩
  have hnone : (Request.read (fun _ => '\x00') 0 ⟨[render "/a\x00b".toList "HTTP/1.1".toList ["Content-Length: 3".toList]
      "a=b".toList], by decide⟩).toOption.map (·.1.isNone) = some true := by decide +kernel
  rw [hread] at hnone
  cases hnone

end PennCloud.Frontend
