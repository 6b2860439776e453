import PennCloud.Frontend.Proof.Parsing

/-!
# Cookies

A browser writes `; ` between its cookies, and the constructor of `Request` splits at `;` alone. The blank stays at the front of
every name but the first, and the session is found only where it comes first.
-/

namespace PennCloud

namespace Frontend

variable {text : Str} {c : Char} {l : List (Str × Str)} {name value line : Str} {cookies cookies' : Map Str}

def pairText (cookie : Str × Str) : Str := cookie.1 ++ '=' :: cookie.2

def cookieText (l : List (Str × Str)) : Str := "; ".toList.intercalate (l.map pairText)

def cookieLine (l : List (Str × Str)) : Str := "Cookie: ".toList ++ cookieText l

/-- Cookies of different names, none of them empty, without the bytes that separate them. -/
structure Sendable (l : List (Str × Str)) : Prop where
  distinct : (l.map Prod.fst).Nodup
  nonempty : ∀ cookie ∈ l, cookie.2 ≠ []
  legal : ∀ cookie ∈ l, ∀ c ∈ cookie.1 ++ cookie.2, c ∉ ";= \r\n".toList

/-- A text that is shown whole and printed as it is. -/
structure Plain (text : Str) : Prop where
  notMem : '\x00' ∉ text
  format : isFormat text = true

theorem legal_of_all (h : (l.all fun cookie => (cookie.1 ++ cookie.2).all fun c => !";= \r\n".toList.contains c) = true) :
    ∀ cookie ∈ l, ∀ c ∈ cookie.1 ++ cookie.2, c ∉ ";= \r\n".toList := by
  intro cookie hcookie c hc hmem
  have hnot := List.all_eq_true.mp (List.all_eq_true.mp h cookie hcookie) c hc
  rw [List.contains_iff_mem.mpr hmem] at hnot
  cases hnot

theorem Sendable.perm {l' : List (Str × Str)} (hl : Sendable l) (hperm : l'.Perm l) : Sendable l' where
  distinct := (hperm.map Prod.fst).nodup_iff.mpr hl.distinct
  nonempty := fun cookie hcookie => hl.nonempty cookie (hperm.mem_iff.mp hcookie)
  legal := fun cookie hcookie => hl.legal cookie (hperm.mem_iff.mp hcookie)

theorem Plain.debug (h : Plain text) : Frontend.debug text = .ok () :=
  debug_eq_ok.mpr ((Chunkserver.cstr_of_notMem h.notMem).symm ▸ h.format)

theorem cookieText_cons (cookie cookie' : Str × Str) (l : List (Str × Str)) :
    cookieText (cookie :: cookie' :: l) = pairText cookie ++ ';' :: ' ' :: cookieText (cookie' :: l) := by
  unfold cookieText
  rw [List.map_cons, List.map_cons, List.intercalate_cons_cons, List.append_assoc]
  rfl

theorem cookieText_singleton (cookie : Str × Str) : cookieText [cookie] = pairText cookie := List.intercalate_singleton

theorem mem_pairText {cookie : Str × Str} (hc : c ∈ pairText cookie) : c = '=' ∨ c ∈ cookie.1 ++ cookie.2 := by
  rcases List.mem_append.mp hc with hname | hvalue
  · exact Or.inr (List.mem_append_left _ hname)
  · exact (List.mem_cons.mp hvalue).imp_right (List.mem_append_right _)

theorem mem_cookieText (hc : c ∈ cookieText l) : c ∈ ";= ".toList ∨ ∃ cookie ∈ l, c ∈ cookie.1 ++ cookie.2 := by
  induction l with
  | nil => cases hc
  | cons cookie l ih =>
      have hpair (hmem : c ∈ pairText cookie) : c ∈ ";= ".toList ∨ ∃ cookie' ∈ cookie :: l, c ∈ cookie'.1 ++ cookie'.2 := by
        rcases mem_pairText hmem with rfl | hmem
        · exact Or.inl (by decide)
        · exact Or.inr ⟨cookie, List.mem_cons_self, hmem⟩
      cases l with
      | nil => exact hpair (cookieText_singleton cookie ▸ hc)
      | cons cookie' l =>
          rw [cookieText_cons, List.mem_append, List.mem_cons, List.mem_cons] at hc
          rcases hc with hfirst | rfl | rfl | hrest
          · exact hpair hfirst
          · exact Or.inl (by decide)
          · exact Or.inl (by decide)
          · obtain hmem | ⟨cookie'', hcookie, hmem⟩ := ih hrest
            · exact Or.inl hmem
            · exact Or.inr ⟨cookie'', List.mem_cons_of_mem _ hcookie, hmem⟩

/-! ### What is read of a cookie line -/

theorem mem_readCookies (hread : readCookies cookies line = .ok cookies') (hget : cookies'[name]? = some value) :
    cookies[name]? = some value ∨ ∃ token ∈ split (cstr (line.drop 8)) ';',
      split (cstr token) '=' = [name, value] ∧ debug name = .ok () ∧ debug value = .ok () := by
  let P (read : Map Str) : Prop := ∀ name value, read[name]? = some value → cookies[name]? = some value ∨
    ∃ token ∈ split (cstr (line.drop 8)) ';',
      split (cstr token) '=' = [name, value] ∧ debug name = .ok () ∧ debug value = .ok ()
  have hstart : P cookies := fun _ _ => Or.inl
  refine Run.foldlM_invariant (P := P) (fun read token read' htoken hP hstep name value hget => ?_) hstart hread name value hget
  split at hstep
  · next name' value' hpair =>
      obtain ⟨_, hname, hstep⟩ := Run.bind_eq_ok.mp hstep
      obtain ⟨_, hvalue, hstep⟩ := Run.bind_eq_ok.mp hstep
      obtain rfl := Except.ok.inj hstep
      rw [Std.ExtTreeMap.getElem?_insert] at hget
      split at hget
      · next heq =>
          obtain rfl := Std.LawfulEqCmp.eq_of_compare heq
          obtain rfl := Option.some.inj hget
          exact Or.inr ⟨token, htoken, hpair, hname, hvalue⟩
      · exact hP name value hget
  · obtain rfl := Except.ok.inj hstep
    exact hP name value hget

theorem blank_of_mem_tail (hl : ∀ cookie ∈ l, ';' ∉ cookie.1 ++ cookie.2) {token : Str}
    (htoken : token ∈ (split (cstr (cookieText l)) ';').tail) : ∃ rest, token = ' ' :: rest := by
  have hlast (text : Str) (htext : ';' ∉ text) : (split (cstr text) ';').tail = [] := by
    by_cases hnil : cstr text = []
    · rw [hnil, split_nil]; rfl
    · rw [split_of_notMem (fun hmem => htext (mem_of_mem_cstr hmem)) hnil]; rfl
  induction l generalizing token with
  | nil => rw [hlast _ (by decide)] at htoken; cases htoken
  | cons cookie l ih =>
      obtain ⟨hcookie, hl⟩ := List.forall_mem_cons.mp hl
      have hpair : ';' ∉ pairText cookie := fun hmem => (mem_pairText hmem).elim (by decide) hcookie
      cases l with
      | nil => rw [cookieText_singleton, hlast _ hpair] at htoken; cases htoken
      | cons cookie' l =>
          rw [cookieText_cons] at htoken
          by_cases hnul : '\x00' ∈ pairText cookie
          · rw [cstr_append_of_mem hnul, hlast _ hpair] at htoken; cases htoken
          · have hcstr : cstr (';' :: ' ' :: cookieText (cookie' :: l)) = ';' :: ' ' :: cstr (cookieText (cookie' :: l)) := rfl
            rw [Chunkserver.cstr_append hnul, hcstr, split_append hpair, List.tail_cons, split_cons (by decide)] at htoken
            rcases List.mem_cons.mp htoken with rfl | htoken
            · exact ⟨_, rfl⟩
            · exact ih hl htoken

/-- The cookies that keep their names come from the first field. -/
theorem eq_headD_of_split (hl : ∀ cookie ∈ l, ';' ∉ cookie.1 ++ cookie.2) {token : Str}
    (htoken : token ∈ split (cstr (cookieText l)) ';') (hpair : split (cstr token) '=' = [name, value]) (hname : ' ' ∉ name) :
    (split (cstr (cookieText l)) ';').head? = some token := by
  have htail := @blank_of_mem_tail l hl token
  generalize split (cstr (cookieText l)) ';' = tokens at htoken htail
  cases htoken with
  | head => rfl
  | tail first htoken =>
      obtain ⟨rest, rfl⟩ := htail htoken
      have hcstr : cstr (' ' :: rest) = ' ' :: cstr rest := rfl
      rw [hcstr, split_cons (by decide)] at hpair
      exact absurd ((List.cons.inj hpair).1 ▸ List.mem_cons_self) hname

theorem drop_cookieLine (l : List (Str × Str)) : (cookieLine l).drop 8 = cookieText l := List.drop_left' rfl

/-- A line of several cookies does not keep the names of two of them. -/
theorem length_le_one (hl : Sendable l) (hread : readCookies ∅ (cookieLine l) = .ok cookies)
    (hall : ∀ cookie ∈ l, cookies[cookie.1]? = some cookie.2) : l.length ≤ 1 := by
  have hsemicolon : ∀ cookie ∈ l, ';' ∉ cookie.1 ++ cookie.2 := fun cookie hcookie hmem => hl.legal cookie hcookie _ hmem (by decide)
  have hfirst (cookie : Str × Str) (hcookie : cookie ∈ l) : ∃ token,
      (split (cstr (cookieText l)) ';').head? = some token ∧ split (cstr token) '=' = [cookie.1, cookie.2] := by
    obtain hempty | ⟨token, htoken, hpair, _⟩ := mem_readCookies hread (hall cookie hcookie)
    · rw [Std.ExtTreeMap.getElem?_empty] at hempty
      cases hempty
    · rw [drop_cookieLine] at htoken
      have hblank : ' ' ∉ cookie.1 := fun hmem => hl.legal cookie hcookie _ (List.mem_append_left _ hmem) (by decide)
      exact ⟨token, eq_headD_of_split hsemicolon htoken hpair hblank, hpair⟩
  match l, hl.distinct with
  | [], _ => exact Nat.zero_le 1
  | [_], _ => exact le_rfl
  | cookie :: cookie' :: l, hdistinct =>
      obtain ⟨token, htoken, hpair⟩ := hfirst cookie List.mem_cons_self
      obtain ⟨token', htoken', hpair'⟩ := hfirst cookie' (List.mem_cons_of_mem _ List.mem_cons_self)
      obtain rfl := Option.some.inj (htoken.symm.trans htoken')
      have hname : cookie.1 = cookie'.1 := (List.cons.inj (hpair.symm.trans hpair')).1
      exact absurd (hname ▸ List.mem_cons_self) (List.nodup_cons.mp hdistinct).1

theorem plain_of_readCookies (hread : readCookies ∅ (cookieLine l) = .ok cookies) (hget : cookies[name]? = some value) :
    Plain name ∧ Plain value := by
  obtain hempty | ⟨token, _, hpair, hname, hvalue⟩ := mem_readCookies hread hget
  · rw [Std.ExtTreeMap.getElem?_empty] at hempty
    cases hempty
  · have hplain (field : Str) (hfield : field ∈ [name, value]) (hdebug : debug field = .ok ()) : Plain field := by
      have hnul : '\x00' ∉ field := fun hmem => Chunkserver.notMem_cstr token (mem_split (hpair ▸ hfield) hmem)
      refine ⟨hnul, ?_⟩
      have hformat := debug_eq_ok.mp hdebug
      rwa [Chunkserver.cstr_of_notMem hnul] at hformat
    exact ⟨hplain name (by simp) hname, hplain value (by simp) hvalue⟩

theorem readCookies_nil : readCookies cookies (cookieLine []) = .ok cookies := rfl

theorem readCookies_singleton {cookie : Str × Str} (hl : Sendable [cookie]) (hname : Plain cookie.1) (hvalue : Plain cookie.2) :
    readCookies cookies (cookieLine [cookie]) = .ok (cookies.insert cookie.1 cookie.2) := by
  have hlegal := hl.legal cookie List.mem_cons_self
  have hsemicolon : ';' ∉ pairText cookie := fun hmem => (mem_pairText hmem).elim (by decide) fun hmem => hlegal _ hmem (by decide)
  have hnul : '\x00' ∉ pairText cookie := fun hmem => (mem_pairText hmem).elim (by decide) fun hmem =>
    (List.mem_append.mp hmem).elim hname.notMem hvalue.notMem
  have hpair : split (pairText cookie) '=' = [cookie.1, cookie.2] := by
    rw [pairText, split_append fun hmem => hlegal _ (List.mem_append_left _ hmem) (by decide),
      split_of_notMem (fun hmem => hlegal _ (List.mem_append_right _ hmem) (by decide)) (hl.nonempty cookie List.mem_cons_self)]
  have htoken : split (pairText cookie) ';' = [pairText cookie] :=
    split_of_notMem hsemicolon (List.append_ne_nil_of_right_ne_nil _ (List.cons_ne_nil _ _))
  rw [readCookies, drop_cookieLine, cookieText_singleton, Chunkserver.cstr_of_notMem hnul, htoken, List.foldlM_cons,
    Chunkserver.cstr_of_notMem hnul, hpair]
  dsimp only
  rw [hname.debug, hvalue.debug]
  rfl

theorem debug_cookieLine {cookie : Str × Str} (hname : Plain cookie.1) (hvalue : Plain cookie.2) :
    debug (cookieLine [cookie]) = .ok () := by
  have hline : cookieLine [cookie] = "Cookie:".toList ++ ' ' :: (cookie.1 ++ '=' :: cookie.2) := by
    have hblank : "Cookie: ".toList = "Cookie:".toList ++ [' '] := by decide
    unfold cookieLine
    rw [hblank, cookieText_singleton, List.append_assoc]
    rfl
  refine Plain.debug ⟨?_, ?_⟩
  · rw [hline]
    simp only [List.mem_append, List.mem_cons, not_or]
    exact ⟨by decide, by decide, hname.notMem, by decide, hvalue.notMem⟩
  · rw [hline, isFormat_append (by decide), isFormat_append (by decide), hname.format, hvalue.format]
    rfl

/-! ### The request around the cookies -/

/-- The words of the request line, and the other lines of the head. -/
structure Surroundings where
  method : Str
  path : Str
  version : Str
  front : List Str
  back : List Str

namespace Surroundings

variable {s : Surroundings} {uninitialised : Int} {malloced : Nat → Char} {socket : Socket} {rest : Str}

def firstLine (s : Surroundings) : Str := s.method ++ ' ' :: (s.path ++ ' ' :: s.version)

/-- The head of the request, with the cookies in one line. -/
def head (s : Surroundings) (l : List (Str × Str)) : Str :=
  joinLines (s.firstLine :: (s.front ++ cookieLine l :: s.back)) ++ "\r\n".toList

/-- A request that is read whatever its cookies are, and has no other cookies. -/
structure Harmless (s : Surroundings) (uninitialised : Int) : Prop where
  method : s.method = "GET".toList ∨ s.method = "POST".toList
  path : IsWord s.path ∧ Plain s.path
  version : IsWord s.version ∧ Plain s.version
  lines : ∀ line ∈ s.front ++ s.back, line ≠ [] ∧ ('\r' ∉ line ∧ '\n' ∉ line) ∧ isFormat (cstr line) = true
  others : ∀ line ∈ s.front ++ s.back, line.take 8 ≠ "Cookie: ".toList
  room : (s.front ++ s.back).foldl lengthBehind uninitialised < intMax

theorem foldlM_others {headers : List Str} (hformat : ∀ header ∈ headers, isFormat (cstr header) = true)
    (hothers : ∀ header ∈ headers, header.take 8 ≠ "Cookie: ".toList) (cookies : Map Str) (contentLength : Int) :
    headers.foldlM (fun read header => readHeader read.1 read.2 header) (cookies, contentLength) =
      .ok (cookies, headers.foldl lengthBehind contentLength) := by
  induction headers generalizing contentLength with
  | nil => rfl
  | cons header headers ih =>
      obtain ⟨hfirst, hformat⟩ := List.forall_mem_cons.mp hformat
      obtain ⟨hother, hothers⟩ := List.forall_mem_cons.mp hothers
      have hread : readHeader cookies contentLength header = .ok (cookies, lengthBehind contentLength header) := by
        rw [readHeader, debug_eq_ok.mpr hfirst, Run.ok_bind, if_neg hother]
        rfl
      rw [List.foldlM_cons, hread, Run.ok_bind]
      exact ih hformat hothers _

theorem readHeader_cookieLine (l : List (Str × Str)) (cookies : Map Str) (contentLength : Int) :
    readHeader cookies contentLength (cookieLine l) = (do
      debug (cookieLine l)
      let cookies ← readCookies cookies (cookieLine l)
      .ok (cookies, contentLength)) := by
  rw [readHeader, if_pos (show (cookieLine l).take 8 = "Cookie: ".toList from rfl)]
  refine Run.bind_congr fun _ _ => Run.bind_congr fun _ _ => ?_
  rw [if_neg fun htake => ?_]
  exact absurd (List.cons.inj (List.cons.inj (List.cons.inj htake).2).2).1 (by decide)

theorem firstLine_ne_nil (s : Surroundings) : s.firstLine ≠ [] :=
  List.append_ne_nil_of_right_ne_nil _ (List.cons_ne_nil _ _)

theorem notMem_firstLine (hc : c ≠ ' ') (hwords : c ∉ s.method ∧ c ∉ s.path ∧ c ∉ s.version) : c ∉ s.firstLine := by
  obtain ⟨hmethod, hpath, hversion⟩ := hwords
  simp only [firstLine, List.mem_append, List.mem_cons, not_or]
  exact ⟨hmethod, hc, hpath, hc, hversion⟩

namespace Harmless

theorem isWord_method (h : s.Harmless uninitialised) : IsWord s.method ∧ Plain s.method := by
  rcases h.method with heq | heq
  all_goals
    rw [heq]
    exact ⟨⟨by decide, by decide, by decide⟩, ⟨by decide, by decide⟩⟩

theorem plain_firstLine (h : s.Harmless uninitialised) : Plain s.firstLine := by
  have hmethod := h.isWord_method.2
  refine ⟨notMem_firstLine (by decide) ⟨hmethod.notMem, h.path.2.notMem, h.version.2.notMem⟩, ?_⟩
  rw [firstLine, isFormat_append (by decide), isFormat_append (by decide), hmethod.format, h.path.2.format, h.version.2.format]
  rfl

theorem split_firstLine (h : s.Harmless uninitialised) : split (cstr s.firstLine) ' ' = [s.method, s.path, s.version] := by
  rw [Chunkserver.cstr_of_notMem h.plain_firstLine.notMem, firstLine]
  exact split_words h.isWord_method.1.notMem_blank h.path.1.notMem_blank h.version.1.notMem_blank h.version.1.ne_nil

/-- The first line goes through the loop over the head as well, and does nothing there. -/
theorem firstLine_others (h : s.Harmless uninitialised) :
    s.firstLine.take 8 ≠ "Cookie: ".toList ∧ ∀ contentLength, lengthBehind contentLength s.firstLine = contentLength := by
  have hfirst : ∃ c line, s.firstLine = c :: line ∧ c ≠ 'C' := by
    rcases h.method with heq | heq
    all_goals
      rw [firstLine, heq]
      exact ⟨_, _, rfl, by decide⟩
  obtain ⟨c, line, heq, hc⟩ := hfirst
  rw [heq]
  exact ⟨fun htake => hc (List.cons.inj htake).1, fun contentLength => if_neg fun htake => hc (List.cons.inj htake).1⟩

theorem cookieLine_lines (hl : Sendable l) : cookieLine l ≠ [] ∧ '\r' ∉ cookieLine l ∧ '\n' ∉ cookieLine l := by
  have hnotMem (c : Char) (hc : c ∉ "Cookie: ;=".toList) (hbreak : c ∈ ";= \r\n".toList) : c ∉ cookieLine l := by
    intro hmem
    rcases List.mem_append.mp hmem with hmem | hmem
    · exact hc (List.mem_append_left ";=".toList hmem)
    · rcases mem_cookieText hmem with hmem | ⟨cookie, hcookie, hmem⟩
      · exact hc ((show ";= ".toList ⊆ "Cookie: ;=".toList by decide) hmem)
      · exact hl.legal cookie hcookie c hmem hbreak
  exact ⟨List.append_ne_nil_of_left_ne_nil (by decide) _, hnotMem '\r' (by decide) (by decide), hnotMem '\n' (by decide) (by decide)⟩

theorem exists_readBody (malloced : Nat → Char) {contentLength : Int} (hroom : contentLength < intMax) (chunks : List Str) :
    ∃ read, readBody malloced contentLength chunks = .ok read := by
  rw [readBody, if_neg (by omega)]
  exact ⟨_, rfl⟩

theorem read_eq (h : s.Harmless uninitialised) (hl : Sendable l) (malloced : Nat → Char)
    (hsocket : socket.chunks.flatten = s.head l ++ rest) : ∃ contentLength body left,
    Request.read malloced uninitialised socket = (do
      debug (cookieLine l)
      let cookies ← readCookies ∅ (cookieLine l)
      .ok (some ⟨s.method, s.path, s.version, contentLength, cookies, body⟩, left)) := by
  have hfirst := h.plain_firstLine
  obtain ⟨hmethod, hmethodPlain⟩ := h.isWord_method
  have hbreak : '\r' ∉ s.firstLine ∧ '\n' ∉ s.firstLine :=
    ⟨notMem_firstLine (by decide) ⟨hmethod.noBreak.1, h.path.1.noBreak.1, h.version.1.noBreak.1⟩,
      notMem_firstLine (by decide) ⟨hmethod.noBreak.2, h.path.1.noBreak.2, h.version.1.noBreak.2⟩⟩
  rw [head, List.append_assoc] at hsocket
  obtain ⟨left, hline, hleft⟩ := readLine_headers hbreak hsocket
  have hheaders : ∀ line ∈ s.front ++ cookieLine l :: s.back, line ≠ [] ∧ '\r' ∉ line ∧ '\n' ∉ line := by
    intro line hmem
    rcases List.mem_append.mp hmem with hmem | hmem
    · exact ⟨(h.lines line (List.mem_append_left _ hmem)).1, (h.lines line (List.mem_append_left _ hmem)).2.1⟩
    · rcases List.mem_cons.mp hmem with rfl | hmem
      · exact cookieLine_lines hl
      · exact ⟨(h.lines line (List.mem_append_right _ hmem)).1, (h.lines line (List.mem_append_right _ hmem)).2.1⟩
  obtain ⟨left', -, hread⟩ := readHeaders_eq hheaders s.firstLine_ne_nil hleft (length_lt_rounds hleft)
  -- The lines in front of the cookies, and those behind.
  obtain ⟨hcookies, hlength⟩ := h.firstLine_others
  have hformat : isFormat (cstr s.firstLine) = true := (Chunkserver.cstr_of_notMem hfirst.notMem).symm ▸ hfirst.format
  have hfront := foldlM_others
    (List.forall_mem_cons.mpr ⟨hformat, fun line hmem => (h.lines line (List.mem_append_left s.back hmem)).2.2⟩)
    (List.forall_mem_cons.mpr ⟨hcookies, fun line hmem => h.others line (List.mem_append_left s.back hmem)⟩) ∅ uninitialised
  have hback := foldlM_others (fun line hmem => (h.lines line (List.mem_append_right s.front hmem)).2.2)
    fun line hmem => h.others line (List.mem_append_right s.front hmem)
  let contentLength := (s.front ++ s.back).foldl lengthBehind uninitialised
  have hhead : readHeaders (left.flatten.length + 2) ∅ uninitialised s.firstLine left = (do
      debug (cookieLine l)
      let cookies ← readCookies ∅ (cookieLine l)
      .ok (cookies, contentLength, left')) := by
    rw [hread, ← List.cons_append, List.foldlM_append, hfront, Run.ok_bind, List.foldlM_cons, readHeader_cookieLine, List.foldl_cons,
      hlength, bind_assoc, bind_assoc, bind_assoc]
    refine Run.bind_congr fun _ _ => Run.bind_congr fun cookies _ => ?_
    rw [Run.ok_bind, hback, ← List.foldl_append]
    rfl
  have hbody : ∃ body left'', (if s.method = "POST".toList ∧ 0 < contentLength then readBody malloced contentLength left'
      else .ok ([], left')) = .ok (body, left'') := by
    split
    · obtain ⟨⟨body, left''⟩, hbody⟩ := exists_readBody malloced h.room left'
      exact ⟨body, left'', hbody⟩
    · exact ⟨[], left', rfl⟩
  obtain ⟨body, left'', hbody⟩ := hbody
  refine ⟨contentLength, body, left'', ?_⟩
  rw [Request.read, hline, Run.ok_bind]
  dsimp only
  rw [if_neg s.firstLine_ne_nil, h.split_firstLine]
  dsimp only
  rw [hmethodPlain.debug, Run.ok_bind, h.path.2.debug, Run.ok_bind, h.version.2.debug, Run.ok_bind, hhead, bind_assoc]
  refine Run.bind_congr fun _ _ => ?_
  rw [bind_assoc]
  refine Run.bind_congr fun cookies _ => ?_
  rw [Run.ok_bind]
  dsimp only
  split
  · next hpost =>
      rw [if_pos hpost] at hbody
      rw [hbody]
      rfl
  · next hpost =>
      rw [if_neg hpost] at hbody
      rw [hbody]
      rfl

end Harmless

end Surroundings

/-! ### The cookies of a request -/

/-- The map has the cookies and no others, so that a session among them is found. -/
def ReadsCookies (malloced : Nat → Char) (uninitialised : Int) (socket : Socket) (l : List (Str × Str)) : Prop :=
  ∃ req left, Request.read malloced uninitialised socket = .ok (some req, left) ∧
    (∀ name value, req.cookies[name]? = some value ↔ (name, value) ∈ l) ∧
      ∀ (site : Site) id, ("sessionid".toList, id) ∈ l → site.sessions.contains id → site.isAlreadyLogin req.cookies = some id

theorem isAlreadyLogin_of_getElem? {site : Site} {id : Str} (hget : cookies["sessionid".toList]? = some id)
    (hsession : site.sessions.contains id) : site.isAlreadyLogin cookies = some id := by
  rw [Site.isAlreadyLogin, hget]
  exact if_pos hsession

variable {s : Surroundings} {uninitialised : Int} {malloced : Nat → Char} {socket : Socket} {rest : Str}

/-- The cookies of one line are read iff there is at most one, and nothing in it is cut short or taken for a conversion. -/
theorem Surroundings.Harmless.readsCookies_iff (h : s.Harmless uninitialised) (hl : Sendable l)
    (hsocket : socket.chunks.flatten = s.head l ++ rest) :
    ReadsCookies malloced uninitialised socket l ↔ l.length ≤ 1 ∧ ∀ cookie ∈ l, Plain cookie.1 ∧ Plain cookie.2 := by
  obtain ⟨contentLength, body, left, hread⟩ := h.read_eq hl malloced hsocket
  constructor
  · rintro ⟨req, left', hrun, hcookies, -⟩
    rw [hread] at hrun
    obtain ⟨_, _, hrun⟩ := Run.bind_eq_ok.mp hrun
    obtain ⟨cookies, hline, hrun⟩ := Run.bind_eq_ok.mp hrun
    obtain rfl := Option.some.inj (Prod.mk.inj (Except.ok.inj hrun)).1
    have hall (cookie : Str × Str) (hcookie : cookie ∈ l) : cookies[cookie.1]? = some cookie.2 := (hcookies _ _).mpr hcookie
    exact ⟨length_le_one hl hline hall, fun cookie hcookie => plain_of_readCookies hline (hall cookie hcookie)⟩
  · rintro ⟨hlength, hplain⟩
    have hline : ∃ cookies, debug (cookieLine l) = .ok () ∧ readCookies ∅ (cookieLine l) = .ok cookies ∧
        ∀ name value, cookies[name]? = some value ↔ (name, value) ∈ l := by
      match l, hl, hplain, hlength with
      | [], _, _, _ => exact ⟨∅, by decide, readCookies_nil, fun name value => by simp⟩
      | [cookie], hl, hplain, _ =>
          obtain ⟨hname, hvalue⟩ := hplain cookie List.mem_cons_self
          refine ⟨_, debug_cookieLine hname hvalue, readCookies_singleton hl hname hvalue, fun name value => ?_⟩
          rw [Std.ExtTreeMap.getElem?_insert, List.mem_singleton, Prod.ext_iff]
          split
          · next heq =>
              obtain rfl := Std.LawfulEqCmp.eq_of_compare heq
              simp [eq_comm]
          · next hne => exact iff_of_false (by simp) fun heq => hne (heq.1 ▸ Std.ReflCmp.compare_self)
    obtain ⟨cookies, hdebug, hline, hcookies⟩ := hline
    refine ⟨⟨s.method, s.path, s.version, contentLength, cookies, body⟩, left, ?_, hcookies, fun site id hid => ?_⟩
    · rw [hread, hdebug, Run.ok_bind, hline, Run.ok_bind]
    · exact isAlreadyLogin_of_getElem? ((hcookies _ _).mpr hid)

/-- The cookies are read in every order iff there is at most one, and nothing in it is cut short or taken for a conversion. -/
theorem readsCookies_perm_iff (h : s.Harmless uninitialised) (hl : Sendable l) :
    (∀ l', l'.Perm l → ∀ socket rest, socket.chunks.flatten = s.head l' ++ rest → ReadsCookies malloced uninitialised socket l') ↔
      l.length ≤ 1 ∧ ∀ cookie ∈ l, Plain cookie.1 ∧ Plain cookie.2 := by
  constructor
  · intro hall
    have hne : s.head l ≠ [] := List.append_ne_nil_of_right_ne_nil _ (by decide)
    let socket : Socket := ⟨[s.head l], fun chunk hchunk => List.mem_singleton.mp hchunk ▸ hne⟩
    have hsocket : socket.chunks.flatten = s.head l ++ [] := List.flatten_cons
    exact (h.readsCookies_iff hl hsocket).mp (hall l (List.Perm.refl l) socket [] hsocket)
  · rintro ⟨hlength, hplain⟩ l' hperm socket rest hsocket
    refine (h.readsCookies_iff (hl.perm hperm) hsocket).mpr ⟨hperm.length_eq ▸ hlength, fun cookie hcookie => ?_⟩
    exact hplain cookie (hperm.mem_iff.mp hcookie)

theorem readsCookies_perm_iff_session :
    (∀ l', l'.Perm [("sessionid".toList, "u".toList)] → ∀ socket rest,
      socket.chunks.flatten = Surroundings.head ⟨"GET".toList, "/inbox".toList, "HTTP/1.1".toList, [], []⟩ l' ++ rest →
        ReadsCookies (fun _ => '\x00') 0 socket l') ↔
      [("sessionid".toList, "u".toList)].length ≤ 1 ∧
        ∀ cookie ∈ [("sessionid".toList, "u".toList)], Plain cookie.1 ∧ Plain cookie.2 :=
  readsCookies_perm_iff
    ⟨Or.inl rfl, ⟨⟨by decide, by decide, by decide⟩, ⟨by decide, by decide⟩⟩,
      ⟨⟨by decide, by decide, by decide⟩, ⟨by decide, by decide⟩⟩, nofun, nofun, by decide⟩
    ⟨by decide, by decide, legal_of_all (by decide)⟩

/-- A session behind another cookie is not found. -/
theorem not_readsCookies_second :
    Sendable [("a".toList, "1".toList), ("sessionid".toList, "u".toList)] ∧
      ¬ ReadsCookies (fun _ => '\x00') 0 ⟨["GET /inbox HTTP/1.1\r\nCookie: a=1; sessionid=u\r\n\r\n".toList], by decide⟩
        [("a".toList, "1".toList), ("sessionid".toList, "u".toList)] := by
  refine ⟨⟨by decide, by decide, legal_of_all (by decide)⟩, ?_⟩
  rintro ⟨req, left, hread, hcookies, -⟩
  have hnone : (Request.read (fun _ => '\x00') 0 ⟨["GET /inbox HTTP/1.1\r\nCookie: a=1; sessionid=u\r\n\r\n".toList],
      by decide⟩).toOption.map (fun read => read.1.map fun req => req.cookies["sessionid".toList]?) = some (some none) := by
    decide +kernel
  rw [hread] at hnone
  have hget := (hcookies "sessionid".toList "u".toList).mpr (by simp)
  rw [show req.cookies["sessionid".toList]? = none from Option.some.inj (Option.some.inj hnone)] at hget
  cases hget

end Frontend

end PennCloud
