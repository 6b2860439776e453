import PennCloud.Frontend.Proof.Forms
import Mathlib.Data.Nat.Find

/-!
# Uploaded files

The end of an uploaded file is where four dashes stand in a row for the first time, two bytes before. The boundary
starts with four dashes, and a file may have them as well.
-/

namespace PennCloud

variable {pattern text front back rest line tail name type content : Str} {k : Nat} {c : Char}

/-! ### Where a pattern is found -/

/-- The first place of a pattern. -/
structure FoundAt (pattern text : Str) (k : Nat) : Prop where
  here : pattern <+: text.drop k
  first : ∀ j < k, ¬ pattern <+: text.drop j

theorem FoundAt.findStr_eq (h : FoundAt pattern text k) (hne : pattern ≠ []) : findStr pattern text = k := by
  have hinside : k < text.length := by
    by_contra hbeyond
    have hnil := h.here
    rw [List.drop_eq_nil_of_le (Nat.le_of_not_lt hbeyond)] at hnil
    exact hne (List.prefix_nil.mp hnil)
  have hfind : (List.range (text.length + 1)).find? (fun pos => pattern.isPrefixOf (text.drop pos)) = some k := by
    rw [List.find?_range_eq_some]
    refine ⟨List.isPrefixOf_iff_prefix.mpr h.here, List.mem_range.mpr (Nat.lt_succ_of_lt hinside), fun j hj => ?_⟩
    rw [Bool.not_eq_true']
    exact Bool.eq_false_iff.mpr fun hstarts => h.first j hj (List.isPrefixOf_iff_prefix.mp hstarts)
  rw [findStr, hfind]
  rfl

theorem getElem?_of_prefix_drop {j i : Nat} (h : pattern <+: text.drop j) (hi : i < pattern.length) :
    text[j + i]? = pattern[i]? := by
  obtain ⟨back, hback⟩ := h
  rw [← List.getElem?_drop, ← hback, List.getElem?_append_left hi]

/-- A text in front that the pattern does not start in. -/
theorem FoundAt.append (h : FoundAt pattern text k) (hskip : ∀ j < front.length, ¬ pattern <+: (front ++ text).drop j) :
    FoundAt pattern (front ++ text) (front.length + k) := by
  constructor
  · rw [List.drop_length_add_append]
    exact h.here
  · intro j hj hstarts
    by_cases hfront : j < front.length
    · exact hskip j hfront hstarts
    · obtain ⟨i, rfl⟩ := Nat.exists_eq_add_of_le (Nat.le_of_not_lt hfront)
      rw [List.drop_length_add_append] at hstarts
      exact h.first i (Nat.lt_of_add_lt_add_left hj) hstarts

theorem foundAt_zero (pattern rest : Str) : FoundAt pattern (pattern ++ rest) 0 :=
  ⟨List.prefix_append pattern rest, fun j hj => absurd hj (Nat.not_lt_zero j)⟩

theorem getElem?_ne_of_notMem (htext : c ∉ text) (k : Nat) : text[k]? ≠ some c :=
  fun h => htext (List.mem_of_getElem? h)

/-- A line without a `\r` does not start the end of the headers. -/
theorem skip_line (hline : '\r' ∉ line) (hrest : rest.head? ≠ some '\r') :
    ∀ j < (line ++ "\r\n".toList).length, ¬ "\r\n\r\n".toList <+: (line ++ "\r\n".toList ++ rest).drop j := by
  intro j hj hstarts
  rw [List.length_append] at hj
  have hfirst : (line ++ "\r\n".toList ++ rest)[j + 0]? = some '\r' := getElem?_of_prefix_drop hstarts (by decide)
  have hthird : (line ++ "\r\n".toList ++ rest)[j + 2]? = some '\r' := getElem?_of_prefix_drop hstarts (by decide)
  rw [List.append_assoc] at hfirst hthird
  have hcrlf : "\r\n".toList.length = 2 := rfl
  by_cases hfront : j < line.length
  · rw [List.getElem?_append_left (by omega)] at hfirst
    exact getElem?_ne_of_notMem hline _ hfirst
  · rw [List.getElem?_append_right (by omega)] at hfirst hthird
    obtain hj | hj : j + 0 - line.length = 0 ∨ j + 0 - line.length = 1 := by omega
    · rw [show j + 2 - line.length = 2 from by omega] at hthird
      exact hrest (List.head?_eq_getElem?.trans hthird)
    · rw [hj] at hfirst
      have hnewline : ("\r\n".toList ++ rest)[1]? = some '\n' := rfl
      rw [hnewline] at hfirst
      exact absurd (Option.some.inj hfirst) (by decide)

/-- A text up to a quote does not start a pattern that ends with one, if it does not end like the pattern. -/
theorem skip_quote {q a : Str} (hq : '"' ∉ q) (ha : '"' ∉ a) (hsuffix : ¬ q <:+ a) (rest : Str) :
    ∀ j < (a ++ ['"']).length, ¬ (q ++ ['"']) <+: (a ++ ['"'] ++ rest).drop j := by
  intro j hj hstarts
  rw [List.length_append, List.length_singleton] at hj
  have hlast : (a ++ ['"'] ++ rest)[j + q.length]? = some '"' := by
    rw [getElem?_of_prefix_drop hstarts (by simp), List.getElem?_concat_length]
  have hquote : (a ++ ['"'] ++ rest)[a.length]? = some '"' := by
    rw [List.append_assoc, List.getElem?_append_right (Nat.le_refl _), Nat.sub_self]
    rfl
  rcases Nat.lt_trichotomy (j + q.length) a.length with hlt | heq | hgt
  · rw [List.append_assoc, List.getElem?_append_left hlt] at hlast
    exact getElem?_ne_of_notMem ha _ hlast
  · apply hsuffix
    have hdrop : (a ++ ['"'] ++ rest).drop j = a.drop j ++ (['"'] ++ rest) := by
      rw [List.append_assoc, List.drop_append_of_le_length (by omega)]
    have hq' : q <+: a.drop j ++ (['"'] ++ rest) := hdrop ▸ (List.prefix_append q ['"']).trans hstarts
    have hlength : q.length = (a.drop j).length := by
      rw [List.length_drop]
      omega
    have hsame : q = a.drop j :=
      (List.prefix_of_prefix_length_le hq' (List.prefix_append _ _) hlength.le).eq_of_length hlength
    exact hsame ▸ List.drop_suffix j a
  · have hinside := getElem?_of_prefix_drop hstarts (i := a.length - j) (by rw [List.length_append]; omega)
    rw [Nat.add_sub_of_le (by omega), hquote, List.getElem?_append_left (by omega)] at hinside
    exact getElem?_ne_of_notMem hq _ hinside.symm

/-- Dashes that are not in a content do not start in it either, as a line end stands behind it. -/
theorem skip_content (hcontent : ¬ "----".toList <:+: content) (rest : Str) :
    ∀ j < (content ++ "\r\n".toList).length, ¬ "----".toList <+: (content ++ "\r\n".toList ++ rest).drop j := by
  intro j hj hstarts
  rw [List.length_append] at hj
  have hcrlf : "\r\n".toList.length = 2 := rfl
  have hdashes : "----".toList.length = 4 := rfl
  have hbyte {i : Nat} (hi : i < 4) : (content ++ ("\r\n".toList ++ rest))[j + i]? = some '-' := by
    rw [← List.append_assoc, getElem?_of_prefix_drop hstarts hi, show "----".toList = List.replicate 4 '-' from rfl,
      List.getElem?_replicate, if_pos hi]
  by_cases hinside : j + 4 ≤ content.length
  · apply hcontent
    have hdrop : (content ++ "\r\n".toList ++ rest).drop j = content.drop j ++ ("\r\n".toList ++ rest) := by
      rw [List.append_assoc, List.drop_append_of_le_length (by omega)]
    have hpart : "----".toList <+: content.drop j :=
      List.prefix_of_prefix_length_le (hdrop ▸ hstarts) (List.prefix_append _ _) (by rw [List.length_drop]; omega)
    exact hpart.isInfix.trans (List.drop_suffix j content).isInfix
  · by_cases hfront : j ≤ content.length
    · have hend := hbyte (i := content.length - j) (by omega)
      have hreturn : (content ++ ("\r\n".toList ++ rest))[content.length]? = some '\r' := by
        rw [List.getElem?_append_right (Nat.le_refl _), Nat.sub_self]
        rfl
      rw [Nat.add_sub_of_le hfront, hreturn] at hend
      exact absurd (Option.some.inj hend) (by decide)
    · have hend := hbyte (i := 0) (by decide)
      have hnewline : (content ++ ("\r\n".toList ++ rest))[content.length + 1]? = some '\n' := by
        rw [List.getElem?_append_right (Nat.le_succ _), show content.length + 1 - content.length = 1 from by omega]
        rfl
      rw [show j + 0 = content.length + 1 from by omega, hnewline] at hend
      exact absurd (Option.some.inj hend) (by decide)

theorem foundAt_of_notMem (hhead : pattern.head? = some c) (hfront : c ∉ front) (rest : Str) :
    FoundAt pattern (front ++ (pattern ++ rest)) front.length := by
  have hpattern : 0 < pattern.length := by
    cases pattern with
    | nil => cases hhead
    | cons _ _ => exact Nat.succ_pos _
  refine (foundAt_zero pattern rest).append fun j hj hstarts => ?_
  have hfirst := getElem?_of_prefix_drop hstarts hpattern
  rw [← List.head?_eq_getElem?, hhead, Nat.add_zero, List.getElem?_append_left hj] at hfirst
  exact getElem?_ne_of_notMem hfront j hfirst

theorem foundAt_quote {q : Str} (hfront : '"' ∉ front ++ q) (rest : Str) :
    FoundAt (q ++ ['"']) (front ++ (q ++ ['"'] ++ rest)) front.length := by
  refine (foundAt_zero (q ++ ['"']) rest).append fun j hj hstarts => ?_
  have hlast := getElem?_of_prefix_drop hstarts (i := q.length) (by simp)
  rw [List.getElem?_concat_length, ← List.append_assoc, ← List.append_assoc, List.append_assoc (front ++ q),
    List.getElem?_append_left (by rw [List.length_append]; omega)] at hlast
  exact getElem?_ne_of_notMem hfront _ hlast

theorem substr_foundAt (hbody : text = front ++ (pattern ++ rest)) (h : FoundAt pattern text front.length) (hne : pattern ≠ [])
    (hsize : text.length ≤ npos) : substr text ((findStr pattern text + pattern.length) % 2 ^ 64) npos = .ok rest := by
  have hlength : text.length = front.length + pattern.length + rest.length := by
    rw [hbody, List.length_append, List.length_append, Nat.add_assoc]
  have hnpos : npos = 2 ^ 64 - 1 := rfl
  have hdrop : text.drop (front.length + pattern.length) = rest := by
    rw [hbody, ← List.append_assoc]
    exact List.drop_left' List.length_append
  rw [h.findStr_eq hne, Nat.mod_eq_of_lt (by omega), substr, if_neg (by omega), hdrop, List.take_of_length_le (by omega)]

/-! ### The body of the form -/

/-- What stands in front of the name of the file, behind the boundary. -/
def disposition : Str := "Content-Disposition: form-data; name=\"file\"; ".toList

/-- The part of the body in front of the content. -/
def partHeaders (boundary name type : Str) : Str :=
  boundary ++ "\r\n".toList ++ (disposition ++ "filename=\"".toList ++ (name ++ "\"\r\n".toList) ++
    ("Content-Type: ".toList ++ type ++ "\r\n\r\n".toList))

/-- The body that a browser builds for the upload form. -/
def uploadBody (boundary name type content : Str) : Str :=
  partHeaders boundary name type ++ (content ++ "\r\n".toList ++ (boundary ++ "--\r\n".toList))

/-- A boundary line, a name and a type as a browser writes them: a quote or a line end in them is encoded. -/
structure Browser (boundary name type : Str) : Prop where
  dashes : "----".toList <+: boundary
  boundary : '"' ∉ boundary ∧ '\r' ∉ boundary
  name : '"' ∉ name ∧ '\r' ∉ name
  type : '\r' ∉ type

variable {boundary : Str}

theorem uploadBody_quotes (boundary name type content : Str) : ∃ more, uploadBody boundary name type content =
    (boundary ++ "\r\nContent-Disposition: form-data; name=".toList ++ ['"']) ++ (("file".toList ++ ['"']) ++
      ("; ".toList ++ ("filename=".toList ++ ['"'] ++ (name ++ '"' :: more)))) := by
  have hfront : "\r\n".toList ++ disposition = "\r\nContent-Disposition: form-data; name=".toList ++ ['"'] ++
      ("file".toList ++ ['"'] ++ "; ".toList) := by decide
  have hshape : ∀ a b c d e f g h i more : Str, a ++ b = c ++ d ++ (e ++ f ++ g) →
      boundary ++ a ++ (b ++ h ++ (name ++ '"' :: i)) ++ more = (boundary ++ c ++ d) ++ ((e ++ f) ++ (g ++ (h ++ (name ++ '"' :: (i ++ more))))) := by
    intro a b c d e f g h i more heq
    have hmove : a ++ (b ++ (h ++ (name ++ '"' :: (i ++ more)))) = c ++ d ++ (e ++ f ++ g) ++ (h ++ (name ++ '"' :: (i ++ more))) := by
      rw [← heq, List.append_assoc]
    simp only [List.append_assoc, List.cons_append] at hmove ⊢
    rw [hmove]
  refine ⟨"\r\n".toList ++ ("Content-Type: ".toList ++ type ++ "\r\n\r\n".toList ++
    (content ++ "\r\n".toList ++ (boundary ++ "--\r\n".toList))), ?_⟩
  rw [uploadBody, partHeaders, ← List.append_assoc (boundary ++ "\r\n".toList), List.append_assoc _ ("Content-Type: ".toList ++ type ++ _)]
  exact hshape _ _ _ _ _ _ _ _ _ _ hfront

theorem extractFileName_uploadBody (h : Browser boundary name type) (hsize : (uploadBody boundary name type content).length ≤ npos) :
    extractFileName (uploadBody boundary name type content) = .ok name := by
  obtain ⟨more, hbody⟩ := uploadBody_quotes boundary name type content
  have hpattern : "filename=\"".toList = "filename=".toList ++ ['"'] := by decide
  have hquote : '"' ∉ boundary ++ "\r\nContent-Disposition: form-data; name=".toList := fun hmem =>
    (List.mem_append.mp hmem).elim h.boundary.1 (by decide)
  have hends : ¬ "filename=".toList <:+ boundary ++ "\r\nContent-Disposition: form-data; name=".toList := fun hsuffix =>
    absurd (List.suffix_of_suffix_length_le hsuffix (List.suffix_append _ _) (by decide)) (by decide)
  have hfound := foundAt_quote (by decide : '"' ∉ "; ".toList ++ "filename=".toList) (name ++ '"' :: more)
  have hfound := hfound.append (skip_quote (by decide : '"' ∉ "filename=".toList) (by decide : '"' ∉ "file".toList) (by decide) _)
  have hfound := hfound.append (skip_quote (by decide : '"' ∉ "filename=".toList) hquote hends _)
  rw [← hbody, ← hpattern, ← List.length_append, ← List.length_append, ← List.append_assoc] at hfound
  rw [← List.append_assoc, ← List.append_assoc, ← hpattern] at hbody
  rw [extractFileName, show 10 = "filename=\"".toList.length from rfl, substr_foundAt hbody hfound (by decide) hsize,
    Run.ok_bind, show "\"".toList = ['"'] from rfl, findStr_append h.name.1, substr, if_neg (Nat.not_lt_zero _), List.drop_zero,
    List.take_left]

theorem uploadBody_lines (boundary name type content : Str) : uploadBody boundary name type content =
    boundary ++ "\r\n".toList ++ (disposition ++ "filename=\"".toList ++ (name ++ ['"']) ++ "\r\n".toList ++
      ("Content-Type: ".toList ++ type ++ ("\r\n\r\n".toList ++ (content ++ "\r\n".toList ++ (boundary ++ "--\r\n".toList))))) := by
  have hquote : "\"\r\n".toList = ['"'] ++ "\r\n".toList := by decide
  have hshape : ∀ a b d e f g i j more : Str, a ++ b ++ (d ++ e ++ (f ++ (['"'] ++ b)) ++ (g ++ i ++ j)) ++ more =
      a ++ b ++ (d ++ e ++ (f ++ ['"']) ++ b ++ (g ++ i ++ (j ++ more))) := by
    intro a b d e f g i j more
    simp only [List.append_assoc]
  rw [uploadBody, partHeaders, hquote]
  exact hshape _ _ _ _ _ _ _ _ _

theorem head?_append (hline : line.head? = some c) (rest : Str) : (line ++ rest).head? = some c := by
  rw [List.head?_append, hline]
  rfl

theorem substr_headers (h : Browser boundary name type) (hsize : (uploadBody boundary name type content).length ≤ npos) :
    substr (uploadBody boundary name type content)
        ((findStr "\r\n\r\n".toList (uploadBody boundary name type content) + 4) % 2 ^ 64) npos =
      .ok (content ++ "\r\n".toList ++ (boundary ++ "--\r\n".toList)) := by
  have hbody := uploadBody_lines boundary name type content
  have htype : '\r' ∉ "Content-Type: ".toList ++ type := fun hmem => (List.mem_append.mp hmem).elim (by decide) h.type
  have hname : '\r' ∉ disposition ++ "filename=\"".toList ++ (name ++ ['"']) := by
    intro hmem
    rcases List.mem_append.mp hmem with hmem | hmem
    · exact absurd hmem (by decide)
    · exact (List.mem_append.mp hmem).elim h.name.2 (by decide)
  have htypeHead : ("Content-Type: ".toList ++ type).head? = some 'C' := head?_append rfl type
  have hnameHead : (disposition ++ "filename=\"".toList ++ (name ++ ['"']) ++ "\r\n".toList).head? = some 'C' :=
    head?_append (head?_append (head?_append rfl _) _) _
  have hfound := foundAt_of_notMem (rfl : "\r\n\r\n".toList.head? = some '\r') htype
    (content ++ "\r\n".toList ++ (boundary ++ "--\r\n".toList))
  have hfound := hfound.append (skip_line hname (by rw [head?_append htypeHead]; decide))
  have hfound := hfound.append (skip_line h.boundary.2 (by rw [head?_append hnameHead]; decide))
  rw [← hbody, ← List.length_append, ← List.length_append, ← List.append_assoc] at hfound
  rw [← List.append_assoc, ← List.append_assoc] at hbody
  exact substr_foundAt hbody hfound (by decide) hsize

theorem exists_foundAt (h : pattern <:+: content) (rest : Str) :
    ∃ k, k + pattern.length ≤ content.length ∧ FoundAt pattern (content ++ rest) k := by
  obtain ⟨front, back, hcontent⟩ := h
  have hplace : ∃ k, pattern <+: (content ++ rest).drop k := by
    refine ⟨front.length, ?_⟩
    rw [← hcontent, List.append_assoc, List.append_assoc, List.drop_left]
    exact List.prefix_append _ _
  classical
  refine ⟨Nat.find hplace, ?_, Nat.find_spec hplace, fun j hj => Nat.find_min hplace hj⟩
  have hle : Nat.find hplace ≤ front.length := Nat.find_min' hplace (by
    rw [← hcontent, List.append_assoc, List.append_assoc, List.drop_left]
    exact List.prefix_append _ _)
  have hlength := congrArg List.length hcontent
  rw [List.length_append, List.length_append] at hlength
  omega

/-- The content ends two bytes before the first dashes, so they must not be in it. -/
theorem extractFileContent_eq_iff (h : Browser boundary name type)
    (hsize : (uploadBody boundary name type content).length ≤ npos) :
    extractFileContent (uploadBody boundary name type content) = .ok content ↔ ¬ "----".toList <:+: content := by
  have hdashes : "----".toList.length = 4 := rfl
  have hcrlf : "\r\n".toList.length = 2 := rfl
  have hnpos : npos = 2 ^ 64 - 1 := rfl
  have hlength : content.length + 6 ≤ (uploadBody boundary name type content).length := by
    have hboundary := h.dashes.length_le
    rw [uploadBody, List.length_append, List.length_append, List.length_append, List.length_append]
    omega
  rw [extractFileContent, substr_headers h hsize, Run.ok_bind, substr, if_neg (Nat.not_lt_zero _), List.drop_zero]
  constructor
  · intro htake hinfix
    obtain ⟨k, hk, hfound⟩ := exists_foundAt hinfix ("\r\n".toList ++ (boundary ++ "--\r\n".toList))
    rw [List.append_assoc, hfound.findStr_eq (by decide)] at htake
    have htaken := congrArg List.length (Except.ok.inj htake)
    rw [List.length_take, List.length_append, List.length_append, toSize] at htaken
    omega
  · intro hcontent
    obtain ⟨tail, htail⟩ := h.dashes
    have hfound := (foundAt_zero "----".toList (tail ++ "--\r\n".toList)).append (skip_content hcontent _)
    rw [← List.append_assoc "----".toList, htail] at hfound
    have hend : toSize (((content ++ "\r\n".toList).length + 0 : Nat) - 2 : Int) = content.length := by
      rw [List.length_append, toSize]
      omega
    rw [hfound.findStr_eq (by decide), hend, List.append_assoc, List.take_left]

/-- An upload is extracted iff its content has no four dashes in a row. -/
theorem extracted_iff (h : Browser boundary name type) (hsize : (uploadBody boundary name type content).length ≤ npos) :
    (extractFileName (uploadBody boundary name type content) = .ok name ∧
      extractFileContent (uploadBody boundary name type content) = .ok content) ↔ ¬ "----".toList <:+: content := by
  rw [extractFileContent_eq_iff h hsize]
  exact and_iff_right (extractFileName_uploadBody h hsize)

/-- A file of two dashes and no more. -/
theorem extracted_iff_dashes :
    Browser "----WebKitFormBoundary".toList "a.txt".toList "text/plain".toList ∧
      (uploadBody "----WebKitFormBoundary".toList "a.txt".toList "text/plain".toList "a--b".toList).length ≤ npos ∧
      ((extractFileName (uploadBody "----WebKitFormBoundary".toList "a.txt".toList "text/plain".toList "a--b".toList) = .ok "a.txt".toList ∧
        extractFileContent (uploadBody "----WebKitFormBoundary".toList "a.txt".toList "text/plain".toList "a--b".toList) = .ok "a--b".toList) ↔
      ¬ "----".toList <:+: "a--b".toList) :=
  have hbrowser : Browser "----WebKitFormBoundary".toList "a.txt".toList "text/plain".toList :=
    ⟨by decide, by decide, by decide, by decide⟩
  ⟨hbrowser, by decide +kernel, extracted_iff hbrowser (by decide +kernel)⟩

/-- Of a file with a dashed line, what is in front of the line is left, without its last two bytes. -/
theorem not_extracted_dashedLine :
    Browser "----WebKitFormBoundary".toList "a.txt".toList "text/plain".toList ∧
      extractFileContent (uploadBody "----WebKitFormBoundary".toList "a.txt".toList "text/plain".toList "one\n----\ntwo".toList) =
        .ok "on".toList ∧ "on".toList ≠ "one\n----\ntwo".toList := by
  refine ⟨⟨by decide, by decide, by decide, by decide⟩, ?_, by decide⟩
  decide +kernel

end PennCloud
