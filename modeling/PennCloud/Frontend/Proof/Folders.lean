import PennCloud.Frontend.Folders
import PennCloud.Kv.Proof.Requests
import PennCloud.Lib.SortedMap

/-!
# Deleting a folder

Which files a folder has is a question about the beginning of their names. The loop of `delete_folder` looks for the
name of the folder anywhere.
-/

namespace PennCloud

open Std Chunkserver

variable {username foldername name : Str} {place : List Str} {files : Files}

/-- A name that an entry of a directory can have. -/
structure IsName (name : Str) : Prop where
  ne : name ≠ [] ∧ name ≠ ['.'] ∧ name ≠ ['.', '.']
  slash : '/' ∉ name
  nul : '\x00' ∉ name

instance (name : Str) : Decidable (IsName name) :=
  decidable_of_iff ((name ≠ [] ∧ name ≠ ['.'] ∧ name ≠ ['.', '.']) ∧ '/' ∉ name ∧ '\x00' ∉ name)
    ⟨fun h => ⟨h.1, h.2.1, h.2.2⟩, fun h => ⟨h.ne, h.slash, h.nul⟩⟩

/-! ### Places in the directory of a user -/

def userDir (username : Str) : Str := username ++ ['/']

def home (username : Str) : List Str := locate (cstr (userDir username))

theorem cstr_userDir (hnul : '\x00' ∉ username) (name : Str) :
    cstr (userDir username ++ name) = userDir username ++ cstr name := by
  apply cstr_append
  intro hmem
  exact (List.mem_append.mp hmem).elim hnul (by decide)

theorem splitOn_entry (hslash : '/' ∉ name) : (userDir username ++ name).splitOn '/' = username.splitOn '/' ++ [name] := by
  rw [userDir, List.append_assoc, List.singleton_append, List.splitOn_append_cons_self, List.splitOn_eq_singleton hslash]

theorem cstr_entry (hnul : '\x00' ∉ username) (hname : IsName name) : cstr (userDir username ++ name) = userDir username ++ name := by
  rw [cstr_userDir hnul, cstr_of_notMem hname.nul]

theorem descend_of_isName (hname : IsName name) (place : List Str) : descend place name = place ++ [name] := by
  rw [descend, if_neg (not_or.mpr ⟨hname.ne.1, hname.ne.2.1⟩), if_neg fun h => hname.ne.2.2 h.1]

theorem locate_entry (hnul : '\x00' ∉ username) (hname : IsName name) :
    locate (cstr (userDir username ++ name)) = home username ++ [name] := by
  have hdir : cstr (userDir username) = userDir username := by
    have happend := cstr_userDir hnul []
    rwa [List.append_nil, show cstr [] = [] from rfl, List.append_nil] at happend
  have hhead : (userDir username ++ name).head? = (userDir username).head? := by
    rw [List.head?_append_of_ne_nil]
    exact List.append_ne_nil_of_right_ne_nil _ (List.cons_ne_nil _ _)
  have hsplit' : (userDir username).splitOn '/' = username.splitOn '/' ++ [[]] := by
    rw [userDir, List.splitOn_append_cons_self]
    rfl
  rw [cstr_entry hnul hname, home, hdir, locate, locate, origin, origin, hhead, splitOn_entry hname.slash, hsplit', List.foldl_append,
    List.foldl_append, List.foldl_cons, List.foldl_cons, List.foldl_nil, List.foldl_nil]
  rw [descend_of_isName hname, descend, if_pos (Or.inl rfl)]

theorem endsInDots_userDir_append (hslash : '/' ∉ name) (hne : name ≠ []) :
    Files.endsInDots (userDir username ++ name) = (decide (name = ['.']) || decide (name = ['.', '.'])) := by
  have hlast : ((username.splitOn '/' ++ [name]).filter (· ≠ [])).getLastD [] = name := by
    have hkept : [name].filter (· ≠ []) = [name] := List.filter_eq_self.mpr fun component hmem => by
      rw [List.mem_singleton.mp hmem]
      exact decide_eq_true hne
    rw [List.filter_append, hkept, List.getLastD_concat]
  rw [Files.endsInDots, splitOn_entry hslash, hlast]

theorem endsInDots_entry (hnul : '\x00' ∉ username) (hname : IsName name) :
    Files.endsInDots (cstr (userDir username ++ name)) = false := by
  rw [cstr_entry hnul hname, endsInDots_userDir_append hname.slash hname.ne.1, decide_eq_false hname.ne.2.1,
    decide_eq_false hname.ne.2.2]
  rfl

theorem getLast?_entry (hnul : '\x00' ∉ username) (hname : IsName name) : (cstr (userDir username ++ name)).getLast? ≠ some '/' := by
  rw [cstr_entry hnul hname, List.getLast?_append_of_ne_nil _ hname.ne.1]
  exact fun hlast => hname.slash (List.mem_of_getLast? hlast)

theorem remove_entry (hnul : '\x00' ∉ username) (hname : IsName name) :
    (files.remove (userDir username ++ name)).content = files.content.erase (home username ++ [name]) := by
  have hdots : ¬ Files.endsInDots (cstr (userDir username ++ name)) = true := by
    rw [endsInDots_entry hnul hname]
    exact Bool.false_ne_true
  rw [Files.remove, if_neg hdots]
  dsimp only
  rw [if_neg (getLast?_entry hnul hname), locate_entry hnul hname]

theorem mem_listAllFiles (hdir : home username ∈ files.directories) :
    name ∈ files.listAllFiles (userDir username) ↔
      (home username ++ [name] ∈ files.content ∨ home username ++ [name] ∈ files.directories) ∧ name.head? ≠ some '.' := by
  have hplace : locate (cstr (userDir username)) = home username := rfl
  rw [Files.listAllFiles, hplace, if_pos (Or.inr (ExtTreeSet.mem_iff_contains.mp hdir)), List.mem_filterMap]
  constructor
  · rintro ⟨entry, hentry, hlast⟩
    obtain ⟨hmem, hplace⟩ := List.mem_filter.mp hentry
    obtain ⟨_, hdrop⟩ := of_decide_eq_true hplace
    obtain ⟨hname, hdot⟩ := Option.filter_eq_some_iff.mp hlast
    have hsplit : home username ++ [name] = entry := by
      rw [← hdrop]
      exact List.dropLast_append_getLast? name hname
    rw [hsplit, ← ExtTreeMap.mem_keys, ← ExtTreeSet.mem_toList]
    exact ⟨List.mem_append.mp hmem, of_decide_eq_true hdot⟩
  · rintro ⟨hmem, hdot⟩
    refine ⟨home username ++ [name], List.mem_filter.mpr ⟨?_, ?_⟩, ?_⟩
    · rw [List.mem_append, ExtTreeMap.mem_keys, ExtTreeSet.mem_toList]
      exact hmem
    · exact decide_eq_true ⟨List.append_ne_nil_of_right_ne_nil _ (List.cons_ne_nil _ _), List.dropLast_concat⟩
    · rw [List.getLast?_concat]
      exact Option.filter_eq_some_iff.mpr ⟨rfl, decide_eq_true hdot⟩

/-- The entries of the directory of a user have names. -/
def HasNames (username : Str) (files : Files) : Prop :=
  ∀ name, home username ++ [name] ∈ files.content ∨ home username ++ [name] ∈ files.directories → IsName name

theorem hasNames_of_forall (h : ∀ entry ∈ files.content.keys ++ files.directories.toList, IsName (entry.getLastD [])) :
    HasNames username files := by
  intro name hmem
  rw [← ExtTreeMap.mem_keys, ← ExtTreeSet.mem_toList, ← List.mem_append] at hmem
  have hname := h _ hmem
  rwa [List.getLastD_concat] at hname

/-! ### The loop -/

theorem content_foldl_remove (hnul : '\x00' ∉ username) {names : List Str} (hnames : ∀ name ∈ names, IsName name) (files : Files) :
    (names.foldl (fun files name => files.remove (userDir username ++ name)) files).content =
      names.foldl (fun m name => m.erase (home username ++ [name])) files.content := by
  induction names generalizing files with
  | nil => rfl
  | cons name names ih =>
      obtain ⟨hname, hnames⟩ := List.forall_mem_cons.mp hnames
      rw [List.foldl_cons, List.foldl_cons, ih hnames, remove_entry hnul hname]

/-- The places that the loop removes. -/
def removed (files : Files) (username foldername : Str) : List (List Str) :=
  ((files.listAllFiles (userDir username)).filter (Frontend.Site.inFolder foldername)).map (home username ++ [·])

theorem content_removeFolder (hnul : '\x00' ∉ username) (hdir : home username ∈ files.directories)
    (hnames : HasNames username files)
    (foldername : Str) (place : List Str) :
    (place ∈ removed files username foldername →
      (Frontend.Site.removeFolder files (userDir username) foldername).content[place]? = none) ∧
    (place ∉ removed files username foldername →
      (Frontend.Site.removeFolder files (userDir username) foldername).content[place]? = files.content[place]?) := by
  have hlisted : ∀ name ∈ (files.listAllFiles (userDir username)).filter (Frontend.Site.inFolder foldername), IsName name :=
    fun name hmem => hnames name ((mem_listAllFiles hdir).mp (List.mem_of_mem_filter hmem)).1
  rw [Frontend.Site.removeFolder, ← List.foldl_filter, content_foldl_remove hnul hlisted,
    SortedMap.getElem?_foldl_erase (home username ++ [·])]
  exact ⟨fun hmem => if_pos hmem, fun hmem => if_neg hmem⟩

theorem mem_removed (hdir : home username ∈ files.directories) :
    home username ++ [name] ∈ removed files username foldername ↔
      ((home username ++ [name] ∈ files.content ∨ home username ++ [name] ∈ files.directories) ∧ name.head? ≠ some '.') ∧
        Frontend.Site.inFolder foldername name = true := by
  rw [removed, List.mem_map, ← mem_listAllFiles hdir, ← List.mem_filter]
  constructor
  · rintro ⟨other, hother, heq⟩
    rwa [← (List.cons.inj (List.append_cancel_left heq)).1]
  · exact fun hmem => ⟨name, hmem, rfl⟩

/-! ### The folder and nothing else -/

/-- The marker of a folder, and the files in it. -/
def IsPart (foldername name : Str) : Prop := name = Frontend.Site.markerOf foldername ∨ (foldername ++ ['+']) <+: name

instance (foldername name : Str) : Decidable (IsPart foldername name) := inferInstanceAs (Decidable (_ ∨ _))

/-- Of the files of a user those of the folder are gone, and everything else is as before. -/
def DeletesOnly (username foldername : Str) (files files' : Files) : Prop :=
  ∀ place, ((∃ name, place = home username ++ [name] ∧ IsPart foldername name) → files'.content[place]? = none) ∧
    ((¬ ∃ name, place = home username ++ [name] ∧ IsPart foldername name) → files'.content[place]? = files.content[place]?)

/-- No file that is listed has the name of the folder and a `+` inside of its own, and the folder is not hidden. -/
structure Apart (username foldername : Str) (files : Files) : Prop where
  inside : ∀ name, home username ++ [name] ∈ files.content → name.head? ≠ some '.' → (foldername ++ ['+']) <:+: name →
    IsPart foldername name
  hidden : foldername.head? = some '.' → ∀ name, home username ++ [name] ∈ files.content → ¬ IsPart foldername name

theorem apart_of_forall (hvisible : foldername.head? ≠ some '.')
    (h : ∀ entry ∈ files.content.keys, (foldername ++ ['+']) <:+: entry.getLastD [] → IsPart foldername (entry.getLastD [])) :
    Apart username foldername files := by
  refine ⟨fun name hin _ hinfix => ?_, fun hhidden => absurd hhidden hvisible⟩
  have hpart := h _ (ExtTreeMap.mem_keys.mpr hin)
  rw [List.getLastD_concat] at hpart
  exact hpart hinfix

theorem head?_of_isPart (hne : foldername ≠ []) (hpart : IsPart foldername name) : name.head? = foldername.head? := by
  rcases hpart with rfl | ⟨rest, rfl⟩
  · exact List.head?_append_of_ne_nil _ hne
  · rw [List.append_assoc, List.head?_append_of_ne_nil _ hne]

theorem inFolder_of_isPart (hpart : IsPart foldername name) : Frontend.Site.inFolder foldername name = true := by
  rw [Frontend.Site.inFolder, Bool.or_eq_true, Bool.or_eq_true]
  rcases hpart with heq | hstarts
  · exact Or.inl (Or.inr (decide_eq_true heq))
  · exact Or.inr (decide_eq_true hstarts.isInfix)

/-- The loop deletes the folder and nothing else iff no other name has the folder's inside. -/
theorem deletesOnly_removeFolder (hnul : '\x00' ∉ username) (hdir : home username ∈ files.directories)
    (hnames : HasNames username files)
    (hne : foldername ≠ []) :
    DeletesOnly username foldername files (Frontend.Site.removeFolder files (userDir username) foldername) ↔
      Apart username foldername files := by
  have hcontent := content_removeFolder hnul hdir hnames foldername
  have hlost {name : Str} (hin : home username ++ [name] ∈ files.content)
      (hleft : (Frontend.Site.removeFolder files (userDir username) foldername).content[home username ++ [name]]? =
        files.content[home username ++ [name]]?) :
      home username ++ [name] ∉ removed files username foldername := by
    intro hmem
    rw [(hcontent _).1 hmem] at hleft
    have hsome := ExtTreeMap.isSome_getElem?_iff_mem.mpr hin
    rw [← hleft] at hsome
    exact absurd hsome Bool.false_ne_true
  have hkept {name : Str} (hin : home username ++ [name] ∈ files.content)
      (hnone : (Frontend.Site.removeFolder files (userDir username) foldername).content[home username ++ [name]]? = none) :
      home username ++ [name] ∈ removed files username foldername := by
    by_contra hmem
    rw [(hcontent _).2 hmem] at hnone
    have hsome := ExtTreeMap.isSome_getElem?_iff_mem.mpr hin
    rw [hnone] at hsome
    exact absurd hsome Bool.false_ne_true
  constructor
  · intro hdeletes
    constructor
    · intro name hin hdot hinfix
      by_contra hpart
      have hother : ¬ ∃ other, home username ++ [name] = home username ++ [other] ∧ IsPart foldername other := by
        rintro ⟨other, heq, hother⟩
        exact hpart ((List.cons.inj (List.append_cancel_left heq)).1 ▸ hother)
      apply hlost hin ((hdeletes _).2 hother)
      rw [mem_removed hdir, Frontend.Site.inFolder, decide_eq_true hinfix, Bool.or_true]
      exact ⟨⟨Or.inl hin, hdot⟩, rfl⟩
    · intro hhidden name hin hpart
      have hmem := hkept hin ((hdeletes _).1 ⟨name, rfl, hpart⟩)
      exact ((mem_removed hdir).mp hmem).1.2 ((head?_of_isPart hne hpart).trans hhidden)
  · rintro hapart place
    constructor
    · rintro ⟨name, rfl, hpart⟩
      by_cases hin : home username ++ [name] ∈ files.content
      · apply (hcontent _).1
        rw [mem_removed hdir]
        refine ⟨⟨Or.inl hin, fun hdot => ?_⟩, inFolder_of_isPart hpart⟩
        exact hapart.hidden ((head?_of_isPart hne hpart).symm.trans hdot) name hin hpart
      · have hnone := ExtTreeMap.getElem?_eq_none hin
        by_cases hmem : home username ++ [name] ∈ removed files username foldername
        · exact (hcontent _).1 hmem
        · rw [(hcontent _).2 hmem, hnone]
    · intro hother
      by_cases hmem : place ∈ removed files username foldername
      · obtain ⟨name, hname, rfl⟩ := List.mem_map.mp hmem
        obtain ⟨⟨_, hdot⟩, hfolder⟩ := (mem_removed hdir).mp hmem
        have hpart : ¬ IsPart foldername name := fun hpart => hother ⟨name, rfl, hpart⟩
        rw [(hcontent _).1 hmem, ExtTreeMap.getElem?_eq_none fun hin => hpart (hapart.inside name hin hdot ?_)]
        rw [Frontend.Site.inFolder, Bool.or_eq_true, Bool.or_eq_true] at hfolder
        rcases hfolder with (hempty | hmarker) | hinfix
        · exact absurd (of_decide_eq_true hempty) hne
        · exact absurd (Or.inl (of_decide_eq_true hmarker)) hpart
        · exact of_decide_eq_true hinfix
      · exact (hcontent _).2 hmem

namespace Frontend.Site

variable {site site' : Site} {req : Request} {response : Response}

/-- A request to delete a folder deletes that folder only iff no other name has the folder's inside. -/
theorem deleteFolder_iff (hnul : '\x00' ∉ username) (huser : site.currUser = some (userDir username))
    (hdir : home username ∈ site.files.directories) (hnames : HasNames username site.files)
    (hname : afterEqual req.body = foldername) (hne : foldername ≠ [])
    (hrun : site.deleteFolder req = .ok (response, site')) :
    DeletesOnly username foldername site.files site'.files ↔ Apart username foldername site.files := by
  rw [deleteFolder, huser, hname, deref, Run.ok_bind] at hrun
  obtain ⟨body, _, hrun⟩ := Run.bind_eq_ok.mp hrun
  obtain ⟨_, rfl⟩ := Prod.mk.inj (Except.ok.inj hrun)
  exact deletesOnly_removeFolder hnul hdir hnames hne

/-- The directory of one user with some files. -/
def folderSite (names : List String) : Site :=
  ⟨⟨names.foldl (fun content name => content.insert ["u".toList, name.toList] "x".toList) ∅, {["u".toList]}⟩, ∅,
    "u".toList, some (userDir "u".toList), Chunkserver.fresh 100 true 9⟩

def deletion (foldername : String) : Request :=
  ⟨"POST".toList, "/deletefolder".toList, "HTTP/1.1".toList, 0, ∅, "foldername=".toList ++ foldername.toList⟩

theorem deleteFolder_iff_apart : ∃ response site', (folderSite ["a.folder", "a+x", "b"]).deleteFolder (deletion "a") =
    .ok (response, site') ∧ DeletesOnly "u".toList "a".toList (folderSite ["a.folder", "a+x", "b"]).files site'.files := by
  have hends : ((folderSite ["a.folder", "a+x", "b"]).deleteFolder (deletion "a")).toOption.isSome = true := by decide +kernel
  cases hrun : (folderSite ["a.folder", "a+x", "b"]).deleteFolder (deletion "a") with
  | error fault => exact absurd hends (by rw [hrun]; exact Bool.false_ne_true)
  | ok result =>
      obtain ⟨response, site'⟩ := result
      refine ⟨response, site', rfl, (deleteFolder_iff (by decide) rfl (by decide +kernel)
        (hasNames_of_forall (by decide +kernel)) (by decide) (by decide) hrun).mpr ?_⟩
      exact apart_of_forall (by decide) (by decide +kernel)

/-- The folder `b` takes a file of the folder `ab` with it. -/
theorem not_deleteFolder_ab :
    ¬ ∀ (site site' : Site) (req : Request) (response : Response) (username : Str), '\x00' ∉ username →
      site.currUser = some (userDir username) → home username ∈ site.files.directories → HasNames username site.files →
      afterEqual req.body ≠ [] → site.deleteFolder req = .ok (response, site') →
      DeletesOnly username (afterEqual req.body) site.files site'.files := by
  intro hall
  have hends : ((folderSite ["b.folder", "ab+x"]).deleteFolder (deletion "b")).toOption.any (fun result =>
      decide (result.2.files.content[["u".toList, "ab+x".toList]]? = none)) = true := by decide +kernel
  cases hrun : (folderSite ["b.folder", "ab+x"]).deleteFolder (deletion "b") with
  | error fault => exact absurd hends (by rw [hrun]; exact Bool.false_ne_true)
  | ok result =>
      obtain ⟨response, site'⟩ := result
      rw [hrun] at hends
      have hlost : site'.files.content[["u".toList, "ab+x".toList]]? = none := of_decide_eq_true hends
      have hkept := (hall _ site' (deletion "b") response "u".toList (by decide) rfl (by decide +kernel)
        (hasNames_of_forall (by decide +kernel)) (by decide) hrun ["u".toList, "ab+x".toList]).2
      have hstored : (folderSite ["b.folder", "ab+x"]).files.content[["u".toList, "ab+x".toList]]? = some "x".toList := by
        decide +kernel
      rw [hlost, hstored] at hkept
      refine Option.some_ne_none _ (hkept ?_).symm
      rintro ⟨name, hplace, hpart⟩
      have hhome : home "u".toList = ["u".toList] := by decide +kernel
      rw [hhome] at hplace
      obtain rfl : "ab+x".toList = name := (List.cons.inj (List.cons.inj hplace).2).1
      exact absurd hpart (by decide)

end Frontend.Site

end PennCloud
