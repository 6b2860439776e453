import PennCloud.Frontend.Proof.Confined

/-!
# Files that are listed

The `+` between a folder and a file is also what a form sends for a blank. A file is listed if its name has no `+`, or if what
is in front of the first one is a folder with a marker. The marker of a folder with a `+` in its own name is not listed, and
neither is what is moved into the folder.
-/

namespace PennCloud

open Std

variable {username name dir old new : Str} {files files' : Files}

/-! ### Infixes -/

/-- A pattern is found on one side of a byte that is not in it. -/
theorem infix_append_cons {pattern front back : Str} {c : Char} (h : pattern <:+: front ++ c :: back) (hc : c ∉ pattern) :
    pattern <:+: front ∨ pattern <:+: back := by
  obtain ⟨before, after, heq⟩ := h
  rcases List.append_eq_append_iff.mp heq with ⟨rest, hfront, _⟩ | ⟨rest, hpattern, hback⟩
  · left
    exact ⟨before, rest, hfront.symm⟩
  · rcases List.cons_eq_append_iff.mp hback with ⟨rfl, _⟩ | ⟨rest, rfl, hrest⟩
    · left
      refine ⟨before, [], ?_⟩
      rw [List.append_nil, hpattern, List.append_nil]
    · rcases List.append_eq_append_iff.mp hpattern with ⟨middle, _, hmiddle⟩ | ⟨middle, _, hmiddle⟩
      · refine absurd ?_ hc
        rw [hmiddle]
        exact List.mem_append_right _ List.mem_cons_self
      · rcases List.cons_eq_append_iff.mp hmiddle with ⟨rfl, hpattern⟩ | ⟨middle, rfl, hinner⟩
        · refine absurd ?_ hc
          rw [hpattern]
          exact List.mem_cons_self
        · right
          refine ⟨middle, after, ?_⟩
          rw [← hinner, ← hrest]

/-! ### What the pages show -/

/-- A file is shown at the root, or in a folder that is shown there. -/
def Listed (files : Files) (dir name : Str) : Prop :=
  name ∈ files.listAllFiles dir ∧ (Frontend.Site.shownAtRoot dir name = .file name ∨
    ∃ marker ∈ files.listAllFiles dir, ∃ folder savedFilename,
      Frontend.Site.shownAtRoot dir marker = .folder folder ∧ Frontend.Site.shownIn folder name = some savedFilename)

/-- A file has a place in the listings. -/
def Placed (username : Str) (files : Files) (name : Str) : Prop :=
  ('+' ∉ name ∧ ¬ ".folder".toList <:+: name) ∨
    ∃ folder file, name = folder ++ '+' :: file ∧ '+' ∉ folder ∧ folder ≠ [] ∧
      home username ++ [Frontend.Site.markerOf folder] ∈ files.content

theorem not_infix_path (huser : ¬ ".folder".toList <:+: username) (hname : ¬ ".folder".toList <:+: name) :
    ¬ ".folder".toList <:+: userDir username ++ name := by
  intro h
  rw [userDir, List.append_assoc, List.singleton_append] at h
  exact (infix_append_cons h (by decide)).elim huser hname

theorem shownAtRoot_file (huser : ¬ ".folder".toList <:+: username) (hplus : '+' ∉ name) (hname : ¬ ".folder".toList <:+: name) :
    Frontend.Site.shownAtRoot (userDir username) name = .file name := by
  have hcontains : ¬ name.contains '+' = true := fun h => hplus (List.contains_iff_mem.mp h)
  rw [Frontend.Site.shownAtRoot, if_neg hcontains, if_neg (not_infix_path huser hname)]

theorem notMem_markerOf {folder : Str} (hplus : '+' ∉ folder) : '+' ∉ Frontend.Site.markerOf folder := by
  intro h
  rcases List.mem_append.mp h with h | h
  · exact hplus h
  · exact absurd h (by decide)

theorem shownAtRoot_marker {folder : Str} (hplus : '+' ∉ folder) :
    Frontend.Site.shownAtRoot dir (Frontend.Site.markerOf folder) = .folder folder := by
  have hcontains : ¬ (Frontend.Site.markerOf folder).contains '+' = true := fun h =>
    notMem_markerOf hplus (List.contains_iff_mem.mp h)
  have hinfix : ".folder".toList <:+: dir ++ Frontend.Site.markerOf folder :=
    ((List.suffix_append _ _).trans (List.suffix_append _ _)).isInfix
  have hmarker : (Frontend.Site.markerOf folder).length = folder.length + 7 := List.length_append
  rw [Frontend.Site.shownAtRoot, if_neg hcontains, if_pos hinfix, hmarker, if_neg (Nat.not_lt.mpr (Nat.le_add_left 7 _)),
    Nat.add_sub_cancel, Frontend.Site.markerOf, List.take_left]

theorem shownIn_folder {folder : Str} (hplus : '+' ∉ folder) (file : Str) :
    Frontend.Site.shownIn folder (folder ++ '+' :: file) = some file := by
  have hinfix : (folder ++ ['+']) <:+: folder ++ '+' :: file := by
    refine ⟨[], file, ?_⟩
    rw [List.nil_append, List.append_assoc]
    rfl
  rw [Frontend.Site.shownIn, if_pos hinfix, findStr_append hplus, ← List.drop_drop, List.drop_left]
  exact if_pos rfl

theorem Placed.listed (huser : ¬ ".folder".toList <:+: username) (hdir : home username ∈ files.directories)
    (hvisible : name.head? ≠ some '.') (hmem : home username ++ [name] ∈ files.content) (h : Placed username files name) :
    Listed files (userDir username) name := by
  refine ⟨(mem_listAllFiles hdir).mpr ⟨Or.inl hmem, hvisible⟩, ?_⟩
  rcases h with ⟨hplus, hfolder⟩ | ⟨folder, file, rfl, hplus, hne, hmarker⟩
  · left
    exact shownAtRoot_file huser hplus hfolder
  · right
    have hvisible' : (Frontend.Site.markerOf folder).head? ≠ some '.' := by
      rw [List.head?_append_of_ne_nil _ hne] at hvisible
      rwa [Frontend.Site.markerOf, List.head?_append_of_ne_nil _ hne]
    exact ⟨Frontend.Site.markerOf folder, (mem_listAllFiles hdir).mpr ⟨Or.inl hmarker, hvisible'⟩, folder, file,
      shownAtRoot_marker hplus, shownIn_folder hplus file⟩

/-! ### Storing and renaming an entry -/

theorem storeFile_entry (hnul : '\x00' ∉ username) (hdir : home username ∈ files.directories) (hname : IsName name) (fileContent : Str) :
    files.storeFile (userDir username) name fileContent =
      if home username ++ [name] ∈ files.directories then files
      else { files with content := files.content.insert (home username ++ [name]) fileContent } := by
  have hdots : ¬ (Files.endsInDots (cstr (userDir username ++ name)) = true ∨ (cstr (userDir username ++ name)).getLast? = some '/') := by
    rw [endsInDots_entry hnul hname]
    exact not_or.mpr ⟨Bool.false_ne_true, getLast?_entry hnul hname⟩
  rw [Files.storeFile, if_neg hdots, locate_entry hnul hname, List.dropLast_concat]
  by_cases hplace : home username ++ [name] ∈ files.directories
  · rw [if_neg fun h => h.2 (ExtTreeSet.mem_iff_contains.mp hplace), if_pos hplace]
  · rw [if_pos ⟨Or.inr (ExtTreeSet.mem_iff_contains.mp hdir), fun h => hplace (ExtTreeSet.mem_iff_contains.mpr h)⟩, if_neg hplace]

variable {place : List Str} {oldPlace newPlace : List Str}

/-- A place of no more components than the directory that is moved, and with no file at that one. -/
theorem getElem?_moveDirectory (hlength : place.length ≤ oldPlace.length) (hsame : newPlace.length = oldPlace.length)
    (hold : oldPlace ∉ files.content) : (files.moveDirectory oldPlace newPlace).content[place]? = files.content[place]? := by
  show (List.foldl _ files.content files.content.toList)[place]? = _
  have hentries : ∀ entry ∈ files.content.toList, entry.1 ≠ oldPlace := by
    rintro ⟨key, value⟩ hentry rfl
    exact hold (ExtTreeMap.mem_iff_isSome_getElem?.mpr (by rw [ExtTreeMap.mem_toList_iff_getElem?_eq_some.mp hentry]; rfl))
  revert hentries
  generalize files.content.toList = entries
  generalize files.content = content
  intro hentries
  induction entries generalizing content with
  | nil => rfl
  | cons entry entries ih =>
      obtain ⟨hentry, hentries⟩ := List.forall_mem_cons.mp hentries
      rw [List.foldl_cons, ih _ hentries]
      split
      · next hstarts =>
          obtain ⟨rest, hrest⟩ := List.isPrefixOf_iff_prefix.mp hstarts
          have hlonger : 0 < rest.length := by
            apply List.length_pos_iff.mpr
            rintro rfl
            exact hentry (hrest.symm.trans (List.append_nil _))
          rw [← hrest, List.drop_left, SortedMap.getElem?_insert_eq, SortedMap.getElem?_erase_eq, if_neg, if_neg]
          · intro heq
            have := congrArg List.length heq
            rw [List.length_append] at this
            omega
          · intro heq
            have := congrArg List.length heq
            rw [List.length_append] at this
            omega
      · rfl

theorem mem_directories_moveDirectory (hlength : place.length < oldPlace.length) (hsame : newPlace.length = oldPlace.length) :
    place ∈ (files.moveDirectory oldPlace newPlace).directories ↔ place ∈ files.directories := by
  show place ∈ List.foldl _ files.directories files.directories.toList ↔ _
  generalize files.directories.toList = entries
  generalize files.directories = directories
  induction entries generalizing directories with
  | nil => exact Iff.rfl
  | cons entry entries ih =>
      rw [List.foldl_cons, ih]
      split
      · next hstarts =>
          have hentry := (List.isPrefixOf_iff_prefix.mp hstarts).length_le
          rw [ExtTreeSet.mem_insert, ExtTreeSet.mem_erase]
          constructor
          · rintro (heq | ⟨_, hmem⟩)
            · have := congrArg List.length (compare_eq_iff_eq.mp heq)
              rw [List.length_append] at this
              omega
            · exact hmem
          · refine fun hmem => Or.inr ⟨fun heq => ?_, hmem⟩
            have := congrArg List.length (compare_eq_iff_eq.mp heq)
            omega
      · exact Iff.rfl

/-- Whether a rename takes a file from one name to another. -/
def Renames (username : Str) (files : Files) (old new : Str) : Prop :=
  home username ++ [old] ∈ files.content ∧ old ≠ new ∧ home username ++ [new] ∉ files.directories

theorem rename_entry (hnul : '\x00' ∉ username) (hdir : home username ∈ files.directories) (hold : IsName old) (hnew : IsName new) :
    (Renames username files old new ∧ ∃ fileContent, files.rename (userDir username ++ old) (userDir username ++ new) =
        { files with content := (files.content.erase (home username ++ [old])).insert (home username ++ [new]) fileContent }) ∨
      (home username ∈ (files.rename (userDir username ++ old) (userDir username ++ new)).directories ∧
        ∀ name, (files.rename (userDir username ++ old) (userDir username ++ new)).content[home username ++ [name]]? =
          files.content[home username ++ [name]]?) := by
  have hparent : ¬ ((home username ++ [new]).dropLast ≠ [] ∧ ¬ files.directories.contains (home username ++ [new]).dropLast = true) := by
    rintro ⟨_, habsent⟩
    rw [List.dropLast_concat] at habsent
    exact habsent (ExtTreeSet.mem_iff_contains.mp hdir)
  unfold Files.rename
  dsimp only
  rw [locate_entry hnul hold, locate_entry hnul hnew, if_neg hparent]
  split
  · right
    exact ⟨hdir, fun _ => rfl⟩
  · next hrefused =>
      split
      · next fileContent hcontent =>
          split
          · right
            exact ⟨hdir, fun _ => rfl⟩
          · next hfree =>
              left
              refine ⟨⟨ExtTreeMap.mem_iff_isSome_getElem?.mpr (hcontent ▸ rfl), ?_, ?_⟩, fileContent, rfl⟩
              · rintro rfl
                exact hrefused (Or.inl rfl)
              · exact fun hmem => hfree (Or.inl (ExtTreeSet.mem_iff_contains.mp hmem))
      · next hnone =>
          right
          split
          · constructor
            · apply (mem_directories_moveDirectory _ _).mpr hdir
              · rw [List.length_append]
                exact Nat.lt_succ_self _
              · rw [List.length_append, List.length_append]
                rfl
            · intro name
              apply getElem?_moveDirectory
              · rw [List.length_append, List.length_append]
                rfl
              · rw [List.length_append, List.length_append]
                rfl
              · exact fun hmem => Option.isSome_iff_ne_none.mp (ExtTreeMap.mem_iff_isSome_getElem?.mp hmem) hnone
          · exact ⟨hdir, fun _ => rfl⟩

/-! ### One request after another -/

variable {created created' : List Str}

/-- Each file has a place in the listings, but for the markers of the folders that were created. -/
structure Shelved (username : Str) (created : List Str) (files : Files) : Prop where
  dir : home username ∈ files.directories
  visible : ∀ name, home username ++ [name] ∈ files.content → name.head? ≠ some '.'
  placed : ∀ name, home username ++ [name] ∈ files.content →
    name ∈ created.map Frontend.Site.markerOf ∨ Placed username files name

theorem Placed.mono (hsub : ∀ place, place ∈ files.content → place ∈ files'.content) (h : Placed username files name) :
    Placed username files' name := by
  rcases h with h | ⟨folder, file, hname, hplus, hne, hmarker⟩
  · exact Or.inl h
  · exact Or.inr ⟨folder, file, hname, hplus, hne, hsub _ hmarker⟩

theorem Shelved.store (h : Shelved username created files) (hnul : '\x00' ∉ username) (hname : IsName name)
    (hvisible : name.head? ≠ some '.') (hsub : created ⊆ created') (fileContent : Str)
    (hplaced : home username ++ [name] ∉ files.directories →
      name ∈ created'.map Frontend.Site.markerOf ∨ Placed username files name) :
    Shelved username created' (files.storeFile (userDir username) name fileContent) := by
  have hkept : ∀ other, home username ++ [other] ∈ files.content →
      other ∈ created'.map Frontend.Site.markerOf ∨ Placed username files other := fun other hmem =>
    (h.placed other hmem).imp_left fun hmarker => List.map_subset _ hsub hmarker
  rw [storeFile_entry hnul h.dir hname]
  split
  · exact ⟨h.dir, h.visible, hkept⟩
  · next hfree =>
      have hgrows : ∀ place, place ∈ files.content → place ∈ files.content.insert (home username ++ [name]) fileContent :=
        fun place hmem => ExtTreeMap.mem_insert.mpr (Or.inr hmem)
      have hentry {other : Str} (hmem : home username ++ [other] ∈ files.content.insert (home username ++ [name]) fileContent) :
          other = name ∨ home username ++ [other] ∈ files.content := by
        apply (ExtTreeMap.mem_insert.mp hmem).imp_left
        intro heq
        exact (List.cons.inj (List.append_cancel_left (compare_eq_iff_eq.mp heq))).1.symm
      constructor
      · exact h.dir
      · intro other hmem
        rcases hentry hmem with rfl | hold
        · exact hvisible
        · exact h.visible other hold
      · intro other hmem
        rcases hentry hmem with rfl | hold
        · exact (hplaced hfree).imp_right (Placed.mono hgrows)
        · exact (hkept other hold).imp_right (Placed.mono hgrows)

/-- A file leaves no folder without its marker, and gets a name with a place. -/
structure Relocates (username : Str) (files : Files) (old new : Str) : Prop where
  placed : Placed username { files with content := files.content.erase (home username ++ [old]) } new
  folder : ∀ folder file, old = Frontend.Site.markerOf folder → '+' ∉ folder → home username ++ [folder ++ '+' :: file] ∉ files.content

theorem Shelved.rename (h : Shelved username created files) (hnul : '\x00' ∉ username) (hold : IsName old) (hnew : IsName new)
    (hvisible : new.head? ≠ some '.') (hrelocates : Renames username files old new → Relocates username files old new) :
    Shelved username created (files.rename (userDir username ++ old) (userDir username ++ new)) := by
  rcases rename_entry hnul h.dir hold hnew with ⟨hrenames, fileContent, heq⟩ | ⟨hdir, hsame⟩
  · obtain ⟨hplaced, hfolder⟩ := hrelocates hrenames
    rw [heq]
    have hgrows : ∀ place, place ∈ files.content.erase (home username ++ [old]) →
        place ∈ (files.content.erase (home username ++ [old])).insert (home username ++ [new]) fileContent :=
      fun place hmem => ExtTreeMap.mem_insert.mpr (Or.inr hmem)
    have hentry {other : Str}
        (hmem : home username ++ [other] ∈ (files.content.erase (home username ++ [old])).insert (home username ++ [new]) fileContent) :
        other = new ∨ home username ++ [other] ∈ files.content := by
      rcases ExtTreeMap.mem_insert.mp hmem with heq | hmem
      · left
        exact (List.cons.inj (List.append_cancel_left (compare_eq_iff_eq.mp heq))).1.symm
      · right
        exact ExtTreeMap.mem_of_mem_erase hmem
    constructor
    · exact h.dir
    · intro other hmem
      rcases hentry hmem with rfl | hmem
      · exact hvisible
      · exact h.visible other hmem
    · intro other hmem
      rcases hentry hmem with rfl | hmem
      · right
        exact hplaced.mono hgrows
      · rcases h.placed other hmem with hmarker | hplace | ⟨folder, file, rfl, hplus, hne, hmarker⟩
        · exact Or.inl hmarker
        · exact Or.inr (Or.inl hplace)
        · -- a folder with a file has kept its marker
          refine Or.inr (Or.inr ⟨folder, file, rfl, hplus, hne, hgrows _ (ExtTreeMap.mem_erase.mpr ⟨fun heq => ?_, hmarker⟩)⟩)
          have hname := (List.cons.inj (List.append_cancel_left (compare_eq_iff_eq.mp heq))).1
          exact hfolder folder file hname hplus hmem
  · have hmem : ∀ name, home username ++ [name] ∈ (files.rename (userDir username ++ old) (userDir username ++ new)).content ↔
        home username ++ [name] ∈ files.content := by
      intro name
      rw [ExtTreeMap.mem_iff_isSome_getElem?, ExtTreeMap.mem_iff_isSome_getElem?, hsame]
    refine ⟨hdir, fun name hname => h.visible name ((hmem name).mp hname), fun name hname => ?_⟩
    apply (h.placed name ((hmem name).mp hname)).imp_right
    rintro (hplace | ⟨folder, file, heq, hplus, hne, hmarker⟩)
    · exact Or.inl hplace
    · exact Or.inr ⟨folder, file, heq, hplus, hne, (hmem _).mpr hmarker⟩

namespace Frontend.Site

variable {mail : Page → Site → Request → Except Fault (Response × Site)} {commFd : Int} {start site site' : Site}
  {event : Page × Request} {events : List (Page × Request)}

/-- The folders that requests have created. -/
def foldersOf (events : List (Page × Request)) : List Str :=
  events.filterMap fun event => if event.1 = .createNewFolder then some (afterEqual event.2.body) else none

/-- Names as a form or a browser sends them. -/
def Named (site : Site) (username : Str) (event : Page × Request) : Prop :=
  ∀ calls, operations site.files (userDir username) event.2 event.1 = .ok calls →
    ∀ call ∈ calls, ∀ name ∈ call.names, IsName name ∧ name.head? ≠ some '.'

/-- A request to create a folder, to upload a file to a name with a place, or to take a file to a name with a place. -/
inductive Orderly (username : Str) (site : Site) : Page × Request → Prop
  | createNewFolder (req : Request) : Orderly username site (.createNewFolder, req)
  | handleUpload {req : Request}
      (hplaced : ∀ filename, extractFileName req.body = .ok filename → home username ++ [filename] ∉ site.files.directories →
        Placed username site.files filename) : Orderly username site (.handleUpload, req)
  | renameFile {req : Request}
      (hrelocates : ∀ foldername oldname newname, formNames req = .ok (foldername, oldname, newname) →
        Renames username site.files (nameIn foldername oldname) (nameIn foldername newname) →
        Relocates username site.files (nameIn foldername oldname) (nameIn foldername newname)) : Orderly username site (.renameFile, req)
  | moveFile {req : Request}
      (hrelocates : ∀ filename oldfolder newfolder, formNames req = .ok (filename, oldfolder, newfolder) →
        Renames username site.files (nameIn oldfolder filename) (newfolder ++ '+' :: filename) →
        Relocates username site.files (nameIn oldfolder filename) (newfolder ++ '+' :: filename)) : Orderly username site (.moveFile, req)

/-- A request of a user that is answered. -/
structure Shelves (mail : Page → Site → Request → Except Fault (Response × Site)) (commFd : Int) (username : Str) (site : Site)
    (event : Page × Request) (site' : Site) : Prop where
  answers : Answers mail commFd site event site'
  named : Named site username event
  orderly : Orderly username site event

theorem foldersOf_concat (events : List (Page × Request)) (event : Page × Request) : foldersOf events ⊆ foldersOf (events ++ [event]) := by
  rw [foldersOf, foldersOf, List.filterMap_append]
  exact List.subset_append_left _ _

theorem mem_foldersOf_concat (events : List (Page × Request)) (req : Request) :
    afterEqual req.body ∈ foldersOf (events ++ [(.createNewFolder, req)]) := by
  rw [foldersOf, List.filterMap_append]
  exact List.mem_append_right _ List.mem_cons_self

theorem onFiles_of_orderly (h : Orderly username site event) : event.1.onFiles = true := by
  cases h <;> rfl

/-- What a request leaves has a place if what was there had one. -/
theorem Shelves.step (hnul : '\x00' ∉ username) (hcurrUser : site.currUser = some (userDir username))
    (h : Shelved username (foldersOf events) site.files) (hstep : Shelves mail commFd username site event site') :
    Shelved username (foldersOf (events ++ [event])) site'.files := by
  obtain ⟨⟨hpage, _, fuel, response, hanswer⟩, hnamed, horderly⟩ := hstep
  have hfiles := onFiles_of_orderly horderly
  obtain ⟨dir, calls, hdir, hcalls, heq⟩ := (respond_leaves (hpage ▸ hfiles) hanswer).files
  obtain rfl := Option.some.inj (hcurrUser.symm.trans hdir)
  rw [hpage] at hcalls
  have hnames := hnamed calls hcalls
  have hsub := foldersOf_concat events event
  have hkept : Shelved username (foldersOf (events ++ [event])) site.files :=
    ⟨h.dir, h.visible, fun name hmem => (h.placed name hmem).imp_left fun hmarker => List.map_subset _ hsub hmarker⟩
  rw [heq]
  cases horderly with
  | createNewFolder req =>
      obtain rfl := Except.ok.inj hcalls
      obtain ⟨hname, hvisible⟩ := hnames _ List.mem_cons_self _ List.mem_cons_self
      exact hkept.store hnul hname hvisible (List.Subset.refl _) [] fun _ =>
        Or.inl (List.mem_map_of_mem (mem_foldersOf_concat events req))
  | handleUpload hplaced =>
      obtain ⟨filename, hfilename, hcalls⟩ := Run.bind_eq_ok.mp hcalls
      obtain ⟨fileContent, _, hcalls⟩ := Run.bind_eq_ok.mp hcalls
      obtain rfl := Except.ok.inj hcalls
      obtain ⟨hname, hvisible⟩ := hnames _ List.mem_cons_self _ List.mem_cons_self
      exact hkept.store hnul hname hvisible (List.Subset.refl _) fileContent fun hfree => Or.inr (hplaced filename hfilename hfree)
  | renameFile hrelocates =>
      obtain ⟨⟨foldername, oldname, newname⟩, hform, hcalls⟩ := Run.bind_eq_ok.mp hcalls
      obtain rfl := Except.ok.inj hcalls
      obtain ⟨hold, _⟩ := hnames _ List.mem_cons_self _ List.mem_cons_self
      obtain ⟨hnew, hvisible⟩ := hnames _ List.mem_cons_self _ (List.mem_cons_of_mem _ List.mem_cons_self)
      exact hkept.rename hnul hold hnew hvisible (hrelocates foldername oldname newname hform)
  | moveFile hrelocates =>
      obtain ⟨⟨filename, oldfolder, newfolder⟩, hform, hcalls⟩ := Run.bind_eq_ok.mp hcalls
      obtain rfl := Except.ok.inj hcalls
      obtain ⟨hold, _⟩ := hnames _ List.mem_cons_self _ List.mem_cons_self
      obtain ⟨hnew, hvisible⟩ := hnames _ List.mem_cons_self _ (List.mem_cons_of_mem _ List.mem_cons_self)
      exact hkept.rename hnul hold hnew hvisible (hrelocates filename oldfolder newfolder hform)

theorem Shelves.currUser (hstep : Shelves mail commFd username site event site') : site'.currUser = site.currUser := by
  obtain ⟨⟨hpage, _, fuel, response, hanswer⟩, _, horderly⟩ := hstep
  have hfiles := onFiles_of_orderly horderly
  exact (respond_leaves (hpage ▸ hfiles) hanswer).currUser

/-- A user who has a directory and nothing in it. -/
def ownSite : Site := ⟨⟨∅, {["a".toList]}⟩, {"a".toList}, [], some (userDir "a".toList), Chunkserver.fresh 100 true 9⟩

def cookieOf (username : String) : Map Str := (∅ : Map Str).insert "sessionid".toList username.toList

def creates (foldername : String) : Page × Request := (.createNewFolder, post "/newfolder" ("foldername=" ++ foldername) (cookieOf "a"))

/-- Whether a user has a file. -/
def has (filename : String) (site : Site) : Bool := decide (["a".toList, filename.toList] ∈ site.files.content)

theorem exists_of_toOption_any {x : Except Fault Site} {test : Site → Bool} (h : x.toOption.any test = true) :
    ∃ site, x = .ok site ∧ test site = true := by
  cases x with
  | error fault => cases h
  | ok site => exact ⟨site, rfl, h⟩

theorem named_creates (site : Site) : Named site "a".toList (creates "docs") := by
  intro calls hcalls call hcall name hname
  have hmarker : markerOf (afterEqual (creates "docs").2.body) = "docs.folder".toList := by decide +kernel
  rw [← Except.ok.inj hcalls] at hcall
  rw [List.mem_singleton.mp hcall] at hname
  rw [List.mem_singleton.mp hname, hmarker]
  decide

theorem named_upload (site : Site) : Named site "a".toList (.handleUpload, upload "a") := by
  intro calls hcalls call hcall name hname
  rw [operations_upload] at hcalls
  rw [← Except.ok.inj hcalls] at hcall
  rw [List.mem_singleton.mp hcall] at hname
  rw [List.mem_singleton.mp hname]
  decide

end Frontend.Site

end PennCloud
