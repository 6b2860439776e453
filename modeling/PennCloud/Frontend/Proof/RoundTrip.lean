import PennCloud.Frontend.Proof.Replies
import PennCloud.Frontend.Proof.Shelves
import PennCloud.Frontend.Proof.Uploads

/-!
# From an upload to a download

A file that a browser uploads is served byte for byte, whatever is requested in between, as long as no request works at its place or
at a directory above it.
-/

namespace PennCloud

open Std

variable {files files' : Files} {place old new : List Str} {content dir filename username name : Str}

/-! ### One place in the file system -/

/-- A regular file with its content. -/
structure Lies (files : Files) (place : List Str) (content : Str) : Prop where
  content : files.content[place]? = some content
  directory : place ∉ files.directories

theorem ne_of_notAbove {other : List Str} (h : ¬ other <+: place) : other ≠ place := fun heq => h (heq ▸ List.prefix_refl _)

/-- A stream gets to the file of a user whose name is the name of a directory. -/
theorem Lies.ifstream (h : Lies files (home username ++ [name]) content) (huser : IsName username) (hname : IsName name) :
    files.ifstream (userDir username ++ name) = some (.file content) := by
  have hpath : cstr (userDir username ++ name) = userDir username ++ name := cstr_entry huser.nul hname
  have hne : userDir username ++ name ≠ [] := List.append_ne_nil_of_right_ne_nil _ hname.ne.1
  have hplace : locate (userDir username ++ name) = home username ++ [name] := hpath ▸ locate_entry huser.nul hname
  have hsplit : (userDir username ++ name).splitOn '/' = [username, name] := by
    rw [splitOn_entry hname.slash, List.splitOn_eq_singleton huser.slash]
    rfl
  have hleads : files.leads (origin (userDir username ++ name)) [username, name] = true := by
    simp [Files.leads, huser.ne, hname.ne]
  have hfile : files.isDirectory (home username ++ [name]) = false := by
    simp only [Files.isDirectory, Bool.or_eq_false_iff, decide_eq_false_iff_not]
    refine ⟨⟨?_, fun heq => ?_⟩, ?_⟩
    · rw [List.all_append, Bool.and_eq_false_iff]
      exact Or.inr (by simp [hname.ne.2.2])
    · have hslash : ['/'] = name := by simpa using (congrArg List.getLast? heq).symm
      exact hname.slash (hslash ▸ List.mem_singleton_self _)
    · exact Bool.eq_false_iff.mpr fun hmem => h.directory (ExtTreeSet.mem_iff_contains.mpr hmem)
  unfold Files.ifstream
  dsimp only
  rw [hpath, hsplit, hplace, if_neg fun h => h.elim hne fun hstuck => hstuck hleads, hfile, if_neg Bool.false_ne_true, h.content]
  rfl

theorem Lies.insert (h : Lies files place content) (hnew : new ≠ place) (fileContent : Str) :
    Lies { files with content := files.content.insert new fileContent } place content := by
  refine ⟨?_, h.directory⟩
  dsimp only
  rw [SortedMap.getElem?_insert_eq, if_neg hnew, h.content]

theorem Lies.moveDirectory (h : Lies files place content) (hold : ¬ old <+: place) (hnew : ¬ new <+: place) :
    Lies (files.moveDirectory old new) place content := by
  have hmoved (entry : List Str) : new ++ entry.drop old.length ≠ place := by
    rintro rfl
    exact hnew (List.prefix_append _ _)
  constructor
  · rw [← h.content, Files.moveDirectory]
    dsimp only
    generalize files.content.toList = entries
    generalize files.content = table
    induction entries generalizing table with
    | nil => rfl
    | cons entry entries ih =>
        rw [List.foldl_cons, ih]
        split
        · next habove =>
            have hentry : entry.1 ≠ place := fun heq => hold (heq ▸ List.isPrefixOf_iff_prefix.mp habove)
            rw [SortedMap.getElem?_insert_eq, if_neg (hmoved _), SortedMap.getElem?_erase_eq, if_neg hentry]
        · rfl
  · rw [Files.moveDirectory]
    dsimp only
    generalize files.directories.toList = entries
    have hnone := h.directory
    generalize files.directories = table at hnone
    induction entries generalizing table with
    | nil => exact hnone
    | cons entry entries ih =>
        rw [List.foldl_cons]
        apply ih
        split
        · intro hmem
          rcases ExtTreeSet.mem_insert.mp hmem with heq | hmem
          · exact hmoved _ (compare_eq_iff_eq.mp heq)
          · exact hnone (ExtTreeSet.mem_of_mem_erase hmem)
        · exact hnone

theorem Lies.storeFile (h : Lies files place content) (hplace : locate (cstr (dir ++ filename)) ≠ place) (fileContent : Str) :
    Lies (files.storeFile dir filename fileContent) place content := by
  unfold Files.storeFile
  dsimp only
  split
  · exact h
  split
  · exact h.insert hplace fileContent
  · exact h

theorem Lies.remove (h : Lies files place content) (hplace : locate (cstr filename) ≠ place) :
    Lies (files.remove filename) place content := by
  unfold Files.remove
  dsimp only
  split
  · exact h
  constructor
  · dsimp only
    split
    · exact h.content
    · rw [SortedMap.getElem?_erase_eq, if_neg hplace, h.content]
  · dsimp only
    split
    · exact fun hmem => h.directory (ExtTreeSet.mem_of_mem_erase hmem)
    · exact h.directory

theorem Lies.rename {oldname newname : Str} (h : Lies files place content) (hold : ¬ locate (cstr oldname) <+: place)
    (hnew : ¬ locate (cstr newname) <+: place) : Lies (files.rename oldname newname) place content := by
  unfold Files.rename
  dsimp only
  split
  · exact h
  split
  · exact h
  split
  · split
    · exact h
    · refine ⟨?_, h.directory⟩
      dsimp only
      rw [SortedMap.getElem?_insert_eq, if_neg (ne_of_notAbove hnew), SortedMap.getElem?_erase_eq, if_neg (ne_of_notAbove hold),
        h.content]
  · split
    · exact h.moveDirectory hold hnew
    · exact h

/-- A directory is not made where a file is. -/
theorem Lies.makeDir (h : Lies files place content) (dirname : Str) : Lies (files.makeDir dirname) place content := by
  unfold Files.makeDir
  dsimp only
  split
  · next hfree =>
      refine ⟨h.content, fun hmem => ?_⟩
      rcases ExtTreeSet.mem_insert.mp hmem with heq | hmem
      · have hplace := compare_eq_iff_eq.mp heq
        rw [hplace] at hfree
        exact hfree.2 (ExtTreeMap.mem_iff_contains.mp (ExtTreeMap.mem_iff_isSome_getElem?.mpr (h.content ▸ rfl)))
      · exact h.directory hmem
  · exact h

theorem Lies.apply {operation : Operation} (h : Lies files place content)
    (hplaces : operation ≠ .list → ∀ other ∈ operation.places dir, ¬ other <+: place) :
    Lies (operation.apply dir files) place content := by
  by_cases hlist : operation = .list
  · subst hlist
    exact h
  have hplaces := hplaces hlist
  unfold Operation.places at hplaces
  dsimp only at hplaces
  rw [if_neg hlist] at hplaces
  cases operation with
  | list => exact absurd rfl hlist
  | store filename fileContent =>
      split at hplaces
      · next hdots =>
          -- a path that ends in dots is refused
          have hrefused : files.storeFile dir filename fileContent = files := by
            rw [Files.storeFile]
            exact if_pos (Or.inl (by simpa [Operation.names] using hdots))
          rwa [Operation.apply, hrefused]
      · exact h.storeFile (ne_of_notAbove (hplaces _ (List.mem_cons_self))) fileContent
  | rename oldname newname =>
      split at hplaces
      · next hdots =>
          have hrefused : files.rename (dir ++ oldname) (dir ++ newname) = files := by
            rw [Files.rename]
            refine if_pos ?_
            simp only [Operation.names, List.map_cons, List.map_nil, List.any_cons, List.any_nil, Bool.or_false, Bool.or_eq_true] at hdots
            exact Or.inr (Or.inr hdots)
          rwa [Operation.apply, hrefused]
      · exact h.rename (hplaces _ List.mem_cons_self) (hplaces _ (List.mem_cons_of_mem _ List.mem_cons_self))
  | remove filename =>
      split at hplaces
      · next hdots =>
          have hrefused : files.remove (dir ++ filename) = files := by
            rw [Files.remove]
            exact if_pos (by simpa [Operation.names] using hdots)
          rwa [Operation.apply, hrefused]
      · exact h.remove (ne_of_notAbove (hplaces _ List.mem_cons_self))

namespace Frontend

variable {around : Outside} {fuel : Nat} {commFd : Int} {site site' site₁ site₂ : Site} {req : Request} {response : Response}

namespace Site

/-! ### What a request does to the files -/

/-- The files stay as they are, but for a directory. -/
def KeepsFiles (site : Site) (answer : Response × Site) : Prop :=
  answer.2.files = site.files ∨ ∃ dirname, answer.2.files = site.files.makeDir dirname

/-- Nothing but the node of the site is another one. -/
structure OnlyNode (site after : Site) : Prop where
  files : after.files = site.files
  sessions : after.sessions = site.sessions

theorem onlyNode_fetchEmail {key : Str} : Run.Yields (fun fetched => OnlyNode site fetched.2) (site.fetchEmail fuel commFd key) :=
  .bind fun _ _ => .bind fun _ _ => .ok ⟨rfl, rfl⟩

theorem onlyNode_listEmails : Run.Yields (fun listed => OnlyNode site listed.2) (site.listEmails fuel commFd) :=
  .bind fun _ _ => .bind fun _ _ => .ok ⟨rfl, rfl⟩

theorem onlyNode_inbox : Run.Yields (fun answer => OnlyNode site answer.2) (site.inbox fuel commFd req) :=
  .bind fun _ _ => .bind fun _ hlisted => .ok (onlyNode_listEmails _ hlisted)

theorem onlyNode_viewEmail : Run.Yields (fun answer => OnlyNode site answer.2) (site.viewEmail fuel commFd req) :=
  .bind fun _ _ => .bind fun _ _ => .bind fun _ hfetched => .ok (onlyNode_fetchEmail _ hfetched)

theorem onlyNode_forwardEmail : Run.Yields (fun answer => OnlyNode site answer.2) (site.forwardEmail fuel commFd req) :=
  .bind fun _ _ => .bind fun _ hfetched => .bind fun _ _ => .ok (onlyNode_fetchEmail _ hfetched)

theorem onlyNode_replyEmail : Run.Yields (fun answer => OnlyNode site answer.2) (site.replyEmail fuel commFd req) :=
  .bind fun _ _ => .bind fun _ _ => .bind fun _ hfetched => .ok (onlyNode_fetchEmail _ hfetched)

theorem onlyNode_deleteEmail {ii : Int} : Run.Yields (fun answer => OnlyNode site answer.2) (site.deleteEmail ii fuel commFd req) :=
  .bind fun _ _ => .bind fun _ _ => .bind fun _ _ => .bind fun _ _ => .bind fun _ _ => .ok ⟨rfl, rfl⟩

theorem onlyNode_adminConsole :
    Run.Yields (fun answer => OnlyNode site answer.2.2) (site.adminConsole around fuel commFd req) :=
  .bind fun _ _ => .bind fun _ _ => .bind fun _ _ => .bind fun _ _ => .ok ⟨rfl, rfl⟩

/-- The calls of a request do not work at a place or at a directory above it. -/
def Spares (place : List Str) (site : Site) (req : Request) : Prop :=
  ∀ dir calls, site.currUser = some dir → operations site.files dir req (site.page req) = .ok calls →
    ∀ call ∈ calls, call ≠ .list → ∀ other ∈ call.places dir, ¬ other <+: place

end Site

open Site

end Frontend

end PennCloud
