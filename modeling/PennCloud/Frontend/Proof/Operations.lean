import PennCloud.Frontend.Proof.Folders

/-!
# What the pages do to the files of users

Each page for files makes a few calls on the file system, in a directory that does not depend on who asks. What the calls
do to the rest of the file system is nothing.
-/

namespace PennCloud

open Std

/-- A call of a page on the file system, in the directory that the page works on. -/
inductive Operation where
  | list
  | store (filename fileContent : Str)
  | rename (oldname newname : Str)
  | remove (filename : Str)
  deriving DecidableEq, Repr

namespace Operation

def apply (dir : Str) (files : Files) : Operation → Files
  | .list => files
  | .store filename fileContent => files.storeFile dir filename fileContent
  | .rename oldname newname => files.rename (dir ++ oldname) (dir ++ newname)
  | .remove filename => files.remove (dir ++ filename)

def names : Operation → List Str
  | .list => []
  | .store filename _ => [filename]
  | .rename oldname newname => [oldname, newname]
  | .remove filename => [filename]

/-- The places that a call reads, creates, renames or removes something at. A path that ends in dots is refused. -/
def places (dir : Str) (operation : Operation) : List (List Str) :=
  let paths := operation.names.map (dir ++ ·)
  if operation = .list then [locate (cstr dir)]
  else if paths.any fun path => Files.endsInDots (cstr path) then []
  else paths.map fun path => locate (cstr path)

end Operation

namespace Frontend

/-- The pages that work on the files of users. -/
def Page.onFiles : Page → Bool
  | .handleUpload | .download | .createNewFolder | .renameFile | .deleteFile | .deleteFolder | .moveFile => true
  | _ => false

namespace Site

/-- The calls that a page makes. -/
def operations (files : Files) (dir : Str) (req : Request) : Page → Except Fault (List Operation)
  | .handleUpload => do
      let filename ← extractFileName req.body
      let fileContent ← extractFileContent req.body
      .ok [.store filename fileContent]
  | .download => .ok [.list]
  | .createNewFolder => .ok [.store (markerOf (afterEqual req.body)) []]
  | .renameFile => do
      let (foldername, oldname, newname) ← formNames req
      .ok [.rename (nameIn foldername oldname) (nameIn foldername newname)]
  | .deleteFile => do
      let path ← formFile req
      .ok [.remove path]
  | .deleteFolder =>
      .ok (.list :: ((files.listAllFiles dir).filter (inFolder (afterEqual req.body))).map Operation.remove)
  | .moveFile => do
      let (filename, oldfolder, newfolder) ← formNames req
      .ok [.rename (nameIn oldfolder filename) (newfolder ++ '+' :: filename)]
  | _ => .ok []

variable {mail : Page → Site → Request → Except Fault (Response × Site)} {fuel : Nat} {commFd : Int} {site site' : Site}
  {req : Request} {response : Response}

/-- What a page for files leaves behind. -/
structure Leaves (site : Site) (page : Page) (req : Request) (site' : Site) : Prop where
  currUser : site'.currUser = site.currUser
  files : ∃ dir operations, site.currUser = some dir ∧ Site.operations site.files dir req page = .ok operations ∧
    site'.files = operations.foldl (Operation.apply dir) site.files

theorem handleUpload_leaves (h : site.handleUpload fuel commFd req = .ok (response, site')) :
    Leaves site .handleUpload req site' := by
  rw [handleUpload] at h
  obtain ⟨dir, hdir, h⟩ := Run.bind_eq_ok.mp h
  obtain ⟨filename, hname, h⟩ := Run.bind_eq_ok.mp h
  obtain ⟨fileContent, hcontent, h⟩ := Run.bind_eq_ok.mp h
  obtain ⟨_, _, h⟩ := Run.bind_eq_ok.mp h
  obtain ⟨⟨_, node⟩, _, h⟩ := Run.bind_eq_ok.mp h
  obtain ⟨_, _, h⟩ := Run.bind_eq_ok.mp h
  obtain ⟨_, rfl⟩ := Prod.mk.inj (Except.ok.inj h)
  refine ⟨rfl, dir, [.store filename fileContent], deref_eq_ok.mp hdir, ?_, rfl⟩
  rw [operations, hname, Run.ok_bind, hcontent, Run.ok_bind]

theorem download_leaves (h : site.download fuel commFd req = .ok (response, site')) : Leaves site .download req site' := by
  rw [download] at h
  obtain ⟨dir, hdir, h⟩ := Run.bind_eq_ok.mp h
  obtain ⟨currFolder, _, h⟩ := Run.bind_eq_ok.mp h
  obtain ⟨⟨_, node⟩, _, h⟩ := Run.bind_eq_ok.mp h
  have hsite : site' = { site with node := node } := by
    dsimp only at h
    split at h
    · obtain ⟨_, _, h⟩ := Run.bind_eq_ok.mp h
      exact (Prod.mk.inj (Except.ok.inj h)).2.symm
    · obtain ⟨_, _, h⟩ := Run.bind_eq_ok.mp h
      exact (Prod.mk.inj (Except.ok.inj h)).2.symm
  rw [hsite]
  exact ⟨rfl, dir, [.list], deref_eq_ok.mp hdir, rfl, rfl⟩

theorem createNewFolder_leaves (h : site.createNewFolder req = .ok (response, site')) :
    Leaves site .createNewFolder req site' := by
  rw [createNewFolder] at h
  obtain ⟨dir, hdir, h⟩ := Run.bind_eq_ok.mp h
  obtain ⟨_, _, h⟩ := Run.bind_eq_ok.mp h
  obtain ⟨_, _, h⟩ := Run.bind_eq_ok.mp h
  obtain ⟨_, rfl⟩ := Prod.mk.inj (Except.ok.inj h)
  exact ⟨rfl, dir, [.store (markerOf (afterEqual req.body)) []], deref_eq_ok.mp hdir, rfl, rfl⟩

theorem renameFile_leaves (h : site.renameFile req = .ok (response, site')) : Leaves site .renameFile req site' := by
  rw [renameFile] at h
  obtain ⟨⟨foldername, oldname, newname⟩, hnames, h⟩ := Run.bind_eq_ok.mp h
  obtain ⟨dir, hdir, h⟩ := Run.bind_eq_ok.mp h
  obtain ⟨_, _, h⟩ := Run.bind_eq_ok.mp h
  obtain ⟨_, rfl⟩ := Prod.mk.inj (Except.ok.inj h)
  refine ⟨rfl, dir, [.rename (nameIn foldername oldname) (nameIn foldername newname)], deref_eq_ok.mp hdir, ?_, rfl⟩
  rw [operations, hnames, Run.ok_bind]

theorem moveFile_leaves (h : site.moveFile req = .ok (response, site')) : Leaves site .moveFile req site' := by
  rw [moveFile] at h
  obtain ⟨⟨filename, oldfolder, newfolder⟩, hnames, h⟩ := Run.bind_eq_ok.mp h
  obtain ⟨dir, hdir, h⟩ := Run.bind_eq_ok.mp h
  obtain ⟨_, _, h⟩ := Run.bind_eq_ok.mp h
  obtain ⟨_, rfl⟩ := Prod.mk.inj (Except.ok.inj h)
  refine ⟨rfl, dir, [.rename (nameIn oldfolder filename) (newfolder ++ '+' :: filename)], deref_eq_ok.mp hdir, ?_, ?_⟩
  · rw [operations, hnames, Run.ok_bind]
  · dsimp only [List.foldl_cons, List.foldl_nil, Operation.apply]
    rw [List.append_assoc]

theorem deleteFile_leaves (h : site.deleteFile fuel commFd req = .ok (response, site')) :
    Leaves site .deleteFile req site' := by
  rw [deleteFile] at h
  obtain ⟨path, hpath, h⟩ := Run.bind_eq_ok.mp h
  obtain ⟨filename, _, h⟩ := Run.bind_eq_ok.mp h
  obtain ⟨dir, hdir, h⟩ := Run.bind_eq_ok.mp h
  obtain ⟨⟨_, node⟩, _, h⟩ := Run.bind_eq_ok.mp h
  obtain ⟨_, _, h⟩ := Run.bind_eq_ok.mp h
  obtain ⟨_, rfl⟩ := Prod.mk.inj (Except.ok.inj h)
  refine ⟨rfl, dir, [.remove path], deref_eq_ok.mp hdir, ?_, rfl⟩
  rw [operations, hpath, Run.ok_bind]

theorem deleteFolder_leaves (h : site.deleteFolder req = .ok (response, site')) : Leaves site .deleteFolder req site' := by
  rw [deleteFolder] at h
  obtain ⟨dir, hdir, h⟩ := Run.bind_eq_ok.mp h
  obtain ⟨_, _, h⟩ := Run.bind_eq_ok.mp h
  obtain ⟨_, rfl⟩ := Prod.mk.inj (Except.ok.inj h)
  refine ⟨rfl, dir, _, deref_eq_ok.mp hdir, rfl, ?_⟩
  rw [List.foldl_cons, List.foldl_map, List.foldl_filter]
  rfl

theorem respond_leaves (hpage : (site.page req).onFiles = true)
    (h : site.respond (folderPages mail fuel commFd) fuel commFd req = .ok (response, site')) :
    Leaves site (site.page req) req site' := by
  have hmember : ∀ page site', Leaves { site with userName := (site.isAlreadyLogin req.cookies).getD site.userName } page req site' →
      Leaves site page req site' := fun page site' hleaves => ⟨hleaves.currUser, hleaves.files⟩
  rw [respond] at h
  dsimp only at h
  revert h hpage
  cases site.page req with
  | handleUpload => exact fun _ h => hmember _ _ (handleUpload_leaves h)
  | deleteFile => exact fun _ h => hmember _ _ (deleteFile_leaves h)
  | download => exact fun _ h => hmember _ _ (download_leaves h)
  | createNewFolder => exact fun _ h => hmember _ _ (createNewFolder_leaves h)
  | renameFile => exact fun _ h => hmember _ _ (renameFile_leaves h)
  | deleteFolder => exact fun _ h => hmember _ _ (deleteFolder_leaves h)
  | moveFile => exact fun _ h => hmember _ _ (moveFile_leaves h)
  | _ => nofun

end Site

end Frontend

end PennCloud
