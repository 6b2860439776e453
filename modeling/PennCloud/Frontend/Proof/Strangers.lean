import PennCloud.Frontend.Response
import PennCloud.Lib.Run

/-!
# What strangers are shown

Without a session a request is answered from at most one file: the one that its path names, before any test of a
session, or a page of the site.
-/

namespace PennCloud

/-! ### File systems that agree outside of user directories -/

/-- A place inside the directory of one of the users. `users` has every path that leads to such a directory: one may go above the
working directory and come back by its name. -/
def InUserDir (users : Set Str) (place : List Str) : Prop :=
  ∃ user ∈ users, ∃ name rest, place = locate user ++ name :: rest

/-- The same paths, and a difference only in the contents of files inside user directories. -/
structure AgreeOutside (users : Set Str) (files files' : Files) : Prop where
  directories : files.directories = files'.directories
  paths : ∀ place, place ∈ files.content ↔ place ∈ files'.content
  outside : ∀ place, ¬ InUserDir users place → files.content[place]? = files'.content[place]?

variable {users : Set Str} {files files' : Files} {filename c : Str}

theorem Files.leads_congr (h : files'.directories = files.directories) (place path : List Str) :
    files'.leads place path = files.leads place path := by
  induction path generalizing place with
  | nil => rfl
  | cons component path ih => rw [Files.leads, Files.leads, ih, Files.isDirectory, Files.isDirectory, h]

/-- The directories decide whether a stream gets as far as to a file. -/
theorem Files.ifstream_cases (files : Files) (filename : Str) :
    (∃ entry, (∀ c, entry ≠ some (.file c)) ∧
      ∀ files' : Files, files'.directories = files.directories → files'.ifstream filename = entry) ∨
    ∀ files' : Files, files'.directories = files.directories →
      files'.ifstream filename = files'.content[locate (cstr filename)]?.map .file := by
  have hplace (files' : Files) (h : files'.directories = files.directories) :
      files'.isDirectory (locate (cstr filename)) = files.isDirectory (locate (cstr filename)) := by
    rw [Files.isDirectory, Files.isDirectory, h]
  by_cases hpath : cstr filename = [] ∨ ¬ files.leads (origin (cstr filename)) ((cstr filename).splitOn '/')
  · refine Or.inl ⟨none, fun c => nofun, fun files' h => ?_⟩
    unfold Files.ifstream
    dsimp only
    rw [Files.leads_congr h, if_pos hpath]
  by_cases hdirectory : files.isDirectory (locate (cstr filename)) = true
  · refine Or.inl ⟨some .directory, fun c => nofun, fun files' h => ?_⟩
    unfold Files.ifstream
    dsimp only
    rw [Files.leads_congr h, if_neg hpath, hplace files' h, if_pos hdirectory]
  · refine Or.inr fun files' h => ?_
    unfold Files.ifstream
    dsimp only
    rw [Files.leads_congr h, if_neg hpath, hplace files' h, if_neg hdirectory]

theorem AgreeOutside.isFileExist (h : AgreeOutside users files files') (filename : Str) :
    files'.isFileExist filename = files.isFileExist filename := by
  rw [Files.isFileExist, Files.isFileExist]
  rcases files.ifstream_cases filename with ⟨entry, _, hsame⟩ | hsame
  · rw [hsame files' h.directories.symm, hsame files rfl]
  · rw [hsame files' h.directories.symm, hsame files rfl, Option.isSome_map, Option.isSome_map, Bool.eq_iff_iff,
      ← Std.ExtTreeMap.mem_iff_isSome_getElem?, ← Std.ExtTreeMap.mem_iff_isSome_getElem?]
    exact (h.paths _).symm

theorem AgreeOutside.getFileContent (h : AgreeOutside users files files')
    (hfile : ∀ c, files.ifstream filename = some (.file c) → ¬ InUserDir users (locate (cstr filename))) :
    files'.getFileContent filename = files.getFileContent filename := by
  have hopen : files'.ifstream filename = files.ifstream filename := by
    rcases files.ifstream_cases filename with ⟨entry, _, hsame⟩ | hsame
    · rw [hsame files' h.directories.symm, hsame files rfl]
    · rw [hsame files' h.directories.symm, hsame files rfl]
      cases hcontent : files.content[locate (cstr filename)]? with
      | none =>
          have hmem : locate (cstr filename) ∉ files'.content := fun hin =>
            absurd (Std.ExtTreeMap.mem_iff_isSome_getElem?.mp ((h.paths _).mpr hin)) (by rw [hcontent]; exact Bool.false_ne_true)
          rw [Std.ExtTreeMap.getElem?_eq_none hmem]
      | some c =>
          rw [← h.outside _ (hfile c ((hsame files rfl).trans (by rw [hcontent]; rfl))), hcontent]
  rw [Files.getFileContent, Files.getFileContent, hopen]

namespace Frontend

open Chunkserver

/-- A file, and what an answer makes of its content. -/
structure Exhibit where
  filename : Str
  answer : Str → Response

/-- The home page with the name of its user filled in. -/
def homePage (req : Request) (username body : Str) : Response :=
  let response := ((Response.start req).typed "text/html").withBody (replaceAll body "$username".toList username)
  { response with headers := response.headers.insert "Set-Cookie: ".toList ("sessionid=".toList ++ username) }

namespace Site

variable {others : Page → Site → Request → Except Fault (Response × Site)} {fuel : Nat} {commFd : Int} {site : Site}
  {req : Request}

/-- What a stranger is shown: the file under its path, or a page that depends on the method and, as every post counts
as a login, on the credentials in it. -/
def exhibit (fuel : Nat) (commFd : Int) (site : Site) (req : Request) : Except Fault (Option Exhibit) :=
  if req.path ≠ "/".toList ∧ site.files.isFileExist ('.' :: req.path) then do
    debug ('.' :: req.path)
    .ok (some ⟨'.' :: req.path, ((Response.start req).typed "text/plain").withBody⟩)
  else if req.method = "GET".toList then
    let filename := if req.path = "/register".toList then "html/register.html" else "html/login.html"
    .ok (some ⟨filename.toList, ((Response.start req).typed "text/html").withBody⟩)
  else if req.method = "POST".toList then do
    let (username, password) ← credentials req
    let (valid, _) ← site.node.isLoginValid fuel commFd username password
    if valid then .ok (some ⟨"html/user-home.html".toList, homePage req username⟩)
    else .ok (some ⟨"html/login-failed.html".toList, ((Response.start req).typed "text/html").withBody⟩)
  else .ok none

/-- The answer made of an exhibit. -/
def view (files : Files) (req : Request) : Option Exhibit → Except Fault Response
  | some exhibit => (files.getFileContent exhibit.filename).map exhibit.answer
  | none => .ok ((Response.start req).typed "text/html")

/-- A site with one file of one user, and nobody logged in. -/
def bobSite (text : String) : Site :=
  ⟨⟨(∅ : Std.ExtTreeMap (List Str) Str).insert ["bob".toList, "x.txt".toList] text.toList,
      (∅ : Std.ExtTreeSet (List Str)).insert ["bob".toList]⟩,
    ∅, [], none, fresh 100 true 9⟩

end Site

end Frontend

end PennCloud
