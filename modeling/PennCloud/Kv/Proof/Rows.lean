import PennCloud.Kv.Contents

/-!
# The row of a user

A row lists a user's files as fields ended by commas, a name and a value in turn. Restoring it takes
the fields off and pairs them up again. No field that is taken off holds a comma, and when no name
and no value of the user does either, the pairs are the files.
-/

namespace PennCloud.LRUCache

open Std

/-! ### Fields of a row -/

/-- The fields of a list of files: each name, followed by its value. -/
def fieldsOf (files : List (Str × Str)) : List Str := files.flatMap fun file => [file.1, file.2]

theorem flatMap_eq_terminate (files : List (Str × Str)) :
    (files.flatMap fun file => file.1 ++ ',' :: (file.2 ++ [','])) = Fields.terminate ',' (fieldsOf files) := by
  induction files with
  | nil => rfl
  | cons file rest ih =>
      have hfields : fieldsOf (file :: rest) = file.1 :: file.2 :: fieldsOf rest := rfl
      rw [List.flatMap_cons, ih, hfields, Fields.terminate_cons, Fields.terminate_cons]
      simp

theorem rowOf_eq_terminate (files : Map Str) :
    rowOf files = Fields.terminate ',' (fieldsOf files.toList) := flatMap_eq_terminate _

theorem pairUp_fieldsOf (files : List (Str × Str)) : pairUp (fieldsOf files) = files := by
  induction files with
  | nil => rfl
  | cons file rest ih =>
      rw [fieldsOf, List.flatMap_cons]
      exact congrArg (file :: ·) ih

theorem mem_of_mem_pairUp {fields : List Str} {file : Str × Str} (hfile : file ∈ pairUp fields) :
    file.1 ∈ fields ∧ file.2 ∈ fields := by
  induction fields using pairUp.induct with
  | case1 name value rest ih =>
      rcases List.mem_cons.mp hfile with rfl | hfile
      · exact ⟨List.mem_cons_self, List.mem_cons_of_mem _ List.mem_cons_self⟩
      · have hmem := ih hfile
        exact ⟨List.mem_cons_of_mem _ (List.mem_cons_of_mem _ hmem.1),
          List.mem_cons_of_mem _ (List.mem_cons_of_mem _ hmem.2)⟩
  | case2 fields hshort =>
      rw [pairUp] at hfile
      · exact absurd hfile List.not_mem_nil
      · exact hshort

/-- Whatever a row is, the names and values restored from it hold no comma. -/
theorem comma_notMem_of_mem_pairs {row : Str} {file : Str × Str}
    (hfile : file ∈ pairUp (Fields.pieces ',' row)) : ',' ∉ file.1 ∧ ',' ∉ file.2 :=
  ⟨Fields.notMem_of_mem_pieces (mem_of_mem_pairUp hfile).1,
    Fields.notMem_of_mem_pieces (mem_of_mem_pairUp hfile).2⟩

theorem pairs_terminate {files : List (Str × Str)} (hfiles : ∀ file ∈ files, ',' ∉ file.1 ∧ ',' ∉ file.2) :
    pairUp (Fields.pieces ',' (Fields.terminate ',' (fieldsOf files))) = files := by
  have hfields : ∀ p ∈ fieldsOf files, ',' ∉ p := by
    intro p hp
    obtain ⟨file, hfile, hp⟩ := List.mem_flatMap.mp hp
    rcases List.mem_cons.mp hp with rfl | hp
    · exact (hfiles file hfile).1
    · obtain rfl := List.mem_singleton.mp hp
      exact (hfiles file hfile).2
  rw [Fields.pieces_terminate hfields, pairUp_fieldsOf]

/-- The row of comma-free files is read back as these files, in name order. -/
theorem pairs_rowOf {files : Map Str} (hnames : CommaFreeNames files)
    (hvalues : CommaFreeValues files) :
    pairUp (Fields.pieces ',' (rowOf files)) = files.toList := by
  rw [rowOf_eq_terminate, pairs_terminate]
  intro file hfile
  have hget : files[file.1]? = some file.2 := ExtTreeMap.mem_toList_iff_getElem?_eq_some.mp hfile
  exact ⟨hnames _ _ hget, hvalues _ _ hget⟩

/-! ### Adding files one by one -/

section AddFiles

variable {files : Map Str}

theorem getElem?_addFile (files : Map Str) (file : Str × Str) (f : Str) :
    (addFile files file)[f]? =
      if file.1 = f then some (files.getD file.1 [] ++ file.2) else files[f]? :=
  SortedMap.getElem?_insert_eq _ _ _ _

theorem addFile_of_none {file : Str × Str} (hnone : files[file.1]? = none) :
    addFile files file = files.insert file.1 file.2 := by
  rw [addFile, ExtTreeMap.getD_eq_getD_getElem?, hnone]
  rfl

theorem foldl_addFile_toList (files : Map Str) : files.toList.foldl addFile ∅ = files :=
  SortedMap.foldl_extend_toList files

theorem filesOfRow_rowOf (hnames : CommaFreeNames files) (hvalues : CommaFreeValues files) :
    filesOfRow (rowOf files) = files := by
  rw [filesOfRow, pairs_rowOf hnames hvalues, foldl_addFile_toList]

theorem CommaFreeValues.addFile (hfiles : CommaFreeValues files) {file : Str × Str}
    (hfile : ',' ∉ file.2) : CommaFreeValues (addFile files file) := by
  intro f v hget
  rw [getElem?_addFile] at hget
  split at hget
  · obtain rfl := Option.some.inj hget
    rw [List.mem_append, ExtTreeMap.getD_eq_getD_getElem?]
    rintro (hold | hnew)
    · cases hget' : files[file.1]? with
      | none => rw [hget'] at hold; exact absurd hold List.not_mem_nil
      | some old => rw [hget'] at hold; exact hfiles _ _ hget' hold
    · exact hfile hnew
  · exact hfiles f v hget

theorem commaFreeValues_filesOfRow (row : Str) : CommaFreeValues (filesOfRow row) := by
  have hfold : ∀ (pairs : List (Str × Str)) (files : Map Str),
      (∀ file ∈ pairs, ',' ∉ file.2) → CommaFreeValues files →
        CommaFreeValues (pairs.foldl LRUCache.addFile files) := by
    intro pairs
    induction pairs with
    | nil => exact fun files _ hfiles => hfiles
    | cons file rest ih =>
        intro files hpairs hfiles
        exact ih _ (fun other hother => hpairs other (List.mem_cons_of_mem _ hother))
          (hfiles.addFile (hpairs file List.mem_cons_self))
  refine hfold _ ∅ (fun file hfile => (comma_notMem_of_mem_pairs hfile).2) ?_
  intro f v hget
  simp at hget

end AddFiles

end PennCloud.LRUCache
