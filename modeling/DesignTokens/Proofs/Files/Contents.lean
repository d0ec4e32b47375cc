import DesignTokens.Proofs.Files.Saving

/-!
# What operations change

A path leads to one place, whatever the tree, and what is written through a path changes the content at
its place only. Directories that are made change no content.
-/

namespace DesignTokens

/-! ## Places of paths -/

namespace Place

/-- Where one name leads, if a directory stands before it. -/
def go (place : Place) (name : String) : Place :=
  if name = "." then place else if name = ".." then place.up else place ++ [name]

/-- The one place that a path can lead to. -/
def ofPath (path : String) : Place :=
  (FileTree.names path).foldl go []

example : ofPath "./dist/../dist//tokens.css" = ["dist", "tokens.css"] := by decide

end Place

namespace FileTree

/-- The content of the file at a place. -/
def fileAt? (tree : FileTree) (place : Place) : Option ByteArray :=
  match tree.inode? place with
  | some (.file content) => some content
  | _ => none

/-- At most the contents at some places are other than before. -/
def ChangesOnly (places : List Place) (before after : FileTree) : Prop :=
  ∀ place, place ∉ places → after.fileAt? place = before.fileAt? place

theorem ChangesOnly.refl (places : List Place) (tree : FileTree) : ChangesOnly places tree tree :=
  fun _ _ => rfl

theorem ChangesOnly.trans {places : List Place} {a b c : FileTree} (h₁ : ChangesOnly places a b)
    (h₂ : ChangesOnly places b c) : ChangesOnly places a c :=
  fun place hmem => (h₂ place hmem).trans (h₁ place hmem)

theorem ChangesOnly.mono {places more : List Place} {before after : FileTree}
    (h : ChangesOnly places before after) (hsub : ∀ place ∈ places, place ∈ more) :
    ChangesOnly more before after :=
  fun place hmem => h place (fun hplace => hmem (hsub place hplace))

theorem Extends.content? {a b : FileTree} (h : Extends a b) {path : String} {content : ByteArray}
    (hcontent : a.content? path = some content) : b.content? path = some content := by
  obtain ⟨place, hlocate, hinode⟩ := content?_eq_some_iff.1 hcontent
  exact content?_eq_some_iff.2 ⟨place, h.grows.locate_ok hlocate, h.inode hinode⟩

/-- The place that a path leads to. -/
def place? (tree : FileTree) (path : String) : Option Place :=
  (tree.locate path).toOption

theorem place?_eq_some_iff {tree : FileTree} {path : String} {place : Place} :
    tree.place? path = some place ↔ tree.locate path = .ok place := by
  unfold place?
  cases tree.locate path <;> simp [Except.toOption]

/-- A write changes what is read through the paths to its place only. -/
theorem content?_of_writeBytes {tree after : FileTree} {path other : String} {old new : ByteArray}
    (hold : tree.content? path = some old) (h : tree.writeBytes other new = some after) :
    after.content? path = some (if after.place? path = after.place? other then new else old) := by
  have hgrows := writeBytes_grows h
  obtain ⟨place, hlocate, hinode⟩ := content?_eq_some_iff.1 hold
  obtain ⟨target, htarget, hdir, rfl⟩ := writeBytes_eq_some h
  have hplace := hgrows.locate_ok hlocate
  refine content?_eq_some_iff.2 ⟨place, hplace, ?_⟩
  rw [place?_eq_some_iff.2 hplace, place?_eq_some_iff.2 (hgrows.locate_ok htarget), inode?_put]
  by_cases heq : place = target
  · subst heq
    rw [if_pos ⟨rfl, isFixed_of_not_directory hdir⟩, if_pos rfl]
  · rw [if_neg (fun hboth => heq hboth.1), if_neg (fun hsome => heq (Option.some.inj hsome)), hinode]

/-- Where a file is read one can be written. -/
theorem writeBytes_ne_none {tree : FileTree} {path other : String} {old new : ByteArray}
    (hold : tree.content? path = some old) (h : tree.place? path = tree.place? other) :
    tree.writeBytes other new ≠ none := by
  obtain ⟨place, hlocate, hinode⟩ := content?_eq_some_iff.1 hold
  rw [place?_eq_some_iff.2 hlocate] at h
  intro hwrite
  have hdir := directory_of_writeBytes (place?_eq_some_iff.1 h.symm) hwrite
  rw [hinode] at hdir
  cases hdir

/-- Nothing is reached through a directory that cannot be made. -/
theorem place?_join_eq_none {tree made : FileTree} {directory file : String}
    (hslash : '/' ∉ file.toList) (hne : file ≠ "")
    (h : tree.makeDirectories directory = (made, false)) :
    made.place? (Path.join directory file) = none := by
  cases hplace : made.place? (Path.join directory file) with
  | none => rfl
  | some place =>
      obtain ⟨-, hpath, hwalk⟩ := locate_ok (place?_eq_some_iff.1 hplace)
      have hrel : Path.isAbsolute file = false := by
        rw [Path.isAbsolute, decide_eq_false_iff_not]
        intro hhead
        exact hslash (List.mem_of_head? hhead)
      obtain ⟨tail, htail⟩ := exists_join_eq_append hrel directory
      obtain ⟨slash, -, hlookup⟩ := exists_lookupNames_eq (Path.join directory file)
      rw [htail] at hpath
      rw [makeDirectories, if_pos (isPath_of_append hpath)] at h
      have hmore : file :: slash ≠ [] := by simp
      obtain ⟨e, herror, -⟩ := walk_error_of_makeAlong (inode?_start tree) h hmore
      rw [hlookup, names_join hslash hne, List.append_assoc, List.singleton_append, herror] at hwalk
      cases hwalk

end FileTree

end DesignTokens
