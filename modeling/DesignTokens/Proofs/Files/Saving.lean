import DesignTokens.Proofs.Baseline
import DesignTokens.Proofs.Files.Parents

/-!
# Saving a baseline in a file tree

A save either puts the snapshot at its path, or fails where no file could be read before and none can
be read later. A failed save may still leave new directories.
-/

namespace DesignTokens.FileTree

/-- No file can be read at a path, whatever is added to the tree. -/
def Barred (tree : FileTree) (path : String) : Prop :=
  ∀ later, Grows tree later → later.content? path = none

theorem Barred.content?_eq {tree : FileTree} {path : String} (h : tree.Barred path) :
    tree.content? path = none :=
  h tree (Grows.refl tree)

theorem Barred.mono {tree later : FileTree} {path : String} (h : tree.Barred path)
    (hgrows : Grows tree later) : later.Barred path :=
  fun _ hmore => h _ (hgrows.trans hmore)

/-- What can be read later could not have been missing for good. -/
theorem content?_eq_none_of_grows {tree later : FileTree} {path : String} (hgrows : Grows tree later)
    (h : later.Barred path) : tree.content? path = none := by
  cases hcontent : tree.content? path with
  | none => rfl
  | some content =>
      obtain ⟨place, hlocate, hinode⟩ := content?_eq_some_iff.1 hcontent
      obtain ⟨found, hfound⟩ := hgrows.file hinode
      have hlater : later.content? path = some found :=
        content?_eq_some_iff.2 ⟨place, hgrows.locate_ok hlocate, hfound⟩
      rw [h.content?_eq] at hlater
      cases hlater

theorem content?_eq_none_of_locate {tree : FileTree} {path : String} {e : ReadFailure}
    (h : tree.locate path = .error e) : tree.content? path = none := by
  simp [content?, read, h, bind, Except.bind, Except.toOption]

theorem barred_of_empty (tree : FileTree) : tree.Barred "" :=
  fun _ _ => content?_eq_none_of_locate (e := .missing) (by simp [locate])

theorem barred_of_not_isPath {tree : FileTree} {path : String} (h : isPath path = false) :
    tree.Barred path := by
  intro later _
  by_cases hne : path = ""
  · exact content?_eq_none_of_locate (e := .missing) (by simp [locate, hne])
  · exact content?_eq_none_of_locate (e := .blocked) (by simp [locate, hne, h])

theorem barred_of_walk_blocked {tree : FileTree} {path : String} (hne : path ≠ "")
    (hpath : isPath path = true) (h : tree.walk [] (lookupNames path) = .error .blocked) :
    tree.Barred path := by
  intro later hgrows
  exact content?_eq_none_of_locate (by rw [locate_eq_walk hne hpath, hgrows.walk_blocked h])

/-! ## Parents -/

theorem exists_lookupNames_eq (path : String) :
    ∃ slash, (∀ name ∈ slash, name = ".") ∧ lookupNames path = names path ++ slash := by
  unfold lookupNames
  split
  · exact ⟨["."], by simp, rfl⟩
  · exact ⟨[], by simp, rfl⟩

theorem makeDirectories_directoryOf (tree : FileTree) {path : String} (h : isPath path = true) :
    tree.makeDirectories (directoryOf path) = makeAlong (names (directoryOf path)) [] tree := by
  rw [makeDirectories, if_pos (isPath_directoryOf h)]

theorem inode?_start (tree : FileTree) : tree.inode? [] = some .directory := rfl

theorem directory_of_writeBytes {tree : FileTree} {path : String} {place : Place} {content : ByteArray}
    (hlocate : tree.locate path = .ok place) (h : tree.writeBytes path content = none) :
    tree.inode? place = some .directory := by
  simp only [writeBytes, hlocate, isDirectory, decide_eq_true_eq] at h
  split at h
  · assumption
  · cases h

/-- Where the directory of a path cannot be made, no file is read at the path. -/
theorem barred_of_makeDirectories {tree made : FileTree} {path : String}
    (h : tree.makeDirectories (directoryOf path) = (made, false)) : made.Barred path := by
  by_cases hne : path = ""
  · rw [hne]
    exact barred_of_empty made
  · cases hpath : isPath path with
    | false => exact barred_of_not_isPath hpath
    | true =>
        obtain ⟨before, last, after, hcont⟩ := exists_continues hne
        obtain ⟨slash, -, hlookup⟩ := exists_lookupNames_eq path
        rw [makeDirectories_directoryOf tree hpath] at h
        have hmore : before ++ last :: after ++ slash ≠ [] := by simp
        obtain ⟨e, hwalk, he⟩ := walk_error_of_makeAlong (inode?_start tree) h hmore
        refine barred_of_walk_blocked hne hpath ?_
        rw [hlookup, hcont.eq, List.append_assoc, hwalk, he hcont.ends]

/-- Where a path cannot be written though its directory is there, a directory stands or the last
name is too long. -/
theorem barred_of_writeBytes {tree made : FileTree} {path : String} {content : ByteArray}
    (h : tree.makeDirectories (directoryOf path) = (made, true))
    (hwrite : made.writeBytes path content = none) : made.Barred path := by
  by_cases hne : path = ""
  · rw [hne]
    exact barred_of_empty made
  cases hpath : isPath path with
  | false => exact barred_of_not_isPath hpath
  | true =>
      obtain ⟨before, last, after, hcont⟩ := exists_continues hne
      obtain ⟨slash, hslash, hlookup⟩ := exists_lookupNames_eq path
      rw [makeDirectories_directoryOf tree hpath] at h
      obtain ⟨target, hwalk, htarget⟩ := walk_of_makeAlong (inode?_start tree) h
      have hlast : ∀ later, Grows made later → later.walk [] (lookupNames path) =
          (made.step target last).bind (fun next => later.walk next (after ++ slash)) := by
        intro later hgrows
        have hdir := hgrows.directory htarget
        have hdots := walk_dots_of_directory hcont.dots_before hdir
        rw [hlookup, hcont.eq, List.append_assoc, walk_append_of_ok (hgrows.walk_ok hwalk),
          List.append_assoc, walk_append_of_ok hdots, List.cons_append, walk_cons,
          ← step_congr htarget hdir]
      cases hstep : made.step target last with
      | error e =>
          have he := step_error_of_directory htarget hstep
          subst he
          refine barred_of_walk_blocked hne hpath ?_
          rw [hlast made (Grows.refl made), hstep]
          rfl
      | ok next =>
          intro later hgrows
          cases hcontent : later.content? path with
          | none => rfl
          | some found =>
              obtain ⟨place, hlocate, hfile⟩ := content?_eq_some_iff.1 hcontent
              obtain ⟨-, -, hplace⟩ := locate_ok hlocate
              rw [hlast later hgrows, hstep] at hplace
              have hnext : place = next ∧ later.inode? next = some .directory := by
                by_cases hnil : after ++ slash = []
                · have hmade : made.locate path = .ok next := by
                    rw [locate_eq_walk hne hpath, hlast made (Grows.refl made), hstep, hnil]
                    rfl
                  rw [hnil] at hplace
                  cases hplace
                  exact ⟨rfl, hgrows.directory (directory_of_writeBytes hmade hwrite)⟩
                · refine walk_dots ?_ hplace hnil
                  intro name hname
                  rcases List.mem_append.1 hname with hname | hname
                  · exact hcont.dots_after name hname
                  · exact hslash name hname
              rw [hnext.1, hnext.2] at hfile
              cases hfile

/-! ## Saves -/

theorem run_makeDirectories (tree : FileTree) (path : String) :
    (access.makeDirectories path).run tree =
      ((tree.makeDirectories path).2, (tree.makeDirectories path).1) := rfl

/-- Nothing has to be made for a path without a directory. -/
theorem run_makeParent {tree made : FileTree} {path : String} {done : Bool}
    (h : tree.makeDirectories (directoryOf path) = (made, done)) :
    (if directoryOf path = "" then pure true else access.makeDirectories (directoryOf path)).run tree =
      (done, made) := by
  by_cases hdir : directoryOf path = ""
  · rw [hdir] at h
    rw [if_pos hdir]
    cases h
    rfl
  · rw [if_neg hdir, run_makeDirectories, h]

theorem run_write (tree : FileTree) (path text : String) :
    (access.write path text).run tree =
      match tree.writeBytes path text.toUTF8 with
      | some changed => (true, changed)
      | none => (false, tree) := rfl

/-- How a save goes: the directory first, then the text. -/
theorem save_cases {tree after : FileTree} {path : String} {snapshot : Snapshot}
    {result : Except StoreError Unit}
    (h : ((SnapshotStore.file access path).save snapshot).run tree = (result, after)) :
    (tree.makeDirectories (directoryOf path) = (after, false) ∧
        result = .error (.inaccessible (directoryOf path))) ∨
      ∃ made, tree.makeDirectories (directoryOf path) = (made, true) ∧
        ((made.writeBytes path snapshot.render.toUTF8 = some after ∧ result = .ok ()) ∨
          (made.writeBytes path snapshot.render.toUTF8 = none ∧ after = made ∧
            result = .error (.inaccessible path))) := by
  rcases hdir : tree.makeDirectories (directoryOf path) with ⟨made, done⟩
  have hmake := run_makeParent hdir
  unfold directoryOf at hmake
  simp only [SnapshotStore.file, run_bind_eq hmake] at h
  cases done with
  | false =>
      cases h
      exact Or.inl ⟨rfl, rfl⟩
  | true =>
      have hrun := run_write made path snapshot.render
      refine Or.inr ⟨made, rfl, ?_⟩
      cases hwrite : made.writeBytes path snapshot.render.toUTF8 with
      | none =>
          rw [hwrite] at hrun
          rw [if_pos rfl, run_bind_eq hrun] at h
          cases h
          exact Or.inr ⟨rfl, rfl, rfl⟩
      | some found =>
          rw [hwrite] at hrun
          rw [if_pos rfl, run_bind_eq hrun] at h
          cases h
          exact Or.inl ⟨rfl, rfl⟩

theorem save_grows {tree after : FileTree} {path : String} {snapshot : Snapshot}
    {result : Except StoreError Unit}
    (h : ((SnapshotStore.file access path).save snapshot).run tree = (result, after)) :
    Grows tree after := by
  have hmade := (makeDirectories_extends tree (directoryOf path)).grows
  rcases save_cases h with ⟨hdir, -⟩ | ⟨made, hdir, ⟨hwrite, -⟩ | ⟨-, rfl, -⟩⟩
  · rwa [hdir] at hmade
  · rw [hdir] at hmade
    exact hmade.trans (writeBytes_grows hwrite)
  · rwa [hdir] at hmade

/-- A save that succeeds leaves the text of the snapshot at its path. -/
theorem content?_of_save_ok {tree after : FileTree} {path : String} {snapshot : Snapshot}
    (h : ((SnapshotStore.file access path).save snapshot).run tree = (.ok (), after)) :
    after.content? path = some snapshot.render.toUTF8 := by
  rcases save_cases h with ⟨-, hresult⟩ | ⟨made, -, ⟨hwrite, -⟩ | ⟨-, -, hresult⟩⟩
  · cases hresult
  · exact content?_writeBytes hwrite
  · cases hresult

/-- A save fails only where there is no baseline and none can be written. -/
theorem barred_of_save_error {tree after : FileTree} {path : String} {snapshot : Snapshot}
    {e : StoreError}
    (h : ((SnapshotStore.file access path).save snapshot).run tree = (.error e, after)) :
    after.Barred path := by
  rcases save_cases h with ⟨hdir, -⟩ | ⟨made, hdir, ⟨-, hresult⟩ | ⟨hwrite, rfl, -⟩⟩
  · exact barred_of_makeDirectories hdir
  · cases hresult
  · exact barred_of_writeBytes hdir hwrite

/-! ## Loads -/

theorem run_read (tree : FileTree) (path : String) :
    (access.read path).run tree = (tree.read path, tree) := rfl

end DesignTokens.FileTree
