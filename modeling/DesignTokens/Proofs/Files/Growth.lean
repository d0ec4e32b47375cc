import DesignTokens.Files.Tree

/-!
# Growing file trees

No operation of a build takes a directory away or puts one where a file stands. Whatever a path leads
to therefore stays where it is, and a path that is blocked stays blocked; only a path through something
that is missing can come to lead somewhere.
-/

namespace DesignTokens

/-- Taking entries out does not change what other keys hold. -/
theorem lookup_filter_ne {α β : Type} [BEq α] [LawfulBEq α] [DecidableEq α] {entries : List (α × β)}
    {key other : α} (h : other ≠ key) :
    (entries.filter (fun entry => entry.1 ≠ key)).lookup other = entries.lookup other := by
  induction entries with
  | nil => rfl
  | cons entry rest ih =>
      obtain ⟨found, value⟩ := entry
      by_cases hfound : found = key
      · have hne : other ≠ found := fun heq => h (heq.trans hfound)
        simp [hfound, List.lookup_cons, beq_false_of_ne h, ← ih]
      · by_cases hother : other = found
        · simp [hfound, hother]
        · simp [hfound, List.lookup_cons, beq_false_of_ne hother, ← ih]

namespace FileTree

/-- `b` has the directories of `a`, and files wherever `a` has some. -/
structure Grows (a b : FileTree) : Prop where
  directory : ∀ {place : Place}, a.inode? place = some .directory → b.inode? place = some .directory
  file : ∀ {place : Place} {content : ByteArray}, a.inode? place = some (.file content) →
    ∃ later, b.inode? place = some (.file later)

theorem Grows.refl (tree : FileTree) : Grows tree tree :=
  ⟨fun h => h, fun h => ⟨_, h⟩⟩

theorem Grows.trans {a b c : FileTree} (h₁ : Grows a b) (h₂ : Grows b c) : Grows a c := by
  constructor
  · intro place h
    exact h₂.directory (h₁.directory h)
  · intro place content h
    obtain ⟨_, hb⟩ := h₁.file h
    exact h₂.file hb

/-- `b` has everything that `a` has, files with their content. -/
structure Extends (a b : FileTree) : Prop where
  inode : ∀ {place : Place} {inode : Inode}, a.inode? place = some inode → b.inode? place = some inode

theorem Extends.refl (tree : FileTree) : Extends tree tree :=
  ⟨fun h => h⟩

theorem Extends.trans {a b c : FileTree} (h₁ : Extends a b) (h₂ : Extends b c) : Extends a c :=
  ⟨fun h => h₂.inode (h₁.inode h)⟩

theorem Extends.grows {a b : FileTree} (h : Extends a b) : Grows a b :=
  ⟨fun hdir => h.inode hdir, fun hfile => ⟨_, h.inode hfile⟩⟩

/-! ## One inode -/

theorem inode?_put (tree : FileTree) (place other : Place) (inode : Inode) :
    (tree.put place inode).inode? other =
      if other = place ∧ place.isFixed = false then some inode else tree.inode? other := by
  by_cases hother : other = place
  · subst hother
    cases hfixed : Place.isFixed other <;> simp [inode?, put, hfixed]
  · simp only [hother, false_and, if_false]
    unfold inode? put
    simp only [List.lookup_cons, beq_false_of_ne hother, lookup_filter_ne hother]

theorem isFixed_of_not_directory {tree : FileTree} {place : Place}
    (h : tree.inode? place ≠ some .directory) : place.isFixed = false := by
  cases hfixed : place.isFixed with
  | false => rfl
  | true => exact absurd (by simp [inode?, hfixed]) h

theorem grows_put_file {tree : FileTree} {place : Place} (content : ByteArray)
    (h : tree.inode? place ≠ some .directory) : Grows tree (tree.put place (.file content)) := by
  have hfixed := isFixed_of_not_directory h
  constructor
  · intro other hother
    have hne : other ≠ place := fun heq => h (heq ▸ hother)
    rw [inode?_put, if_neg (fun hboth => hne hboth.1), hother]
  · intro other found hother
    rw [inode?_put]
    by_cases heq : other = place
    · exact ⟨content, by rw [if_pos ⟨heq, hfixed⟩]⟩
    · exact ⟨found, by rw [if_neg (fun hboth => heq hboth.1), hother]⟩

theorem extends_put_directory {tree : FileTree} {place : Place} (h : tree.inode? place = none) :
    Extends tree (tree.put place .directory) := by
  constructor
  intro other inode hother
  have hne : other ≠ place := by
    intro heq
    rw [heq, h] at hother
    cases hother
  rw [inode?_put, if_neg (fun hboth => hne hboth.1), hother]

/-! ## Walks along names -/

/-- Where names lead from a place. -/
def walk (tree : FileTree) (place : Place) (names : List String) : Except ReadFailure Place :=
  names.foldlM tree.step place

theorem walk_cons (tree : FileTree) (place : Place) (name : String) (names : List String) :
    tree.walk place (name :: names) = (tree.step place name).bind (fun next => tree.walk next names) :=
  rfl

theorem walk_append (tree : FileTree) (place : Place) (first second : List String) :
    tree.walk place (first ++ second) =
      (tree.walk place first).bind (fun next => tree.walk next second) := by
  induction first generalizing place with
  | nil => rfl
  | cons name rest ih =>
      rw [List.cons_append, walk_cons, walk_cons]
      cases tree.step place name with
      | error e => rfl
      | ok next => exact ih next

theorem walk_append_of_ok {tree : FileTree} {place target : Place} {first : List String}
    (h : tree.walk place first = .ok target) (second : List String) :
    tree.walk place (first ++ second) = tree.walk target second := by
  rw [walk_append, h]
  rfl

theorem directory_of_step {tree : FileTree} {place next : Place} {name : String}
    (h : tree.step place name = .ok next) : tree.inode? place = some .directory := by
  unfold step at h
  cases hinode : tree.inode? place with
  | none => simp [hinode] at h
  | some inode =>
      cases inode with
      | file content => simp [hinode] at h
      | directory => rfl

/-- One step depends on nothing but whether it starts from a directory or a file. -/
theorem step_congr {a b : FileTree} {place : Place} (h : a.inode? place = some .directory)
    (h' : b.inode? place = some .directory) (name : String) : a.step place name = b.step place name := by
  simp only [step, h, h']

theorem step_file {tree : FileTree} {place : Place} {content : ByteArray}
    (h : tree.inode? place = some (.file content)) (name : String) :
    tree.step place name = .error .blocked := by
  simp [step, h]

/-- A step from a directory fails on a name that is too long only. -/
theorem step_error_of_directory {tree : FileTree} {place : Place} {name : String} {e : ReadFailure}
    (hdir : tree.inode? place = some .directory) (h : tree.step place name = .error e) :
    e = .blocked := by
  simp only [step, hdir] at h
  split at h
  · cases h
  · split at h
    · cases h
    · split at h
      · cases h
      · cases h
        rfl

theorem step_dot {tree : FileTree} {place : Place} (h : tree.inode? place = some .directory) :
    tree.step place "." = .ok place := by
  simp [step, h]

theorem Grows.step_ok {a b : FileTree} (h : Grows a b) {place next : Place} {name : String}
    (hstep : a.step place name = .ok next) : b.step place name = .ok next := by
  have hdir := directory_of_step hstep
  rw [← step_congr hdir (h.directory hdir), hstep]

theorem Grows.step_blocked {a b : FileTree} (h : Grows a b) {place : Place} {name : String}
    (hstep : a.step place name = .error .blocked) : b.step place name = .error .blocked := by
  cases hinode : a.inode? place with
  | none => simp [step, hinode] at hstep
  | some inode =>
      cases inode with
      | file content =>
          obtain ⟨later, hlater⟩ := h.file hinode
          exact step_file hlater name
      | directory => rw [← step_congr hinode (h.directory hinode), hstep]

theorem Grows.walk_ok {a b : FileTree} (h : Grows a b) {names : List String} {place target : Place}
    (hwalk : a.walk place names = .ok target) : b.walk place names = .ok target := by
  induction names generalizing place with
  | nil => exact hwalk
  | cons name rest ih =>
      rw [walk_cons] at hwalk ⊢
      cases hstep : a.step place name with
      | error e => simp [hstep, Except.bind] at hwalk
      | ok next =>
          rw [hstep] at hwalk
          rw [h.step_ok hstep]
          exact ih hwalk

theorem Grows.walk_blocked {a b : FileTree} (h : Grows a b) {names : List String} {place : Place}
    (hwalk : a.walk place names = .error .blocked) : b.walk place names = .error .blocked := by
  induction names generalizing place with
  | nil => cases hwalk
  | cons name rest ih =>
      rw [walk_cons] at hwalk ⊢
      cases hstep : a.step place name with
      | error e =>
          simp only [hstep, Except.bind, Except.error.injEq] at hwalk
          subst hwalk
          rw [h.step_blocked hstep]
          rfl
      | ok next =>
          rw [hstep] at hwalk
          rw [h.step_ok hstep]
          exact ih hwalk

/-- Only a directory can be followed by dots, and they lead nowhere else. -/
theorem walk_dots {tree : FileTree} {names : List String} (hdots : ∀ name ∈ names, name = ".")
    {place target : Place} (h : tree.walk place names = .ok target) (hne : names ≠ []) :
    target = place ∧ tree.inode? place = some .directory := by
  induction names with
  | nil => exact absurd rfl hne
  | cons name rest ih =>
      have hname := hdots name List.mem_cons_self
      subst hname
      rw [walk_cons] at h
      cases hstep : tree.step place "." with
      | error e => simp [hstep, Except.bind] at h
      | ok next =>
          have hdir := directory_of_step hstep
          rw [step_dot hdir] at hstep
          cases hstep
          rw [step_dot hdir] at h
          by_cases hrest : rest = []
          · subst hrest
            cases h
            exact ⟨rfl, hdir⟩
          · exact ih (fun other hmem => hdots other (List.mem_cons_of_mem _ hmem)) h hrest

theorem walk_dots_of_directory {tree : FileTree} {names : List String}
    (hdots : ∀ name ∈ names, name = ".") {place : Place} (h : tree.inode? place = some .directory) :
    tree.walk place names = .ok place := by
  induction names with
  | nil => rfl
  | cons name rest ih =>
      have hname := hdots name List.mem_cons_self
      subst hname
      rw [walk_cons, step_dot h]
      exact ih (fun other hmem => hdots other (List.mem_cons_of_mem _ hmem))

/-! ## Making directories -/

theorem makeAlong_extends (names : List String) (place : Place) (tree : FileTree) :
    Extends tree (makeAlong names place tree).1 := by
  induction names generalizing place tree with
  | nil => exact Extends.refl tree
  | cons name rest ih =>
      unfold makeAlong
      cases tree.step place name with
      | error e => exact Extends.refl tree
      | ok next =>
          cases hinode : tree.inode? next with
          | none =>
              simp only [hinode]
              split
              · exact Extends.refl tree
              · exact (extends_put_directory hinode).trans (ih next _)
          | some inode =>
              cases inode with
              | directory => simpa [hinode] using ih next tree
              | file content => simpa [hinode] using Extends.refl tree

theorem makeDirectories_extends (tree : FileTree) (path : String) :
    Extends tree (tree.makeDirectories path).1 := by
  unfold makeDirectories
  split
  · exact makeAlong_extends _ _ _
  · exact Extends.refl tree

theorem put_directory_of_missing {tree : FileTree} {place : Place} (h : tree.inode? place = none) :
    (tree.put place .directory).inode? place = some .directory := by
  have hne : tree.inode? place ≠ some .directory := by simp [h]
  rw [inode?_put, if_pos ⟨rfl, isFixed_of_not_directory hne⟩]

/-- Directories that were made can be walked along. -/
theorem walk_of_makeAlong {names : List String} {place : Place} {tree after : FileTree}
    (hdir : tree.inode? place = some .directory) (h : makeAlong names place tree = (after, true)) :
    ∃ target, after.walk place names = .ok target ∧ after.inode? target = some .directory := by
  induction names generalizing place tree with
  | nil =>
      cases h
      exact ⟨place, rfl, hdir⟩
  | cons name rest ih =>
      have hgrows := (makeAlong_extends (name :: rest) place tree).grows
      rw [h] at hgrows
      unfold makeAlong at h
      cases hstep : tree.step place name with
      | error e => simp [hstep] at h
      | ok next =>
          simp only [hstep] at h
          rw [walk_cons, hgrows.step_ok hstep]
          cases hinode : tree.inode? next with
          | none =>
              simp only [hinode] at h
              split at h
              · cases h
              · exact ih (put_directory_of_missing hinode) h
          | some inode =>
              cases inode with
              | directory => exact ih hinode (by simpa [hinode] using h)
              | file content => simp [hinode] at h

theorem endsWithin_eq_false {name : String} {rest : List String}
    (h : (name :: rest).tail = [] ∨ (name :: rest).getLast? ≠ some ".") : endsWithin rest = false := by
  cases hlast : rest.getLast? with
  | none =>
      rw [List.getLast?_eq_none_iff] at hlast
      simp [endsWithin, hlast]
  | some last =>
      have hmem := List.mem_of_getLast? hlast
      have hne : rest ≠ [] := List.ne_nil_of_mem hmem
      have hdot : last ≠ "." := by
        rcases h with h | h
        · exact absurd h hne
        · rintro rfl
          exact h (by rw [List.getLast?_cons_of_ne_nil hne, hlast])
      have hall : rest.all (· = ".") = false := by
        rw [List.all_eq_false]
        exact ⟨last, hmem, by simpa using hdot⟩
      simp [endsWithin, hall]

theorem ends_tail {name : String} {rest : List String}
    (h : (name :: rest).tail = [] ∨ (name :: rest).getLast? ≠ some ".") :
    rest.tail = [] ∨ rest.getLast? ≠ some "." := by
  by_cases hnil : rest = []
  · subst hnil
    exact .inl rfl
  · refine .inr ?_
    rw [List.getLast?_cons_of_ne_nil hnil] at h
    exact h.resolve_left hnil

theorem step_missing {tree : FileTree} {place : Place} (h : tree.inode? place = none) (name : String) :
    tree.step place name = .error .missing := by
  simp [step, h]

/-- Where directories cannot be made, no longer path leads anywhere, and if the directory is not named
by a dot the way is blocked for good. -/
theorem walk_error_of_makeAlong {names : List String} {place : Place} {tree after : FileTree}
    (hdir : tree.inode? place = some .directory) (h : makeAlong names place tree = (after, false))
    {more : List String} (hmore : more ≠ []) :
    ∃ e, after.walk place (names ++ more) = .error e ∧
      (names.tail = [] ∨ names.getLast? ≠ some "." → e = .blocked) := by
  induction names generalizing place tree with
  | nil => cases h
  | cons name rest ih =>
      have hgrows := (makeAlong_extends (name :: rest) place tree).grows
      rw [h] at hgrows
      unfold makeAlong at h
      rw [List.cons_append, walk_cons]
      cases hstep : tree.step place name with
      | error e =>
          have he := step_error_of_directory hdir hstep
          subst he
          rw [hgrows.step_blocked hstep]
          exact ⟨.blocked, rfl, fun _ => rfl⟩
      | ok next =>
          simp only [hstep] at h
          rw [hgrows.step_ok hstep]
          show ∃ e, after.walk next (rest ++ more) = .error e ∧ _
          obtain ⟨first, others, hsplit⟩ :=
            List.exists_cons_of_ne_nil (List.append_ne_nil_of_right_ne_nil rest hmore)
          cases hinode : tree.inode? next with
          | none =>
              simp only [hinode] at h
              cases hwithin : endsWithin rest with
              | true =>
                  rw [hwithin] at h
                  cases h
                  refine ⟨.missing, ?_, ?_⟩
                  · rw [hsplit, walk_cons, step_missing hinode]
                    rfl
                  · intro hend
                    rw [endsWithin_eq_false hend] at hwithin
                    cases hwithin
              | false =>
                  rw [hwithin, if_neg Bool.false_ne_true] at h
                  obtain ⟨e, hwalk, he⟩ := ih (put_directory_of_missing hinode) h
                  exact ⟨e, hwalk, fun hend => he (ends_tail hend)⟩
          | some inode =>
              cases inode with
              | directory =>
                  obtain ⟨e, hwalk, he⟩ := ih hinode (by simpa [hinode] using h)
                  exact ⟨e, hwalk, fun hend => he (ends_tail hend)⟩
              | file content =>
                  obtain ⟨later, hlater⟩ := hgrows.file hinode
                  refine ⟨.blocked, ?_, fun _ => rfl⟩
                  rw [hsplit, walk_cons, step_file hlater]
                  rfl

/-! ## Writing and reading -/

theorem locate_eq_walk {tree : FileTree} {path : String} (hne : path ≠ "") (hpath : isPath path = true) :
    tree.locate path = tree.walk [] (lookupNames path) := by
  simp [locate, walk, hne, hpath]

theorem locate_ok {tree : FileTree} {path : String} {place : Place}
    (h : tree.locate path = .ok place) :
    path ≠ "" ∧ isPath path = true ∧ tree.walk [] (lookupNames path) = .ok place := by
  unfold locate at h
  by_cases hne : path = ""
  · simp [hne] at h
  · cases hpath : isPath path with
    | false => simp [hne, hpath] at h
    | true => exact ⟨hne, rfl, by simpa [hne, hpath, walk] using h⟩

/-- A path that leads somewhere goes on leading there. -/
theorem Grows.locate_ok {a b : FileTree} (h : Grows a b) {path : String} {place : Place}
    (hlocate : a.locate path = .ok place) : b.locate path = .ok place := by
  obtain ⟨hne, hpath, hwalk⟩ := FileTree.locate_ok hlocate
  rw [locate_eq_walk hne hpath, h.walk_ok hwalk]

theorem writeBytes_eq_some {tree after : FileTree} {path : String} {content : ByteArray}
    (h : tree.writeBytes path content = some after) :
    ∃ place, tree.locate path = .ok place ∧ tree.inode? place ≠ some .directory ∧
      after = tree.put place (.file content) := by
  unfold writeBytes at h
  cases hlocate : tree.locate path with
  | error e => simp [hlocate] at h
  | ok place =>
      simp only [hlocate, isDirectory, decide_eq_true_eq] at h
      split at h
      · cases h
      · rename_i hdir
        cases h
        exact ⟨place, rfl, hdir, rfl⟩

theorem writeBytes_grows {tree after : FileTree} {path : String} {content : ByteArray}
    (h : tree.writeBytes path content = some after) : Grows tree after := by
  obtain ⟨place, _, hdir, rfl⟩ := writeBytes_eq_some h
  exact grows_put_file content hdir

/-- The content of the file at a path, if a file can be read there. -/
def content? (tree : FileTree) (path : String) : Option ByteArray :=
  (tree.read path).toOption

theorem content?_eq_some_iff {tree : FileTree} {path : String} {content : ByteArray} :
    tree.content? path = some content ↔
      ∃ place, tree.locate path = .ok place ∧ tree.inode? place = some (.file content) := by
  unfold content? read
  cases hlocate : tree.locate path with
  | error e => simp [bind, Except.bind, Except.toOption]
  | ok place =>
      simp only [bind, Except.bind, Except.ok.injEq, exists_eq_left']
      cases hinode : tree.inode? place with
      | none => simp [Except.toOption]
      | some inode => cases inode <;> simp [Except.toOption]

/-- What is written is read back. -/
theorem content?_writeBytes {tree after : FileTree} {path : String} {content : ByteArray}
    (h : tree.writeBytes path content = some after) : after.content? path = some content := by
  have hgrows := writeBytes_grows h
  obtain ⟨place, hlocate, hdir, rfl⟩ := writeBytes_eq_some h
  refine content?_eq_some_iff.2 ⟨place, hgrows.locate_ok hlocate, ?_⟩
  rw [inode?_put, if_pos ⟨rfl, isFixed_of_not_directory hdir⟩]

end FileTree

end DesignTokens
