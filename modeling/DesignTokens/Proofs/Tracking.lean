import DesignTokens.Proofs.Baseline
import DesignTokens.Proofs.Changes
import DesignTokens.Proofs.Files.Saving
import DesignTokens.Proofs.Snapshot.RoundTrip

/-!
# Tracking a baseline

Steps on one store, in any order. Every reported set of changes is the difference to what the store held
before the step, and after the step the store holds what the step saved, or what it held before. The
steps are told apart by what they do with the store only, so one law of stores carries all of them.
-/

namespace DesignTokens.Tracking

/-! ## Steps -/

/-- One operation on a store, on the snapshot of a config. -/
inductive Step where
  | compile (config : Config) (policy : ChangePolicy) (layout : Layout)
  | track (config : Config) (policy : ChangePolicy)
  | detect (config : Config) (policy : ChangePolicy)
  | commit (config : Config)
  | save (config : Config)
  | load

namespace Step

def config? : Step → Option Config
  | .compile config _ _ => some config
  | .track config _ => some config
  | .detect config _ => some config
  | .commit config => some config
  | .save config => some config
  | .load => none

/-- The policy of a step that reports changes. -/
def policy? : Step → Option ChangePolicy
  | .compile _ policy _ => some policy
  | .track _ policy => some policy
  | .detect _ policy => some policy
  | _ => none

def saves : Step → Bool
  | .detect _ _ => false
  | .load => false
  | _ => true

/-- The snapshot of the step's config, unless interning fails. -/
def snapshot? (step : Step) : Option Snapshot :=
  step.config?.bind (fun config =>
    (config.intern config.build.unknownKeys).toOption.map (Snapshot.capture config))

end Step

inductive Answer where
  /-- Interning failed. -/
  | refused (unknown : UnknownKey)
  | built (output : BuildOutput)
  | reported (changes : ChangeSet)
  | committed
  | saved (result : Except StoreError Unit)
  | loaded (result : Except StoreError (Option Snapshot))

namespace Answer

def changes? : Answer → Option ChangeSet
  | .built output => some output.changes
  | .reported changes => some changes
  | _ => none

def isRefused : Answer → Bool
  | .refused _ => true
  | _ => false

end Answer

section

variable {m : Type → Type} [Monad m]

def onSnapshot (config : Config) (next : Snapshot → m Answer) : m Answer :=
  match config.intern config.build.unknownKeys with
  | .error unknown => pure (.refused unknown)
  | .ok table => next (Snapshot.capture config table)

def perform (store : SnapshotStore m) : Step → m Answer
  | .compile config policy layout => do
      let built ← Build.compile store config policy layout
      match built.value with
      | .error unknown => pure (.refused unknown)
      | .ok output => pure (.built output)
  | .track config policy => onSnapshot config (fun current => do
      let tracked ← Baseline.track store current policy
      pure (.reported tracked.value))
  | .detect config policy => onSnapshot config (fun current => do
      let detected ← Baseline.detect store current policy
      pure (.reported detected.value))
  | .commit config => onSnapshot config (fun current => do
      let _ ← Baseline.commit store current
      pure .committed)
  | .save config => onSnapshot config (fun current => do
      let result ← store.save current
      pure (.saved result))
  | .load => do
      let result ← store.load
      pure (.loaded result)

end

variable {σ : Type}

/-- A step with its answer, between the states before and after it. -/
structure Passage (σ : Type) where
  before : σ
  step : Step
  answer : Answer
  after : σ

/-- The passages of a run, in order. -/
def passages (store : SnapshotStore (StateM σ)) : σ → List Step → List (Passage σ)
  | _, [] => []
  | before, step :: rest =>
      let (answer, after) := (perform store step).run before
      ⟨before, step, answer, after⟩ :: passages store after rest

/-! ## Lawful stores -/

/-- What a store does to the snapshot that it holds. The snapshot that is saved holds no unknown keys,
which is so for every captured one. -/
structure Lawful (store : SnapshotStore (StateM σ)) (held : σ → Option Snapshot) : Prop where
  load : ∀ s, ∃ loaded, store.load.run s = (loaded, s) ∧ Baseline.known loaded = held s
  save_ok : ∀ {snapshot : Snapshot} {before after : σ}, snapshot.IsKnown →
    (store.save snapshot).run before = (.ok (), after) → held after = some snapshot
  save_error : ∀ {snapshot : Snapshot} {before after : σ} {e : StoreError},
    (store.save snapshot).run before = (.error e, after) → held after = held before

theorem lawful_memory : Lawful SnapshotStore.memory id where
  load s := ⟨.ok s, rfl, rfl⟩
  save_ok := by
    intro snapshot before after _ h
    cases h
    rfl
  save_error := by
    intro snapshot before after e h
    cases h

/-- A file access that keeps a file: reading changes nothing, what was written is there, and a failing
save leaves the file as it was. -/
structure KeepsFile (files : FileAccess (StateM σ)) (path : String) (content : σ → Option ByteArray) :
    Prop where
  read : ∀ s, ∃ found, (files.read path).run s = (found, s) ∧ found.toOption = content s
  written : ∀ {text : String} {before after : σ},
    (files.write path text).run before = (true, after) → content after = some text.toUTF8
  failed : ∀ {snapshot : Snapshot} {before after : σ} {e : StoreError},
    ((SnapshotStore.file files path).save snapshot).run before = (.error e, after) →
      content after = content before

theorem KeepsFile.lawful {files : FileAccess (StateM σ)} {path : String}
    {content : σ → Option ByteArray} (h : KeepsFile files path content) :
    Lawful (SnapshotStore.file files path) (fun s => (content s).bind Snapshot.ofBytes?) where
  load s := by
    obtain ⟨found, hread, hfound⟩ := h.read s
    obtain ⟨loaded, hload, hknown⟩ := Baseline.load_run hread
    exact ⟨loaded, hload, by rw [hknown, hfound]⟩
  save_ok := by
    intro snapshot before after hknown hsave
    obtain ⟨between, hwrite⟩ := Baseline.write_of_save_ok hsave
    simp only [h.written hwrite, Option.bind_some, Snapshot.ofBytes?, Snapshot.fromUTF8?_toUTF8,
      Snapshot.parse?_render hknown]
  save_error := by
    intro snapshot before after e hsave
    simp only [h.failed hsave]

theorem keepsFile_access (path : String) :
    KeepsFile FileTree.access path (fun tree => tree.content? path) where
  read tree := ⟨tree.read path, FileTree.run_read tree path, rfl⟩
  written := by
    intro text before after h
    rw [FileTree.run_write] at h
    cases hwrite : before.writeBytes path text.toUTF8 with
    | none =>
        rw [hwrite] at h
        cases h
    | some changed =>
        rw [hwrite] at h
        cases h
        exact FileTree.content?_writeBytes hwrite
  failed := by
    intro snapshot before after e h
    have hbarred := FileTree.barred_of_save_error h
    rw [hbarred.content?_eq, FileTree.content?_eq_none_of_grows (FileTree.save_grows h) hbarred]

/-! ## One step -/

/-- What a step reports, and what it leaves in the store. -/
structure Correct (store : SnapshotStore (StateM σ)) (held : σ → Option Snapshot) (p : Passage σ) :
    Prop where
  reports : p.answer.changes? = p.step.policy?.bind (fun policy =>
    p.step.snapshot?.map (fun current => Changes.diff current (held p.before) policy))
  refuses : p.answer.isRefused = true ↔ p.step.config?.isSome = true ∧ p.step.snapshot? = none
  keeps : p.step.saves = false ∨ p.step.snapshot? = none → p.after = p.before
  saved : ∀ current, p.step.saves = true → p.step.snapshot? = some current →
    ((store.save current).run p.before).1 = .ok () → held p.after = some current
  failed : ∀ current e, p.step.saves = true → p.step.snapshot? = some current →
    ((store.save current).run p.before).1 = .error e → held p.after = held p.before

/-- The step with what became of it. -/
def passage (store : SnapshotStore (StateM σ)) (before : σ) (step : Step) : Passage σ :=
  ⟨before, step, ((perform store step).run before).1, ((perform store step).run before).2⟩

theorem isKnown_of_snapshot? {step : Step} {current : Snapshot} (h : step.snapshot? = some current) :
    current.IsKnown := by
  obtain ⟨config, -, hcapture⟩ := Option.bind_eq_some_iff.1 h
  obtain ⟨table, -, rfl⟩ := Option.map_eq_some_iff.1 hcapture
  exact Snapshot.isKnown_capture config table

section Interned

variable {store : SnapshotStore (StateM σ)} {held : σ → Option Snapshot} (before : σ)
  {config : Config} {table : VariableTable} {unknown : UnknownKey}

/-- A step whose interning fails says so and does nothing. -/
theorem perform_refused {step : Step} (hconfig : step.config? = some config)
    (hintern : config.intern config.build.unknownKeys = .error unknown) :
    (perform store step).run before = (.refused unknown, before) := by
  cases step with
  | compile found policy layout =>
      cases hconfig
      simp only [perform, run_bind_eq (Build.compile_run_error hintern store before policy layout)]
      rfl
  | load => cases hconfig
  | _ =>
      cases hconfig
      simp only [perform, onSnapshot, hintern]
      rfl

theorem perform_compile (h : Lawful store held)
    (hintern : config.intern config.build.unknownKeys = .ok table) (policy : ChangePolicy)
    (layout : Layout) :
    (perform store (.compile config policy layout)).run before =
      (.built (Build.output config table
        (Changes.diff (Snapshot.capture config table) (held before) policy) layout),
        ((store.save (Snapshot.capture config table)).run before).2) := by
  obtain ⟨loaded, hload, hheld⟩ := h.load before
  rcases hsave : (store.save (Snapshot.capture config table)).run before with ⟨saved, after⟩
  obtain ⟨events, hrun⟩ := Build.compile_run hintern hload hsave policy layout
  rw [hheld] at hrun
  simp only [perform, run_bind_eq hrun]
  rfl

/-- A step on an interned config reports the changes of its snapshot, and saves the snapshot if it saves
at all. -/
theorem perform_interned {step : Step} (h : Lawful store held) (hconfig : step.config? = some config)
    (hintern : config.intern config.build.unknownKeys = .ok table) :
    ∃ answer, (perform store step).run before = (answer, if step.saves then
        ((store.save (Snapshot.capture config table)).run before).2 else before) ∧
      answer.isRefused = false ∧ answer.changes? = step.policy?.map (fun policy =>
        Changes.diff (Snapshot.capture config table) (held before) policy) := by
  obtain ⟨loaded, hload, hheld⟩ := h.load before
  rcases hsave : (store.save (Snapshot.capture config table)).run before with ⟨saved, after⟩
  cases step with
  | compile found policy layout =>
      cases hconfig
      have hrun := perform_compile before h hintern policy layout
      rw [hsave] at hrun
      exact ⟨_, hrun, rfl, rfl⟩
  | track found policy =>
      cases hconfig
      obtain ⟨events, htrack⟩ := Baseline.track_run hload hsave policy
      rw [hheld] at htrack
      have hrun : (perform store (.track config policy)).run before = (.reported (Changes.diff
          (Snapshot.capture config table) (held before) policy), after) := by
        simp only [perform, onSnapshot, hintern, run_bind_eq htrack]
        rfl
      exact ⟨_, hrun, rfl, rfl⟩
  | detect found policy =>
      cases hconfig
      obtain ⟨events, hdetect⟩ := Baseline.detect_run hload (Snapshot.capture config table) policy
      rw [hheld] at hdetect
      have hrun : (perform store (.detect config policy)).run before = (.reported (Changes.diff
          (Snapshot.capture config table) (held before) policy), before) := by
        simp only [perform, onSnapshot, hintern, run_bind_eq hdetect]
        rfl
      exact ⟨_, hrun, rfl, rfl⟩
  | commit found =>
      cases hconfig
      obtain ⟨events, hcommit⟩ := Baseline.commit_run hsave
      have hrun : (perform store (.commit config)).run before = (.committed, after) := by
        simp only [perform, onSnapshot, hintern, run_bind_eq hcommit]
        rfl
      exact ⟨_, hrun, rfl, rfl⟩
  | save found =>
      cases hconfig
      have hrun : (perform store (.save config)).run before = (.saved saved, after) := by
        simp only [perform, onSnapshot, hintern, run_bind_eq hsave]
        rfl
      exact ⟨_, hrun, rfl, rfl⟩
  | load => cases hconfig

theorem perform_load (h : Lawful store held) :
    ∃ loaded, (perform store .load).run before = (.loaded loaded, before) := by
  obtain ⟨loaded, hload, -⟩ := h.load before
  refine ⟨loaded, ?_⟩
  simp only [perform, run_bind_eq hload]
  rfl

end Interned

/-- A step without a snapshot has nothing to report and leaves the state as it was. -/
theorem correct_of_no_snapshot {store : SnapshotStore (StateM σ)} {held : σ → Option Snapshot}
    {before : σ} {step : Step} {answer : Answer} (hrun : (perform store step).run before = (answer, before))
    (hnone : step.snapshot? = none) (hchanges : answer.changes? = none)
    (hrefused : answer.isRefused = step.config?.isSome) : Correct store held (passage store before step) := by
  unfold passage
  rw [hrun]
  constructor
  · rw [hchanges, hnone]
    cases step.policy? <;> rfl
  · simp [hrefused, hnone]
  · intro _
    rfl
  · intro _ _ hsome
    rw [hnone] at hsome
    cases hsome
  · intro _ _ _ hsome
    rw [hnone] at hsome
    cases hsome

/-- A step with a snapshot reports its changes, and saves it if it saves at all. -/
theorem correct_of_snapshot {store : SnapshotStore (StateM σ)} {held : σ → Option Snapshot}
    (h : Lawful store held) {before : σ} {step : Step} {answer : Answer} {current : Snapshot}
    (hrun : (perform store step).run before =
      (answer, if step.saves then ((store.save current).run before).2 else before))
    (hsome : step.snapshot? = some current)
    (hchanges : answer.changes? = step.policy?.map (fun policy => Changes.diff current (held before) policy))
    (hrefused : answer.isRefused = false) : Correct store held (passage store before step) := by
  unfold passage
  rw [hrun]
  rcases hsave : (store.save current).run before with ⟨saved, after⟩
  constructor
  · rw [hchanges, hsome]
    cases step.policy? <;> rfl
  · simp [hrefused, hsome]
  · intro hkeeps
    have hkept : step.saves = false := by simpa [hsome] using hkeeps
    simp [hkept]
  · intro other hsaves hother hok
    rw [hsome] at hother
    cases hother
    rw [hsave] at hok
    cases hok
    simpa [hsaves] using h.save_ok (isKnown_of_snapshot? hsome) hsave
  · intro other e hsaves hother herror
    rw [hsome] at hother
    cases hother
    rw [hsave] at herror
    cases herror
    simpa [hsaves] using h.save_error hsave

theorem correct_passage {store : SnapshotStore (StateM σ)} {held : σ → Option Snapshot}
    (h : Lawful store held) (before : σ) (step : Step) :
    Correct store held (passage store before step) := by
  cases hconfig : step.config? with
  | none =>
      have hload : step = .load := by
        cases step with
        | load => rfl
        | _ => cases hconfig
      subst hload
      obtain ⟨loaded, hrun⟩ := perform_load before h
      exact correct_of_no_snapshot hrun rfl rfl rfl
  | some config =>
      cases hintern : config.intern config.build.unknownKeys with
      | error unknown =>
          have hnone : step.snapshot? = none := by
            simp [Step.snapshot?, hconfig, hintern, Except.toOption]
          exact correct_of_no_snapshot (perform_refused before hconfig hintern) hnone rfl
            (by simp [hconfig, Answer.isRefused])
      | ok table =>
          have hsome : step.snapshot? = some (Snapshot.capture config table) := by
            simp [Step.snapshot?, hconfig, hintern, Except.toOption]
          obtain ⟨answer, hrun, hrefused, hchanges⟩ := perform_interned before h hconfig hintern
          exact correct_of_snapshot h hrun hsome hchanges hrefused

/-! ## Runs -/

theorem exists_eq_passage {store : SnapshotStore (StateM σ)} {initial : σ} {steps : List Step}
    {p : Passage σ} (h : p ∈ passages store initial steps) :
    ∃ before step, p = passage store before step := by
  induction steps generalizing initial with
  | nil => cases h
  | cons step rest ih =>
      rcases List.mem_cons.1 h with rfl | h
      · exact ⟨initial, step, rfl⟩
      · exact ih h

/-- Of two passages in a row the second one starts where the first one ended. -/
theorem exists_eq_passages {store : SnapshotStore (StateM σ)} {initial : σ} {steps : List Step}
    {first second : Passage σ} (h : [first, second] <:+: passages store initial steps) :
    ∃ before step next, first = passage store before step ∧
      second = passage store first.after next := by
  induction steps generalizing initial with
  | nil => simp [passages] at h
  | cons step rest ih =>
      rcases List.infix_cons_iff.1 h with hstart | hrest
      · obtain ⟨hfirst, hmore⟩ := List.cons_prefix_cons.1 hstart
        cases rest with
        | nil => simp [passages] at hmore
        | cons next others =>
            obtain ⟨hsecond, -⟩ := List.cons_prefix_cons.1 hmore
            refine ⟨initial, step, next, hfirst, ?_⟩
            rw [hsecond, hfirst]
            rfl
      · exact ih hrest

/-- What holds of a store over every run. -/
structure Tracks (store : SnapshotStore (StateM σ)) (held : σ → Option Snapshot) : Prop where
  correct : ∀ initial steps, ∀ p ∈ passages store initial steps, Correct store held p
  /-- A config that is compiled again at once, after its snapshot was saved, is unchanged. -/
  rebuilds : ∀ initial steps first second, [first, second] <:+: passages store initial steps →
    ∀ config policy later layout output current, first.step = .compile config policy layout →
      second.step = .compile config later layout → first.answer = .built output →
      first.step.snapshot? = some current → ((store.save current).run first.before).1 = .ok () →
      ∃ rebuilt, second.answer = .built rebuilt ∧ rebuilt.changes = .empty ∧ rebuilt.css = output.css

theorem rebuilt_unchanged {store : SnapshotStore (StateM σ)} {held : σ → Option Snapshot}
    (h : Lawful store held) {initial : σ} {steps : List Step} {first second : Passage σ}
    (hrow : [first, second] <:+: passages store initial steps) {config : Config}
    {policy later : ChangePolicy} {layout : Layout} {output : BuildOutput} {current : Snapshot}
    (hfirst : first.step = .compile config policy layout)
    (hsecond : second.step = .compile config later layout) (hbuilt : first.answer = .built output)
    (hcurrent : first.step.snapshot? = some current)
    (hsave : ((store.save current).run first.before).1 = .ok ()) :
    ∃ rebuilt, second.answer = .built rebuilt ∧ rebuilt.changes = .empty ∧
      rebuilt.css = output.css := by
  obtain ⟨before, step, next, rfl, rfl⟩ := exists_eq_passages hrow
  have hstep : step = .compile config policy layout := hfirst
  have hnext : next = .compile config later layout := hsecond
  subst hstep
  subst hnext
  have hheld := (correct_passage h before (.compile config policy layout)).saved current rfl hcurrent hsave
  obtain ⟨table, htable, hcapture⟩ := Option.map_eq_some_iff.1 hcurrent
  have hintern : config.intern config.build.unknownKeys = .ok table := by
    cases hresult : config.intern config.build.unknownKeys with
    | error unknown =>
        rw [hresult] at htable
        cases htable
    | ok found =>
        rw [hresult] at htable
        cases htable
        rfl
  have hanswer : (passage store before (.compile config policy layout)).answer = .built (Build.output
      config table (Changes.diff (Snapshot.capture config table) (held before) policy) layout) := by
    rw [passage, perform_compile before h hintern policy layout]
  rw [hanswer] at hbuilt
  cases hbuilt
  rw [← hcapture] at hheld
  have hagain := perform_compile (passage store before (.compile config policy layout)).after
    h hintern later layout
  rw [hheld, Changes.diff_self] at hagain
  refine ⟨Build.output config table .empty layout, ?_, rfl, rfl⟩
  show ((perform store (.compile config later layout)).run _).1 = _
  rw [hagain]

theorem Lawful.tracks {store : SnapshotStore (StateM σ)} {held : σ → Option Snapshot}
    (h : Lawful store held) : Tracks store held where
  correct := by
    intro initial steps p hmem
    obtain ⟨before, step, rfl⟩ := exists_eq_passage hmem
    exact correct_passage h before step
  rebuilds := by
    intro initial steps first second hrow config policy later layout output current hfirst hsecond
      hbuilt hcurrent hsave
    exact rebuilt_unchanged h hrow hfirst hsecond hbuilt hcurrent hsave

/-- Baselines are tracked in memory, in a file of a file tree, and in a file of any file access that
leaves the file as it was when a save fails. -/
theorem baseline_tracked :
    Tracks SnapshotStore.memory id ∧
      (∀ path, Tracks (SnapshotStore.file FileTree.access path)
        (fun tree => (tree.content? path).bind Snapshot.ofBytes?)) ∧
      ∀ (σ : Type) (files : FileAccess (StateM σ)) (path : String) (content : σ → Option ByteArray),
        KeepsFile files path content →
          Tracks (SnapshotStore.file files path) (fun s => (content s).bind Snapshot.ofBytes?) := by
  refine ⟨lawful_memory.tracks, ?_, ?_⟩
  · intro path
    exact (keepsFile_access path).lawful.tracks
  · intro σ files path content h
    exact h.lawful.tracks

/-- A file tree is a file access that keeps files. -/
theorem baseline_tracked_access :
    KeepsFile FileTree.access "snapshot.json" (fun tree => tree.content? "snapshot.json") ∧
      Tracks (SnapshotStore.file FileTree.access "snapshot.json")
        (fun tree => (tree.content? "snapshot.json").bind Snapshot.ofBytes?) := by
  have hkeeps := keepsFile_access "snapshot.json"
  exact ⟨hkeeps, baseline_tracked.2.2 FileTree FileTree.access "snapshot.json" _ hkeeps⟩

end DesignTokens.Tracking
