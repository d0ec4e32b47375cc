import DesignTokens.Build

/-!
# Runs of the baseline operations

Over any store that is a state, each operation is told by what the load and the save of the store do.
-/

namespace DesignTokens

variable {σ : Type}

/-- A run goes on from where its first step ended. -/
theorem run_bind_eq {α β : Type} {first : StateM σ α} {next : α → StateM σ β} {before after : σ}
    {a : α} (h : first.run before = (a, after)) :
    (first >>= next).run before = (next a).run after := by
  rw [StateT.run_bind, h]
  rfl

/-! ## Files -/

namespace FileAccess

/-- The text of what was read. Bytes that are no text count as blocked. -/
def textOf : Except ReadFailure ByteArray → Except ReadFailure String
  | .error e => .error e
  | .ok bytes =>
      match String.fromUTF8? bytes with
      | some text => .ok text
      | none => .error .blocked

variable {files : FileAccess (StateM σ)} {path : String} {s : σ}

theorem readText_run {found : Except ReadFailure ByteArray} (h : (files.read path).run s = (found, s)) :
    (files.readText path).run s = (textOf found, s) := by
  unfold readText textOf
  rw [run_bind_eq h]
  cases found with
  | error e => rfl
  | ok bytes =>
      cases htext : String.fromUTF8? bytes with
      | none => simp only [htext]; rfl
      | some text => simp only [htext]; rfl

end FileAccess

namespace Snapshot

/-- The snapshot in the bytes of a file. -/
def ofBytes? (bytes : ByteArray) : Option Snapshot :=
  (String.fromUTF8? bytes).bind parse?

theorem fromUTF8?_toUTF8 (text : String) : String.fromUTF8? text.toUTF8 = some text := by
  simp only [String.fromUTF8?, String.toUTF8_eq_toByteArray, dif_pos text.isValidUTF8]
  rfl

end Snapshot

/-! ## Operations -/

namespace Baseline

/-- What a load counts as; trouble with the baseline counts as no baseline. -/
def known : Except StoreError (Option Snapshot) → Option Snapshot
  | .ok previous => previous
  | .error _ => none

/-- A load from a file reads the file and leaves everything as it is. -/
theorem load_run {files : FileAccess (StateM σ)} {path : String} {s : σ}
    {found : Except ReadFailure ByteArray} (h : (files.read path).run s = (found, s)) :
    ∃ loaded, (SnapshotStore.file files path).load.run s = (loaded, s) ∧
      known loaded = found.toOption.bind Snapshot.ofBytes? := by
  simp only [SnapshotStore.file]
  rw [run_bind_eq (FileAccess.readText_run h)]
  cases found with
  | error e => cases e <;> exact ⟨_, rfl, rfl⟩
  | ok bytes =>
      simp only [FileAccess.textOf, Except.toOption, Option.bind_some, Snapshot.ofBytes?]
      cases String.fromUTF8? bytes with
      | none => exact ⟨_, rfl, rfl⟩
      | some text =>
          cases hparse : Snapshot.parse? text with
          | none => exact ⟨.error (.corrupt path), by simp only [hparse]; rfl, by simp [hparse, known]⟩
          | some snapshot =>
              exact ⟨.ok (some snapshot), by simp only [hparse]; rfl, by simp [hparse, known]⟩

/-- A save to a file that succeeds ends with writing the text of the snapshot. -/
theorem write_of_save_ok {files : FileAccess (StateM σ)} {path : String} {before after : σ}
    {snapshot : Snapshot}
    (h : ((SnapshotStore.file files path).save snapshot).run before = (.ok (), after)) :
    ∃ between, (files.write path snapshot.render).run between = (true, after) := by
  simp only [SnapshotStore.file] at h
  rcases hmake : (if (Path.parent? path).getD "" = "" then pure true
    else files.makeDirectories ((Path.parent? path).getD "")).run before with ⟨made, between⟩
  rw [run_bind_eq hmake] at h
  cases made with
  | false => cases h
  | true =>
      rcases hwrite : (files.write path snapshot.render).run between with ⟨written, last⟩
      rw [if_pos rfl, run_bind_eq hwrite] at h
      cases written with
      | false => cases h
      | true =>
          cases h
          exact ⟨between, hwrite⟩

variable {store : SnapshotStore (StateM σ)} {before after : σ}
  {loaded : Except StoreError (Option Snapshot)} {saved : Except StoreError Unit}

theorem detect_run (hload : store.load.run before = (loaded, before)) (current : Snapshot)
    (policy : ChangePolicy) :
    ∃ events, (detect store current policy).run before =
      (⟨Changes.diff current (known loaded) policy, events⟩, before) := by
  unfold detect
  rw [run_bind_eq hload]
  cases loaded with
  | ok previous => exact ⟨_, rfl⟩
  | error e => exact ⟨_, rfl⟩

theorem commit_run {current : Snapshot} (hsave : (store.save current).run before = (saved, after)) :
    ∃ events, (commit store current).run before = (⟨(), events⟩, after) := by
  unfold commit
  rw [run_bind_eq hsave]
  cases saved with
  | ok done => exact ⟨_, rfl⟩
  | error e => exact ⟨_, rfl⟩

theorem track_run {current : Snapshot} (hload : store.load.run before = (loaded, before))
    (hsave : (store.save current).run before = (saved, after)) (policy : ChangePolicy) :
    ∃ events, (track store current policy).run before =
      (⟨Changes.diff current (known loaded) policy, events⟩, after) := by
  obtain ⟨detected, hdetect⟩ := detect_run hload current policy
  obtain ⟨committed, hcommit⟩ := commit_run hsave
  unfold track
  rw [run_bind_eq hdetect, run_bind_eq hcommit]
  exact ⟨_, rfl⟩

end Baseline

namespace Build

variable {store : SnapshotStore (StateM σ)} {before after : σ}
  {loaded : Except StoreError (Option Snapshot)} {saved : Except StoreError Unit}

/-- What a build makes of a config and the changes since the baseline. -/
def output (config : Config) (table : VariableTable) (changes : ChangeSet) (layout : Layout) :
    BuildOutput where
  css := (Stylesheet.ofConfig config table).render layout
  docs := (Page.ofConfig config table changes cssFileName).html
  changes := changes
  variableCount := table.size

theorem compile_run {config : Config} {table : VariableTable}
    (hintern : config.intern config.build.unknownKeys = .ok table)
    (hload : store.load.run before = (loaded, before))
    (hsave : (store.save (Snapshot.capture config table)).run before = (saved, after))
    (policy : ChangePolicy) (layout : Layout) :
    ∃ events, (compile store config policy layout).run before =
      (⟨.ok (output config table
        (Changes.diff (Snapshot.capture config table) (Baseline.known loaded) policy) layout), events⟩,
        after) := by
  obtain ⟨detected, hdetect⟩ := Baseline.detect_run hload (Snapshot.capture config table) policy
  obtain ⟨committed, hcommit⟩ := Baseline.commit_run hsave
  simp only [compile, hintern]
  rw [run_bind_eq hdetect, run_bind_eq hcommit]
  exact ⟨_, rfl⟩

theorem compile_run_error {config : Config} {unknown : UnknownKey}
    (hintern : config.intern config.build.unknownKeys = .error unknown) (store : SnapshotStore (StateM σ))
    (before : σ) (policy : ChangePolicy) (layout : Layout) :
    (compile store config policy layout).run before = (⟨.error unknown, []⟩, before) := by
  simp only [compile, hintern]
  rfl

end Build

end DesignTokens
