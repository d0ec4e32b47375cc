import DesignTokens.Proofs.Snapshot.RoundTrip
import DesignTokens.Proofs.Tracking

/-!
# Stored snapshots

A snapshot that was saved to a file is loaded from it as it was. What is loaded tells of the config all
that was captured: every value as it was declared, and a tier that declares nothing apart from none.
-/

namespace DesignTokens

/-! ## What a snapshot keeps of a config -/

/-- A class as it is kept: the same values and the same tiers, without unknown keys. -/
structure ClassSpec.Keeps (kept spec : ClassSpec) : Prop where
  value? : ∀ slot, kept.value? slot = spec.value? slot
  /-- A tier is there even where it declares nothing. -/
  tier? : ∀ b, (kept.tier? b).isSome = (spec.tier? b).isSome
  unknownKeys : kept.unknownKeys = []

theorem ClassSpec.keeps_withoutUnknown (spec : ClassSpec) : spec.withoutUnknown.Keeps spec where
  value? := value?_withoutUnknown spec
  tier? := by
    intro b
    cases b with
    | mobile => exact Option.isSome_map
    | desktop => exact Option.isSome_map
  unknownKeys := by
    obtain ⟨_, _, _, _, mobile, desktop, _⟩ := spec
    cases mobile <;> cases desktop <;> rfl

namespace Snapshot

/-- What a snapshot tells of the config and the variables that it was captured from. -/
structure Keeps (snapshot : Snapshot) (config : Config) (table : VariableTable) : Prop where
  breakpoints : snapshot.breakpoints = config.breakpoints
  fontFamilies : snapshot.fontFamilies = config.fontFamilies
  spacing : snapshot.spacing = config.spacing
  colors : snapshot.colors = config.colors
  classes : ∀ name, Option.Rel ClassSpec.Keeps (snapshot.classes.get? name) (config.classes.get? name)
  values : snapshot.values = table.valuesByName

theorem keeps_capture (config : Config) (table : VariableTable) :
    (capture config table).Keeps config table where
  breakpoints := rfl
  fontFamilies := rfl
  spacing := rfl
  colors := rfl
  classes := by
    intro name
    simp only [capture, SortedMap.get?_map]
    cases config.classes.get? name with
    | none => exact .none
    | some spec => exact .some (ClassSpec.keeps_withoutUnknown spec)
  values := rfl

end Snapshot

/-! ## Loads after saves -/

section

variable {σ : Type} {files : FileAccess (StateM σ)} {path : String}

/-- A file access that gives back what was written last at a path. -/
def FileAccess.Returns (files : FileAccess (StateM σ)) (path : String) : Prop :=
  ∀ text before after, (files.write path text).run before = (true, after) →
    (files.read path).run after = (.ok text.toUTF8, after)

theorem Tracking.KeepsFile.returns {content : σ → Option ByteArray}
    (h : KeepsFile files path content) : files.Returns path := by
  intro text before after hwrite
  obtain ⟨found, hread, hcontent⟩ := h.read after
  rw [h.written hwrite] at hcontent
  cases found with
  | error e => cases hcontent
  | ok bytes =>
      cases hcontent
      exact hread

theorem Baseline.eq_ok_of_known {loaded : Except StoreError (Option Snapshot)} {snapshot : Snapshot}
    (h : known loaded = some snapshot) : loaded = .ok (some snapshot) := by
  cases loaded with
  | error e => cases h
  | ok previous => exact congrArg Except.ok h

namespace Snapshot

/-- A file holds the text of a snapshot, which is made of texts and tables only, and loads as that
snapshot. -/
structure Stored (files : FileAccess (StateM σ)) (path : String) (snapshot : Snapshot) (s : σ) :
    Prop where
  held : (files.read path).run s = (.ok snapshot.render.toUTF8, s)
  plain : ∃ document, Json.read? snapshot.render = some document ∧ Json.Plain document
  parsed : parse? snapshot.render = some snapshot
  loaded : (SnapshotStore.file files path).load.run s = (.ok (some snapshot), s)

theorem stored_of_read {snapshot : Snapshot} (hknown : snapshot.IsKnown) {s : σ}
    (hread : (files.read path).run s = (.ok snapshot.render.toUTF8, s)) :
    Stored files path snapshot s := by
  have hplain := plain_toDocument hknown
  have hparsed := parse?_render hknown
  obtain ⟨loaded, hload, hheld⟩ := Baseline.load_run hread
  have hsnapshot : Baseline.known loaded = some snapshot := by
    simp only [hheld, Except.toOption, Option.bind_some, ofBytes?, fromUTF8?_toUTF8, hparsed]
  rw [Baseline.eq_ok_of_known hsnapshot] at hload
  exact ⟨hread, ⟨_, Json.read?_render hplain, hplain⟩, hparsed, hload⟩

/-- A captured snapshot is loaded as it was saved, with all that it tells of its config. -/
theorem stored_of_save (hfiles : files.Returns path) {config : Config} {table : VariableTable}
    {before after : σ}
    (hsave : ((SnapshotStore.file files path).save (capture config table)).run before =
      (.ok (), after)) :
    Stored files path (capture config table) after ∧ (capture config table).Keeps config table := by
  obtain ⟨between, hwrite⟩ := Baseline.write_of_save_ok hsave
  have hread := hfiles _ between after hwrite
  exact ⟨stored_of_read (isKnown_capture config table) hread, keeps_capture config table⟩

/-- Keys and values that have to be escaped, a value that could be a number, a tier that declares nothing
beside one that is not there, and keys that name no property. -/
def awkwardConfig : Config where
  brand := "tf"
  category := "typo"
  baseFontSize := 16
  breakpoints := ⟨"375px", "1024px"⟩
  classes := .ofList [
    ("h1", ⟨some "\"Größe\" \\ 日本", some "700", none, some "\t\u0001\n", some .empty, none,
      .ofList [("margin", .int 4)]⟩),
    ("h2", ⟨none, some "7.0e2", none, none, none, some ⟨some "", none, .ofList [("x", .null)]⟩, .empty⟩)]
  fontFamilies := .ofList [("\"", "\\u0041")]
  spacing := .ofList [("", "0"), ("é\u0000", "true")]
  colors := .ofList [("😀", "null")]
  build := .default

def awkward : Snapshot := capture awkwardConfig (.ofConfig awkwardConfig)

def awkwardSave : Except StoreError Unit × FileTree :=
  ((SnapshotStore.file FileTree.access ".tokenframe/snapshot.json").save awkward).run ⟨[]⟩

theorem stored_of_save_awkward :
    FileTree.access.Returns ".tokenframe/snapshot.json" ∧ awkwardSave.1 = .ok () ∧
      Stored FileTree.access ".tokenframe/snapshot.json" awkward awkwardSave.2 ∧
      awkward.Keeps awkwardConfig (.ofConfig awkwardConfig) := by
  have hreturns := (Tracking.keepsFile_access ".tokenframe/snapshot.json").returns
  have hsaved : awkwardSave.1.isOk = true := by decide +kernel
  have hok : awkwardSave.1 = .ok () := by
    cases h : awkwardSave.1 with
    | error e =>
        rw [h] at hsaved
        cases hsaved
    | ok _ => rfl
  have hsave : ((SnapshotStore.file FileTree.access ".tokenframe/snapshot.json").save
      (capture awkwardConfig (.ofConfig awkwardConfig))).run ⟨[]⟩ = (.ok (), awkwardSave.2) :=
    Prod.ext hok rfl
  exact ⟨hreturns, hok, stored_of_save hreturns hsave⟩

end Snapshot

end

end DesignTokens
