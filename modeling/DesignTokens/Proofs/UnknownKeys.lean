import Mathlib.Data.List.Basic
import DesignTokens.Proofs.Baseline
import DesignTokens.Proofs.UnchangedOutput

/-!
# Unknown keys

A key that names no property stands in a class, or in one of its tiers. Such keys are told class by class,
those of a class before those of its tiers: the first one where they are refused, each one where they are
warned of. Nothing else depends on them, so a build that is not refused is the build without them.
-/

namespace DesignTokens

/-! ## Places of keys -/

/-- Where in a class a key stands. -/
inductive KeyLevel where
  | top
  | tier (breakpoint : Breakpoint)
deriving DecidableEq

namespace KeyLevel

/-- In the order in which keys are told. -/
def all : List KeyLevel := [.top, .tier .mobile, .tier .desktop]

def rank : KeyLevel → Nat
  | .top => 0
  | .tier .mobile => 1
  | .tier .desktop => 2

/-- How a key of this level is told. -/
def path : KeyLevel → String → String
  | .top, key => key
  | .tier b, key => b.name ++ "." ++ key

theorem mem_all (level : KeyLevel) : level ∈ all := by
  rcases level with _ | b
  · decide
  · cases b <;> decide

end KeyLevel

/-- The keys of a level that name no property. -/
def ClassSpec.unknownAt (spec : ClassSpec) : KeyLevel → SortedMap Document
  | .top => spec.unknown
  | .tier b => ((spec.tier? b).map Tier.unknown).getD .empty

/-- A key at its place among the classes. -/
structure KeyPlace where
  className : String
  level : KeyLevel
  key : String
deriving DecidableEq

namespace KeyPlace

/-- By class name, then by level, then by key. -/
def Before (a b : KeyPlace) : Prop :=
  a.className < b.className ∨ a.className = b.className ∧
    (a.level.rank < b.level.rank ∨ a.level = b.level ∧ a.key < b.key)

theorem Before.asymm {a b : KeyPlace} (h : a.Before b) : ¬ b.Before a := by
  intro hback
  rcases h with hname | ⟨hname, hlevel⟩
  · rcases hback with hname' | ⟨hname', -⟩
    · exact String.lt_asymm hname hname'
    · exact String.lt_irrefl _ (hname' ▸ hname)
  · rcases hback with hname' | ⟨-, hlevel'⟩
    · exact String.lt_irrefl _ (hname ▸ hname')
    · rcases hlevel with hrank | ⟨heq, hkey⟩
      · rcases hlevel' with hrank' | ⟨heq', -⟩
        · omega
        · rw [heq'] at hrank
          omega
      · rcases hlevel' with hrank' | ⟨-, hkey'⟩
        · rw [heq] at hrank'
          omega
        · exact String.lt_asymm hkey hkey'

end KeyPlace

namespace Config

/-- A class of the config has a key here that names no property. -/
def HasUnknown (config : Config) (place : KeyPlace) : Prop :=
  ∃ spec, config.classes.get? place.className = some spec ∧
    place.key ∈ (spec.unknownAt place.level).keys

def IsFirstUnknown (config : Config) (place : KeyPlace) : Prop :=
  config.HasUnknown place ∧ ∀ other, config.HasUnknown other → other = place ∨ place.Before other

variable {config : Config}

theorem IsFirstUnknown.eq {place other : KeyPlace} (h : config.IsFirstUnknown place)
    (hother : config.IsFirstUnknown other) : place = other := by
  rcases hother.2 place h.1 with heq | hbefore
  · exact heq
  · rcases h.2 other hother.1 with heq | hback
    · exact heq.symm
    · exact absurd hback hbefore.asymm

theorem intern_of_ne_fail {policy : UnknownKeyPolicy} (h : policy ≠ .fail) :
    config.intern policy = .ok (.ofConfig config) := by
  cases policy with
  | fail => exact absurd rfl h
  | _ => rfl

end Config

/-! ## What depends on unknown keys -/

/-- The configs are the same but for unknown keys, and for how they are built. -/
structure SameButUnknown (config other : Config) : Prop where
  brand : config.brand = other.brand
  category : config.category = other.category
  baseFontSize : config.baseFontSize = other.baseFontSize
  breakpoints : config.breakpoints = other.breakpoints
  classes : config.classes.map ClassSpec.withoutUnknown = other.classes.map ClassSpec.withoutUnknown
  fontFamilies : config.fontFamilies = other.fontFamilies
  spacing : config.spacing = other.spacing
  colors : config.colors = other.colors

namespace VariableTable

variable {config other : Config}

theorem internSlots_congr (h : Variable.ofToken config = Variable.ofToken other) :
    internSlots config = internSlots other := by
  have hintern : intern config = intern other := by
    funext token raw table
    simp only [intern, h]
  funext declared
  induction declared with
  | nil => rfl
  | cons first rest ih =>
      funext table
      simp only [internSlots, hintern, ih]

theorem internFlat_congr (h : Variable.ofToken config = Variable.ofToken other) :
    internFlat config = internFlat other := by
  funext p values table
  simp only [internFlat, intern, h]

/-- Interning a class does not look at its unknown keys. -/
theorem internClass_withoutUnknown (config : Config) (table : VariableTable) (name : String)
    (spec : ClassSpec) :
    table.internClass config name spec.withoutUnknown = table.internClass config name spec := by
  simp only [internClass, ClassSpec.declared, ClassSpec.value?_withoutUnknown]

theorem foldl_internClass_eq (config : Config) (classes : SortedMap ClassSpec) (table : VariableTable) :
    classes.entries.foldl (fun t entry => t.internClass config entry.1 entry.2) table =
      (classes.map ClassSpec.withoutUnknown).entries.foldl
        (fun t entry => t.internClass config entry.1 entry.2) table := by
  simp only [SortedMap.map, List.foldl_map, internClass_withoutUnknown]

theorem ofConfig_congr (h : SameButUnknown config other) : ofConfig config = ofConfig other := by
  have hvariable : Variable.ofToken config = Variable.ofToken other := by
    funext token raw
    simp only [Variable.ofToken, Variable.transformed, Config.namer, h.brand, h.category,
      h.fontFamilies, h.baseFontSize]
  have hclass : internClass config = internClass other := by
    funext table name spec
    simp only [internClass, internSlots_congr hvariable]
  simp only [ofConfig, internFlat_congr hvariable, hclass, h.spacing, h.colors]
  rw [foldl_internClass_eq, h.classes, ← foldl_internClass_eq]

end VariableTable

/-! ### Builds -/

namespace SameButUnknown

variable {config other : Config} (h : SameButUnknown config other)

include h

theorem alike : Alike config other where
  brand := h.brand
  category := h.category
  breakpoints := h.breakpoints
  fontFamilies := h.fontFamilies
  spacing := h.spacing
  colors := h.colors
  slots := by
    intro name slot
    rw [← Changes.slotValue?_withoutUnknown config.classes, h.classes, Changes.slotValue?_withoutUnknown]
  values := by
    intro request _
    simp only [Request.variable, Variable.ofToken, Variable.transformed, h.baseFontSize]

theorem capture : Snapshot.capture config (.ofConfig config) = Snapshot.capture other (.ofConfig other) := by
  simp only [Snapshot.capture, VariableTable.ofConfig_congr h, h.breakpoints, h.fontFamilies, h.spacing,
    h.colors, h.classes]

theorem output (changes : ChangeSet) (layout : Layout) :
    Build.output config (.ofConfig config) changes layout = Build.output other (.ofConfig other) changes layout := by
  rw [Build.output, Build.output, h.alike.stylesheet, h.alike.page, VariableTable.ofConfig_congr h]

end SameButUnknown

/-- A build that is not refused logs its warnings first, then what its comparison and its save log. -/
theorem Build.compile_run_of_ok {σ : Type} {store : SnapshotStore (StateM σ)} {config : Config}
    {table : VariableTable} (hintern : config.intern config.build.unknownKeys = .ok table)
    {policy : ChangePolicy} {before between after : σ} {detected : Logged ChangeSet} {committed : Logged Unit}
    (hdetect : (Baseline.detect store (.capture config table) policy).run before = (detected, between))
    (hcommit : (Baseline.commit store (.capture config table)).run between = (committed, after))
    (layout : Layout) :
    (compile store config policy layout).run before =
      (⟨.ok (output config table detected.value layout),
        config.unknownKeyWarnings config.build.unknownKeys ++ (detected.events ++ committed.events)⟩, after) := by
  simp only [compile, hintern]
  rw [run_bind_eq hdetect, run_bind_eq hcommit, ← List.append_assoc]
  rfl

theorem SameButUnknown.compile_run {config other : Config} (h : SameButUnknown config other)
    (hconfig : config.build.unknownKeys ≠ .fail) (hother : other.build.unknownKeys ≠ .fail) {σ : Type}
    (store : SnapshotStore (StateM σ)) (policy : ChangePolicy) (layout : Layout) (before : σ) :
    ∃ output events after,
      (Build.compile store config policy layout).run before =
        (⟨.ok output, config.unknownKeyWarnings config.build.unknownKeys ++ events⟩, after) ∧
      (Build.compile store other policy layout).run before =
        (⟨.ok output, other.unknownKeyWarnings other.build.unknownKeys ++ events⟩, after) := by
  rcases hdetect : (Baseline.detect store (.capture config (.ofConfig config)) policy).run before with
    ⟨detected, between⟩
  rcases hcommit : (Baseline.commit store (.capture config (.ofConfig config))).run between with
    ⟨committed, after⟩
  have hrun := Build.compile_run_of_ok (Config.intern_of_ne_fail hconfig) hdetect hcommit layout
  rw [h.capture] at hdetect hcommit
  have hagain := Build.compile_run_of_ok (Config.intern_of_ne_fail hother) hdetect hcommit layout
  rw [← h.output] at hagain
  exact ⟨_, _, _, hrun, hagain⟩

/-! ## Policies -/

end DesignTokens
