import DesignTokens.Proofs.Changes.Leaves
import DesignTokens.Proofs.Tracking

/-!
# Changes over several builds

What differs between two snapshots differs on one of the two ways past a third one, if removed classes
are flagged. So no change is lost over a run of builds: all that differs between its ends was reported
by one of its steps.
-/

namespace DesignTokens

namespace Changes

/-! ## Two comparisons for one -/

variable {current previous : Snapshot}

theorem Differs.trans {leaf : Leaf} (h : Differs .flag current previous leaf) (between : Snapshot) :
    Differs .flag current between leaf ∨ Differs .flag between previous leaf := by
  obtain ⟨hne, hcounts⟩ := h
  by_cases hsame : current.text? leaf = between.text? leaf
  · -- A variable that is there now was there in between, so its change counts there as well.
    have hbetween : Counts .flag between leaf := by
      cases leaf with
      | width b => trivial
      | entry map name => trivial
      | slot name slot => exact .inr rfl
      | value name =>
          have hvalue : current.values.get? name = between.values.get? name := hsame
          simpa [Counts, SortedMap.contains, hvalue] using hcounts
    exact .inr ⟨fun heq => hne (hsame.trans heq), hbetween⟩
  · exact .inl ⟨hsame, hcounts⟩

theorem mem_diff_trans {policy : ChangePolicy} {key : String} (hflag : policy.onRemovedClass = .flag)
    (h : key ∈ diff current (some previous) policy) (between : Snapshot) :
    key ∈ diff current (some between) policy ∨ key ∈ diff between (some previous) policy := by
  simp only [mem_diff_iff, hflag] at h ⊢
  obtain ⟨leaf, hdiffers, hkey⟩ := h
  rcases hdiffers.trans between with hlater | hearlier
  · exact .inl ⟨leaf, hlater, hkey⟩
  · exact .inr ⟨leaf, hearlier, hkey⟩

theorem mem_diff_of_flag {policy other : ChangePolicy} {key : String}
    (hflag : policy.onRemovedClass = .flag) (hother : other.onRemovedClass = .flag)
    (h : key ∈ diff current (some previous) policy) : key ∈ diff current (some previous) other := by
  rw [diff, hflag] at h
  rwa [diff, hother]

theorem not_mem_diff_self (snapshot : Snapshot) (policy : ChangePolicy) (key : String) :
    key ∉ diff snapshot (some snapshot) policy := by
  rw [diff_self]
  exact List.not_mem_nil

end Changes

namespace Tracking

variable {σ : Type} {store : SnapshotStore (StateM σ)} {held : σ → Option Snapshot}

/-! ## Reports -/

/-- If the step may move the baseline, it reports changes and flags removed classes. -/
def Step.Flags (step : Step) : Prop :=
  step.saves = true → ∃ policy, step.policy? = some policy ∧ policy.onRemovedClass = .flag

/-- The key is among the changes that the step reported. -/
def Passage.Reports (p : Passage σ) (key : String) : Prop :=
  ∃ changes, p.answer.changes? = some changes ∧ key ∈ changes

/-- The state that a run ends in. -/
def finish (store : SnapshotStore (StateM σ)) : σ → List Step → σ
  | s, [] => s
  | s, step :: rest => finish store (passage store s step).after rest

/-- Over a run of steps that flag removed classes, all that differs between the snapshots that the store
held first and last was reported by some step. -/
def ReportsAll (store : SnapshotStore (StateM σ)) (held : σ → Option Snapshot) : Prop :=
  ∀ initial steps first, (∀ step ∈ steps, step.Flags) → held initial = some first →
    ∃ last, held (finish store initial steps) = some last ∧
      ∀ policy key, policy.onRemovedClass = .flag → key ∈ Changes.diff last (some first) policy →
        ∃ p ∈ passages store initial steps, p.Reports key

/-! ## One step -/

/-- What a step changes in the store it reports. -/
theorem Correct.exists_held {p : Passage σ} (h : Correct store held p) (hflags : p.step.Flags)
    {before : Snapshot} (hbefore : held p.before = some before) :
    ∃ after, held p.after = some after ∧
      ∀ policy key, policy.onRemovedClass = .flag → key ∈ Changes.diff after (some before) policy →
        p.Reports key := by
  have hsame : ∀ policy key, key ∈ Changes.diff before (some before) policy → p.Reports key :=
    fun policy key hkey => absurd hkey (Changes.not_mem_diff_self before policy key)
  by_cases hkeeps : p.step.saves = false ∨ p.step.snapshot? = none
  · exact ⟨before, by rw [h.keeps hkeeps, hbefore], fun policy key _ => hsame policy key⟩
  · simp only [not_or, Bool.not_eq_false] at hkeeps
    obtain ⟨hsaves, hsome⟩ := hkeeps
    obtain ⟨current, hcurrent⟩ := Option.ne_none_iff_exists'.1 hsome
    cases hsave : ((store.save current).run p.before).1 with
    | error e =>
        have hheld := h.failed current e hsaves hcurrent hsave
        exact ⟨before, hheld.trans hbefore, fun policy key _ => hsame policy key⟩
    | ok done =>
        obtain ⟨own, hpolicy, hown⟩ := hflags hsaves
        refine ⟨current, h.saved current hsaves hcurrent hsave, ?_⟩
        intro policy key hflag hkey
        refine ⟨Changes.diff current (some before) own, ?_, Changes.mem_diff_of_flag hflag hown hkey⟩
        rw [h.reports, hpolicy, hcurrent, hbefore]
        rfl

/-! ## Runs -/

theorem Lawful.reportsAll (h : Lawful store held) : ReportsAll store held := by
  intro initial steps
  induction steps generalizing initial with
  | nil =>
      intro first _ hfirst
      exact ⟨first, hfirst, fun policy key _ hkey => absurd hkey (Changes.not_mem_diff_self first policy key)⟩
  | cons step rest ih =>
      intro first hflags hfirst
      obtain ⟨between, hbetween, hstep⟩ :=
        (correct_passage h initial step).exists_held (hflags step List.mem_cons_self) hfirst
      obtain ⟨last, hlast, hrest⟩ :=
        ih _ between (fun other hother => hflags other (List.mem_cons_of_mem _ hother)) hbetween
      refine ⟨last, hlast, ?_⟩
      intro policy key hflag hkey
      -- The difference to the end is one of this step, or one of the steps after it.
      rcases Changes.mem_diff_trans hflag hkey between with hlater | hearlier
      · obtain ⟨p, hp, hreports⟩ := hrest policy key hflag hlater
        exact ⟨p, List.mem_cons_of_mem _ hp, hreports⟩
      · exact ⟨passage store initial step, List.mem_cons_self, hstep policy key hflag hearlier⟩

/-- Where removed classes are flagged, a difference between two snapshots is one to any third snapshot or
one from it, and no store loses a change over a run. -/
theorem no_change_lost :
    (∀ (current between previous : Snapshot) (policy : ChangePolicy), policy.onRemovedClass = .flag →
      ∀ key ∈ Changes.diff current (some previous) policy,
        key ∈ Changes.diff current (some between) policy ∨
          key ∈ Changes.diff between (some previous) policy) ∧
      ReportsAll SnapshotStore.memory id ∧
      (∀ path, ReportsAll (SnapshotStore.file FileTree.access path)
        (fun tree => (tree.content? path).bind Snapshot.ofBytes?)) ∧
      ∀ (σ : Type) (files : FileAccess (StateM σ)) (path : String) (content : σ → Option ByteArray),
        KeepsFile files path content →
          ReportsAll (SnapshotStore.file files path) (fun s => (content s).bind Snapshot.ofBytes?) := by
  refine ⟨?_, lawful_memory.reportsAll, ?_, ?_⟩
  · intro current between previous policy hflag key hkey
    exact Changes.mem_diff_trans hflag hkey between
  · intro path
    exact (keepsFile_access path).lawful.reportsAll
  · intro σ files path content h
    exact h.lawful.reportsAll

/-- A class with one weight. -/
def weightConfig (weight : String) : Config where
  brand := "tf"
  category := "typo"
  baseFontSize := 16
  breakpoints := ⟨"375px", "1024px"⟩
  classes := .ofList [("h1", { ClassSpec.empty with fontWeight := some weight })]
  fontFamilies := .empty
  spacing := .empty
  colors := .empty
  build := .default

def weightSnapshot (weight : String) : Snapshot :=
  .capture (weightConfig weight) (.ofConfig (weightConfig weight))

/-- Two builds, each of which makes the weight bolder. -/
def weightSteps : List Step :=
  [.track (weightConfig "500") ⟨.markNone, .flag⟩, .compile (weightConfig "700") ⟨.markNone, .flag⟩ .lines]

theorem no_change_lost_weights :
    ("h1.fontWeight" ∈ Changes.diff (weightSnapshot "700") (some (weightSnapshot "500")) ⟨.markNone, .flag⟩ ∨
      "h1.fontWeight" ∈
        Changes.diff (weightSnapshot "500") (some (weightSnapshot "400")) ⟨.markNone, .flag⟩) ∧
    (∃ p ∈ passages SnapshotStore.memory (some (weightSnapshot "400")) weightSteps,
      p.Reports "h1.fontWeight") ∧
    ReportsAll (SnapshotStore.file FileTree.access "snapshot.json")
      (fun tree => (tree.content? "snapshot.json").bind Snapshot.ofBytes?) := by
  have hkey : "h1.fontWeight" ∈
      (Changes.diff (weightSnapshot "700") (some (weightSnapshot "400")) ⟨.markNone, .flag⟩).elements := by
    decide +kernel
  have hflags : ∀ step ∈ weightSteps, step.Flags := by
    intro step hstep _
    have hcases : step = .track (weightConfig "500") ⟨.markNone, .flag⟩ ∨
        step = .compile (weightConfig "700") ⟨.markNone, .flag⟩ .lines := by
      simpa [weightSteps] using hstep
    rcases hcases with rfl | rfl <;> exact ⟨_, rfl, rfl⟩
  have hend : finish SnapshotStore.memory (some (weightSnapshot "400")) weightSteps =
      some (weightSnapshot "700") := rfl
  obtain ⟨htriangle, hmemory, -, hfile⟩ := no_change_lost
  obtain ⟨last, hlast, hreports⟩ := hmemory _ weightSteps (weightSnapshot "400") hflags rfl
  rw [hend] at hlast
  cases hlast
  exact ⟨htriangle _ _ _ _ rfl _ hkey, hreports _ _ rfl hkey,
    hfile _ _ _ _ (keepsFile_access "snapshot.json")⟩

end Tracking

end DesignTokens
