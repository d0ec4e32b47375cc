import DesignTokens.Proofs.BuildRun
import DesignTokens.Proofs.Files.Contents

/-!
# The baseline after a failed build

The baseline moves once a config is compiled, and the outputs are written after it. A build that fails
before leaves the file tree as it is. One that fails on its outputs has moved the baseline already,
unless it could not be saved.
-/

namespace DesignTokens

open FileTree

namespace Command

/-- What is there when writing the outputs fails: neither of them, or the stylesheet alone. -/
theorem writeOutputs_error_cases {kept after : FileTree} {args : BuildArgs} {output : BuildOutput}
    {result : Except Error Unit} (hfail : result.isOk = false)
    (h : (writeOutputs access args output).run kept = (result, after)) :
    kept.makeDirectories args.outDir = (after, false) ∨
      ∃ made, kept.makeDirectories args.outDir = (made, true) ∧
        ((made.writeBytes args.cssPath output.css.toUTF8 = none ∧ after = made) ∨
          made.writeBytes args.cssPath output.css.toUTF8 = some after) := by
  rcases writeOutputs_cases h with ⟨hdir, -⟩ | ⟨made, hdir, ⟨hcss, hafter, -⟩ | ⟨styled, hcss, hdocs⟩⟩
  · exact Or.inl hdir
  · exact Or.inr ⟨made, hdir, Or.inl ⟨hcss, hafter⟩⟩
  · rcases hdocs with ⟨-, rfl, -⟩ | ⟨-, hok⟩
    · exact Or.inr ⟨made, hdir, Or.inr hcss⟩
    · rw [hok] at hfail
      cases hfail

theorem writeOutputs_grows {kept after : FileTree} {args : BuildArgs} {output : BuildOutput}
    {result : Except Error Unit} (hfail : result.isOk = false)
    (h : (writeOutputs access args output).run kept = (result, after)) : Grows kept after := by
  have hmade := (makeDirectories_extends kept args.outDir).grows
  rcases writeOutputs_error_cases hfail h with hdir | ⟨made, hdir, ⟨-, rfl⟩ | hwrite⟩
  · rwa [hdir] at hmade
  · rwa [hdir] at hmade
  · rw [hdir] at hmade
    exact hmade.trans (writeBytes_grows hwrite)

theorem place?_cssPath {tree made : FileTree} {args : BuildArgs}
    (h : tree.makeDirectories args.outDir = (made, false)) : made.place? args.cssPath = none :=
  place?_join_eq_none (by decide) (by decide) h

/-- Outputs that cannot be written leave a saved snapshot alone, but for a stylesheet in its place. -/
theorem content?_of_failed_outputs {kept after : FileTree} {args : BuildArgs} {output : BuildOutput}
    {result : Except Error Unit} {path : String} {content : ByteArray}
    (hfail : result.isOk = false) (hkept : kept.content? path = some content)
    (h : (writeOutputs access args output).run kept = (result, after)) :
    after.content? path = some
      (if after.place? path = after.place? args.cssPath then output.css.toUTF8 else content) := by
  have hmade := makeDirectories_extends kept args.outDir
  rcases writeOutputs_error_cases hfail h with hdir | ⟨made, hdir, ⟨hwrite, rfl⟩ | hwrite⟩
  · rw [hdir] at hmade
    have hcontent := hmade.content? hkept
    have hne : after.place? path ≠ after.place? args.cssPath := by
      obtain ⟨place, hlocate, -⟩ := content?_eq_some_iff.1 hcontent
      rw [place?_eq_some_iff.2 hlocate, place?_cssPath hdir]
      exact Option.some_ne_none place
    rw [if_neg hne, hcontent]
  · rw [hdir] at hmade
    have hcontent := hmade.content? hkept
    have hne : after.place? path ≠ after.place? args.cssPath := by
      intro heq
      exact writeBytes_ne_none hcontent heq hwrite
    rw [if_neg hne, hcontent]
  · rw [hdir] at hmade
    exact content?_of_writeBytes (hmade.content? hkept) hwrite

/-- True when the snapshot of a build can be saved. -/
def savesBaseline (tree : FileTree) (args : BuildArgs) (config : Config) (table : VariableTable) : Bool :=
  (((SnapshotStore.file access (args.snapshotPath config.build)).save
    (Snapshot.capture config table)).run tree).1.isOk

/-- What a build that fails on its outputs leaves at the snapshot path: the new snapshot, or the
stylesheet where both have one place. -/
def lastWritten (after : FileTree) (args : BuildArgs) (config : Config) (table : VariableTable) :
    ByteArray :=
  if after.place? (args.snapshotPath config.build) = after.place? args.cssPath then
    ((Stylesheet.ofConfig config table).render (args.layout config.build)).toUTF8
  else (Snapshot.capture config table).render.toUTF8

/-- The content at the snapshot path after a build that failed once its config was compiled. -/
theorem content?_of_failed_build {tree after : FileTree} {args : BuildArgs}
    {built : Logged (Except Error Unit)} {config : Config} {table : VariableTable}
    (h : (runBuild access args).run tree = (built, after)) (hfail : built.value.isOk = false)
    (hcompiled : Compiled tree args config table) :
    after.content? (args.snapshotPath config.build) =
      if savesBaseline tree args config table then some (lastWritten after args config table)
      else tree.content? (args.snapshotPath config.build) := by
  rcases runBuild_cases h with ⟨-, -, hnone⟩ | ⟨other, found, output, saved, kept, hother, houtput, hsave, hrun⟩
  · exact absurd hcompiled (hnone config table)
  · have hconfig := hother.load
    rw [hcompiled.load] at hconfig
    cases hconfig
    have htable := hother.intern
    rw [hcompiled.intern] at htable
    cases htable
    cases saved with
    | error e =>
        have hbarred := barred_of_save_error hsave
        have hlater := hbarred.mono (writeOutputs_grows hfail hrun)
        have hsaves : savesBaseline tree args config table = false := by
          rw [savesBaseline, hsave]
          rfl
        rw [hsaves, if_neg Bool.false_ne_true, hlater.content?_eq,
          content?_eq_none_of_grows (save_grows hsave) hbarred]
    | ok done =>
        have hsaves : savesBaseline tree args config table = true := by
          rw [savesBaseline, hsave]
          rfl
        rw [hsaves, if_pos rfl, content?_of_failed_outputs hfail (content?_of_save_ok hsave) hrun,
          houtput]
        rfl

/-- A build that fails keeps the baseline exactly if it got no further than its config, if the snapshot
could not be saved, or if what it wrote there is what was there before. -/
theorem failed_build_keeps_baseline_iff {tree after : FileTree} {args : BuildArgs} {outcome : Outcome}
    (hrun : (run access (.build args)).run tree = (outcome, after))
    (hfail : outcome.result.isOk = false) :
    ((∀ config table, ¬ Compiled tree args config table) → after = tree) ∧
      ∀ config table, Compiled tree args config table →
        (after.content? (args.snapshotPath config.build) =
            tree.content? (args.snapshotPath config.build) ↔
          (savesBaseline tree args config table = true →
            tree.content? (args.snapshotPath config.build) =
              some (lastWritten after args config table))) := by
  rcases hbuild : (runBuild access args).run tree with ⟨built, final⟩
  simp only [run, run_bind_eq hbuild] at hrun
  cases hrun
  constructor
  · intro hnone
    rcases runBuild_cases hbuild with ⟨hsame, -⟩ | ⟨config, table, -, -, -, hcompiled, -⟩
    · exact hsame
    · exact absurd hcompiled (hnone config table)
  · intro config table hcompiled
    rw [content?_of_failed_build hbuild hfail hcompiled]
    cases savesBaseline tree args config table with
    | false => simp
    | true => simp [eq_comm]

/-- A config beside a file where the output directory should be. -/
def blockedTree : FileTree :=
  ⟨[(["tokens.toml"], .file
      ("[breakpoints]\nmobile = \"375px\"\ndesktop = \"1024px\"\n" ++
        "[classes.h1]\nfontWeight = 700\n").toUTF8),
    (["dist"], .file "".toUTF8)]⟩

def blockedArgs : BuildArgs := ⟨"tokens.toml", "dist", none, none, false⟩

def blockedRun : Outcome × FileTree := (run access (.build blockedArgs)).run blockedTree

/-- A build that fails on its outputs moves the baseline. -/
theorem failed_build_moves_baseline :
    blockedRun.1.result.isOk = false ∧
      ((Config.load access blockedArgs.config).run blockedTree).1.toOption.map
        (fun config => blockedArgs.snapshotPath config.build) = some "./.tokenframe/snapshot.json" ∧
      blockedRun.2.content? "./.tokenframe/snapshot.json" ≠
        blockedTree.content? "./.tokenframe/snapshot.json" := by
  decide +kernel

theorem failed_build_keeps_baseline_iff_blocked :
    blockedRun.1.result.isOk = false ∧
      ∀ config table, Compiled blockedTree blockedArgs config table →
        (blockedRun.2.content? (blockedArgs.snapshotPath config.build) =
            blockedTree.content? (blockedArgs.snapshotPath config.build) ↔
          (savesBaseline blockedTree blockedArgs config table = true →
            blockedTree.content? (blockedArgs.snapshotPath config.build) =
              some (lastWritten blockedRun.2 blockedArgs config table))) := by
  have hrun : (run access (.build blockedArgs)).run blockedTree = (blockedRun.1, blockedRun.2) :=
    (Prod.eta blockedRun).symm
  have hfail : blockedRun.1.result.isOk = false := by decide +kernel
  exact ⟨hfail, (failed_build_keeps_baseline_iff hrun hfail).2⟩

end Command

end DesignTokens
