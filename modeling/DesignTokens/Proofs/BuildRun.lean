import DesignTokens.CommandLine.Run
import DesignTokens.Proofs.Files.Saving

/-!
# How a build runs on a file tree

A build reads its config, compiles it against the baseline, saves the snapshot and writes the outputs.
Each part is told by the operations on the file tree that it comes down to.
-/

namespace DesignTokens

namespace FileTree

/-- The config in the text of a file. -/
def configAt? (tree : FileTree) (path : String) : Option Config :=
  ((tree.content? path).bind String.fromUTF8?).bind
    (fun text => (Config.parse (Format.ofPath path) text).toOption)

/-- The snapshot in the text of a file. -/
def snapshotAt? (tree : FileTree) (path : String) : Option Snapshot :=
  (tree.content? path).bind Snapshot.ofBytes?

end FileTree

open FileTree

theorem Config.load_run (tree : FileTree) (path : String) :
    ∃ loaded, (Config.load access path).run tree = (loaded, tree) ∧
      loaded.toOption = tree.configAt? path := by
  unfold Config.load
  rw [run_bind_eq (FileAccess.readText_run (run_read tree path))]
  unfold configAt? content?
  cases tree.read path with
  | error e => exact ⟨.error (.inaccessible path), rfl, rfl⟩
  | ok bytes =>
      simp only [FileAccess.textOf, Except.toOption, Option.bind_some]
      cases String.fromUTF8? bytes with
      | none => exact ⟨.error (.inaccessible path), rfl, rfl⟩
      | some text =>
          cases hparse : Config.parse (Format.ofPath path) text with
          | error e => exact ⟨.error (.config path e), by simp only [hparse]; rfl, by simp [hparse]⟩
          | ok config => exact ⟨.ok config, by simp only [hparse]; rfl, by simp [hparse]⟩

namespace Command

/-! ## Configs -/

/-- The config that a build goes on with, and its variables. -/
structure Compiled (tree : FileTree) (args : BuildArgs) (config : Config) (table : VariableTable) :
    Prop where
  load : ((Config.load access args.config).run tree).1 = .ok config
  intern : config.intern config.build.unknownKeys = .ok table

theorem Compiled.configAt? {tree : FileTree} {args : BuildArgs} {config : Config}
    {table : VariableTable} (h : Compiled tree args config table) :
    tree.configAt? args.config = some config := by
  obtain ⟨loaded, hload, hconfig⟩ := Config.load_run tree args.config
  have hok : loaded = .ok config := by
    rw [← h.load, hload]
  rw [← hconfig, hok]
  rfl

/-! ## Outputs -/

theorem writeOutput_run (tree : FileTree) (path text : String) :
    (writeOutput access path text).run tree =
      match tree.writeBytes path text.toUTF8 with
      | some changed => (.ok (), changed)
      | none => (.error (.inaccessible path), tree) := by
  have hrun := run_write tree path text
  unfold writeOutput
  cases hwrite : tree.writeBytes path text.toUTF8 with
  | none =>
      rw [hwrite] at hrun
      rw [run_bind_eq hrun]
      rfl
  | some changed =>
      rw [hwrite] at hrun
      rw [run_bind_eq hrun]
      rfl

/-- How outputs are written: the directory first, then the stylesheet, then the page. -/
theorem writeOutputs_cases {kept after : FileTree} {args : BuildArgs} {output : BuildOutput}
    {result : Except Error Unit} (h : (writeOutputs access args output).run kept = (result, after)) :
    (kept.makeDirectories args.outDir = (after, false) ∧ result.isOk = false) ∨
      ∃ made, kept.makeDirectories args.outDir = (made, true) ∧
        ((made.writeBytes args.cssPath output.css.toUTF8 = none ∧ after = made ∧ result.isOk = false) ∨
          ∃ styled, made.writeBytes args.cssPath output.css.toUTF8 = some styled ∧
            ((styled.writeBytes args.docsPath output.docs.toUTF8 = none ∧ after = styled ∧
                result.isOk = false) ∨
              (styled.writeBytes args.docsPath output.docs.toUTF8 = some after ∧
                result.isOk = true))) := by
  unfold writeOutputs at h
  rw [run_bind_eq (run_makeDirectories kept args.outDir)] at h
  rcases hdir : kept.makeDirectories args.outDir with ⟨made, done⟩
  rw [hdir] at h
  cases done with
  | false =>
      cases h
      exact Or.inl ⟨rfl, rfl⟩
  | true =>
      have hcss := writeOutput_run made args.cssPath output.css
      refine Or.inr ⟨made, rfl, ?_⟩
      rw [if_pos rfl] at h
      cases hwrite : made.writeBytes args.cssPath output.css.toUTF8 with
      | none =>
          rw [hwrite] at hcss
          rw [run_bind_eq hcss] at h
          cases h
          exact Or.inl ⟨rfl, rfl, rfl⟩
      | some styled =>
          have hdocs := writeOutput_run styled args.docsPath output.docs
          refine Or.inr ⟨styled, rfl, ?_⟩
          rw [hwrite] at hcss
          rw [run_bind_eq hcss] at h
          simp only [hdocs] at h
          cases hlast : styled.writeBytes args.docsPath output.docs.toUTF8 with
          | none =>
              rw [hlast] at h
              cases h
              exact Or.inl ⟨rfl, rfl, rfl⟩
          | some final =>
              rw [hlast] at h
              cases h
              exact Or.inr ⟨rfl, rfl⟩

/-! ## Builds -/

/-- What a build makes of its config, of the baseline that it finds, and of its arguments. -/
def builtOutput (tree : FileTree) (args : BuildArgs) (config : Config) (table : VariableTable) :
    BuildOutput :=
  Build.output config table
    (Changes.diff (Snapshot.capture config table) (tree.snapshotAt? (args.snapshotPath config.build))
      (args.policy config.build))
    (args.layout config.build)

/-- How a build goes: it stops before the baseline is touched, or goes on from the saved baseline to its
outputs. -/
theorem runBuild_cases {tree after : FileTree} {args : BuildArgs}
    {built : Logged (Except Error Unit)} (h : (runBuild access args).run tree = (built, after)) :
    (after = tree ∧ built.value.isOk = false ∧ ∀ config table, ¬ Compiled tree args config table) ∨
      ∃ config table output saved kept, Compiled tree args config table ∧
        output = builtOutput tree args config table ∧
        ((SnapshotStore.file access (args.snapshotPath config.build)).save
          (Snapshot.capture config table)).run tree = (saved, kept) ∧
        (writeOutputs access args output).run kept = (built.value, after) := by
  obtain ⟨loaded, hload, -⟩ := Config.load_run tree args.config
  unfold runBuild at h
  rw [run_bind_eq hload] at h
  cases loaded with
  | error e =>
      cases h
      refine Or.inl ⟨rfl, rfl, ?_⟩
      intro config table hcompiled
      have hok := hcompiled.load
      rw [hload] at hok
      cases hok
  | ok config =>
      have hconfig : ((Config.load access args.config).run tree).1 = .ok config := by rw [hload]
      cases hintern : config.intern config.build.unknownKeys with
      | error unknown =>
          have hcompile := Build.compile_run_error hintern
            (SnapshotStore.file access (args.snapshotPath config.build)) tree
            (args.policy config.build) (args.layout config.build)
          simp only [run_bind_eq hcompile] at h
          cases h
          refine Or.inl ⟨rfl, rfl, ?_⟩
          intro other table hcompiled
          have hother := hcompiled.load
          rw [hconfig] at hother
          cases hother
          rw [hcompiled.intern] at hintern
          cases hintern
      | ok table =>
          obtain ⟨previous, hprevious, hknown⟩ :=
            Baseline.load_run (run_read tree (args.snapshotPath config.build))
          rcases hsave : ((SnapshotStore.file access (args.snapshotPath config.build)).save
            (Snapshot.capture config table)).run tree with ⟨saved, kept⟩
          obtain ⟨events, hcompile⟩ := Build.compile_run hintern hprevious hsave
            (args.policy config.build) (args.layout config.build)
          have hbaseline : Baseline.known previous = tree.snapshotAt? (args.snapshotPath config.build) :=
            hknown
          rw [hbaseline, ← builtOutput] at hcompile
          simp only [run_bind_eq hcompile] at h
          refine Or.inr ⟨config, table, _, saved, kept, ⟨hconfig, hintern⟩, rfl, hsave, ?_⟩
          rcases houtputs : (writeOutputs access args (builtOutput tree args config table)).run kept
            with ⟨result, final⟩
          rw [run_bind_eq houtputs] at h
          cases result with
          | error e =>
              cases h
              rfl
          | ok done =>
              cases h
              rfl

end Command

end DesignTokens
