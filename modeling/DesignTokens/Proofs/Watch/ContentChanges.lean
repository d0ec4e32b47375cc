import DesignTokens.Proofs.Baseline
import DesignTokens.Proofs.Files.Saving
import DesignTokens.Watch.ContentGate

/-!
# What a content gate notices

Files change in any way and paths are asked about in any order. The gate keeps no content, only the digest
of what it found last; as long as digests tell the contents apart, it answers as if it kept the content of
each path from one call to the next.
-/

namespace DesignTokens

/-- What a path holds; what cannot be read holds nothing. -/
def FileAccess.content? {σ : Type} (files : FileAccess (StateM σ)) (s : σ) (path : String) : Option ByteArray :=
  ((files.read path).run s).1.toOption

/-- Reading leaves the files as they are. -/
def FileAccess.ReadsOnly {σ : Type} (files : FileAccess (StateM σ)) : Prop :=
  ∀ path s, ((files.read path).run s).2 = s

namespace ContentGate

/-! ## One call -/

def digestOf (content : Option ByteArray) : Option (List UInt8) :=
  content.map (fun bytes => Sha256.digest bytes.toList)

section

variable (gate : ContentGate) (path : String) (content : Option ByteArray)

theorem digest?_forget (key other : List String) :
    (gate.forget key).digest? other = if other = key then none else gate.digest? other := by
  unfold digest? forget
  by_cases h : other = key
  · rw [if_pos h, List.lookup_eq_none_iff]
    intro entry hentry
    have hne : entry.1 ≠ key := by simpa using (List.mem_filter.1 hentry).2
    simpa [h] using hne.symm
  · rw [if_neg h, lookup_filter_ne h]

theorem digest?_remember (key other : List String) (digest : List UInt8) :
    (gate.remember key digest).digest? other = if other = key then some digest else gate.digest? other := by
  by_cases h : other = key
  · simp [remember, digest?, h]
  · have hforget := digest?_forget gate key other
    rw [if_neg h] at hforget ⊢
    rw [← hforget]
    simp [remember, digest?, List.lookup_cons, beq_false_of_ne h]

/-- A call leaves the digest of what it found for its path, and the others as they were. -/
theorem digest?_note (key : List String) :
    (gate.note path content).1.digest? key =
      if key = Path.components path then digestOf content else gate.digest? key := by
  cases content with
  | none => exact digest?_forget gate (Path.components path) key
  | some bytes =>
      simp only [note]
      split
      · rename_i hsame
        by_cases hkey : key = Path.components path
        · rw [if_pos hkey, hkey]
          exact hsame
        · rw [if_neg hkey]
      · exact digest?_remember gate (Path.components path) key (Sha256.digest bytes.toList)

/-- A call tells whether the digest is another one than before. -/
theorem note_eq_true_iff :
    (gate.note path content).2 = true ↔ digestOf content ≠ gate.digest? (Path.components path) := by
  cases content with
  | none =>
      simp only [note, digestOf, Option.map_none]
      cases gate.digest? (Path.components path) <;> simp
  | some bytes =>
      simp only [note, digestOf, Option.map_some]
      split
      · rename_i hsame
        simp [hsame]
      · rename_i hother
        simpa using fun heq => hother heq.symm

end

variable {σ : Type} {files : FileAccess (StateM σ)}

theorem changed_run (gate : ContentGate) (path : String) (hreads : files.ReadsOnly) (s : σ) :
    (changed files gate path).run s = (gate.note path (files.content? s path), s) := by
  have hread : (files.read path).run s = (((files.read path).run s).1, s) :=
    Prod.ext rfl (hreads path s)
  unfold changed FileAccess.content?
  rw [run_bind_eq hread]
  cases ((files.read path).run s).1 with
  | ok bytes => rfl
  | error e => rfl

/-! ## Runs -/

/-- The files become others, or a path is asked about. -/
inductive Happening (σ : Type) where
  | change (s : σ)
  | call (path : String)

/-- True unless another path is asked about. -/
def Happening.concerns (path : String) : Happening σ → Bool
  | .change _ => true
  | .call other => Path.components other = Path.components path

/-- A gate, and the files as they are now. -/
structure Watched (σ : Type) where
  gate : ContentGate
  now : σ

namespace Watched

variable (files) in
/-- A call of the gate, with its answer. -/
def call (w : Watched σ) (path : String) : Watched σ × Bool :=
  let ((gate, answer), now) := (changed files w.gate path).run w.now
  (⟨gate, now⟩, answer)

variable (files) in
def next (w : Watched σ) : Happening σ → Watched σ
  | .change s => ⟨w.gate, s⟩
  | .call path => (w.call files path).1

variable (files) in
def after (w : Watched σ) (happenings : List (Happening σ)) : Watched σ :=
  happenings.foldl (next files) w

theorem call_eq (hreads : files.ReadsOnly) (w : Watched σ) (path : String) :
    w.call files path = (⟨(w.gate.note path (files.content? w.now path)).1, w.now⟩,
      (w.gate.note path (files.content? w.now path)).2) := by
  unfold call
  rw [changed_run w.gate path hreads]

end Watched

variable (files) in
/-- The contents that the calls for a path find, one after another. -/
def found (path : String) : σ → List (Happening σ) → List (Option ByteArray)
  | _, [] => []
  | _, .change s :: rest => found path s rest
  | s, .call other :: rest =>
      if Path.components other = Path.components path then
        files.content? s other :: found path s rest
      else found path s rest

/-- The gate holds the digest of what was found last. -/
theorem digest?_after (hreads : files.ReadsOnly) (path : String) (w : Watched σ)
    (happenings : List (Happening σ)) :
    (w.after files happenings).gate.digest? (Path.components path) =
      ((found files path w.now happenings).getLast?.map digestOf).getD
        (w.gate.digest? (Path.components path)) := by
  induction happenings generalizing w with
  | nil => rfl
  | cons happening rest ih =>
      cases happening with
      | change s => exact ih ⟨w.gate, s⟩
      | call other =>
          have hrest := ih (w.call files other).1
          rw [Watched.call_eq hreads] at hrest
          refine (Eq.trans ?_ hrest).trans ?_
          · rw [← Watched.call_eq hreads]
            rfl
          · rw [digest?_note, found]
            by_cases hsame : Path.components other = Path.components path
            · rw [if_pos hsame.symm, if_pos hsame, List.getLast?_cons]
              cases (found files path w.now rest).getLast? <;> rfl
            · rw [if_neg (Ne.symm hsame), if_neg hsame]

/-- Calls for other paths find nothing for this one. -/
theorem found_filter (path : String) (s : σ) (happenings : List (Happening σ)) :
    found files path s (happenings.filter (Happening.concerns path)) = found files path s happenings := by
  induction happenings generalizing s with
  | nil => rfl
  | cons happening rest ih =>
      cases happening with
      | change now => exact ih now
      | call other =>
          by_cases hsame : Path.components other = Path.components path
          · simp [Happening.concerns, found, hsame, ih]
          · simp [Happening.concerns, found, hsame, ih]

theorem now_after_filter (hreads : files.ReadsOnly) (path : String) (v w : Watched σ)
    (hnow : v.now = w.now) (happenings : List (Happening σ)) :
    (v.after files (happenings.filter (Happening.concerns path))).now = (w.after files happenings).now := by
  induction happenings generalizing v w with
  | nil => exact hnow
  | cons happening rest ih =>
      cases happening with
      | change s => exact ih ⟨v.gate, s⟩ ⟨w.gate, s⟩ rfl
      | call other =>
          have hstays : ∀ u : Watched σ, (u.call files other).1.now = u.now := by
            intro u
            rw [Watched.call_eq hreads]
          by_cases hsame : Path.components other = Path.components path
          · rw [List.filter_cons_of_pos (by simpa [Happening.concerns] using hsame)]
            exact ih _ _ ((hstays v).trans (hnow.trans (hstays w).symm))
          · rw [List.filter_cons_of_neg (by simpa [Happening.concerns] using hsame)]
            exact ih _ _ (hnow.trans (hstays w).symm)

/-- The answer hangs on the digests of what the path holds now and of what was found last. -/
theorem call_after_eq_true_iff (hreads : files.ReadsOnly) (start : σ) (happenings : List (Happening σ))
    (path : String) :
    (((Watched.mk .empty start).after files happenings).call files path).2 = true ↔
      digestOf (files.content? ((Watched.mk .empty start).after files happenings).now path) ≠
        digestOf (found files path start happenings).getLast?.join := by
  rw [Watched.call_eq hreads, note_eq_true_iff, digest?_after hreads]
  cases (found files path start happenings).getLast? <;> rfl

theorem digestOf_eq_iff {first second : Option ByteArray}
    (h : ∀ a b, first = some a → second = some b →
      Sha256.digest a.toList = Sha256.digest b.toList → a = b) :
    digestOf first = digestOf second ↔ first = second := by
  constructor
  · intro hdigest
    cases first with
    | none =>
        cases second with
        | none => rfl
        | some b => cases hdigest
    | some a =>
        cases second with
        | none => cases hdigest
        | some b => rw [h a b rfl rfl (Option.some.inj hdigest)]
  · exact fun heq => congrArg digestOf heq

/-- A call answers whether the path holds another content than the last call for it found, where the first
call is compared with no content and the digests tell these two contents apart. Calls for other paths have no
part in the answer, and the files have one only by what the calls for the path find. -/
theorem changed_exact (files : FileAccess (StateM σ)) (hreads : files.ReadsOnly) (start : σ)
    (happenings : List (Happening σ)) (path : String) :
    let w := (Watched.mk .empty start).after files happenings
    let now := files.content? w.now path
    let past := found files path start happenings
    ((∀ a b, some a ∈ now :: past → some b ∈ now :: past →
        Sha256.digest a.toList = Sha256.digest b.toList → a = b) →
      ((w.call files path).2 = true ↔ now ≠ past.getLast?.join)) ∧
    (((Watched.mk .empty start).after files (happenings.filter (Happening.concerns path))).call files path).2 =
      (w.call files path).2 ∧
    ∀ other others, found files path other others = past →
      files.content? ((Watched.mk .empty other).after files others).now path = now →
      (((Watched.mk .empty other).after files others).call files path).2 = (w.call files path).2 := by
  intro w now past
  have hanswer := call_after_eq_true_iff hreads start happenings path
  have hdetermined : ∀ other others, found files path other others = past →
      files.content? ((Watched.mk .empty other).after files others).now path = now →
      (((Watched.mk .empty other).after files others).call files path).2 = (w.call files path).2 := by
    intro other others hfound hnow
    rw [Bool.eq_iff_iff, call_after_eq_true_iff hreads, hfound, hnow]
    exact hanswer.symm
  refine ⟨fun hdigests => ?_, ?_, hdetermined⟩
  · refine hanswer.trans (not_congr (digestOf_eq_iff fun a b ha hb => ?_))
    refine hdigests a b (ha ▸ List.mem_cons_self) (List.mem_cons_of_mem _ ?_)
    exact List.mem_of_getLast? (Option.join_eq_some_iff.1 hb)
  · refine hdetermined start _ (found_filter path start happenings) ?_
    rw [now_after_filter hreads path _ _ rfl happenings]

theorem readsOnly_access : FileTree.access.ReadsOnly :=
  fun _ _ => rfl

/-- A tree with one thing in it. -/
def treeOf (inode : Inode) : FileTree := ⟨[(["t"], inode)]⟩

/-- A file is asked about, made a directory, taken for one by another path, and written again. -/
def restless (last : String) : List (Happening FileTree) :=
  [.change (treeOf (.file "a".toUTF8)), .call "t", .change (treeOf .directory), .call "t/u",
    .change (treeOf (.file last.toUTF8))]

/-- What was undone goes unnoticed, another content does not. -/
theorem changed_exact_restless :
    (((Watched.mk .empty .empty).after FileTree.access (restless "a")).call FileTree.access "t").2 = false ∧
      (((Watched.mk .empty .empty).after FileTree.access (restless "b")).call FileTree.access "t").2 = true := by
  have hundone := (changed_exact FileTree.access readsOnly_access .empty (restless "a") "t").1
  have hother := (changed_exact FileTree.access readsOnly_access .empty (restless "b") "t").1
  have hfound : ∀ last, found FileTree.access "t" .empty (restless last) = [some "a".toUTF8] := fun _ => rfl
  have hnow : ∀ last, FileTree.access.content?
      ((Watched.mk .empty .empty).after FileTree.access (restless last)).now "t" = some last.toUTF8 := fun _ => rfl
  have hdigests : Sha256.digest "a".toUTF8.toList ≠ Sha256.digest "b".toUTF8.toList := by decide +kernel
  rw [hfound, hnow] at hundone hother
  constructor
  · refine Bool.eq_false_iff.2 fun htrue => (hundone ?_).1 htrue rfl
    intro a b ha hb _
    simp only [List.mem_cons, Option.some.injEq, List.not_mem_nil, or_false, or_self] at ha hb
    rw [ha, hb]
  · refine (hother ?_).2 (by decide)
    intro a b ha hb hsame
    simp only [List.mem_cons, Option.some.injEq, List.not_mem_nil, or_false] at ha hb
    obtain rfl | rfl := ha <;> obtain rfl | rfl := hb
    · rfl
    · exact absurd hsame.symm hdigests
    · exact absurd hsame hdigests
    · rfl

end ContentGate

end DesignTokens
