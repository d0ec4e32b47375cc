import DesignTokens.Proofs.Files.Growth

/-!
# Paths and their parents

The names along a path are those along its parent, then one last name, with idle dots between and
after them. A parent never ends in a dot itself, unless the dot is all there is.
-/

namespace DesignTokens

namespace Path

theorem splitSlashes_ne_nil (text : List Char) : splitSlashes text ≠ [] := by
  induction text with
  | nil => simp [splitSlashes]
  | cons c rest ih =>
      by_cases hslash : c = '/'
      · subst hslash
        simp [splitSlashes]
      · obtain ⟨first, others, h⟩ := List.exists_cons_of_ne_nil ih
        simp [splitSlashes, h]

theorem splitSlashes_cons_ne {c : Char} (h : c ≠ '/') {text first : List Char}
    {others : List (List Char)} (hsplit : splitSlashes text = first :: others) :
    splitSlashes (c :: text) = (c :: first) :: others := by
  simp [splitSlashes, hsplit]

theorem splitSlashes_of_not_mem {text : List Char} (h : '/' ∉ text) : splitSlashes text = [text] := by
  induction text with
  | nil => rfl
  | cons c rest ih =>
      have hc : c ≠ '/' := fun heq => h (heq ▸ List.mem_cons_self)
      exact splitSlashes_cons_ne hc (ih (fun hmem => h (List.mem_cons_of_mem _ hmem)))

theorem splitSlashes_append (text rest : List Char) :
    splitSlashes (text ++ '/' :: rest) = splitSlashes text ++ splitSlashes rest := by
  induction text with
  | nil => rfl
  | cons c more ih =>
      by_cases hslash : c = '/'
      · subst hslash
        simp [splitSlashes, ih]
      · obtain ⟨first, others, hsplit⟩ := List.exists_cons_of_ne_nil (splitSlashes_ne_nil more)
        rw [List.cons_append, splitSlashes_cons_ne hslash hsplit]
        rw [hsplit] at ih
        exact splitSlashes_cons_ne hslash ih

theorem not_mem_of_mem_splitSlashes {text part : List Char} (h : part ∈ splitSlashes text) :
    '/' ∉ part := by
  induction text generalizing part with
  | nil =>
      simp only [splitSlashes, List.mem_singleton] at h
      simp [h]
  | cons c rest ih =>
      by_cases hslash : c = '/'
      · subst hslash
        rcases List.mem_cons.1 h with rfl | h
        · exact List.not_mem_nil
        · exact ih h
      · obtain ⟨first, others, hsplit⟩ := List.exists_cons_of_ne_nil (splitSlashes_ne_nil rest)
        rw [splitSlashes_cons_ne hslash hsplit] at h
        rcases List.mem_cons.1 h with rfl | h
        · intro hmem
          rcases List.mem_cons.1 hmem with heq | hmem
          · exact hslash heq.symm
          · exact ih (by rw [hsplit]; exact List.mem_cons_self) hmem
        · exact ih (by rw [hsplit]; exact List.mem_cons_of_mem _ h)

/-- Splitting undoes the joining of segments that hold no slash. -/
theorem splitSlashes_intercalate {parts : List (List Char)} (hne : parts ≠ [])
    (h : ∀ part ∈ parts, '/' ∉ part) : splitSlashes (['/'].intercalate parts) = parts := by
  induction parts with
  | nil => exact absurd rfl hne
  | cons part rest ih =>
      have hpart := h part List.mem_cons_self
      cases rest with
      | nil => simpa using splitSlashes_of_not_mem hpart
      | cons next more =>
          have hrest := ih (by simp) (fun other hmem => h other (List.mem_cons_of_mem _ hmem))
          rw [List.intercalate_cons_cons, List.append_assoc, List.singleton_append,
            splitSlashes_append, splitSlashes_of_not_mem hpart, hrest]
          rfl

theorem intercalate_splitSlashes (text : List Char) : ['/'].intercalate (splitSlashes text) = text := by
  induction text with
  | nil => rfl
  | cons c rest ih =>
      obtain ⟨first, others, hsplit⟩ := List.exists_cons_of_ne_nil (splitSlashes_ne_nil rest)
      by_cases hslash : c = '/'
      · subst hslash
        rw [splitSlashes, hsplit, List.intercalate_cons_cons, ← hsplit, ih]
        rfl
      · rw [hsplit] at ih
        rw [splitSlashes_cons_ne hslash hsplit]
        cases others with
        | nil => simpa using ih
        | cons next more =>
            rw [List.intercalate_cons_cons] at ih ⊢
            rw [List.cons_append, List.cons_append, ih]

theorem segments_ne_nil (path : String) : segments path ≠ [] := by
  simp [segments, splitSlashes_ne_nil]

/-- A segment is a text without slashes. -/
theorem not_mem_of_mem_segments {path segment : String} (h : segment ∈ segments path) :
    '/' ∉ segment.toList := by
  obtain ⟨part, hpart, rfl⟩ := List.mem_map.1 h
  rw [String.toList_ofList]
  exact not_mem_of_mem_splitSlashes hpart

theorem segments_intercalate {parts : List String} (hne : parts ≠ [])
    (h : ∀ part ∈ parts, '/' ∉ part.toList) : segments ("/".intercalate parts) = parts := by
  have hsplit : splitSlashes (['/'].intercalate (parts.map String.toList)) = parts.map String.toList := by
    refine splitSlashes_intercalate (by simpa using hne) ?_
    intro part hpart
    obtain ⟨segment, hsegment, rfl⟩ := List.mem_map.1 hpart
    exact h segment hsegment
  have hslash : "/".toList = ['/'] := rfl
  rw [segments, String.toList_intercalate, hslash, hsplit, List.map_map]
  have hid : String.ofList ∘ String.toList = id := funext (fun s => String.ofList_toList)
  rw [hid, List.map_id]

theorem intercalate_segments (path : String) : "/".intercalate (segments path) = path := by
  have hslash : "/".toList = ['/'] := rfl
  have hid : String.toList ∘ String.ofList = id := funext (fun s => String.toList_ofList)
  rw [← String.toList_inj, String.toList_intercalate, hslash, segments, List.map_map, hid, List.map_id,
    intercalate_splitSlashes]

/-- A path is empty, begins with a slash, or begins with a name. -/
theorem segments_cases (path : String) :
    (path = "" ∧ segments path = [""] ∧ isAbsolute path = false) ∨
      (isAbsolute path = true ∧ ∃ rest, rest ≠ [] ∧ segments path = "" :: rest) ∨
      (isAbsolute path = false ∧ ∃ first rest, first ≠ "" ∧ segments path = first :: rest) := by
  unfold isAbsolute segments
  cases hchars : path.toList with
  | nil => exact Or.inl ⟨String.toList_inj.1 hchars, by simp [splitSlashes], by simp⟩
  | cons c more =>
      by_cases hslash : c = '/'
      · subst hslash
        refine Or.inr (Or.inl ⟨by simp, (splitSlashes more).map String.ofList, ?_, ?_⟩)
        · simp [splitSlashes_ne_nil]
        · simp [splitSlashes]
      · obtain ⟨first, others, hsplit⟩ := List.exists_cons_of_ne_nil (splitSlashes_ne_nil more)
        refine Or.inr (Or.inr ⟨by simp [hslash], String.ofList (c :: first),
          others.map String.ofList, ?_, ?_⟩)
        · intro hempty
          have hlist := congrArg String.toList hempty
          simp at hlist
        · rw [splitSlashes_cons_ne hslash hsplit, List.map_cons]

theorem isAbsolute_iff {path first : String} {rest : List String} (h : segments path = first :: rest) :
    isAbsolute path = true ↔ first = "" ∧ rest ≠ [] := by
  rcases segments_cases path with ⟨-, hseg, habs⟩ | ⟨habs, more, hne, hseg⟩ | ⟨habs, name, more, hne, hseg⟩
  all_goals
    rw [h, List.cons.injEq] at hseg
    simp [hseg.1, hseg.2, habs]
  · exact hne
  · exact fun heq => absurd heq hne

theorem isIdle_iff {segment : String} : isIdle segment = true ↔ segment = "" ∨ segment = "." := by
  simp [isIdle]

/-- A list of segments ends in some that count, or none does. -/
theorem dropIdleEnd_spec (segments : List String) :
    ∃ idle, (∀ segment ∈ idle, isIdle segment = true) ∧
      segments = (dropIdleEnd segments.reverse).reverse ++ idle := by
  refine ⟨(segments.reverse.takeWhile isIdle).reverse, ?_, ?_⟩
  · intro segment hmem
    exact List.all_eq_true.1 List.all_takeWhile segment (List.mem_reverse.1 hmem)
  · rw [dropIdleEnd, ← List.reverse_append, List.takeWhile_append_dropWhile, List.reverse_reverse]

theorem not_isIdle_of_dropIdleEnd {reversed others : List String} {last : String}
    (h : dropIdleEnd reversed = last :: others) : isIdle last = false := by
  have hhead := List.head?_dropWhile_not isIdle reversed
  unfold dropIdleEnd at h
  rw [h] at hhead
  simpa using hhead

end Path

namespace FileTree

open DesignTokens.Path

theorem names_eq {path first : String} {rest : List String} (h : segments path = first :: rest) :
    names path = (if isAbsolute path then ["/"] else []) ++ (first :: rest).filter (· ≠ "") := by
  rw [names, h]

theorem dot_of_mem_filter_idle {idle : List String} (h : ∀ segment ∈ idle, isIdle segment = true) :
    ∀ name ∈ idle.filter (· ≠ ""), name = "." := by
  intro name hmem
  obtain ⟨hname, hne⟩ := List.mem_filter.1 hmem
  rcases isIdle_iff.1 (h name hname) with heq | heq
  · simp [heq] at hne
  · exact heq

/-- The directory that a path lies in, empty if nothing has to be made for it. -/
def directoryOf (path : String) : String :=
  (parent? path).getD ""

/-- A path continues its directory by dots, one name, and dots. -/
structure Continues (path : String) (before : List String) (last : String) (after : List String) :
    Prop where
  dots_before : ∀ name ∈ before, name = "."
  dots_after : ∀ name ∈ after, name = "."
  eq : names path = names (directoryOf path) ++ (before ++ last :: after)
  ends : (names (directoryOf path)).tail = [] ∨ (names (directoryOf path)).getLast? ≠ some "."

theorem names_of_intercalate {path first : String} {rest kept : List String}
    (hseg : segments path = first :: rest) (hsub : ∀ segment ∈ kept, segment ∈ rest)
    (hkept : kept ≠ []) :
    names ("/".intercalate (first :: kept)) =
      (if isAbsolute path then ["/"] else []) ++ (first :: kept).filter (· ≠ "") := by
  have hslash : ∀ segment ∈ first :: kept, '/' ∉ segment.toList := by
    intro segment hmem
    have hpart : segment ∈ segments path := by
      rw [hseg]
      rcases List.mem_cons.1 hmem with rfl | hmem
      · exact List.mem_cons_self
      · exact List.mem_cons_of_mem _ (hsub segment hmem)
    exact not_mem_of_mem_segments hpart
  have hparts := segments_intercalate (List.cons_ne_nil first kept) hslash
  have hrest : rest ≠ [] := by
    obtain ⟨segment, more, rfl⟩ := List.exists_cons_of_ne_nil hkept
    exact List.ne_nil_of_mem (hsub segment List.mem_cons_self)
  rw [names_eq hparts]
  congr 2
  rw [Bool.eq_iff_iff, isAbsolute_iff hparts, isAbsolute_iff hseg]
  simp [hkept, hrest]

/-- Without a directory to be made, only one name can stand on the way. -/
theorem continues_of_all_idle {path first : String} {rest : List String}
    (hseg : segments path = first :: rest) (hne : path ≠ "")
    (hidle : dropIdleEnd rest.reverse = []) : ∃ last after, Continues path [] last after := by
  obtain ⟨idle, hall, hrest⟩ := dropIdleEnd_spec rest
  rw [hidle, List.reverse_nil, List.nil_append] at hrest
  subst hrest
  have hdir : names (directoryOf path) = [] := by
    have hparent : directoryOf path = "" := by
      simp only [directoryOf, parent?, headAndTail, hseg, hidle]
      split <;> rfl
    rw [hparent]
    rfl
  have hdots := dot_of_mem_filter_idle hall
  have hnames := names_eq hseg
  by_cases hfirst : first = ""
  · subst hfirst
    have habs : isAbsolute path = true := by
      rw [isAbsolute_iff hseg]
      refine ⟨rfl, ?_⟩
      intro hnil
      rcases segments_cases path with ⟨heq, -⟩ | ⟨-, more, hmore, hsplit⟩ | ⟨-, name, more, hname, hsplit⟩
      · exact hne heq
      · rw [hseg, hnil] at hsplit
        exact hmore (List.cons.inj hsplit).2.symm
      · rw [hseg, hnil] at hsplit
        exact hname (List.cons.inj hsplit).1.symm
    refine ⟨"/", rest.filter (· ≠ ""), by simp, hdots, ?_, Or.inl (by rw [hdir]; rfl)⟩
    rw [hnames, hdir, habs]
    simp
  · have habs : isAbsolute path = false := by
      rw [Bool.eq_false_iff, Ne, isAbsolute_iff hseg]
      exact fun h => hfirst h.1
    refine ⟨first, rest.filter (· ≠ ""), by simp, hdots, ?_, Or.inl (by rw [hdir]; rfl)⟩
    rw [hnames, hdir, habs]
    simp [hfirst]

theorem directoryOf_eq {path first last : String} {rest others : List String}
    (hseg : segments path = first :: rest) (h : dropIdleEnd rest.reverse = last :: others) :
    directoryOf path =
      if (dropIdleEnd others).reverse = [] then (if isAbsolute path then "/" else first)
      else "/".intercalate (first :: (dropIdleEnd others).reverse) := by
  simp only [directoryOf, parent?, headAndTail, hseg, h]
  cases (dropIdleEnd others).reverse <;> rfl

theorem names_directoryOf {path first last : String} {rest others : List String}
    (hseg : segments path = first :: rest) (h : dropIdleEnd rest.reverse = last :: others)
    (hsub : ∀ segment ∈ (dropIdleEnd others).reverse, segment ∈ rest) (hrest : rest ≠ []) :
    names (directoryOf path) = (if isAbsolute path then ["/"] else []) ++
      (first :: (dropIdleEnd others).reverse).filter (· ≠ "") := by
  rw [directoryOf_eq hseg h]
  by_cases hkept : (dropIdleEnd others).reverse = []
  · rw [if_pos hkept, hkept]
    cases habs : isAbsolute path with
    | true =>
        have hfirst := ((isAbsolute_iff hseg).1 habs).1
        subst hfirst
        rfl
    | false =>
        have hfirst : first ≠ "" := by
          intro heq
          rw [(isAbsolute_iff hseg).2 ⟨heq, hrest⟩] at habs
          cases habs
        have hpart : first ∈ segments path := by
          rw [hseg]
          exact List.mem_cons_self
        have hslash := not_mem_of_mem_segments hpart
        have hparts := segments_intercalate (List.cons_ne_nil first []) (by simpa using hslash)
        rw [String.intercalate_singleton] at hparts
        have hrel : isAbsolute first = false := by
          rw [Bool.eq_false_iff, Ne, isAbsolute_iff hparts]
          simp
        rw [if_neg (by simp), names_eq hparts, hrel]
  · rw [if_neg hkept, names_of_intercalate hseg hsub hkept]

/-- Every path but the empty one continues its directory. -/
theorem exists_continues {path : String} (hne : path ≠ "") :
    ∃ before last after, Continues path before last after := by
  obtain ⟨first, rest, hseg⟩ := List.exists_cons_of_ne_nil (segments_ne_nil path)
  cases hdrop : dropIdleEnd rest.reverse with
  | nil =>
      obtain ⟨last, after, h⟩ := continues_of_all_idle hseg hne hdrop
      exact ⟨[], last, after, h⟩
  | cons last others =>
      obtain ⟨idle, hidle, hrest⟩ := dropIdleEnd_spec rest
      obtain ⟨gap, hgap, hothers⟩ := dropIdleEnd_spec others.reverse
      rw [List.reverse_reverse] at hothers
      rw [hdrop, List.reverse_cons, hothers] at hrest
      have hlast := not_isIdle_of_dropIdleEnd hdrop
      have hlast' : last ≠ "" := by
        intro heq
        simp [isIdle, heq] at hlast
      have hsub : ∀ segment ∈ (dropIdleEnd others).reverse, segment ∈ rest := by
        intro segment hmem
        rw [hrest]
        simp [List.mem_reverse.1 hmem]
      have hnil : rest ≠ [] := by
        rw [hrest]
        simp
      have hdir := names_directoryOf hseg hdrop hsub hnil
      refine ⟨gap.filter (· ≠ ""), last, idle.filter (· ≠ ""), dot_of_mem_filter_idle hgap,
        dot_of_mem_filter_idle hidle, ?_, ?_⟩
      · rw [hdir, names_eq hseg, hrest]
        simp [List.filter_cons, List.filter_append, hlast']
        split <;> simp
      · rw [hdir]
        cases hkept : dropIdleEnd others with
        | nil =>
            left
            cases habs : isAbsolute path with
            | true => simp [((isAbsolute_iff hseg).1 habs).1]
            | false => by_cases hfirst : first = "" <;> simp [hfirst]
        | cons kept more =>
            right
            have hkept' := not_isIdle_of_dropIdleEnd hkept
            have hname : kept ≠ "" ∧ kept ≠ "." := by
              simpa [isIdle] using hkept'
            rw [List.reverse_cons, ← List.cons_append, List.filter_append, ← List.append_assoc]
            simp [hname.1, hname.2]

/-- A directory is written at the start of the paths into it. -/
theorem exists_eq_directoryOf_append (path : String) : ∃ tail, path = directoryOf path ++ tail := by
  obtain ⟨first, rest, hseg⟩ := List.exists_cons_of_ne_nil (segments_ne_nil path)
  have hjoin := intercalate_segments path
  cases hdrop : dropIdleEnd rest.reverse with
  | nil =>
      have hdir : directoryOf path = "" := by
        simp only [directoryOf, parent?, headAndTail, hseg, hdrop]
        split <;> rfl
      exact ⟨path, by rw [hdir, String.empty_append]⟩
  | cons last others =>
      obtain ⟨idle, -, hrest⟩ := dropIdleEnd_spec rest
      obtain ⟨gap, -, hothers⟩ := dropIdleEnd_spec others.reverse
      rw [List.reverse_reverse] at hothers
      rw [hdrop, List.reverse_cons, hothers, List.append_assoc, List.append_assoc] at hrest
      rw [directoryOf_eq hseg hdrop]
      rw [hseg, hrest] at hjoin
      by_cases hkept : (dropIdleEnd others).reverse = []
      · rw [hkept, List.nil_append, String.intercalate_cons_of_ne_nil (by simp)] at hjoin
        rw [if_pos hkept]
        cases habs : isAbsolute path with
        | true =>
            have hfirst := ((isAbsolute_iff hseg).1 habs).1
            rw [hfirst, String.empty_append] at hjoin
            exact ⟨_, hjoin.symm⟩
        | false =>
            rw [String.append_assoc] at hjoin
            exact ⟨_, hjoin.symm⟩
      · rw [← List.cons_append, String.intercalate_append_of_ne_nil (by simp) (by simp),
          String.append_assoc] at hjoin
        rw [if_neg hkept]
        exact ⟨_, hjoin.symm⟩

theorem isPath_of_append {path tail : String} (h : isPath (path ++ tail) = true) :
    isPath path = true := by
  simp only [isPath, Bool.and_eq_true, decide_eq_true_eq, Bool.not_eq_true',
    List.contains_eq_mem, decide_eq_false_iff_not, String.utf8ByteSize_append,
    String.toList_append] at h ⊢
  refine ⟨by omega, ?_⟩
  intro hmem
  exact h.2 (List.mem_append_left _ hmem)

theorem isPath_directoryOf {path : String} (h : isPath path = true) :
    isPath (directoryOf path) = true := by
  obtain ⟨tail, htail⟩ := exists_eq_directoryOf_append path
  rw [htail] at h
  exact isPath_of_append h

/-! ## Names in a directory -/

theorem segments_append_slash (base file : String) :
    segments (base ++ "/" ++ file) = segments base ++ segments file := by
  have hchars : (base ++ "/" ++ file).toList = base.toList ++ '/' :: file.toList := by
    simp [String.toList_append]
  rw [segments, hchars, splitSlashes_append, List.map_append]
  rfl

theorem isAbsolute_append {base tail : String} (h : base ≠ "") :
    isAbsolute (base ++ tail) = isAbsolute base := by
  unfold isAbsolute
  cases hchars : base.toList with
  | nil => exact absurd (String.toList_inj.1 hchars) h
  | cons c rest => simp [String.toList_append, hchars]

/-- A path is joined by writing something after it. -/
theorem exists_join_eq_append {file : String} (hrel : isAbsolute file = false) (base : String) :
    ∃ tail, join base file = base ++ tail := by
  unfold join
  by_cases hbase : base = ""
  · subst hbase
    exact ⟨file, by simp⟩
  · by_cases hslash : base.toList.getLast? = some '/'
    · exact ⟨file, by simp [hrel, hbase, hslash]⟩
    · exact ⟨"/" ++ file, by simp [hrel, hbase, hslash, String.append_assoc]⟩

/-- The names along a joined path are those along the directory, then that of the file. -/
theorem names_join {file : String} (hslash : '/' ∉ file.toList) (hne : file ≠ "") (base : String) :
    names (join base file) = names base ++ [file] := by
  have hfile : segments file = [file] := by
    rw [segments, splitSlashes_of_not_mem hslash]
    simp
  have hrel : isAbsolute file = false := by
    rw [Bool.eq_false_iff, Ne, isAbsolute_iff hfile]
    simp
  by_cases hbase : base = ""
  · have hjoin : join base file = file := by
      simp [join, hbase]
    have hnone : names "" = [] := rfl
    rw [hjoin, names, hfile, hrel, hbase, hnone]
    simp [hne]
  · by_cases hend : base.toList.getLast? = some '/'
    · obtain ⟨front, hfront⟩ := List.getLast?_eq_some_iff.1 hend
      have hsplit : base = String.ofList front ++ "/" := by
        rw [← String.toList_inj, hfront, String.toList_append, String.toList_ofList]
        rfl
      have hjoin : join base file = base ++ file := by
        simp [join, hrel, hbase, hend]
      have hbare : segments base = segments (String.ofList front) ++ [""] := by
        rw [hsplit, ← String.append_empty (s := String.ofList front ++ "/"), segments_append_slash]
        rfl
      have hwhole : segments (base ++ file) = segments (String.ofList front) ++ [file] := by
        rw [hsplit, segments_append_slash, hfile]
      rw [hjoin, names, names, isAbsolute_append hbase, hbare, hwhole]
      simp [hne]
    · have hjoin : join base file = base ++ "/" ++ file := by
        simp [join, hrel, hbase, hend]
      rw [hjoin, names, segments_append_slash, String.append_assoc, isAbsolute_append hbase, hfile]
      simp [names, hne]

end FileTree

end DesignTokens
