import DesignTokens.SortedMap

/-!
# Sorted maps seen through their look-ups

A map is determined by what it answers, so two maps with equal answers are equal and are traversed
in the same way. Everything that is said about a traversal below is said key by key.
-/

namespace DesignTokens

variable {α β γ : Type}

/-- Lists of one length come out alike where their items do, place by place. -/
theorem map_eq_map_iff_getElem? {items : List α} {others : List β} {f : α → γ} {g : β → γ} :
    items.map f = others.map g ↔ items.length = others.length ∧
      ∀ (i : Nat) item other, items[i]? = some item → others[i]? = some other → f item = g other := by
  constructor
  · intro h
    refine ⟨by simpa using congrArg List.length h, fun i item other hitem hother => ?_⟩
    simpa [hitem, hother] using congrArg (·[i]?) h
  · intro ⟨hlength, h⟩
    apply List.ext_getElem (by simpa using hlength)
    intro i _ _
    rw [List.getElem_map, List.getElem_map]
    exact h i _ _ (List.getElem?_eq_getElem _) (List.getElem?_eq_getElem _)

namespace SortedMap

theorem eq_of_entries {m n : SortedMap α} (h : m.entries = n.entries) : m = n := by
  cases m; cases n
  simp only at h
  subst h
  rfl

/-! ## Look-ups and entries -/

theorem lookup_eq_some_iff_mem {entries : List (String × α)}
    (h : entries.Pairwise (fun a b => a.1 < b.1)) (key : String) (value : α) :
    entries.lookup key = some value ↔ (key, value) ∈ entries := by
  induction entries with
  | nil => simp
  | cons entry rest ih =>
      have hrest := List.pairwise_cons.1 h
      by_cases hkey : key = entry.1
      · subst hkey
        have hnot : ∀ other, (entry.1, other) ∉ rest := fun other hmem =>
          absurd (hrest.1 _ hmem) (String.lt_irrefl _)
        rw [lookup_cons_eq, if_pos rfl, List.mem_cons, Option.some.injEq]
        constructor
        · intro heq
          subst heq
          exact Or.inl rfl
        · intro h
          rcases h with heq | hmem
          · exact congrArg Prod.snd heq.symm
          · exact absurd hmem (hnot value)
      · have hne : (key, value) ≠ entry := fun heq => hkey (congrArg Prod.fst heq)
        rw [lookup_cons_eq, if_neg hkey, ih hrest.2, List.mem_cons]
        simp only [hne, false_or]

theorem get?_eq_some_iff {m : SortedMap α} {key : String} {value : α} :
    m.get? key = some value ↔ (key, value) ∈ m.entries :=
  lookup_eq_some_iff_mem m.ascending key value

theorem mem_keys {m : SortedMap α} {key : String} :
    key ∈ m.keys ↔ ∃ value, m.get? key = some value := by
  simp only [keys, List.mem_map, get?_eq_some_iff]
  constructor
  · intro ⟨⟨found, value⟩, hmem, heq⟩
    exact ⟨value, heq ▸ hmem⟩
  · intro ⟨value, hmem⟩
    exact ⟨_, hmem, rfl⟩

theorem get?_eq_none_iff {m : SortedMap α} {key : String} : m.get? key = none ↔ key ∉ m.keys := by
  rw [mem_keys]
  cases m.get? key <;> simp

theorem nodup_keys (m : SortedMap α) : m.keys.Nodup := by
  have hkeys : m.keys.Pairwise (· < ·) := List.pairwise_map.2 m.ascending
  refine hkeys.imp ?_
  intro a b hlt heq
  exact String.lt_irrefl b (heq ▸ hlt)

theorem nodup_entries (m : SortedMap α) : m.entries.Nodup := by
  refine m.ascending.imp ?_
  intro a b hlt heq
  exact String.lt_irrefl b.1 (heq ▸ hlt)

/-- Maps that answer every look-up alike are equal. -/
theorem ext_get? {m n : SortedMap α} (h : ∀ key, m.get? key = n.get? key) : m = n := by
  have hmem : ∀ entry, entry ∈ m.entries ↔ entry ∈ n.entries := by
    intro ⟨key, value⟩
    rw [← get?_eq_some_iff, ← get?_eq_some_iff, h]
  have hperm : m.entries.Perm n.entries :=
    (List.perm_ext_iff_of_nodup m.nodup_entries n.nodup_entries).2 hmem
  exact eq_of_entries (hperm.eq_of_pairwise
    (fun _ _ _ _ hab hba => absurd (String.lt_trans hab hba) (String.lt_irrefl _))
    m.ascending n.ascending)

theorem get?_map (m : SortedMap α) (f : α → β) (key : String) :
    (m.map f).get? key = (m.get? key).map f := by
  obtain ⟨entries, ascending⟩ := m
  simp only [get?, map]
  clear ascending
  induction entries with
  | nil => rfl
  | cons entry rest ih =>
      simp only [List.map_cons, lookup_cons_eq, ih]
      split <;> rfl

/-! ## Traversals -/

/-- Keeps the entries for which `f` has an answer, with that answer. -/
def filterMap (f : String → α → Option β) (m : SortedMap α) : SortedMap β where
  entries := m.entries.filterMap (fun entry => (f entry.1 entry.2).map (fun b => (entry.1, b)))
  ascending := by
    refine m.ascending.filterMap _ ?_
    intro a b hlt x hx y hy
    obtain ⟨_, _, rfl⟩ := Option.map_eq_some_iff.1 hx
    obtain ⟨_, _, rfl⟩ := Option.map_eq_some_iff.1 hy
    exact hlt

theorem get?_filterMap (f : String → α → Option β) (m : SortedMap α) (key : String) :
    (m.filterMap f).get? key = (m.get? key).bind (f key) := by
  have hiff : ∀ value, (m.filterMap f).get? key = some value ↔
      (m.get? key).bind (f key) = some value := by
    intro value
    simp only [get?_eq_some_iff, filterMap, List.mem_filterMap, Option.map_eq_some_iff,
      Option.bind_eq_some_iff, Prod.mk.injEq]
    constructor
    · intro ⟨⟨found, a⟩, hmem, b, hb, hkey, hvalue⟩
      subst hkey
      subst hvalue
      exact ⟨a, hmem, hb⟩
    · intro ⟨a, hmem, hb⟩
      exact ⟨(key, a), hmem, value, hb, rfl, rfl⟩
  exact Option.ext hiff

theorem filterMap_entries_eq (f : String → α → Option β) (m : SortedMap α) :
    m.entries.filterMap (fun entry => f entry.1 entry.2) = (m.filterMap f).entries.map (·.2) := by
  simp [filterMap, List.map_filterMap, Function.comp_def]

/-- A traversal that picks nothing where the other map has nothing to pick sees no difference. -/
theorem filterMap_entries_congr {m : SortedMap α} {n : SortedMap β} {f : String → α → Option γ}
    {g : String → β → Option γ}
    (h : ∀ key, (m.get? key).bind (f key) = (n.get? key).bind (g key)) :
    m.entries.filterMap (fun entry => f entry.1 entry.2) =
      n.entries.filterMap (fun entry => g entry.1 entry.2) := by
  have heq : m.filterMap f = n.filterMap g :=
    ext_get? (fun key => by rw [get?_filterMap, get?_filterMap, h])
  rw [filterMap_entries_eq, filterMap_entries_eq, heq]

theorem flatMap_eq_of_pieces (entries : List (String × α)) (f : String → α → List γ) :
    entries.flatMap (fun entry => f entry.1 entry.2) =
      (entries.filterMap (fun entry =>
        if f entry.1 entry.2 = [] then none else some (f entry.1 entry.2))).flatten := by
  induction entries with
  | nil => rfl
  | cons entry rest ih =>
      by_cases h : f entry.1 entry.2 = []
      · simp [h, ih]
      · simp [h, ih]

/-- The same for traversals that list any number of things for each entry. -/
theorem flatMap_entries_congr {m : SortedMap α} {n : SortedMap β} {f : String → α → List γ}
    {g : String → β → List γ}
    (h : ∀ key, ((m.get? key).map (f key)).getD [] = ((n.get? key).map (g key)).getD []) :
    m.entries.flatMap (fun entry => f entry.1 entry.2) =
      n.entries.flatMap (fun entry => g entry.1 entry.2) := by
  rw [flatMap_eq_of_pieces, flatMap_eq_of_pieces]
  congr 1
  refine filterMap_entries_congr (f := fun key a => if f key a = [] then none else some (f key a))
    (g := fun key b => if g key b = [] then none else some (g key b)) ?_
  intro key
  have hkey := h key
  cases hm : m.get? key <;> cases hn : n.get? key <;> simp_all

/-! ## Maps from lists -/

theorem get?_foldl_insert (entries : List (String × α)) (m : SortedMap α) (key : String) :
    (entries.foldl (fun map entry => map.insert entry.1 entry.2) m).get? key =
      (entries.reverse.lookup key).or (m.get? key) := by
  induction entries generalizing m with
  | nil => rfl
  | cons entry rest ih =>
      simp only [List.foldl_cons, ih, get?_insert, List.reverse_cons, List.lookup_append,
        Option.or_assoc, lookup_cons_eq]
      congr 1
      by_cases h : key = entry.1 <;> simp [h]

theorem get?_ofList (entries : List (String × α)) (key : String) :
    (ofList entries).get? key = entries.reverse.lookup key := by
  rw [ofList, get?_foldl_insert]
  simp

/-- Where no key comes twice, a list makes the map of its entries. -/
theorem get?_ofList_of_mem {entries : List (String × α)} (h : (entries.map (·.1)).Nodup)
    {key : String} {value : α} (hmem : (key, value) ∈ entries) :
    (ofList entries).get? key = some value := by
  have hnodup : (entries.reverse.map (·.1)).Nodup := by
    rw [List.map_reverse, List.Nodup, List.pairwise_reverse]
    exact h.imp Ne.symm
  rw [get?_ofList]
  obtain ⟨before, after, hsplit⟩ := List.append_of_mem (List.mem_reverse.2 hmem)
  rw [List.lookup_eq_some_iff]
  refine ⟨before, after, hsplit, ?_⟩
  intro entry hentry
  rw [hsplit, List.map_append, List.nodup_append] at hnodup
  have hne := hnodup.2.2 entry.1 (List.mem_map_of_mem hentry) key (by simp)
  simpa using fun heq : key = entry.1 => hne heq.symm

@[simp] theorem ofList_entries (m : SortedMap α) : ofList m.entries = m := by
  refine ext_get? (fun key => ?_)
  cases h : m.get? key with
  | some value => exact get?_ofList_of_mem m.nodup_keys (get?_eq_some_iff.1 h)
  | none =>
      rw [get?_ofList, List.lookup_eq_none_iff]
      intro entry hentry
      have hmem : entry.1 ∈ m.keys := List.mem_map_of_mem (List.mem_reverse.1 hentry)
      have hne : key ≠ entry.1 := fun heq => get?_eq_none_iff.1 h (heq ▸ hmem)
      simpa using hne

end SortedMap

namespace SortedSet

theorem eq_of_elements {s t : SortedSet} (h : s.elements = t.elements) : s = t := by
  cases s; cases t
  simp only at h
  subst h
  rfl

/-- Sets with the same members are equal. -/
theorem ext_mem {s t : SortedSet} (h : ∀ key, key ∈ s ↔ key ∈ t) : s = t := by
  have hnodup : ∀ set : SortedSet, set.elements.Nodup := by
    intro set
    refine set.ascending.imp ?_
    intro a b hlt heq
    exact String.lt_irrefl b (heq ▸ hlt)
  have hperm : s.elements.Perm t.elements :=
    (List.perm_ext_iff_of_nodup (hnodup s) (hnodup t)).2 h
  exact eq_of_elements (hperm.eq_of_pairwise
    (fun _ _ _ _ hab hba => absurd (String.lt_trans hab hba) (String.lt_irrefl _))
    s.ascending t.ascending)

theorem eq_empty_iff {s : SortedSet} : s = .empty ↔ ∀ key, key ∉ s := by
  constructor
  · intro h key hmem
    subst h
    exact List.not_mem_nil hmem
  · intro h
    exact eq_of_elements (List.eq_nil_iff_forall_not_mem.2 h)

/-- A list makes the empty set only if it lists nothing. -/
theorem ofList_eq_empty_iff {keys : List String} : ofList keys = .empty ↔ keys = [] := by
  rw [eq_empty_iff, List.eq_nil_iff_forall_not_mem]
  simp only [mem_ofList]

end SortedSet

end DesignTokens
