import DesignTokens.Proofs.Maps
import DesignTokens.Stylesheet

/-!
# What interning makes of a config

A config asks for variables in a fixed order: the declared slots of its classes by name, then spacings,
then colors. The table holds one variable for each token that is asked for, in the order of the first
requests, and refers every slot and key to the variable of its own token.
-/

namespace DesignTokens

/-! ## Requests -/

/-- A token with the raw value that its variable is made from. -/
abbrev Request := Token × String

def Request.variable (config : Config) (request : Request) : Variable :=
  Variable.ofToken config request.1 request.2

def ClassSpec.requests (spec : ClassSpec) : List Request :=
  spec.declared.map (fun declared => (.value declared.1.property declared.2, declared.2))

def SortedMap.requests (p : Property) (values : SortedMap String) : List Request :=
  values.entries.map (fun entry => (.entry p entry.1, entry.2))

/-- All requests of a config, in order. -/
def Config.requests (config : Config) : List Request :=
  config.classes.entries.flatMap (fun entry => entry.2.requests) ++
    config.spacing.requests .spacing ++ config.colors.requests .color

namespace Interning

/-- Takes in a request, unless its token has been asked for. -/
def addNew (seen : List Request) (request : Request) : List Request :=
  if request.1 ∈ seen.map (·.1) then seen else seen ++ [request]

/-- The first requests of all tokens. -/
def distinct (requests : List Request) : List Request :=
  requests.foldl addNew []

theorem prefix_addNew (seen : List Request) (request : Request) : seen <+: addNew seen request := by
  unfold addNew
  split
  · exact List.prefix_refl seen
  · exact List.prefix_append seen [request]

theorem prefix_foldl_addNew (requests seen : List Request) : seen <+: requests.foldl addNew seen := by
  induction requests generalizing seen with
  | nil => exact List.prefix_refl seen
  | cons request rest ih => exact (prefix_addNew seen request).trans (ih (addNew seen request))

theorem mem_of_mem_foldl_addNew {requests seen : List Request} {request : Request}
    (h : request ∈ requests.foldl addNew seen) : request ∈ seen ∨ request ∈ requests := by
  induction requests generalizing seen with
  | nil => exact Or.inl h
  | cons first rest ih =>
      rcases ih h with hseen | hrest
      · unfold addNew at hseen
        split at hseen
        · exact Or.inl hseen
        · rcases List.mem_append.1 hseen with hold | hnew
          · exact Or.inl hold
          · rw [List.mem_singleton.1 hnew]
            exact Or.inr List.mem_cons_self
      · exact Or.inr (List.mem_cons_of_mem _ hrest)

theorem mem_tokens_addNew (seen : List Request) (request : Request) :
    request.1 ∈ (addNew seen request).map (·.1) := by
  unfold addNew
  split
  · assumption
  · simp

theorem mem_tokens_distinct {requests : List Request} {request : Request} (h : request ∈ requests) :
    request.1 ∈ (distinct requests).map (·.1) := by
  obtain ⟨before, after, rfl⟩ := List.append_of_mem h
  unfold distinct
  rw [List.foldl_append, List.foldl_cons]
  have hstart := prefix_foldl_addNew after (addNew (before.foldl addNew []) request)
  exact (hstart.map _).subset (mem_tokens_addNew _ request)

theorem nodup_addNew {seen : List Request} (h : (seen.map (·.1)).Nodup) (request : Request) :
    ((addNew seen request).map (·.1)).Nodup := by
  unfold addNew
  split
  · exact h
  · rename_i hnew
    rw [List.map_append, List.nodup_append]
    refine ⟨h, by simp, ?_⟩
    intro token hold other hother heq
    simp only [List.map_cons, List.map_nil, List.mem_singleton] at hother
    exact hnew (hother ▸ heq ▸ hold)

theorem getElem?_of_prefix {α : Type} {first second : List α} (h : first <+: second) {i : Nat} {a : α}
    (hi : first[i]? = some a) : second[i]? = some a := by
  obtain ⟨more, rfl⟩ := h
  have hlt : i < first.length := (List.getElem?_eq_some_iff.1 hi).1
  rw [List.getElem?_append_left hlt, hi]

/-! ## One token -/

/-- A table holds the variables of exactly the seen requests, by their positions. -/
structure Interned (config : Config) (seen : List Request) (table : VariableTable) : Prop where
  entries : table.entries.toList = seen.map (Request.variable config)
  index : table.index = (seen.map (·.1)).zipIdx
  nodup : (seen.map (·.1)).Nodup
  /-- The variable of a value is made from that value. -/
  raws : ∀ p raw other, ((.value p raw, other) : Request) ∈ seen → other = raw

theorem interned_empty (config : Config) : Interned config [] .empty :=
  ⟨rfl, rfl, List.nodup_nil, by simp⟩

theorem lookup_zipIdx {tokens : List Token} {token : Token} {start id : Nat}
    (h : (tokens.zipIdx start).lookup token = some id) : ∃ i, id = start + i ∧ tokens[i]? = some token := by
  induction tokens generalizing start with
  | nil => simp at h
  | cons first rest ih =>
      rw [List.zipIdx_cons] at h
      by_cases heq : token = first
      · subst heq
        simp only [List.lookup_cons_self, Option.some.injEq] at h
        exact ⟨0, by omega, rfl⟩
      · rw [List.lookup_cons, beq_false_of_ne heq] at h
        obtain ⟨i, hi, htoken⟩ := ih h
        exact ⟨i + 1, by omega, htoken⟩

theorem lookup_zipIdx_eq_none_iff {tokens : List Token} {token : Token} {start : Nat} :
    (tokens.zipIdx start).lookup token = none ↔ token ∉ tokens := by
  induction tokens generalizing start with
  | nil => simp
  | cons first rest ih =>
      rw [List.zipIdx_cons, List.lookup_cons]
      by_cases heq : token = first
      · simp [heq]
      · simp [beq_false_of_ne heq, heq, ih]

variable {config : Config} {seen : List Request} {table : VariableTable}

theorem Interned.lookup_some (h : Interned config seen table) {token : Token} {id : VariableId}
    (hid : table.index.lookup token = some id) : ∃ raw, seen[id]? = some (token, raw) := by
  rw [h.index] at hid
  obtain ⟨i, hi, htoken⟩ := lookup_zipIdx hid
  rw [Nat.zero_add] at hi
  subst hi
  rw [List.getElem?_map, Option.map_eq_some_iff] at htoken
  obtain ⟨⟨found, raw⟩, hrequest, rfl⟩ := htoken
  exact ⟨raw, hrequest⟩

theorem Interned.lookup_none (h : Interned config seen table) {token : Token} :
    table.index.lookup token = none ↔ token ∉ seen.map (·.1) := by
  rw [h.index, lookup_zipIdx_eq_none_iff]

theorem Interned.entry?_eq (h : Interned config seen table) (id : VariableId) :
    table.entry? id = seen[id]?.map (Request.variable config) := by
  rw [VariableTable.entry?, ← Array.getElem?_toList, h.entries, List.getElem?_map]

/-- Interning takes in a request, and its id is the place of the token. -/
theorem Interned.intern (h : Interned config seen table) {token : Token} {raw : String}
    (hraw : ∀ p value, token = .value p value → raw = value) :
    Interned config (addNew seen (token, raw)) (table.intern config token raw).1 ∧
      (∃ found, (addNew seen (token, raw))[(table.intern config token raw).2]? = some (token, found)) ∧
      (table.intern config token raw).1.classes = table.classes := by
  cases hlookup : table.index.lookup token with
  | some id =>
      obtain ⟨found, hfound⟩ := h.lookup_some hlookup
      have hmem : token ∈ seen.map (·.1) :=
        List.mem_map_of_mem (f := (·.1)) (List.mem_of_getElem? hfound)
      have hseen : addNew seen (token, raw) = seen := if_pos hmem
      have hintern : table.intern config token raw = (table, id) := by
        simp [VariableTable.intern, hlookup]
      rw [hseen, hintern]
      exact ⟨h, ⟨found, hfound⟩, rfl⟩
  | none =>
      have hnew := h.lookup_none.1 hlookup
      have hseen : addNew seen (token, raw) = seen ++ [(token, raw)] := if_neg hnew
      have hsize : table.entries.size = seen.length := by
        rw [← Array.length_toList, h.entries, List.length_map]
      have hnodup := nodup_addNew h.nodup (token, raw)
      simp only [VariableTable.intern, hlookup]
      rw [hseen] at hnodup ⊢
      refine ⟨⟨?_, ?_, hnodup, ?_⟩, ⟨raw, ?_⟩, trivial⟩
      · simp [h.entries, Request.variable]
      · simp [h.index, hsize, List.zipIdx_append]
      · intro p value other hmem
        rcases List.mem_append.1 hmem with hold | hlast
        · exact h.raws p value other hold
        · simp only [List.mem_singleton, Prod.mk.injEq] at hlast
          rw [hlast.2]
          exact hraw p value hlast.1.symm
      · rw [hsize]
        simp

/-! ## The slots of a class -/

/-- The slots of a class are bound to the places of what it declares in them. -/
structure Bound (seen : List Request) (declared : List (Slot × String))
    (ids : List (Slot × VariableId)) : Prop where
  found : ∀ {slot : Slot} {raw : String}, declared.lookup slot = some raw →
    ∃ id, ids.lookup slot = some id ∧ seen[id]? = some (.value slot.property raw, raw)
  absent : ∀ {slot : Slot}, declared.lookup slot = none → ids.lookup slot = none

theorem Bound.mono {declared : List (Slot × String)} {ids : List (Slot × VariableId)}
    (h : Bound seen declared ids) {more : List Request} (hstart : seen <+: more) :
    Bound more declared ids := by
  constructor
  · intro slot raw hslot
    obtain ⟨id, hid, hseen⟩ := h.found hslot
    exact ⟨id, hid, getElem?_of_prefix hstart hseen⟩
  · exact h.absent

def slotRequests (declared : List (Slot × String)) : List Request :=
  declared.map (fun slot => (.value slot.1.property slot.2, slot.2))

theorem Interned.internSlots (h : Interned config seen table) (declared : List (Slot × String)) :
    Interned config ((slotRequests declared).foldl addNew seen)
        (table.internSlots config declared).1 ∧
      Bound ((slotRequests declared).foldl addNew seen) declared
        (table.internSlots config declared).2 ∧
      (table.internSlots config declared).1.classes = table.classes := by
  induction declared generalizing seen table with
  | nil =>
      refine ⟨h, ?_, rfl⟩
      constructor
      · intro slot raw hslot
        cases hslot
      · intro slot _
        rfl
  | cons first rest ih =>
      obtain ⟨slot, raw⟩ := first
      have hraw : ∀ p value, Token.value slot.property raw = .value p value → raw = value := by
        intro p value heq
        cases heq
        rfl
      obtain ⟨hfirst, ⟨found, hfound⟩, hsame⟩ := h.intern hraw
      obtain ⟨hrest, hbound, hclasses⟩ := ih hfirst
      have hother := hfirst.raws _ _ _ (List.mem_of_getElem? hfound)
      subst hother
      have hplace := getElem?_of_prefix (prefix_foldl_addNew (slotRequests rest) _) hfound
      refine ⟨hrest, ?_, hclasses.trans hsame⟩
      simp only [VariableTable.internSlots]
      constructor
      · intro other value hother
        by_cases heq : other = slot
        · subst heq
          simp only [List.lookup_cons_self, Option.some.injEq] at hother
          subst hother
          exact ⟨_, List.lookup_cons_self, hplace⟩
        · rw [List.lookup_cons, beq_false_of_ne heq] at hother
          obtain ⟨id, hid, hseen⟩ := hbound.found hother
          refine ⟨id, ?_, hseen⟩
          rw [List.lookup_cons, beq_false_of_ne heq]
          exact hid
      · intro other hother
        by_cases heq : other = slot
        · subst heq
          simp at hother
        · rw [List.lookup_cons, beq_false_of_ne heq] at hother ⊢
          exact hbound.absent hother

/-! ## All classes and tables -/

/-- The state of interning after some classes: each of them is bound, and no other is there. -/
structure Tabled (seen : List Request) (classes : List (String × ClassSpec)) (table : VariableTable) :
    Prop where
  bound : ∀ {name : String} {spec : ClassSpec}, (name, spec) ∈ classes →
    ∃ ids, table.classes.get? name = some ids ∧ Bound seen spec.declared ids
  absent : ∀ {name : String}, name ∉ classes.map (·.1) → table.classes.get? name = none

theorem Tabled.mono {classes : List (String × ClassSpec)} (h : Tabled seen classes table)
    {more : List Request} (hstart : seen <+: more) {later : VariableTable}
    (hclasses : later.classes = table.classes) : Tabled more classes later := by
  constructor
  · intro name spec hmem
    obtain ⟨ids, hids, hbound⟩ := h.bound hmem
    exact ⟨ids, by rw [hclasses, hids], hbound.mono hstart⟩
  · intro name hname
    rw [hclasses, h.absent hname]

theorem slotRequests_declared (spec : ClassSpec) : slotRequests spec.declared = spec.requests := rfl

/-- Interning one more class. -/
theorem Tabled.internClass {classes : List (String × ClassSpec)} (h : Tabled seen classes table)
    (hinterned : Interned config seen table) {name : String} {spec : ClassSpec}
    (hnew : name ∉ classes.map (·.1)) :
    Interned config (spec.requests.foldl addNew seen) (table.internClass config name spec) ∧
      Tabled (spec.requests.foldl addNew seen) (classes ++ [(name, spec)])
        (table.internClass config name spec) := by
  obtain ⟨hslots, hbound, hclasses⟩ := hinterned.internSlots spec.declared
  rw [slotRequests_declared] at hslots hbound
  have hstart := prefix_foldl_addNew spec.requests seen
  refine ⟨⟨hslots.entries, hslots.index, hslots.nodup, hslots.raws⟩, ?_⟩
  simp only [VariableTable.internClass]
  constructor
  · intro other found hmem
    rw [SortedMap.get?_insert]
    rcases List.mem_append.1 hmem with hold | hlast
    · have hne : other ≠ name := by
        intro heq
        exact hnew (heq ▸ List.mem_map_of_mem (f := (·.1)) hold)
      rw [if_neg hne, hclasses]
      obtain ⟨ids, hids, hold⟩ := h.bound hold
      exact ⟨ids, hids, hold.mono hstart⟩
    · simp only [List.mem_singleton, Prod.mk.injEq] at hlast
      obtain ⟨rfl, rfl⟩ := hlast
      exact ⟨_, if_pos rfl, hbound⟩
  · intro other hother
    simp only [List.map_append, List.map_cons, List.map_nil, List.mem_append, List.mem_singleton,
      not_or] at hother
    rw [SortedMap.get?_insert, if_neg hother.2, hclasses, h.absent hother.1]

theorem tabled_classes {classes : List (String × ClassSpec)} (hnodup : (classes.map (·.1)).Nodup) :
    ∀ rest, ∀ before, before ++ rest = classes → ∀ seen table, Interned config seen table →
      Tabled seen before table →
      Interned config ((rest.flatMap (fun entry => entry.2.requests)).foldl addNew seen)
          (rest.foldl (fun t entry => t.internClass config entry.1 entry.2) table) ∧
        Tabled ((rest.flatMap (fun entry => entry.2.requests)).foldl addNew seen) classes
          (rest.foldl (fun t entry => t.internClass config entry.1 entry.2) table) := by
  intro rest
  induction rest with
  | nil =>
      intro before hsplit seen table hinterned htabled
      rw [List.append_nil] at hsplit
      subst hsplit
      exact ⟨hinterned, htabled⟩
  | cons entry rest ih =>
      intro before hsplit seen table hinterned htabled
      have hnew : entry.1 ∉ before.map (·.1) := by
        intro hmem
        rw [← hsplit, List.map_append, List.nodup_append] at hnodup
        exact hnodup.2.2 entry.1 hmem entry.1 (by simp) rfl
      obtain ⟨hfirst, hclass⟩ := htabled.internClass hinterned hnew
      have hnext := ih (before ++ [entry]) (by rw [← hsplit]; simp) _ _ hfirst hclass
      rwa [List.flatMap_cons, List.foldl_append]

theorem Interned.internFlat (h : Interned config seen table) (p : Property) (values : SortedMap String) :
    Interned config ((values.requests p).foldl addNew seen) (table.internFlat config p values) ∧
      (table.internFlat config p values).classes = table.classes := by
  unfold VariableTable.internFlat SortedMap.requests
  induction values.entries generalizing seen table with
  | nil => exact ⟨h, rfl⟩
  | cons entry rest ih =>
      have hraw : ∀ q value, Token.entry p entry.1 = .value q value → entry.2 = value := by
        intro q value heq
        cases heq
      obtain ⟨hfirst, -, hsame⟩ := h.intern hraw
      obtain ⟨hrest, hclasses⟩ := ih hfirst
      exact ⟨hrest, hclasses.trans hsame⟩

/-- The table of a config answers exactly the config's requests. -/
theorem interned_ofConfig (config : Config) :
    Interned config (distinct config.requests) (VariableTable.ofConfig config) ∧
      Tabled (distinct config.requests) config.classes.entries (VariableTable.ofConfig config) := by
  have hempty : Tabled [] [] VariableTable.empty := ⟨by simp, fun _ => rfl⟩
  obtain ⟨hclasses, htabled⟩ := tabled_classes config.classes.nodup_keys config.classes.entries []
    rfl [] .empty (interned_empty config) hempty
  obtain ⟨hspacing, hsame⟩ := hclasses.internFlat .spacing config.spacing
  obtain ⟨hcolors, hsame'⟩ := hspacing.internFlat .color config.colors
  have hstart := (prefix_foldl_addNew (config.spacing.requests .spacing)
    ((config.classes.entries.flatMap (fun entry => entry.2.requests)).foldl addNew [])).trans
      (prefix_foldl_addNew (config.colors.requests .color) _)
  unfold distinct Config.requests
  rw [List.foldl_append, List.foldl_append]
  exact ⟨hcolors, htabled.mono hstart (hsame'.trans hsame)⟩

theorem entries_ofConfig (config : Config) :
    (VariableTable.ofConfig config).entries.toList =
      (distinct config.requests).map (Request.variable config) :=
  (interned_ofConfig config).1.entries

/-! ## Requests of a config -/

theorem lookup_filterMap {slots : List Slot} (hnodup : slots.Nodup) (f : Slot → Option String)
    {slot : Slot} (hslot : slot ∈ slots) :
    (slots.filterMap (fun s => (f s).map (fun raw => (s, raw)))).lookup slot = f slot := by
  have habsent : ∀ rest : List Slot, slot ∉ rest →
      (rest.filterMap (fun s => (f s).map (fun raw => (s, raw)))).lookup slot = none := by
    intro rest hrest
    rw [List.lookup_eq_none_iff]
    intro entry hentry
    obtain ⟨other, hother, hvalue⟩ := List.mem_filterMap.1 hentry
    obtain ⟨raw, -, rfl⟩ := Option.map_eq_some_iff.1 hvalue
    have hne : slot ≠ other := fun heq => hrest (heq ▸ hother)
    simpa using hne
  induction slots with
  | nil => cases hslot
  | cons first rest ih =>
      obtain ⟨hfirst, hrest⟩ := List.nodup_cons.1 hnodup
      by_cases heq : slot = first
      · subst heq
        cases hvalue : f slot with
        | none => simpa [List.filterMap_cons, hvalue] using habsent rest hfirst
        | some raw => simp [hvalue]
      · have hmem := (List.mem_cons.1 hslot).resolve_left heq
        cases hvalue : f first with
        | none => simpa [List.filterMap_cons, hvalue] using ih hrest hmem
        | some raw => simpa [List.filterMap_cons, hvalue, List.lookup_cons, beq_false_of_ne heq] using ih hrest hmem

theorem lookup_declared (spec : ClassSpec) (slot : Slot) : spec.declared.lookup slot = spec.value? slot :=
  lookup_filterMap (by decide) spec.value? (Slot.mem_all slot)

theorem mem_requests {config : Config} {request : Request} :
    request ∈ config.requests ↔
      (∃ name spec slot raw, config.classes.get? name = some spec ∧ spec.value? slot = some raw ∧
          request = (.value slot.property raw, raw)) ∨
        (∃ key raw, config.spacing.get? key = some raw ∧ request = (.entry .spacing key, raw)) ∨
        ∃ key raw, config.colors.get? key = some raw ∧ request = (.entry .color key, raw) := by
  have hflat : ∀ (p : Property) (values : SortedMap String), request ∈ values.requests p ↔
      ∃ key raw, values.get? key = some raw ∧ request = (.entry p key, raw) := by
    intro p values
    simp only [SortedMap.requests, List.mem_map, SortedMap.get?_eq_some_iff]
    constructor
    · intro ⟨entry, hmem, heq⟩
      exact ⟨entry.1, entry.2, hmem, heq.symm⟩
    · intro ⟨key, raw, hmem, heq⟩
      exact ⟨(key, raw), hmem, heq.symm⟩
  simp only [Config.requests, List.mem_append, hflat, List.mem_flatMap, ClassSpec.requests, List.mem_map,
    or_assoc]
  refine or_congr_left ?_
  constructor
  · intro ⟨⟨name, spec⟩, hmem, ⟨slot, raw⟩, hdeclared, heq⟩
    exact ⟨name, spec, slot, raw, SortedMap.get?_eq_some_iff.2 hmem, ClassSpec.mem_declared.1 hdeclared,
      heq.symm⟩
  · intro ⟨name, spec, slot, raw, hspec, hvalue, heq⟩
    exact ⟨(name, spec), SortedMap.get?_eq_some_iff.1 hspec, (slot, raw),
      ClassSpec.mem_declared.2 hvalue, heq.symm⟩

/-- The raw value that a config gives to a token. -/
def rawOf? (config : Config) : Token → Option String
  | .value _ raw => some raw
  | .entry .spacing key => config.spacing.get? key
  | .entry .color key => config.colors.get? key
  | .entry _ _ => none

theorem rawOf?_of_mem {config : Config} {request : Request} (h : request ∈ config.requests) :
    rawOf? config request.1 = some request.2 := by
  rcases mem_requests.1 h with ⟨_, _, _, raw, -, -, heq⟩ | ⟨key, raw, hraw, heq⟩ | ⟨key, raw, hraw, heq⟩
  · rw [heq]
    rfl
  · rw [heq]
    exact hraw
  · rw [heq]
    exact hraw

/-- A token is asked for with one raw value only. -/
theorem raw_unique {config : Config} {token : Token} {first second : String}
    (h : ((token, first) : Request) ∈ config.requests)
    (h' : ((token, second) : Request) ∈ config.requests) : first = second := by
  have hfirst := rawOf?_of_mem h
  rw [rawOf?_of_mem h'] at hfirst
  exact (Option.some.inj hfirst).symm

theorem mem_distinct {config : Config} {request : Request} :
    request ∈ distinct config.requests ↔ request ∈ config.requests := by
  constructor
  · intro h
    exact (mem_of_mem_foldl_addNew h).resolve_left List.not_mem_nil
  · intro h
    obtain ⟨found, hfound, htoken⟩ := List.mem_map.1 (mem_tokens_distinct h)
    have hraw := (mem_of_mem_foldl_addNew hfound).resolve_left List.not_mem_nil
    obtain ⟨token, raw⟩ := request
    obtain ⟨other, raw'⟩ := found
    simp only at htoken
    subst htoken
    rwa [raw_unique h hraw]

/-! ## Look-ups in the table of a config -/

/-- The variable in a slot is that of what the class declares there. -/
theorem inSlot?_ofConfig (config : Config) (name : String) (slot : Slot) :
    (VariableTable.ofConfig config).inSlot? name slot =
      (config.classes.get? name).bind (fun spec => (spec.value? slot).map (fun raw =>
        Variable.ofToken config (.value slot.property raw) raw)) := by
  obtain ⟨hinterned, htabled⟩ := interned_ofConfig config
  unfold VariableTable.inSlot?
  cases hspec : config.classes.get? name with
  | none =>
      rw [htabled.absent (SortedMap.get?_eq_none_iff.1 hspec)]
      rfl
  | some spec =>
      obtain ⟨ids, hids, hbound⟩ := htabled.bound (SortedMap.get?_eq_some_iff.1 hspec)
      cases hvalue : spec.value? slot with
      | none =>
          have habsent := hbound.absent ((lookup_declared spec slot).trans hvalue)
          simp [hids, habsent, hvalue]
      | some raw =>
          obtain ⟨id, hid, hseen⟩ := hbound.found ((lookup_declared spec slot).trans hvalue)
          simp [hids, hid, hinterned.entry?_eq, hseen, hvalue, Request.variable]

/-- The variable of a token that is asked for. -/
theorem find?_ofConfig {config : Config} {token : Token} {raw : String}
    (h : ((token, raw) : Request) ∈ config.requests) :
    (VariableTable.ofConfig config).find? token = some (Variable.ofToken config token raw) := by
  obtain ⟨hinterned, -⟩ := interned_ofConfig config
  cases hlookup : (VariableTable.ofConfig config).index.lookup token with
  | none => exact absurd (mem_tokens_distinct h) (hinterned.lookup_none.1 hlookup)
  | some id =>
      obtain ⟨other, hseen⟩ := hinterned.lookup_some hlookup
      have hother := mem_distinct.1 (List.mem_of_getElem? hseen)
      have hraw := raw_unique hother h
      subst hraw
      rw [VariableTable.find?, hlookup, Option.bind_some, hinterned.entry?_eq, hseen]
      rfl

/-- The variables of a flat table stand in the order of its keys. -/
theorem flat_ofConfig {config : Config} {p : Property} {values : SortedMap String}
    (h : ∀ request ∈ values.requests p, request ∈ config.requests) :
    (VariableTable.ofConfig config).flat p values =
      values.entries.map (fun entry => (entry.1, Variable.ofToken config (.entry p entry.1) entry.2)) := by
  unfold VariableTable.flat SortedMap.keys
  have hfind : ∀ entry ∈ values.entries,
      (VariableTable.ofConfig config).find? (.entry p entry.1) =
        some (Variable.ofToken config (.entry p entry.1) entry.2) :=
    fun entry hmem => find?_ofConfig (h (.entry p entry.1, entry.2) (List.mem_map_of_mem hmem))
  revert hfind
  clear h
  induction values.entries with
  | nil => intro _; rfl
  | cons entry rest ih =>
      intro hfind
      have hrest := ih (fun other hmem => hfind other (List.mem_cons_of_mem _ hmem))
      simp [hfind entry List.mem_cons_self, hrest]

theorem mem_requests_of_spacing {config : Config} {request : Request}
    (h : request ∈ config.spacing.requests .spacing) : request ∈ config.requests :=
  List.mem_append_left _ (List.mem_append_right _ h)

theorem mem_requests_of_colors {config : Config} {request : Request}
    (h : request ∈ config.colors.requests .color) : request ∈ config.requests :=
  List.mem_append_right _ h

end Interning

namespace VariableTable

/-- No two variables have one name. -/
def HasDistinctNames (table : VariableTable) : Prop :=
  (table.entries.toList.map (·.name)).Nodup

instance (table : VariableTable) : Decidable table.HasDistinctNames :=
  inferInstanceAs (Decidable (List.Nodup _))

/-- A value is kept under the name of one of its variables. -/
theorem exists_of_get?_valuesByName {table : VariableTable} {name value : String}
    (h : table.valuesByName.get? name = some value) :
    ∃ v ∈ table.entries.toList, v.name = name ∧ v.value = value := by
  rw [valuesByName, SortedMap.get?_ofList, List.lookup_eq_some_iff] at h
  obtain ⟨before, after, hsplit, -⟩ := h
  have hmem : (name, value) ∈ (table.entries.toList.map (fun v => (v.name, v.value))).reverse := by
    simp [hsplit]
  obtain ⟨v, hv, heq⟩ := List.mem_map.1 (List.mem_reverse.1 hmem)
  obtain ⟨hname, hvalue⟩ := Prod.mk.inj heq
  exact ⟨v, hv, hname, hvalue⟩

theorem get?_valuesByName_ne_none {table : VariableTable} {v : Variable}
    (hv : v ∈ table.entries.toList) : table.valuesByName.get? v.name ≠ none := by
  intro hnone
  rw [valuesByName, SortedMap.get?_ofList, List.lookup_eq_none_iff] at hnone
  have hself := hnone (v.name, v.value) (List.mem_reverse.2 (List.mem_map_of_mem hv))
  simp at hself

theorem HasDistinctNames.get?_valuesByName {table : VariableTable} (h : table.HasDistinctNames)
    {v : Variable} (hmem : v ∈ table.entries.toList) :
    table.valuesByName.get? v.name = some v.value := by
  have hkeys : ((table.entries.toList.map (fun v => (v.name, v.value))).map (·.1)).Nodup := by
    rw [List.map_map]
    exact h
  exact SortedMap.get?_ofList_of_mem hkeys (List.mem_map_of_mem hmem)

end VariableTable

theorem Config.eq_ofConfig_of_intern {config : Config} {policy : UnknownKeyPolicy}
    {table : VariableTable} (h : config.intern policy = .ok table) :
    table = VariableTable.ofConfig config := by
  unfold Config.intern at h
  split at h
  · cases h
  · exact (Except.ok.inj h).symm

end DesignTokens
