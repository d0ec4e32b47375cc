import DesignTokens.Proofs.Interning

/-!
# What an interned table holds

The table of a config holds one variable for each distinct raw value of a property, in the order of
the first declarations, and then one for each key of the tables. Look-ups answer these variables and
nothing else, and no id points past the end.
-/

namespace DesignTokens

/-! ## What a config declares -/

namespace Config

/-- What the classes declare, one class after the other, each in the order of the slots. -/
def declarations (config : Config) : List (Property × String) :=
  config.classes.entries.flatMap (fun entry =>
    Slot.all.filterMap (fun slot => (entry.2.value? slot).map (fun raw => (slot.property, raw))))

/-- The raw values that the classes declare for a property, in order. -/
def rawsOf (config : Config) (p : Property) : List String :=
  config.classes.entries.flatMap (fun entry =>
    (Slot.all.filter (fun slot => slot.property = p)).filterMap entry.2.value?)

/-- The table of a flat property. -/
def tableOf (config : Config) : Property → SortedMap String
  | .spacing => config.spacing
  | .color => config.colors
  | _ => .empty

/-- The variable that is named after a text and holds a raw value. -/
def variableFor (config : Config) (p : Property) (text raw : String) : Variable :=
  ⟨p, config.namer.name p text, Variable.transformed config p raw, raw⟩

end Config

/-- A table that holds what a config declares. -/
structure VariableTable.Interns (config : Config) (table : VariableTable) : Prop where
  /-- The variable of a text is the same whatever the classes are. -/
  classes_free : ∀ (classes : SortedMap ClassSpec) (p : Property) (text raw : String),
    Config.variableFor { config with classes } p text raw = config.variableFor p text raw
  entries : table.entries.toList =
    config.declarations.eraseDups.map (fun declared => config.variableFor declared.1 declared.2 declared.2) ++
      (config.spacing.entries.map (fun entry => config.variableFor .spacing entry.1 entry.2) ++
        config.colors.entries.map (fun entry => config.variableFor .color entry.1 entry.2))
  values : ∀ p ∈ Property.typography,
    table.ofProperty p = (config.rawsOf p).eraseDups.map (fun raw => config.variableFor p raw raw)
  keys : ∀ p, p.scope = .flat →
    table.ofProperty p = (config.tableOf p).entries.map (fun entry => config.variableFor p entry.1 entry.2)
  index_lt : ∀ {token : Token} {id : VariableId}, (token, id) ∈ table.index → id < table.size
  slot_lt : ∀ {name : String} {ids : List (Slot × VariableId)}, (name, ids) ∈ table.classes.entries →
    ∀ {slot : Slot} {id : VariableId}, (slot, id) ∈ ids → id < table.size
  find?_value : ∀ p raw, table.find? (.value p raw) =
    if raw ∈ config.rawsOf p then some (config.variableFor p raw raw) else none
  find?_entry : ∀ p key, p.scope = .flat →
    table.find? (.entry p key) = ((config.tableOf p).get? key).map (config.variableFor p key)
  inSlot? : ∀ name slot, table.inSlot? name slot =
    ((config.classes.get? name).bind (fun spec => spec.value? slot)).map
      (fun raw => config.variableFor slot.property raw raw)

/-! ## First occurrences -/

section

variable {α β : Type} [BEq α] [LawfulBEq α] [BEq β] [LawfulBEq β]

theorem eraseDups_of_nodup {items : List α} (h : items.Nodup) : items.eraseDups = items := by
  induction items with
  | nil => rfl
  | cons first rest ih =>
      obtain ⟨hfirst, hrest⟩ := List.nodup_cons.1 h
      have hfilter : rest.filter (fun item => !item == first) = rest := by
        rw [List.filter_eq_self]
        intro item hitem
        have hne : item ≠ first := fun heq => hfirst (heq ▸ hitem)
        simp [hne]
      rw [List.eraseDups_cons, hfilter, ih hrest]

theorem eraseDups_append_of_nodup {first second : List α} (hnew : ∀ item ∈ second, item ∉ first)
    (hnodup : second.Nodup) : (first ++ second).eraseDups = first.eraseDups ++ second := by
  have hremove : second.removeAll first = second := by
    rw [List.removeAll, List.filter_eq_self]
    intro item hitem
    simp [hnew item hitem]
  rw [List.eraseDups_append, hremove, eraseDups_of_nodup hnodup]

/-- Where `f` tells the items it keeps apart, it may be applied before or after. -/
theorem eraseDups_filterMap {f : α → Option β} (hf : ∀ a a' b, f a = some b → f a' = some b → a = a')
    (items : List α) : (items.filterMap f).eraseDups = items.eraseDups.filterMap f := by
  -- Erasing duplicates recurses on the rest without the first item, which may be any shorter list.
  induction hlength : items.length using Nat.strongRecOn generalizing items with
  | ind n ih =>
      cases items with
      | nil => rfl
      | cons first rest =>
          have hshort : (rest.filter (fun item => !item == first)).length < n := by
            have hle := List.length_filter_le (fun item => !item == first) rest
            rw [← hlength, List.length_cons]
            omega
          have hrest := ih _ hshort _ rfl
          rw [List.eraseDups_cons]
          cases hfirst : f first with
          | none =>
              rw [List.filterMap_cons_none hfirst, List.filterMap_cons_none hfirst, ← hrest,
                List.filterMap_filter]
              congr 2
              funext item
              by_cases heq : item = first
              · simp [heq, hfirst]
              · simp [heq]
          | some b =>
              rw [List.filterMap_cons_some hfirst, List.filterMap_cons_some hfirst, List.eraseDups_cons,
                ← hrest, List.filterMap_filter, List.filter_filterMap]
              congr 3
              funext item
              by_cases heq : item = first
              · simp [heq, hfirst]
              · cases hitem : f item with
                | none => simp [heq]
                | some b' =>
                    have hne : b' ≠ b := by
                      rintro rfl
                      exact heq (hf _ _ _ hitem hfirst)
                    simp [heq, hne]

end

/-! ## The order of the variables -/

namespace Interning

/-- Requests that differ in their tokens if at all are taken in like any other items. -/
theorem foldl_addNew_eq {requests seen : List Request}
    (h : ∀ r ∈ seen ++ requests, ∀ r' ∈ seen ++ requests, r.1 = r'.1 → r = r') :
    requests.foldl addNew seen = seen ++ (requests.removeAll seen).eraseDups := by
  induction requests generalizing seen with
  | nil => simp
  | cons request rest ih =>
      have hknown : request.1 ∈ seen.map (·.1) ↔ request ∈ seen := by
        constructor
        · intro hmem
          obtain ⟨other, hother, htoken⟩ := List.mem_map.1 hmem
          have heq := h other (by simp [hother]) request (by simp) htoken
          rwa [← heq]
        · exact List.mem_map_of_mem
      rw [List.foldl_cons, List.cons_removeAll]
      by_cases hmem : request ∈ seen
      · have hsame : addNew seen request = seen := if_pos (hknown.2 hmem)
        have hrest : rest.foldl addNew seen = seen ++ (rest.removeAll seen).eraseDups :=
          ih (fun r hr r' hr' => h r (by grind) r' (by grind))
        simp [hsame, hrest, hmem]
      · have hmore : addNew seen request = seen ++ [request] := if_neg (fun hin => hmem (hknown.1 hin))
        have hrest : rest.foldl addNew (seen ++ [request]) =
            seen ++ [request] ++ (rest.removeAll (seen ++ [request])).eraseDups :=
          ih (fun r hr r' hr' => h r (by grind) r' (by grind))
        have hremove : rest.removeAll (seen ++ [request]) =
            (rest.removeAll seen).filter (fun other => !other == request) := by
          simp only [List.removeAll, List.filter_filter]
          apply List.filter_congr
          intro other _
          by_cases heq : other = request
          · simp [heq]
          · simp [heq]
        simp [hmore, hrest, hremove, hmem, List.eraseDups_cons]

theorem distinct_eq (config : Config) : distinct config.requests = config.requests.eraseDups := by
  have hunique : ∀ r ∈ [] ++ config.requests, ∀ r' ∈ [] ++ config.requests, r.1 = r'.1 → r = r' := by
    rintro ⟨token, raw⟩ hr ⟨token', raw'⟩ hr' htoken
    simp only at htoken
    subst htoken
    rw [raw_unique hr hr']
  rw [distinct, foldl_addNew_eq hunique, List.nil_append, List.removeAll_nil]

def valueRequest (declared : Property × String) : Request :=
  (.value declared.1 declared.2, declared.2)

theorem classRequests_eq (config : Config) :
    config.classes.entries.flatMap (fun entry => entry.2.requests) = config.declarations.map valueRequest := by
  simp only [Config.declarations, ClassSpec.requests, ClassSpec.declared, List.map_flatMap,
    List.map_filterMap, Option.map_map]
  rfl

theorem eraseDups_declarations (config : Config) :
    (config.declarations.map valueRequest).eraseDups = config.declarations.eraseDups.map valueRequest := by
  have hinjective : ∀ d d' request, some (valueRequest d) = some request →
      some (valueRequest d') = some request → d = d' := by
    rintro ⟨p, raw⟩ ⟨p', raw'⟩ request h h'
    rw [← h] at h'
    cases h'
    rfl
  rw [← List.filterMap_eq_map, eraseDups_filterMap (f := some ∘ valueRequest) hinjective,
    List.filterMap_eq_map]

theorem nodup_requests (p : Property) (values : SortedMap String) : (values.requests p).Nodup := by
  refine List.pairwise_map.2 (values.ascending.imp ?_)
  intro a b hlt heq
  have hkey : a.1 = b.1 := congrArg (fun request : Request => request.1.text) heq
  exact String.lt_irrefl b.1 (hkey ▸ hlt)

theorem eraseDups_requests (config : Config) :
    config.requests.eraseDups = config.declarations.eraseDups.map valueRequest ++
      (config.spacing.requests .spacing ++ config.colors.requests .color) := by
  have hspacing : ∀ request ∈ config.spacing.requests .spacing,
      request ∉ config.declarations.map valueRequest := by
    intro request hmem hvalue
    obtain ⟨entry, -, rfl⟩ := List.mem_map.1 hmem
    obtain ⟨declared, -, heq⟩ := List.mem_map.1 hvalue
    cases heq
  have hcolors : ∀ request ∈ config.colors.requests .color,
      request ∉ config.declarations.map valueRequest ++ config.spacing.requests .spacing := by
    intro request hmem hearlier
    obtain ⟨entry, -, rfl⟩ := List.mem_map.1 hmem
    rcases List.mem_append.1 hearlier with hvalue | hkey
    · obtain ⟨declared, -, heq⟩ := List.mem_map.1 hvalue
      cases heq
    · obtain ⟨other, -, heq⟩ := List.mem_map.1 hkey
      cases heq
  rw [Config.requests, classRequests_eq, eraseDups_append_of_nodup hcolors (nodup_requests _ _),
    eraseDups_append_of_nodup hspacing (nodup_requests _ _), eraseDups_declarations, List.append_assoc]

/-- The variables of a config: those of the classes, then those of each table by key. -/
theorem entries_eq (config : Config) :
    (VariableTable.ofConfig config).entries.toList =
      config.declarations.eraseDups.map
          (fun declared => config.variableFor declared.1 declared.2 declared.2) ++
        (config.spacing.entries.map (fun entry => config.variableFor .spacing entry.1 entry.2) ++
          config.colors.entries.map (fun entry => config.variableFor .color entry.1 entry.2)) := by
  rw [entries_ofConfig, distinct_eq, eraseDups_requests]
  simp only [List.map_append, List.map_map, SortedMap.requests]
  rfl

/-! ## The variables of one property -/

/-- The raw value of a declaration of this property. -/
def rawAt? (p : Property) (declared : Property × String) : Option String :=
  if declared.1 = p then some declared.2 else none

theorem rawsOf_eq (config : Config) (p : Property) :
    config.rawsOf p = config.declarations.filterMap (rawAt? p) := by
  simp only [Config.rawsOf, Config.declarations, List.filterMap_flatMap, List.filterMap_filterMap,
    List.filterMap_filter]
  congr 1
  funext entry
  congr 1
  funext slot
  cases entry.2.value? slot <;> simp [rawAt?]

theorem eraseDups_rawsOf (config : Config) (p : Property) :
    (config.rawsOf p).eraseDups = config.declarations.eraseDups.filterMap (rawAt? p) := by
  rw [rawsOf_eq]
  apply eraseDups_filterMap
  rintro ⟨q, raw⟩ ⟨q', raw'⟩ found h h'
  simp only [rawAt?, Option.ite_none_right_eq_some, Option.some.injEq] at h h'
  obtain ⟨rfl, rfl⟩ := h
  obtain ⟨rfl, rfl⟩ := h'
  rfl

theorem filter_declared (config : Config) (p : Property) (declared : List (Property × String)) :
    (declared.map (fun d => config.variableFor d.1 d.2 d.2)).filter (fun v => v.property = p) =
      (declared.filterMap (rawAt? p)).map (fun raw => config.variableFor p raw raw) := by
  induction declared with
  | nil => rfl
  | cons first rest ih =>
      rw [List.map_cons, List.filter_cons]
      by_cases h : first.1 = p
      · have hkept : decide ((config.variableFor first.1 first.2 first.2).property = p) = true := decide_eq_true h
        have hraw : rawAt? p first = some first.2 := if_pos h
        rw [if_pos hkept, ih, List.filterMap_cons_some hraw, List.map_cons, h]
      · have hdropped : decide ((config.variableFor first.1 first.2 first.2).property = p) = false :=
          decide_eq_false h
        have hraw : rawAt? p first = none := if_neg h
        rw [if_neg (ne_true_of_eq_false hdropped), ih, List.filterMap_cons_none hraw]

theorem filter_keys (config : Config) (p q : Property) (values : SortedMap String) :
    (values.entries.map (fun entry => config.variableFor q entry.1 entry.2)).filter
        (fun v => v.property = p) =
      if q = p then values.entries.map (fun entry => config.variableFor q entry.1 entry.2) else [] := by
  split
  · rename_i heq
    rw [List.filter_eq_self]
    intro v hv
    obtain ⟨entry, -, rfl⟩ := List.mem_map.1 hv
    exact decide_eq_true heq
  · rename_i hne
    rw [List.filter_eq_nil_iff]
    intro v hv
    obtain ⟨entry, -, rfl⟩ := List.mem_map.1 hv
    exact ne_true_of_eq_false (decide_eq_false hne)

theorem scope_slot (slot : Slot) : slot.property.scope ≠ .flat := by
  cases slot <;> simp [Slot.property, Property.scope, Property.rule]

theorem rawsOf_eq_nil {p : Property} (h : p.scope = .flat) (config : Config) : config.rawsOf p = [] := by
  have hnone : Slot.all.filter (fun slot => slot.property = p) = [] := by
    rw [List.filter_eq_nil_iff]
    intro slot _ hslot
    exact scope_slot slot (of_decide_eq_true hslot ▸ h)
  simp [Config.rawsOf, hnone]

theorem ofProperty_eq (config : Config) (p : Property) :
    (VariableTable.ofConfig config).ofProperty p =
      (config.rawsOf p).eraseDups.map (fun raw => config.variableFor p raw raw) ++
        (config.tableOf p).entries.map (fun entry => config.variableFor p entry.1 entry.2) := by
  rw [VariableTable.ofProperty, entries_eq, List.filter_append, List.filter_append, filter_declared,
    eraseDups_rawsOf, filter_keys, filter_keys]
  cases p <;> simp [Config.tableOf, SortedMap.empty]

end Interning

namespace VariableTable

theorem mem_ofProperty {table : VariableTable} {v : Variable} {p : Property} :
    v ∈ table.ofProperty p ↔ v ∈ table.entries.toList ∧ v.property = p := by
  simp [ofProperty]

/-- A variable is made from a declared value or from a key. -/
theorem mem_entries_ofConfig {config : Config} {v : Variable} : v ∈ (ofConfig config).entries.toList ↔
    (∃ p, ∃ raw ∈ config.rawsOf p, config.variableFor p raw raw = v) ∨
      ∃ q key raw, (config.tableOf q).get? key = some raw ∧ config.variableFor q key raw = v := by
  constructor
  · intro hv
    have hown := mem_ofProperty.2 ⟨hv, rfl⟩
    rw [Interning.ofProperty_eq, List.mem_append] at hown
    rcases hown with hvalue | hkey
    · obtain ⟨raw, hraw, heq⟩ := List.mem_map.1 hvalue
      exact .inl ⟨v.property, raw, List.mem_eraseDups.1 hraw, heq⟩
    · obtain ⟨entry, hentry, heq⟩ := List.mem_map.1 hkey
      exact .inr ⟨v.property, entry.1, entry.2, SortedMap.get?_eq_some_iff.2 hentry, heq⟩
  · intro h
    apply (mem_ofProperty (p := v.property).1 ?_).1
    rw [Interning.ofProperty_eq, List.mem_append]
    rcases h with ⟨p, raw, hraw, rfl⟩ | ⟨q, key, raw, hkey, rfl⟩
    · exact .inl (List.mem_map.2 ⟨raw, List.mem_eraseDups.2 hraw, rfl⟩)
    · exact .inr (List.mem_map.2 ⟨(key, raw), SortedMap.get?_eq_some_iff.1 hkey, rfl⟩)

end VariableTable

namespace Interning

/-! ## Look-ups -/

theorem mem_rawsOf {config : Config} {p : Property} {raw : String} : raw ∈ config.rawsOf p ↔
    ∃ name spec slot, config.classes.get? name = some spec ∧ spec.value? slot = some raw ∧
      slot.property = p := by
  simp only [Config.rawsOf, List.mem_flatMap, List.mem_filterMap, List.mem_filter, decide_eq_true_eq]
  constructor
  · rintro ⟨⟨name, spec⟩, hmem, slot, ⟨-, hslot⟩, hvalue⟩
    exact ⟨name, spec, slot, SortedMap.get?_eq_some_iff.2 hmem, hvalue, hslot⟩
  · rintro ⟨name, spec, slot, hspec, hvalue, hslot⟩
    exact ⟨(name, spec), SortedMap.get?_eq_some_iff.1 hspec, slot, ⟨Slot.mem_all slot, hslot⟩, hvalue⟩

theorem value_mem_requests_iff {config : Config} {p : Property} {raw : String} :
    ((.value p raw, raw) : Request) ∈ config.requests ↔ raw ∈ config.rawsOf p := by
  rw [mem_requests, mem_rawsOf]
  constructor
  · rintro (⟨name, spec, slot, found, hspec, hvalue, heq⟩ | ⟨key, found, -, heq⟩ | ⟨key, found, -, heq⟩)
    · cases heq
      exact ⟨name, spec, slot, hspec, hvalue, rfl⟩
    · cases heq
    · cases heq
  · rintro ⟨name, spec, slot, hspec, hvalue, rfl⟩
    exact .inl ⟨name, spec, slot, raw, hspec, hvalue, rfl⟩

theorem entry_mem_requests_iff {config : Config} {p : Property} {key raw : String} (h : p.scope = .flat) :
    ((.entry p key, raw) : Request) ∈ config.requests ↔ (config.tableOf p).get? key = some raw := by
  rw [mem_requests]
  cases p with
  | spacing | color => simp [Config.tableOf]
  | _ => cases h

/-- A token that the config does not ask for has no variable. -/
theorem find?_eq_none {config : Config} {token : Token}
    (h : ∀ raw, ((token, raw) : Request) ∉ config.requests) :
    (VariableTable.ofConfig config).find? token = none := by
  have habsent : token ∉ (distinct config.requests).map (·.1) := by
    intro hmem
    obtain ⟨⟨found, raw⟩, hrequest, rfl⟩ := List.mem_map.1 hmem
    exact h raw (mem_distinct.1 hrequest)
  rw [VariableTable.find?, (interned_ofConfig config).1.lookup_none.2 habsent, Option.bind_none]

theorem find?_value_ofConfig (config : Config) (p : Property) (raw : String) :
    (VariableTable.ofConfig config).find? (.value p raw) =
      if raw ∈ config.rawsOf p then some (config.variableFor p raw raw) else none := by
  split
  · rename_i hmem
    exact find?_ofConfig (value_mem_requests_iff.2 hmem)
  · rename_i hnot
    apply find?_eq_none
    intro other hrequest
    have hother : raw = other := Option.some.inj (rawOf?_of_mem hrequest)
    subst hother
    exact hnot (value_mem_requests_iff.1 hrequest)

theorem find?_entry_ofConfig (config : Config) {p : Property} (h : p.scope = .flat) (key : String) :
    (VariableTable.ofConfig config).find? (.entry p key) =
      ((config.tableOf p).get? key).map (config.variableFor p key) := by
  cases hget : (config.tableOf p).get? key with
  | some raw => exact find?_ofConfig ((entry_mem_requests_iff h).2 hget)
  | none =>
      apply find?_eq_none
      intro raw hrequest
      rw [entry_mem_requests_iff h, hget] at hrequest
      cases hrequest

end Interning

/-! ## Ids -/

namespace VariableTable

/-- No id in the table points past its end. -/
structure InBounds (table : VariableTable) : Prop where
  index : ∀ {token : Token} {id : VariableId}, (token, id) ∈ table.index → id < table.size
  slots : ∀ {name : String} {ids : List (Slot × VariableId)}, (name, ids) ∈ table.classes.entries →
    ∀ {slot : Slot} {id : VariableId}, (slot, id) ∈ ids → id < table.size

variable {config : Config} {table : VariableTable}

theorem inBounds_empty : empty.InBounds :=
  ⟨fun h => absurd h List.not_mem_nil, fun h => absurd h List.not_mem_nil⟩

/-- Interning a token keeps all ids in bounds, the new one included, and loses no variable. -/
theorem InBounds.intern (h : table.InBounds) (config : Config) (token : Token) (raw : String) :
    (table.intern config token raw).1.InBounds ∧
      (table.intern config token raw).2 < (table.intern config token raw).1.size ∧
      table.size ≤ (table.intern config token raw).1.size := by
  cases hlookup : table.index.lookup token with
  | some id =>
      have hmem : (token, id) ∈ table.index := by
        obtain ⟨before, after, hsplit, -⟩ := List.lookup_eq_some_iff.1 hlookup
        simp [hsplit]
      simp only [VariableTable.intern, hlookup]
      exact ⟨h, h.index hmem, Nat.le_refl _⟩
  | none =>
      simp only [VariableTable.intern, hlookup]
      have hsize : table.size < (table.entries.push (Variable.ofToken config token raw)).size := by
        simp [size]
      refine ⟨⟨?_, ?_⟩, hsize, Nat.le_of_lt hsize⟩
      · intro other id hmem
        rcases List.mem_append.1 hmem with hold | hnew
        · exact Nat.lt_trans (h.index hold) hsize
        · cases List.mem_singleton.1 hnew
          exact hsize
      · intro name ids hmem slot id hslot
        exact Nat.lt_trans (h.slots hmem hslot) hsize

theorem InBounds.internSlots (h : table.InBounds) (config : Config) (declared : List (Slot × String)) :
    (table.internSlots config declared).1.InBounds ∧
      (∀ {slot : Slot} {id : VariableId}, (slot, id) ∈ (table.internSlots config declared).2 →
        id < (table.internSlots config declared).1.size) ∧
      table.size ≤ (table.internSlots config declared).1.size := by
  induction declared generalizing table with
  | nil => exact ⟨h, fun hmem => absurd hmem List.not_mem_nil, Nat.le_refl _⟩
  | cons first rest ih =>
      obtain ⟨hfirst, hid, hgrown⟩ := h.intern config (.value first.1.property first.2) first.2
      obtain ⟨hrest, hids, hmore⟩ := ih hfirst
      refine ⟨hrest, ?_, Nat.le_trans hgrown hmore⟩
      intro slot id hmem
      rcases List.mem_cons.1 hmem with heq | hlater
      · cases heq
        exact Nat.lt_of_lt_of_le hid hmore
      · exact hids hlater

theorem InBounds.internClass (h : table.InBounds) (config : Config) (name : String) (spec : ClassSpec) :
    (table.internClass config name spec).InBounds := by
  obtain ⟨hslots, hids, hgrown⟩ := h.internSlots config spec.declared
  refine ⟨hslots.index, ?_⟩
  intro other ids hmem slot id hslot
  rcases SortedMap.mem_place hmem with heq | hold
  · cases heq
    exact hids hslot
  · exact hslots.slots hold hslot

theorem InBounds.internFlat (h : table.InBounds) (config : Config) (p : Property) (values : SortedMap String) :
    (table.internFlat config p values).InBounds := by
  unfold VariableTable.internFlat
  induction values.entries generalizing table with
  | nil => exact h
  | cons entry rest ih => exact ih (h.intern config (.entry p entry.1) entry.2).1

theorem inBounds_ofConfig (config : Config) : (ofConfig config).InBounds := by
  have hclasses : ∀ (classes : List (String × ClassSpec)) (table : VariableTable), table.InBounds →
      (classes.foldl (fun t entry => t.internClass config entry.1 entry.2) table).InBounds := by
    intro classes
    induction classes with
    | nil => exact fun _ h => h
    | cons entry rest ih => exact fun table h => ih _ (h.internClass config entry.1 entry.2)
  have hspacing := (hclasses config.classes.entries empty inBounds_empty).internFlat config .spacing config.spacing
  exact hspacing.internFlat config .color config.colors

/-! ## Whole tables -/

/-- Interning gives every declared value and every key its variable, and answers for no other. -/
theorem interns_of_intern {policy : UnknownKeyPolicy} (h : config.intern policy = .ok table) :
    Interns config table := by
  have htable := Config.eq_ofConfig_of_intern h
  subst htable
  exact {
    classes_free := fun _ _ _ _ => rfl
    entries := Interning.entries_eq config
    values := by
      intro p hp
      have hkeys : (config.tableOf p).entries = [] := by
        revert hp
        cases p <;> simp [Property.typography, Config.tableOf, SortedMap.empty]
      rw [Interning.ofProperty_eq, hkeys, List.map_nil, List.append_nil]
    keys := by
      intro p hp
      rw [Interning.ofProperty_eq, Interning.rawsOf_eq_nil hp]
      rfl
    index_lt := (inBounds_ofConfig config).index
    slot_lt := (inBounds_ofConfig config).slots
    find?_value := Interning.find?_value_ofConfig config
    find?_entry := fun p key hp => Interning.find?_entry_ofConfig config hp key
    inSlot? := by
      intro name slot
      rw [Interning.inSlot?_ofConfig]
      cases config.classes.get? name with
      | none => rfl
      | some spec => rfl }

/-- Two classes that share a weight, and of whose three sizes two are the same. -/
def repeatingConfig : Config where
  brand := "tf"
  category := "typo"
  baseFontSize := 16
  breakpoints := ⟨"375px", "1024px"⟩
  classes := .ofList [
    ("h1", { ClassSpec.empty with
      fontWeight := some "700"
      mobile := some ⟨some "16px", none, .empty⟩
      desktop := some ⟨some "24px", none, .empty⟩ }),
    ("h2", { ClassSpec.empty with
      fontWeight := some "700"
      mobile := some ⟨some "24px", none, .empty⟩ })]
  fontFamilies := .empty
  spacing := .ofList [("sm", "8px")]
  colors := .empty
  build := .default

theorem interns_of_intern_repeating :
    Interns repeatingConfig (.ofConfig repeatingConfig) ∧
      (ofConfig repeatingConfig).size = 4 ∧
      (repeatingConfig.rawsOf .fontSize).eraseDups = ["16px", "24px"] := by
  have htable : repeatingConfig.intern .ignore = .ok (.ofConfig repeatingConfig) := rfl
  exact ⟨interns_of_intern htable, by decide +kernel, by decide +kernel⟩

end VariableTable

end DesignTokens
