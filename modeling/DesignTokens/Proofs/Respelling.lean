import DesignTokens.Config.Reader
import DesignTokens.Proofs.Documents
import DesignTokens.Proofs.Records
import DesignTokens.Proofs.Validation

/-!
# Configs spelled in other ways

The members of a table may stand in any order, and a whole number that stands for a raw value may be written
as the text of its digits. What is expected of a document follows from where it stands; every reader of a
config reads a document and its respellings alike, from the single values up to the whole.
-/

namespace DesignTokens

/-! ## Places in a config -/

/-- What is expected where a document stands. -/
inductive Role where
  | config
  | widths
  | classes
  | spec
  | tier
  /-- Raw values by free keys. -/
  | raws
  | raw
  | build
  /-- Anything that is no raw value and holds none. -/
  | plain
deriving DecidableEq

namespace Role

/-- The fields of a record in order of declaration, with what is expected in them. -/
def fields : Role → List (String × Role)
  | .config => [("prefix", .plain), ("category", .plain), ("baseFontSize", .plain), ("breakpoints", .widths),
      ("classes", .classes), ("fontFamilyMap", .raws), ("spacingMap", .raws), ("colors", .raws),
      ("build", .build)]
  | .widths => [("mobile", .raw), ("desktop", .raw)]
  | .spec => [("fontFamily", .raw), ("fontWeight", .raw), ("letterSpacing", .raw), ("textTransform", .raw),
      ("mobile", .tier), ("desktop", .tier)]
  | .tier => [("fontSize", .raw), ("lineHeight", .raw)]
  | .build => [("snapshotPath", .plain), ("onFirstRun", .plain), ("onRemovedClass", .plain),
      ("unknownProperties", .plain), ("minify", .plain)]
  | _ => []

/-- What is expected under a key that is no field. -/
def rest : Role → Role
  | .classes => .spec
  | .raws => .raw
  | _ => .plain

def member (role : Role) (key : String) : Role :=
  (role.fields.lookup key).getD role.rest

/-- A record may also be written as a list of its fields. -/
def item (role : Role) (i : Nat) : Role :=
  ((role.fields[i]?).map (·.2)).getD .plain

end Role

/-- The second document says the same as the first one where this is expected: tables hold the same keys in
any order, and a whole number of 64 bits may become the text of its digits where a raw value is expected. -/
inductive Respelled : Role → Document → Document → Prop where
  | same (role : Role) (document : Document) : Respelled role document document
  | digits {n : Int} (h : Document.fitsInt64 n = true) : Respelled .raw (.int n) (.text (toString n))
  | list {role : Role} {items others : List Document} (hlength : items.length = others.length)
      (h : ∀ (i : Nat) first second, items[i]? = some first → others[i]? = some second →
        Respelled (role.item i) first second) :
      Respelled role (.list items) (.list others)
  | table {role : Role} {members others : List (String × Document)}
      (hkeys : (members.map (·.1)).Perm (others.map (·.1)))
      (h : ∀ first ∈ members, ∀ second ∈ others, first.1 = second.1 →
        Respelled (role.member first.1) first.2 second.2) :
      Respelled role (.table members) (.table others)

/-! ## Distinct keys -/

namespace Document

mutual

/-- No table holds a key twice. -/
def hasDistinctKeys : Document → Bool
  | .list items => haveItemsDistinctKeys items
  | .table members => (members.map (·.1)).Nodup && haveMembersDistinctKeys members
  | _ => true

def haveItemsDistinctKeys : List Document → Bool
  | [] => true
  | item :: rest => item.hasDistinctKeys && haveItemsDistinctKeys rest

def haveMembersDistinctKeys : List (String × Document) → Bool
  | [] => true
  | (_, value) :: rest => value.hasDistinctKeys && haveMembersDistinctKeys rest

end

variable {items others : List Document} {members : List (String × Document)}

theorem hasDistinctKeys_list :
    (list items).hasDistinctKeys = true ↔ ∀ item ∈ items, item.hasDistinctKeys = true := by
  rw [hasDistinctKeys]
  induction items with
  | nil => simp [haveItemsDistinctKeys]
  | cons item rest ih => simp [haveItemsDistinctKeys, ih]

theorem hasDistinctKeys_table :
    (table members).hasDistinctKeys = true ↔
      (members.map (·.1)).Nodup ∧ ∀ member ∈ members, member.2.hasDistinctKeys = true := by
  rw [hasDistinctKeys, Bool.and_eq_true, decide_eq_true_eq]
  have hmembers : haveMembersDistinctKeys members = true ↔
      ∀ member ∈ members, member.2.hasDistinctKeys = true := by
    induction members with
    | nil => simp [haveMembersDistinctKeys]
    | cons member rest ih => simp [haveMembersDistinctKeys, ih]
  rw [hmembers]

end Document

/-- Members that agree key by key give the same values, up to their order. -/
theorem perm_map_of_keys {α γ : Type} {members others : List (String × α)} {f : String × α → γ}
    (hkeys : (members.map (·.1)).Perm (others.map (·.1)))
    (h : ∀ first ∈ members, ∀ second ∈ others, first.1 = second.1 → f first = f second) :
    (members.map f).Perm (others.map f) := by
  obtain ⟨between, halike, hperm⟩ := exists_aligned hkeys h
  have heq : members.map f = between.map f := by
    clear hperm hkeys h
    induction halike with
    | nil => rfl
    | cons hfirst _ ih => rw [List.map_cons, List.map_cons, hfirst, ih]
  exact heq ▸ hperm.map f

namespace Respelled

variable {role : Role} {first second : Document}

theorem of_perm {members others : List (String × Document)} (hkeys : (members.map (·.1)).Nodup)
    (h : members.Perm others) : Respelled role (.table members) (.table others) := by
  apply Respelled.table (h.map _)
  intro first hfirst second hsecond hkey
  rw [List.inj_on_of_nodup_map hkeys hfirst (h.symm.subset hsecond) hkey]
  exact .same _ _

theorem isSound_eq (h : Respelled role first second) : first.isSound = second.isSound := by
  induction h with
  | same role document => rfl
  | digits h => rfl
  | list hlength h ih =>
      rw [Document.isSound, Document.isSound, Document.areItemsSound_eq, Document.areItemsSound_eq,
        map_eq_map_iff_getElem?.2 ⟨hlength, ih⟩]
  | table hkeys h ih =>
      rw [Document.isSound, Document.isSound, Document.areMembersSound_eq, Document.areMembersSound_eq]
      exact (perm_map_of_keys hkeys ih).all_eq

theorem depth_eq (h : Respelled role first second) : first.depth = second.depth := by
  induction h with
  | same role document => rfl
  | digits h => rfl
  | list hlength h ih =>
      rw [Document.depth, Document.depth, Document.depthOfItems_eq, Document.depthOfItems_eq,
        map_eq_map_iff_getElem?.2 ⟨hlength, ih⟩]
  | table hkeys h ih =>
      rw [Document.depth, Document.depth, Document.depthOfMembers_eq, Document.depthOfMembers_eq,
        (perm_map_of_keys hkeys ih).foldr_eq' (fun a _ b _ c => Nat.max_left_comm b a c)]

theorem isKeepable_eq (h : Respelled role first second) (outer : Nat) :
    Format.json.isKeepable outer first = Format.json.isKeepable outer second := by
  simp only [Format.isKeepable, Json.isValueWithin, h.isSound_eq, h.depth_eq]

theorem eq_null_iff (h : Respelled role first second) : first = .null ↔ second = .null := by
  cases h <;> simp

/-- Where no raw value is expected, only the order of members can differ, and it is lost by sorting. -/
theorem sorted_eq (h : Respelled .plain first second) (hkeys : first.hasDistinctKeys = true) :
    first.sorted = second.sorted := by
  generalize hrole : Role.plain = role at h
  induction h with
  | same role document => rfl
  | digits h => cases hrole
  | list hlength h ih =>
      subst hrole
      have hitems := Document.hasDistinctKeys_list.1 hkeys
      rw [Document.sorted, Document.sorted, Document.sortedItems_eq, Document.sortedItems_eq]
      exact congrArg Document.list (map_eq_map_iff_getElem?.2 ⟨hlength, fun i first second hfirst hsecond =>
        ih i first second hfirst hsecond (hitems first (List.mem_of_getElem? hfirst)) rfl⟩)
  | @table _ members others hsame h ih =>
      subst hrole
      obtain ⟨hnodup, hmembers⟩ := Document.hasDistinctKeys_table.1 hkeys
      have hperm : (Document.sortedMembers members).Perm (Document.sortedMembers others) := by
        rw [Document.sortedMembers_eq, Document.sortedMembers_eq]
        refine perm_map_of_keys hsame fun first hfirst second hsecond hkey => ?_
        rw [hkey, ih first hfirst second hsecond hkey (hmembers first hfirst) rfl]
      have hsorted : ((Document.sortedMembers members).map (·.1)).Nodup := by
        rw [Document.sortedMembers_eq, List.map_map]
        exact hnodup
      rw [Document.sorted, Document.sorted, SortedMap.ofList_perm hsorted hperm]

end Respelled

/-! ## Readers -/

/-- A document and its respellings are read alike where this is expected. -/
def Reading.Stable {α : Type} (read : Reading α) (role : Role) : Prop :=
  ∀ first second, Respelled role first second → first.hasDistinctKeys = true →
    (read first).toOption = (read second).toOption

namespace Reading

variable {α β : Type} {read : Reading α} {role : Role}

theorem stable_text : Stable text .plain := by
  intro first second h _
  cases h <;> rfl

theorem stable_number : Stable number .plain := by
  intro first second h _
  cases h <;> rfl

theorem stable_flag : Stable flag .plain := by
  intro first second h _
  cases h <;> rfl

/-- A whole number and the text of its digits are one raw value. -/
theorem stable_raw : Stable raw .raw := by
  intro first second h _
  cases h with
  | digits hfits => simp only [raw, hfits, if_true]
  | _ => rfl

theorem Stable.map (h : Stable read role) (f : α → β) : Stable (fun document => (read document).map f) role := by
  intro first second halike hkeys
  rw [toOption_map, toOption_map, h first second halike hkeys]

theorem Stable.optional (h : Stable read role) : Stable (Reading.optional read) role := by
  intro first second halike hkeys
  have hread := h.map some first second halike hkeys
  cases halike with
  | same => rfl
  | digits hfits => exact hread
  | list => exact hread
  | table => exact hread

/-- A choice in a table is its only key, over nothing. -/
theorem choice_table_eq_ok_iff {choices : List (String × α)} {members : List (String × Document)} {a : α} :
    choice .json choices (.table members) = .ok a ↔
      ∃ name, members = [(name, .null)] ∧ choices.lookup name = some a := by
  cases members with
  | nil => simp [choice]
  | cons member rest =>
      obtain ⟨name, payload⟩ := member
      simp only [choice, named, List.cons.injEq, Prod.mk.injEq]
      cases hlookup : choices.lookup name with
      | none =>
          constructor
          · intro h
            cases h
          · rintro ⟨_, ⟨⟨rfl, -⟩, -⟩, hfound⟩
            rw [hlookup] at hfound
            cases hfound
      | some b =>
          constructor
          · intro h
            cases payload with
            | null =>
                cases rest with
                | nil => exact ⟨name, ⟨⟨rfl, rfl⟩, rfl⟩, hlookup.trans (congrArg some (Except.ok.inj h))⟩
                | cons => cases h
            | _ => cases h
          · rintro ⟨_, ⟨⟨rfl, rfl⟩, rfl⟩, hfound⟩
            exact congrArg Except.ok (Option.some.inj (hlookup.symm.trans hfound))

/-- A member over nothing that stands alone is found alone again. -/
theorem eq_null_member {members others : List (String × Document)} {name : String}
    (hkeys : (members.map (·.1)).Perm (others.map (·.1)))
    (h : ∀ member ∈ members, ∀ other ∈ others, member.1 = other.1 → member.2 = .null → other.2 = .null)
    (heq : members = [(name, .null)]) : others = [(name, .null)] := by
  subst heq
  obtain ⟨⟨key, document⟩, rfl, hkey⟩ := List.map_eq_singleton_iff.1 (List.perm_singleton.1 hkeys.symm)
  obtain rfl : key = name := hkey
  obtain rfl : document = .null := h _ List.mem_cons_self _ List.mem_cons_self rfl rfl
  rfl

theorem stable_choice (choices : List (String × α)) : Stable (choice .json choices) .plain := by
  intro first second h _
  cases h with
  | same => rfl
  | list => rfl
  | @table _ members others hkeys h =>
      have hnull : ∀ name, members = [(name, .null)] ↔ others = [(name, .null)] := fun name =>
        ⟨eq_null_member hkeys fun member hmember other hother hkey =>
            (h member hmember other hother hkey).eq_null_iff.1,
          eq_null_member hkeys.symm fun other hother member hmember hkey =>
            (h member hmember other hother hkey.symm).eq_null_iff.2⟩
      refine Option.ext fun a => ?_
      simp only [toOption_eq_some_iff, choice_table_eq_ok_iff, hnull]

/-- A table of values by free keys. -/
theorem Stable.entries (h : ∀ key, Stable read (role.member key)) : Stable (Reading.map read) role := by
  intro first second halike hkeys
  cases halike with
  | same => rfl
  | digits => rfl
  | list => rfl
  | @table _ members others hsame hmembers =>
      obtain ⟨hnodup, hdistinct⟩ := Document.hasDistinctKeys_table.1 hkeys
      rw [toOption_map_table, toOption_map_table]
      refine foldl_takeIn_eq (independent_entryUpdate? read) hnodup hsame ?_ _
      intro member hmember other hother hkey
      have hread := h member.1 member.2 other.2 (hmembers member hmember other hother hkey)
        (hdistinct member hmember)
      simp only [entryUpdate?, hread, hkey]

end Reading

/-! ## Records -/

namespace Schema

variable {α : Type} {schema : Schema α} {role : Role}

/-- The schema reads the fields that are expected, each of them and all other members alike in any spelling,
and in any order. -/
structure Fits (schema : Schema α) (role : Role) : Prop where
  separate : schema.Separate
  fields : List.Forall₂ (fun field entry => field.name = entry.1 ∧ Reading.Stable field.read entry.2)
    schema.fields role.fields
  other : ∀ key first second, Respelled role.rest first second → first.hasDistinctKeys = true →
    schema.other key first = schema.other key second

theorem Fits.field? (h : schema.Fits role) (name : String) :
    match schema.field? name with
    | none => role.member name = role.rest
    | some field => Reading.Stable field.read (role.member name) := by
  have hfields := h.fields
  unfold Schema.field? Role.member
  generalize schema.fields = fields at hfields
  generalize role.fields = entries at hfields
  induction hfields with
  | nil => rfl
  | @cons field entry fields entries hfirst _ ih =>
      obtain ⟨hname, hread⟩ := hfirst
      rw [List.find?_cons, SortedMap.lookup_cons_eq]
      by_cases hkey : field.name = name
      · simp [hkey, ← hname, hread]
      · have hother : name ≠ entry.1 := fun heq => hkey (hname.trans heq.symm)
        simpa [hkey, hother] using ih

theorem Fits.update?_eq (h : schema.Fits role) {first second : DocumentMember} (hkey : first.1 = second.1)
    (halike : Respelled (role.member first.1) first.2 second.2) (hdistinct : first.2.hasDistinctKeys = true) :
    schema.update? first = schema.update? second := by
  have hfield := h.field? first.1
  unfold update?
  rw [← hkey]
  cases hfind : schema.field? first.1 with
  | none =>
      rw [hfind] at hfield
      simp only at hfield
      rw [hfield] at halike
      exact congrArg some (h.other first.1 first.2 second.2 halike hdistinct)
  | some field =>
      rw [hfind] at hfield
      exact hfield first.2 second.2 halike hdistinct

theorem Fits.stable_readAsTable (h : schema.Fits role) : Reading.Stable schema.readAsTable role := by
  intro first second halike hkeys
  cases halike with
  | same => rfl
  | digits => rfl
  | list => rfl
  | @table _ members others hsame hmembers =>
      obtain ⟨hnodup, hdistinct⟩ := Document.hasDistinctKeys_table.1 hkeys
      refine toOption_readTable_eq h.separate hnodup hsame ?_
      intro member hmember other hother hkey
      exact h.update?_eq hkey (hmembers member hmember other hother hkey) (hdistinct member hmember)

/-- Items are read field by field, as far as there are both. -/
theorem toOption_readItems_eq {fields : List (Field α)} {items others : List Document} {record : α}
    (hlength : items.length = others.length)
    (h : ∀ (i : Nat) field first second, fields[i]? = some field → items[i]? = some first →
      others[i]? = some second → (field.read first).toOption = (field.read second).toOption) :
    (readItems fields record items).toOption.map (fun found => (found.1, found.2.isEmpty)) =
      (readItems fields record others).toOption.map (fun found => (found.1, found.2.isEmpty)) := by
  induction fields generalizing items others record with
  | nil =>
      have hempty : items.isEmpty = others.isEmpty := by
        rw [Bool.eq_iff_iff, List.isEmpty_iff_length_eq_zero, List.isEmpty_iff_length_eq_zero, hlength]
      exact congrArg (fun empty => some (record, empty)) hempty
  | cons field rest ih =>
      cases items with
      | nil =>
          have hnil : others = [] := List.length_eq_zero_iff.1 hlength.symm
          rw [hnil]
      | cons first firsts =>
          cases others with
          | nil => cases hlength
          | cons second seconds =>
              have hread := h 0 field first second rfl rfl rfl
              rw [readItems, readItems, toOption_bind, toOption_bind, hread]
              cases (field.read second).toOption with
              | none => rfl
              | some update =>
                  exact ih (Nat.succ.inj hlength) fun i field first second hfield hfirst hsecond =>
                    h (i + 1) field first second hfield hfirst hsecond

theorem toOption_readList (items : List Document) :
    (schema.readList .json items).toOption =
      ((readItems schema.fields schema.blank items).toOption.map (fun found => (found.1, found.2.isEmpty))).bind
        (fun found => if found.2 then some found.1 else none) := by
  rw [readList, toOption_bind, Option.bind_map]
  refine Option.bind_congr fun found _ => ?_
  cases hempty : found.2.isEmpty <;> simp [hempty, Except.toOption]

theorem Fits.item (h : schema.Fits role) {i : Nat} {field : Field α} (hfield : schema.fields[i]? = some field) :
    Reading.Stable field.read (role.item i) := by
  have hfields := h.fields
  unfold Role.item
  generalize schema.fields = fields at hfields hfield
  generalize role.fields = entries at hfields
  induction hfields generalizing i with
  | nil => cases hfield
  | cons hfirst _ ih =>
      cases i with
      | zero =>
          cases hfield
          exact hfirst.2
      | succ i => exact ih hfield

theorem Fits.stable_read (h : schema.Fits role) : Reading.Stable (schema.read .json) role := by
  intro first second halike hkeys
  have htable := h.stable_readAsTable first second halike hkeys
  cases halike with
  | same => rfl
  | digits => exact htable
  | table => exact htable
  | @list _ items others hlength hitems =>
      have hdistinct := Document.hasDistinctKeys_list.1 hkeys
      show (schema.readList .json items).toOption = (schema.readList .json others).toOption
      rw [toOption_readList, toOption_readList, toOption_readItems_eq hlength]
      intro i field first second hfield hfirst hsecond
      exact h.item hfield first second (hitems i first second hfirst hsecond)
        (hdistinct first (List.mem_of_getElem? hfirst))

end Schema

/-! ## Configs -/

theorem Tier.separate_schema : Tier.schema.Separate where
  fields := by
    simp only [Tier.schema, List.pairwise_cons, List.forall_mem_cons, List.Pairwise.nil, List.not_mem_nil,
      false_imp_iff, implies_true, and_true]
    exact Field.independent_of fun _ _ _ => rfl
  field_other := by
    simp only [Tier.schema, List.forall_mem_cons, List.not_mem_nil, false_imp_iff, implies_true, and_true]
    constructor
    all_goals
      intro document f hread key value tier
      obtain ⟨v, rfl⟩ := Field.exists_set_of_read hread
      rfl
  other_other key key' hne value value' tier :=
    congrArg (fun unknown => { tier with unknown }) (SortedMap.insert_comm hne.symm tier.unknown _ _)

theorem Tier.fits_schema : Tier.schema.Fits .tier where
  separate := Tier.separate_schema
  fields := .cons ⟨rfl, Reading.stable_raw.optional.map _⟩
    (.cons ⟨rfl, Reading.stable_raw.optional.map _⟩ .nil)
  other key first second halike hkeys := by
    simp only [Tier.schema, halike.sorted_eq hkeys]

theorem ClassSpec.separate_schema : ClassSpec.schema.Separate where
  fields := by
    simp only [ClassSpec.schema, List.pairwise_cons, List.forall_mem_cons, List.Pairwise.nil, List.not_mem_nil,
      false_imp_iff, implies_true, and_true]
    and_intros
    all_goals exact Field.independent_of fun _ _ _ => rfl
  field_other := by
    simp only [ClassSpec.schema, List.forall_mem_cons, List.not_mem_nil, false_imp_iff, implies_true, and_true]
    and_intros
    all_goals
      intro document f hread key value spec
      obtain ⟨v, rfl⟩ := Field.exists_set_of_read hread
      rfl
  other_other key key' hne value value' spec :=
    congrArg (fun unknown => { spec with unknown }) (SortedMap.insert_comm hne.symm spec.unknown _ _)

theorem ClassSpec.fits_schema : ClassSpec.schema.Fits .spec where
  separate := ClassSpec.separate_schema
  fields := .cons ⟨rfl, Reading.stable_raw.optional.map _⟩
    (.cons ⟨rfl, Reading.stable_raw.optional.map _⟩
    (.cons ⟨rfl, Reading.stable_raw.optional.map _⟩
    (.cons ⟨rfl, Reading.stable_raw.optional.map _⟩
    (.cons ⟨rfl, Tier.fits_schema.stable_readAsTable.optional.map _⟩
    (.cons ⟨rfl, Tier.fits_schema.stable_readAsTable.optional.map _⟩ .nil)))))
  other key first second halike hkeys := by
    simp only [ClassSpec.schema, halike.sorted_eq hkeys]

theorem ClassSpec.stable_read : Reading.Stable (ClassSpec.read .json) .spec := by
  intro first second halike hkeys
  have htable := ClassSpec.fits_schema.stable_readAsTable first second halike hkeys
  simp only [ClassSpec.read, halike.isKeepable_eq]
  split
  · exact htable
  · rfl

theorem Widths.fits_schema : Widths.schema.Fits .widths where
  separate := Schema.separate_closed (by
    simp only [List.pairwise_cons, List.forall_mem_cons, List.Pairwise.nil, List.not_mem_nil, false_imp_iff,
      implies_true, and_true]
    exact Field.independent_of fun _ _ _ => rfl)
  fields := .cons ⟨rfl, Reading.stable_raw.map _⟩ (.cons ⟨rfl, Reading.stable_raw.map _⟩ .nil)
  other _ _ _ _ _ := rfl

theorem BuildOptions.fits_schema : (BuildOptions.schema .json).Fits .build where
  separate := Schema.separate_closed (by
    simp only [List.pairwise_cons, List.forall_mem_cons, List.Pairwise.nil, List.not_mem_nil, false_imp_iff,
      implies_true, and_true]
    and_intros
    all_goals exact Field.independent_of fun _ _ _ => rfl)
  fields := .cons ⟨rfl, Reading.stable_text.optional.map _⟩
    (.cons ⟨rfl, (Reading.stable_choice _).map _⟩
    (.cons ⟨rfl, (Reading.stable_choice _).map _⟩
    (.cons ⟨rfl, (Reading.stable_choice _).map _⟩
    (.cons ⟨rfl, Reading.stable_flag.map _⟩ .nil))))
  other _ _ _ _ _ := rfl

theorem Config.fits_schema : (Config.schema .json).Fits .config where
  separate := Schema.separate_closed (by
    simp only [List.pairwise_cons, List.forall_mem_cons, List.Pairwise.nil, List.not_mem_nil, false_imp_iff,
      implies_true, and_true]
    and_intros
    all_goals exact Field.independent_of fun _ _ _ => rfl)
  fields :=
    have hclasses : Reading.Stable (Reading.map (ClassSpec.read .json)) .classes :=
      Reading.Stable.entries fun _ => ClassSpec.stable_read
    have hraws : Reading.Stable (Reading.map Reading.raw) .raws :=
      Reading.Stable.entries fun _ => Reading.stable_raw
    .cons ⟨rfl, Reading.stable_text.map _⟩
    (.cons ⟨rfl, Reading.stable_text.map _⟩
    (.cons ⟨rfl, Reading.stable_number.map _⟩
    (.cons ⟨rfl, Widths.fits_schema.stable_read.map _⟩
    (.cons ⟨rfl, hclasses.map _⟩
    (.cons ⟨rfl, hraws.map _⟩
    (.cons ⟨rfl, hraws.map _⟩
    (.cons ⟨rfl, hraws.map _⟩
    (.cons ⟨rfl, BuildOptions.fits_schema.stable_read.map _⟩ .nil))))))))
  other _ _ _ _ _ := rfl

namespace Config

theorem parse_eq_ok_iff {format : Format} {text : String} {document : Document} {config : Config}
    (h : format.read? text = some document) :
    parse format text = .ok config ↔
      (ofDocument format document).toOption = some config ∧ config.validate = .ok () := by
  rw [parse, h]
  cases hread : ofDocument format document with
  | error e => simp [Except.toOption, hread]
  | ok found =>
      cases hvalid : found.validate with
      | error fault =>
          simp only [hread, hvalid, Except.toOption, Option.some.injEq, reduceCtorEq, false_iff, not_and]
          rintro rfl
          simp [hvalid]
      | ok =>
          simp only [hread, hvalid, Except.toOption, Option.some.injEq, Except.ok.injEq, iff_self_and]
          rintro rfl
          exact hvalid

/-- The order of members and the quotes around whole numbers decide neither whether a text is a config nor
which config it is. -/
theorem parse_respelled {text other : String} {document document' : Document}
    (hread : Format.json.read? text = some document) (hother : Format.json.read? other = some document')
    (hkeys : document.hasDistinctKeys = true) (h : Respelled .config document document') (config : Config) :
    parse .json text = .ok config ↔ parse .json other = .ok config := by
  have halike : (ofDocument .json document).toOption = (ofDocument .json document').toOption :=
    fits_schema.stable_read document document' h hkeys
  rw [parse_eq_ok_iff hread, parse_eq_ok_iff hother, halike]

/-- A config of one class. -/
def plainText : String :=
  "\x7b\"breakpoints\":\x7b\"mobile\":\"375px\",\"desktop\":\"1024px\"\x7d," ++
    "\"classes\":\x7b\"h1\":\x7b\"fontWeight\":700,\"hint\":\x7b\"a\":1,\"b\":null\x7d\x7d\x7d\x7d"

/-- The same config with the members of all tables turned round and the weight in quotes. -/
def turnedText : String :=
  "\x7b\"classes\":\x7b\"h1\":\x7b\"hint\":\x7b\"b\":null,\"a\":1\x7d,\"fontWeight\":\"700\"\x7d\x7d," ++
    "\"breakpoints\":\x7b\"desktop\":\"1024px\",\"mobile\":\"375px\"\x7d\x7d"

theorem parse_respelled_turned :
    ∃ config : Config, parse .json plainText = .ok config ∧ parse .json turnedText = .ok config := by
  let hint : Document := .table [("a", .int 1), ("b", .null)]
  let hint' : Document := .table [("b", .null), ("a", .int 1)]
  let spec : Document := .table [("fontWeight", .int 700), ("hint", hint)]
  let spec' : Document := .table [("hint", hint'), ("fontWeight", .text "700")]
  let widths : Document := .table [("mobile", .text "375px"), ("desktop", .text "1024px")]
  let widths' : Document := .table [("desktop", .text "1024px"), ("mobile", .text "375px")]
  let document : Document := .table [("breakpoints", widths), ("classes", .table [("h1", spec)])]
  let document' : Document := .table [("classes", .table [("h1", spec')]), ("breakpoints", widths')]
  let config : Config :=
    { blank with
      breakpoints := ⟨"375px", "1024px"⟩
      classes := .ofList [("h1", { ClassSpec.empty with
        fontWeight := some "700"
        unknown := .ofList [("hint", hint)] })] }
  have hread : Format.json.read? plainText = some document := by
    unfold plainText
    simp only [Format.read?, Json.read?, String.reduceAppend, String.reduceToList, List.length_cons,
      List.length_nil, Nat.zero_add, Nat.reduceAdd, Nat.reduceMul]
    rfl
  have hother : Format.json.read? turnedText = some document' := by
    unfold turnedText
    simp only [Format.read?, Json.read?, String.reduceAppend, String.reduceToList, List.length_cons,
      List.length_nil, Nat.zero_add, Nat.reduceAdd, Nat.reduceMul]
    rfl
  have hhint : Respelled .plain hint hint' := .of_perm (by decide) (.swap _ _ _)
  have hweight : Respelled .raw (.int 700) (.text "700") := .digits (n := 700) (by decide)
  have hspec : Respelled .spec spec spec' :=
    .table (.swap _ _ _)
      (by simp [Role.member, Role.fields, Role.rest, SortedMap.lookup_cons_eq, hweight, hhint])
  have hclasses : Respelled .classes (.table [("h1", spec)]) (.table [("h1", spec')]) :=
    .table (.refl _) (by simp [Role.member, Role.fields, Role.rest, hspec])
  have hwidths : Respelled .widths widths widths' := .of_perm (by decide) (.swap _ _ _)
  have hconfig : Respelled .config document document' :=
    .table (.swap _ _ _) (by simp [Role.member, Role.fields, SortedMap.lookup_cons_eq, hwidths, hclasses])
  have hvalid : config.validate = .ok () := validate_eq_ok (by decide +kernel)
  have hparse := (parse_eq_ok_iff hread).2 ⟨rfl, hvalid⟩
  exact ⟨config, hparse, (parse_respelled hread hother (by decide) hconfig config).1 hparse⟩

end Config

end DesignTokens
