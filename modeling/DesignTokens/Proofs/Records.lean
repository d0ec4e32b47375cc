import Mathlib.Data.List.Nodup
import Mathlib.Data.List.Pairwise
import Mathlib.Data.List.Forall2
import DesignTokens.Proofs.Maps
import DesignTokens.Record

/-!
# Records do not depend on the order of their members

Each member of a table changes a part of the record of its own, or the table cannot be read. Where no key
comes twice, a table is read by taking its members in one after another, in any order; the errors differ,
but not whether there is one.
-/

namespace DesignTokens

/-! ## Results without their errors -/

section

variable {ε α β : Type}

theorem toOption_bind (x : Except ε α) (f : α → Except ε β) :
    (x >>= f).toOption = x.toOption.bind (fun a => (f a).toOption) := by
  cases x <;> rfl

theorem toOption_map (x : Except ε α) (f : α → β) : (x.map f).toOption = x.toOption.map f := by
  cases x <;> rfl

theorem toOption_eq_some_iff {x : Except ε α} {a : α} : x.toOption = some a ↔ x = .ok a := by
  cases x <;> simp [Except.toOption]

end

/-! ## Members with the same keys -/

/-- Lists with the same keys can be brought into one order. -/
theorem exists_aligned {α β : Type} {members : List (String × α)} {others : List (String × β)}
    {R : String × α → String × β → Prop} (hkeys : (members.map (·.1)).Perm (others.map (·.1)))
    (h : ∀ member ∈ members, ∀ other ∈ others, member.1 = other.1 → R member other) :
    ∃ between, List.Forall₂ R members between ∧ between.Perm others := by
  induction members generalizing others with
  | nil =>
      have hnil : others = [] := List.map_eq_nil_iff.1 hkeys.symm.eq_nil
      exact ⟨[], .nil, hnil ▸ .nil⟩
  | cons member rest ih =>
      obtain ⟨other, hother, hkey⟩ := List.mem_map.1 (hkeys.subset List.mem_cons_self)
      obtain ⟨before, later, rfl⟩ := List.append_of_mem hother
      have hrest : (rest.map (·.1)).Perm ((before ++ later).map (·.1)) := by
        have hmiddle := hkeys.trans ((List.perm_middle (a := other)).map Prod.fst)
        rw [List.map_cons, List.map_cons, hkey] at hmiddle
        exact hmiddle.cons_inv
      have hsub : ∀ found ∈ before ++ later, found ∈ before ++ other :: later := fun found hfound =>
        (List.perm_middle (a := other)).symm.subset (List.mem_cons_of_mem _ hfound)
      obtain ⟨between, halike, hperm⟩ := ih hrest fun found hfound found' hfound' =>
        h found (List.mem_cons_of_mem _ hfound) found' (hsub found' hfound')
      refine ⟨other :: between, .cons (h member List.mem_cons_self other hother hkey.symm) halike, ?_⟩
      exact (hperm.cons other).trans List.perm_middle.symm

/-! ## Members taken in -/

abbrev DocumentMember := String × Document

section

variable {α : Type} {update? : DocumentMember → Option (α → α)} {members others : List DocumentMember}

/-- Takes a member in; a record that could not be read stays that way. -/
def takeIn (update? : DocumentMember → Option (α → α)) (record : Option α) (member : DocumentMember) :
    Option α :=
  record.bind (fun r => (update? member).map (fun update => update r))

/-- Members with different keys change different parts. -/
def IndependentUpdates (update? : DocumentMember → Option (α → α)) : Prop :=
  ∀ first second : DocumentMember, first.1 ≠ second.1 → ∀ f g, update? first = some f →
    update? second = some g → ∀ r, f (g r) = g (f r)

theorem foldl_takeIn_none (members : List DocumentMember) : members.foldl (takeIn update?) none = none := by
  induction members with
  | nil => rfl
  | cons member rest ih => exact ih

theorem takeIn_comm (h : IndependentUpdates update?) {first second : DocumentMember} (hne : first.1 ≠ second.1)
    (record : Option α) :
    takeIn update? (takeIn update? record first) second =
      takeIn update? (takeIn update? record second) first := by
  unfold takeIn
  cases record with
  | none => rfl
  | some r =>
      cases hfirst : update? first with
      | none => cases update? second <;> rfl
      | some f =>
          cases hsecond : update? second with
          | none => rfl
          | some g => exact congrArg some (h first second hne f g hfirst hsecond r).symm

/-- Members with distinct keys may be taken in in any order. -/
theorem foldl_takeIn_perm (h : IndependentUpdates update?) (hkeys : (members.map (·.1)).Nodup)
    (hperm : members.Perm others) (record : Option α) :
    members.foldl (takeIn update?) record = others.foldl (takeIn update?) record := by
  apply hperm.foldl_eq'
  intro first hfirst second hsecond current
  by_cases heq : first.1 = second.1
  · rw [List.inj_on_of_nodup_map hkeys hfirst hsecond heq]
  · exact takeIn_comm h heq current

theorem foldl_takeIn_congr (h : List.Forall₂ (fun first second => update? first = update? second) members others)
    (record : Option α) : members.foldl (takeIn update?) record = others.foldl (takeIn update?) record := by
  induction h generalizing record with
  | nil => rfl
  | cons hfirst _ ih =>
      rw [List.foldl_cons, List.foldl_cons, takeIn, takeIn, hfirst]
      exact ih _

/-- Nothing but what stands under each key counts. -/
theorem foldl_takeIn_eq (h : IndependentUpdates update?) (hkeys : (members.map (·.1)).Nodup)
    (hsame : (members.map (·.1)).Perm (others.map (·.1)))
    (hupdate : ∀ first ∈ members, ∀ second ∈ others, first.1 = second.1 → update? first = update? second)
    (record : Option α) : members.foldl (takeIn update?) record = others.foldl (takeIn update?) record := by
  obtain ⟨between, halike, hperm⟩ := exists_aligned hsame hupdate
  have hbetween : (between.map (·.1)).Nodup := ((hperm.map (·.1)).trans hsame.symm).nodup_iff.2 hkeys
  rw [foldl_takeIn_congr halike, foldl_takeIn_perm h hbetween hperm]

end

/-! ## Maps -/

namespace SortedMap

variable {α : Type}

theorem insert_comm {key other : String} (h : key ≠ other) (m : SortedMap α) (value otherValue : α) :
    (m.insert key value).insert other otherValue = (m.insert other otherValue).insert key value := by
  refine ext_get? (fun found => ?_)
  simp only [get?_insert]
  by_cases hkey : found = key
  · subst hkey
    simp [h]
  · simp [hkey]

/-- Entries with distinct keys make the same map in any order. -/
theorem ofList_perm {entries others : List (String × α)} (hkeys : (entries.map (·.1)).Nodup)
    (h : entries.Perm others) : ofList entries = ofList others := by
  apply h.foldl_eq'
  intro first hfirst second hsecond m
  by_cases heq : first.1 = second.1
  · rw [List.inj_on_of_nodup_map hkeys hfirst hsecond heq]
  · exact insert_comm heq m first.2 second.2

end SortedMap

namespace Reading

variable {α : Type} {read : Reading α}

/-- A member of a table of values by free keys. -/
def entryUpdate? (read : Reading α) (member : DocumentMember) : Option (SortedMap α → SortedMap α) :=
  (read member.2).toOption.map (fun value m => m.insert member.1 value)

theorem independent_entryUpdate? (read : Reading α) : IndependentUpdates (entryUpdate? read) := by
  intro first second hne f g hf hg m
  obtain ⟨value, -, rfl⟩ := Option.map_eq_some_iff.1 hf
  obtain ⟨other, -, rfl⟩ := Option.map_eq_some_iff.1 hg
  exact SortedMap.insert_comm (Ne.symm hne) m other value

theorem toOption_mapM (members : List DocumentMember) (m : SortedMap α) :
    (members.mapM (fun member => (read member.2).map (fun a => (member.1, a)))).toOption.map
        (fun entries => entries.foldl (fun map entry => map.insert entry.1 entry.2) m) =
      members.foldl (takeIn (entryUpdate? read)) (some m) := by
  induction members generalizing m with
  | nil => rfl
  | cons member rest ih =>
      rw [List.mapM_cons, toOption_bind, toOption_map, List.foldl_cons]
      cases hread : (read member.2).toOption with
      | none =>
          have hstop : takeIn (entryUpdate? read) (some m) member = none := by
            simp [takeIn, entryUpdate?, hread]
          rw [hstop, foldl_takeIn_none]
          rfl
      | some value =>
          have hgo : takeIn (entryUpdate? read) (some m) member = some (m.insert member.1 value) := by
            simp [takeIn, entryUpdate?, hread]
          rw [hgo, ← ih]
          simp only [Option.map_some, Option.bind_some, toOption_bind]
          cases (rest.mapM (fun member => (read member.2).map (fun a => (member.1, a)))).toOption <;> rfl

theorem toOption_map_table (members : List DocumentMember) :
    (Reading.map read (.table members)).toOption =
      members.foldl (takeIn (entryUpdate? read)) (some .empty) := by
  rw [← toOption_mapM]
  unfold Reading.map
  simp only [Document.members?, toOption_bind]
  cases (members.mapM (fun member => (read member.2).map (fun a => (member.1, a)))).toOption <;> rfl

end Reading

/-! ## Records -/

/-- Two fields set different parts of a record. -/
def Field.Independent {α : Type} (first second : Reading (α → α)) : Prop :=
  ∀ document other f g, first document = .ok f → second other = .ok g → ∀ r, f (g r) = g (f r)

theorem Field.exists_set_of_read {α β : Type} {read : Reading β} {set : β → α → α} {document : Document}
    {f : α → α} (h : (read document).map set = .ok f) : ∃ b, set b = f := by
  cases hread : read document with
  | error e => simp [hread, Except.map] at h
  | ok b => exact ⟨b, by simpa [hread, Except.map] using h⟩

theorem Field.independent_of {α β γ : Type} {read : Reading β} {set : β → α → α} {read' : Reading γ}
    {set' : γ → α → α} (h : ∀ b c r, set b (set' c r) = set' c (set b r)) :
    Field.Independent (fun document => (read document).map set) (fun document => (read' document).map set') := by
  intro document other f g hf hg r
  obtain ⟨b, rfl⟩ := exists_set_of_read hf
  obtain ⟨c, rfl⟩ := exists_set_of_read hg
  exact h b c r

namespace Schema

variable {α : Type} {schema : Schema α} {members others : List DocumentMember}

/-- What a member does to the record. -/
def update? (schema : Schema α) (member : DocumentMember) : Option (α → α) :=
  match schema.field? member.1 with
  | none => some (schema.other member.1 member.2)
  | some field => (field.read member.2).toOption

/-- No two fields set the same part, and members that are no fields have a part of their own, in which they
stand by their keys. -/
structure Separate (schema : Schema α) : Prop where
  fields : schema.fields.Pairwise (fun first second => Field.Independent first.read second.read)
  field_other : ∀ field ∈ schema.fields, ∀ document f, field.read document = .ok f →
    ∀ key value r, f (schema.other key value r) = schema.other key value (f r)
  other_other : ∀ key key', key ≠ key' → ∀ value value' r,
    schema.other key value (schema.other key' value' r) = schema.other key' value' (schema.other key value r)

theorem separate_closed {blank : α} {fields : List (Field α)}
    (h : fields.Pairwise (fun first second => Field.Independent first.read second.read)) :
    (closed blank fields).Separate :=
  ⟨h, fun _ _ _ _ _ _ _ _ => rfl, fun _ _ _ _ _ _ => rfl⟩

theorem mem_of_field? {name : String} {field : Field α} (h : schema.field? name = some field) :
    field ∈ schema.fields ∧ field.name = name :=
  ⟨List.mem_of_find?_eq_some h, by simpa using List.find?_some h⟩

theorem Separate.read_independent (h : schema.Separate) {first second : Field α} (hfirst : first ∈ schema.fields)
    (hsecond : second ∈ schema.fields) (hne : first.name ≠ second.name) :
    Field.Independent first.read second.read := by
  have : Std.Symm (fun first second : Field α => Field.Independent first.read second.read) :=
    ⟨fun first second hread document other f g hf hg r => (hread other document g f hg hf r).symm⟩
  exact h.fields.forall hfirst hsecond (fun heq => hne (congrArg Field.name heq))

theorem Separate.independent (h : schema.Separate) : IndependentUpdates schema.update? := by
  intro first second hne f g hf hg r
  unfold update? at hf hg
  cases hfirst : schema.field? first.1 with
  | none =>
      rw [hfirst] at hf
      cases Option.some.inj hf
      cases hsecond : schema.field? second.1 with
      | none =>
          rw [hsecond] at hg
          cases Option.some.inj hg
          exact h.other_other _ _ hne _ _ r
      | some field =>
          rw [hsecond] at hg
          obtain ⟨hmem, -⟩ := mem_of_field? hsecond
          exact (h.field_other field hmem _ g (toOption_eq_some_iff.1 hg) _ _ r).symm
  | some field =>
      rw [hfirst] at hf
      obtain ⟨hmem, hname⟩ := mem_of_field? hfirst
      cases hsecond : schema.field? second.1 with
      | none =>
          rw [hsecond] at hg
          cases Option.some.inj hg
          exact h.field_other field hmem _ f (toOption_eq_some_iff.1 hf) _ _ r
      | some field' =>
          rw [hsecond] at hg
          obtain ⟨hmem', hname'⟩ := mem_of_field? hsecond
          have hnames : field.name ≠ field'.name := by
            rw [hname, hname']
            exact hne
          exact h.read_independent hmem hmem' hnames _ _ f g (toOption_eq_some_iff.1 hf)
            (toOption_eq_some_iff.1 hg) r

/-- Reading members either fails, or takes them all in and has seen the fields among them. -/
theorem readMembers_cases (schema : Schema α) {seen : List String} (record : α) (hkeys : (members.map (·.1)).Nodup)
    (hseen : ∀ key ∈ members.map (·.1), key ∉ seen) :
    (schema.readMembers seen record members).toOption = none ∧
        members.foldl (takeIn schema.update?) (some record) = none ∨
      ∃ found names, schema.readMembers seen record members = .ok (found, names) ∧
        members.foldl (takeIn schema.update?) (some record) = some found ∧
        ∀ field ∈ schema.fields, field.name ∈ names ↔ field.name ∈ seen ∨ field.name ∈ members.map (·.1) := by
  induction members generalizing seen record with
  | nil => exact .inr ⟨record, seen, rfl, rfl, by simp⟩
  | cons member rest ih =>
      obtain ⟨key, document⟩ := member
      obtain ⟨hkey, hrest⟩ := List.nodup_cons.1 hkeys
      have hnew : key ∉ seen := hseen key List.mem_cons_self
      have hlater : ∀ other ∈ rest.map (·.1), other ∉ seen := fun other hother =>
        hseen other (List.mem_cons_of_mem _ hother)
      rw [List.foldl_cons]
      cases hfield : schema.field? key with
      | none =>
          have htake : takeIn schema.update? (some record) (key, document) =
              some (schema.other key document record) := by
            simp [takeIn, update?, hfield]
          have hunknown : ∀ field ∈ schema.fields, field.name ≠ key := by
            simpa using List.find?_eq_none.1 hfield
          rw [htake, readMembers, hfield]
          refine (ih _ hrest hlater).imp_right fun ⟨found, names, hread, hfold, hnames⟩ => ?_
          refine ⟨found, names, hread, hfold, fun field hmem => ?_⟩
          rw [hnames field hmem, List.map_cons, List.mem_cons]
          simp [hunknown field hmem]
      | some field =>
          have hcontains : seen.contains key = false := by simpa using hnew
          rw [readMembers, hfield]
          simp only [hcontains, Bool.false_eq_true, if_false]
          cases hread : field.read document with
          | error e =>
              have htake : takeIn schema.update? (some record) (key, document) = none := by
                simp [takeIn, update?, hfield, hread, Except.toOption]
              rw [htake, foldl_takeIn_none]
              exact .inl ⟨rfl, rfl⟩
          | ok update =>
              have htake : takeIn schema.update? (some record) (key, document) = some (update record) := by
                simp [takeIn, update?, hfield, hread, Except.toOption]
              have hseen' : ∀ other ∈ rest.map (·.1), other ∉ key :: seen := by
                intro other hother hmem
                rcases List.mem_cons.1 hmem with rfl | hmem
                · exact hkey hother
                · exact hlater other hother hmem
              rw [htake]
              refine (ih _ hrest hseen').imp_right fun ⟨found, names, hmore, hfold, hnames⟩ => ?_
              refine ⟨found, names, hmore, hfold, fun other hmem => ?_⟩
              rw [hnames other hmem, List.map_cons, List.mem_cons, List.mem_cons]
              tauto

/-- The record is made of the members that are read, and every required field must be among them. -/
theorem toOption_readTable (hkeys : (members.map (·.1)).Nodup) :
    (schema.readTable members).toOption =
      if ∀ field ∈ schema.fields, field.isRequired = true → field.name ∈ members.map (·.1) then
        members.foldl (takeIn schema.update?) (some schema.blank)
      else none := by
  rcases schema.readMembers_cases schema.blank hkeys (fun key _ => List.not_mem_nil) with
    ⟨hread, hfold⟩ | ⟨found, names, hread, hfold, hnames⟩
  · rw [readTable, toOption_bind, hread, hfold]
    simp
  · have hmissing : schema.fields.find? (fun field => field.isRequired && !names.contains field.name) = none ↔
        ∀ field ∈ schema.fields, field.isRequired = true → field.name ∈ members.map (·.1) := by
      rw [List.find?_eq_none]
      refine forall₂_congr fun field hmem => ?_
      have hname := hnames field hmem
      simp only [List.not_mem_nil, false_or] at hname
      simp [hname]
    rw [hfold]
    simp only [readTable, hread, ← hmissing, bind, Except.bind]
    cases schema.fields.find? (fun field => field.isRequired && !names.contains field.name) with
    | none => rfl
    | some field => simp [Except.toOption]

/-- Tables with the same fields are read alike, in whatever order the fields stand. -/
theorem toOption_readTable_eq (h : schema.Separate) (hkeys : (members.map (·.1)).Nodup)
    (hsame : (members.map (·.1)).Perm (others.map (·.1)))
    (hupdate : ∀ first ∈ members, ∀ second ∈ others, first.1 = second.1 →
      schema.update? first = schema.update? second) :
    (schema.readTable members).toOption = (schema.readTable others).toOption := by
  rw [toOption_readTable hkeys, toOption_readTable (hsame.nodup_iff.1 hkeys),
    foldl_takeIn_eq h.independent hkeys hsame hupdate]
  simp only [hsame.mem_iff]

end Schema

end DesignTokens
