import DesignTokens.Proofs.Documents
import DesignTokens.Proofs.Json.RoundTrip
import DesignTokens.Proofs.Maps
import DesignTokens.Snapshot.Codec

/-!
# Snapshots read back what was written

A captured snapshot holds no unknown keys, so its text keeps all of it.
-/

namespace DesignTokens

/-! ## Fields and maps -/

namespace Schema

variable {α β : Type} {schema : Schema α} {name : String} {seen : List String} {record : α}
  {read : Reading β} {set : β → α → α}

theorem readMembers_field (hfield : schema.field? name = some (Field.of name read set))
    (hseen : name ∉ seen) {document : Document} {value : β} (hread : read document = .ok value)
    (rest : List (String × Document)) :
    schema.readMembers seen record ((name, document) :: rest) =
      schema.readMembers (name :: seen) (set value record) rest := by
  have hcontains : seen.contains name = false := by simpa using hseen
  rw [readMembers, hfield]
  simp [hseen, Field.of, hread, Except.map, bind, Except.bind]

/-- A member that may be left out is read as it was written. -/
theorem readMembers_optional {read : Reading (Option β)} {set : Option β → α → α} {write : β → Document}
    (hfield : schema.field? name = some (Field.of name read set)) (hseen : name ∉ seen)
    (hblank : set none record = record) {value : Option β}
    (hread : ∀ b, value = some b → read (write b) = .ok (some b)) (rest : List (String × Document)) :
    schema.readMembers seen record (optionalMember name (value.map write) ++ rest) =
      schema.readMembers ((value.map (fun _ => name)).toList ++ seen) (set value record) rest := by
  cases value with
  | none =>
      show schema.readMembers seen record rest = schema.readMembers seen (set none record) rest
      rw [hblank]
  | some b => exact readMembers_field hfield hseen (hread b rfl) rest

theorem readTable_of_readMembers {members : List (String × Document)}
    (h : schema.readMembers [] schema.blank members = .ok (record, seen))
    (hoptional : ∀ field ∈ schema.fields, field.isRequired = false) :
    schema.readTable members = .ok record := by
  have hnone : schema.fields.find? (fun field => field.isRequired && !seen.contains field.name) = none := by
    rw [List.find?_eq_none]
    intro field hmem
    simp [hoptional field hmem]
  unfold readTable
  rw [h]
  simp only [bind, Except.bind, hnone]

end Schema

theorem Reading.map_toDocument {α : Type} {read : Reading α} {write : α → Document} {m : SortedMap α}
    (h : ∀ key value, m.get? key = some value → read (write value) = .ok value) :
    Reading.map read (m.toDocument write) = .ok m := by
  have hentries : ∀ entries : List (String × α), (∀ entry ∈ entries, read (write entry.2) = .ok entry.2) →
      (entries.map (fun entry => (entry.1, write entry.2))).mapM
        (fun member => (read member.2).map (fun a => (member.1, a))) = .ok entries := by
    intro entries
    induction entries with
    | nil => intro _; rfl
    | cons entry rest ih =>
        intro hall
        have hrest := ih (fun other hmem => hall other (List.mem_cons_of_mem _ hmem))
        rw [List.map_cons, List.mapM_cons, hrest]
        simp [hall entry List.mem_cons_self, Except.map, bind, Except.bind, pure, Except.pure]
  have hmap := hentries m.entries (fun entry hmem => h entry.1 entry.2 (SortedMap.get?_eq_some_iff.2 hmem))
  simp [Reading.map, SortedMap.toDocument, Document.members?, hmap, bind, Except.bind, pure, Except.pure]

/-! ## Kept documents -/

namespace Document

open Json

theorem isSound_of_plain {document : Document} (h : Plain document) : document.isSound = true := by
  induction h with
  | text s => rfl
  | table members _ ih =>
      rw [isSound, areMembersSound_eq]
      simpa using ih

end Document

/-! ## Classes -/

theorem mem_optionalMember {name : String} {value : Option Document} {member : String × Document}
    (h : member ∈ optionalMember name value) : value = some member.2 := by
  cases value with
  | none => cases h
  | some document =>
      rw [List.mem_singleton.1 h]

namespace Tier

theorem unknown_entries {tier : Tier} (h : tier.withoutUnknown = tier) : tier.unknown.entries = [] := by
  rw [← h]
  rfl

/-- A tier is written as texts only. -/
theorem toDocument_eq_table {tier : Tier} (h : tier.withoutUnknown = tier) :
    ∃ members, tier.toDocument = .table members ∧ ∀ member ∈ members, ∃ s, member.2 = .text s := by
  refine ⟨_, rfl, ?_⟩
  intro member hmem
  rw [unknown_entries h, List.append_nil, List.mem_append] at hmem
  rcases hmem with hmem | hmem
  all_goals
    obtain ⟨s, -, hs⟩ := Option.map_eq_some_iff.1 (mem_optionalMember hmem)
    exact ⟨s, hs.symm⟩

theorem plain_toDocument {tier : Tier} (h : tier.withoutUnknown = tier) :
    Json.Plain tier.toDocument := by
  obtain ⟨members, hdocument, htexts⟩ := toDocument_eq_table h
  rw [hdocument]
  refine .table members ?_
  intro member hmem
  obtain ⟨s, hs⟩ := htexts member hmem
  rw [hs]
  exact .text s

theorem depth_toDocument {tier : Tier} (h : tier.withoutUnknown = tier) : tier.toDocument.depth ≤ 1 := by
  obtain ⟨members, hdocument, htexts⟩ := toDocument_eq_table h
  have hdepth : Document.depthOfMembers members ≤ 0 := by
    refine Document.depthOfMembers_le ?_
    intro member hmem
    obtain ⟨s, hs⟩ := htexts member hmem
    rw [hs]
    exact Nat.le_refl 0
  rw [hdocument, Document.depth]
  omega

theorem read_toDocument {tier : Tier} (h : tier.withoutUnknown = tier) :
    schema.readAsTable tier.toDocument = .ok tier := by
  have hread : schema.readMembers [] schema.blank
      (optionalMember "fontSize" (tier.fontSize.map .text) ++
        (optionalMember "lineHeight" (tier.lineHeight.map .text) ++ [])) =
      .ok (tier.withoutUnknown, (tier.lineHeight.map (fun _ => "lineHeight")).toList ++
        ((tier.fontSize.map (fun _ => "fontSize")).toList ++ [])) := by
    rw [Schema.readMembers_optional rfl (by simp) rfl (fun _ _ => rfl),
      Schema.readMembers_optional rfl (by simp) rfl (fun _ _ => rfl)]
    rfl
  have htable := Schema.readTable_of_readMembers hread (by decide)
  rw [h] at htable
  rw [toDocument, unknown_entries h, List.append_assoc]
  exact htable

end Tier

namespace ClassSpec

theorem tier_withoutUnknown {spec : ClassSpec} (h : spec.withoutUnknown = spec) (b : Breakpoint)
    {tier : Tier} (htier : spec.tier? b = some tier) : tier.withoutUnknown = tier := by
  cases b with
  | mobile =>
      have hmobile : spec.mobile.map Tier.withoutUnknown = spec.mobile := congrArg ClassSpec.mobile h
      have hsome : spec.mobile = some tier := htier
      rw [hsome] at hmobile
      exact Option.some.inj hmobile
  | desktop =>
      have hdesktop : spec.desktop.map Tier.withoutUnknown = spec.desktop := congrArg ClassSpec.desktop h
      have hsome : spec.desktop = some tier := htier
      rw [hsome] at hdesktop
      exact Option.some.inj hdesktop

theorem readAsTable_toDocument {spec : ClassSpec} (h : spec.withoutUnknown = spec) :
    schema.readAsTable spec.toDocument = .ok spec := by
  have htier : ∀ b tier, spec.tier? b = some tier →
      Reading.optional Tier.schema.readAsTable tier.toDocument = .ok (some tier) := by
    intro b tier hb
    show (Tier.schema.readAsTable tier.toDocument).map some = .ok (some tier)
    rw [Tier.read_toDocument (tier_withoutUnknown h b hb)]
    rfl
  have hmobile : ∀ tier, spec.mobile = some tier →
      Reading.optional Tier.schema.readAsTable tier.toDocument = .ok (some tier) := htier .mobile
  have hdesktop : ∀ tier, spec.desktop = some tier →
      Reading.optional Tier.schema.readAsTable tier.toDocument = .ok (some tier) := htier .desktop
  have hread : ∃ seen, schema.readMembers [] schema.blank
      (optionalMember "fontFamily" (spec.fontFamily.map .text) ++
        (optionalMember "fontWeight" (spec.fontWeight.map .text) ++
        (optionalMember "letterSpacing" (spec.letterSpacing.map .text) ++
        (optionalMember "textTransform" (spec.textTransform.map .text) ++
        (optionalMember "mobile" (spec.mobile.map Tier.toDocument) ++
        (optionalMember "desktop" (spec.desktop.map Tier.toDocument) ++ [])))))) =
      .ok ({ spec with unknown := .empty }, seen) := by
    apply Exists.intro
    rw [Schema.readMembers_optional rfl (by simp) rfl (fun _ _ => rfl),
      Schema.readMembers_optional rfl (by simp) rfl (fun _ _ => rfl),
      Schema.readMembers_optional rfl (by simp) rfl (fun _ _ => rfl),
      Schema.readMembers_optional rfl (by simp) rfl (fun _ _ => rfl),
      Schema.readMembers_optional rfl (by simp) rfl hmobile,
      Schema.readMembers_optional rfl (by simp) rfl hdesktop]
    rfl
  obtain ⟨seen, hread⟩ := hread
  have htable := Schema.readTable_of_readMembers hread (by decide)
  have hunknown : spec.unknown = .empty := by
    rw [← h]
    rfl
  have hspec : { spec with unknown := .empty } = spec := by
    rw [← hunknown]
  rw [hspec] at htable
  have hentries : spec.unknown.entries = [] := by
    rw [hunknown]
    rfl
  rw [toDocument, hentries]
  simp only [List.append_assoc]
  exact htable

/-- A class is written as texts and tiers. -/
theorem toDocument_eq_table {spec : ClassSpec} (h : spec.withoutUnknown = spec) :
    ∃ members, spec.toDocument = .table members ∧ ∀ member ∈ members,
      (∃ s, member.2 = .text s) ∨
        ∃ tier : Tier, tier.withoutUnknown = tier ∧ member.2 = tier.toDocument := by
  have hunknown : spec.unknown.entries = [] := by
    rw [← h]
    rfl
  have htext : ∀ {name : String} {value : Option String} {member : String × Document},
      member ∈ optionalMember name (value.map .text) → ∃ s, member.2 = .text s := by
    intro name value member hmem
    obtain ⟨s, -, hs⟩ := Option.map_eq_some_iff.1 (mem_optionalMember hmem)
    exact ⟨s, hs.symm⟩
  have htier : ∀ (b : Breakpoint) {name : String} {member : String × Document},
      member ∈ optionalMember name ((spec.tier? b).map Tier.toDocument) →
        ∃ tier : Tier, tier.withoutUnknown = tier ∧ member.2 = tier.toDocument := by
    intro b name member hmem
    obtain ⟨tier, hb, hdocument⟩ := Option.map_eq_some_iff.1 (mem_optionalMember hmem)
    exact ⟨tier, tier_withoutUnknown h b hb, hdocument.symm⟩
  refine ⟨_, rfl, ?_⟩
  intro member hmem
  rw [hunknown, List.append_nil] at hmem
  simp only [List.mem_append] at hmem
  rcases hmem with ((((hmem | hmem) | hmem) | hmem) | hmem) | hmem
  · exact Or.inl (htext hmem)
  · exact Or.inl (htext hmem)
  · exact Or.inl (htext hmem)
  · exact Or.inl (htext hmem)
  · exact Or.inr (htier .mobile hmem)
  · exact Or.inr (htier .desktop hmem)

theorem plain_toDocument {spec : ClassSpec} (h : spec.withoutUnknown = spec) :
    Json.Plain spec.toDocument := by
  obtain ⟨members, hdocument, hkinds⟩ := toDocument_eq_table h
  rw [hdocument]
  refine .table members ?_
  intro member hmem
  rcases hkinds member hmem with ⟨s, hs⟩ | ⟨tier, htier, hs⟩
  · rw [hs]
    exact .text s
  · rw [hs]
    exact Tier.plain_toDocument htier

theorem depth_toDocument {spec : ClassSpec} (h : spec.withoutUnknown = spec) :
    spec.toDocument.depth ≤ 2 := by
  obtain ⟨members, hdocument, hkinds⟩ := toDocument_eq_table h
  have hdepth : Document.depthOfMembers members ≤ 1 := by
    refine Document.depthOfMembers_le ?_
    intro member hmem
    rcases hkinds member hmem with ⟨s, hs⟩ | ⟨tier, htier, hs⟩
    · rw [hs]
      exact Nat.zero_le 1
    · rw [hs]
      exact Tier.depth_toDocument htier
  rw [hdocument, Document.depth]
  omega

theorem read_toDocument {spec : ClassSpec} (h : spec.withoutUnknown = spec) :
    ClassSpec.read .json spec.toDocument = .ok spec := by
  have hsound := Document.isSound_of_plain (plain_toDocument h)
  have hdepth := depth_toDocument h
  have hkeep : Format.json.isKeepable outerLevels spec.toDocument = true := by
    have hlevels : outerLevels + spec.toDocument.depth ≤ Json.depthLimit :=
      Nat.le_trans (Nat.add_le_add_left hdepth outerLevels) (by decide)
    simp only [Format.isKeepable, Json.isValueWithin, hsound, Bool.true_and]
    exact decide_eq_true hlevels
  rw [ClassSpec.read, if_pos hkeep, readAsTable_toDocument h]

end ClassSpec

/-! ## Snapshots -/

namespace Snapshot

/-- A snapshot that holds no unknown keys. -/
def IsKnown (snapshot : Snapshot) : Prop :=
  ∀ name spec, snapshot.classes.get? name = some spec → spec.withoutUnknown = spec

theorem isKnown_capture (config : Config) (table : VariableTable) : (capture config table).IsKnown := by
  intro name spec hspec
  simp only [capture, SortedMap.get?_map] at hspec
  obtain ⟨declared, -, rfl⟩ := Option.map_eq_some_iff.1 hspec
  obtain ⟨_, _, _, _, mobile, desktop, _⟩ := declared
  cases mobile <;> cases desktop <;> rfl

theorem plain_map {m : SortedMap α} {write : α → Document}
    (h : ∀ key value, m.get? key = some value → Json.Plain (write value)) :
    Json.Plain (m.toDocument write) := by
  refine .table _ ?_
  intro member hmem
  obtain ⟨entry, hentry, rfl⟩ := List.mem_map.1 hmem
  exact h entry.1 entry.2 (SortedMap.get?_eq_some_iff.2 hentry)

theorem plain_toDocument {snapshot : Snapshot} (h : snapshot.IsKnown) :
    Json.Plain snapshot.toDocument := by
  have htexts : ∀ m : SortedMap String, Json.Plain (m.toDocument .text) :=
    fun m => plain_map (fun _ value _ => .text value)
  have hclasses : Json.Plain (snapshot.classes.toDocument ClassSpec.toDocument) :=
    plain_map (fun name spec hspec => ClassSpec.plain_toDocument (h name spec hspec))
  have hwidths : Json.Plain snapshot.breakpoints.toDocument := by
    refine .table _ ?_
    intro member hmem
    simp only [List.mem_cons, List.not_mem_nil, or_false] at hmem
    rcases hmem with rfl | rfl
    · exact .text _
    · exact .text _
  refine .table _ ?_
  intro member hmem
  simp only [List.mem_cons, List.not_mem_nil, or_false] at hmem
  rcases hmem with rfl | rfl | rfl | rfl | rfl | rfl
  · exact hwidths
  · exact htexts _
  · exact htexts _
  · exact htexts _
  · exact hclasses
  · exact htexts _

theorem read_widths (widths : Widths) : widthsSchema.read .json widths.toDocument = .ok widths := by
  have htext : ∀ s, Reading.text (.text s) = .ok s := fun _ => rfl
  have hread : widthsSchema.readMembers [] widthsSchema.blank
      [("mobile", .text widths.mobile), ("desktop", .text widths.desktop)] =
      .ok (widths, ["desktop", "mobile"]) := by
    rw [Schema.readMembers_field rfl (by simp) (htext widths.mobile),
      Schema.readMembers_field rfl (by simp) (htext widths.desktop)]
    rfl
  exact Schema.readTable_of_readMembers hread (by decide)

theorem read_toDocument {snapshot : Snapshot} (h : snapshot.IsKnown) :
    schema.read .json snapshot.toDocument = .ok snapshot := by
  have hraws : ∀ m : SortedMap String, Reading.map Reading.raw (m.toDocument .text) = .ok m :=
    fun m => Reading.map_toDocument (fun _ _ _ => rfl)
  have htexts : ∀ m : SortedMap String, Reading.map Reading.text (m.toDocument .text) = .ok m :=
    fun m => Reading.map_toDocument (fun _ _ _ => rfl)
  have hclasses : Reading.map (ClassSpec.read .json) (snapshot.classes.toDocument ClassSpec.toDocument) =
      .ok snapshot.classes :=
    Reading.map_toDocument (fun name spec hspec => ClassSpec.read_toDocument (h name spec hspec))
  have hread : ∃ seen, schema.readMembers [] schema.blank [
      ("breakpoints", snapshot.breakpoints.toDocument),
      ("fontFamilyMap", snapshot.fontFamilies.toDocument .text),
      ("spacingMap", snapshot.spacing.toDocument .text),
      ("colors", snapshot.colors.toDocument .text),
      ("classes", snapshot.classes.toDocument ClassSpec.toDocument),
      ("variables", snapshot.values.toDocument .text)] = .ok (snapshot, seen) := by
    apply Exists.intro
    rw [Schema.readMembers_field rfl (by simp) (read_widths _),
      Schema.readMembers_field rfl (by simp) (hraws _),
      Schema.readMembers_field rfl (by simp) (hraws _),
      Schema.readMembers_field rfl (by simp) (hraws _),
      Schema.readMembers_field rfl (by simp) hclasses,
      Schema.readMembers_field rfl (by simp) (htexts _)]
    rfl
  obtain ⟨seen, hread⟩ := hread
  exact Schema.readTable_of_readMembers hread (by decide)

/-- A snapshot without unknown keys is read back from its text. -/
theorem parse?_render {snapshot : Snapshot} (h : snapshot.IsKnown) :
    parse? snapshot.render = some snapshot := by
  simp [parse?, render, Json.read?_render (plain_toDocument h), read_toDocument h]

end Snapshot

end DesignTokens
