import DesignTokens.Document
import DesignTokens.Slot
import DesignTokens.SortedMap

/-!
# Class declarations

What a class declares: raw values in slots, and keys that name no property.
-/

namespace DesignTokens

/-- The part of a class for one breakpoint. -/
structure Tier where
  fontSize : Option String
  lineHeight : Option String
  unknown : SortedMap Document

namespace Tier

def empty : Tier := ⟨none, none, .empty⟩

def withoutUnknown (tier : Tier) : Tier :=
  { tier with unknown := .empty }

end Tier

structure ClassSpec where
  fontFamily : Option String
  fontWeight : Option String
  letterSpacing : Option String
  textTransform : Option String
  mobile : Option Tier
  desktop : Option Tier
  unknown : SortedMap Document

namespace ClassSpec

def empty : ClassSpec := ⟨none, none, none, none, none, none, .empty⟩

def tier? (spec : ClassSpec) : Breakpoint → Option Tier
  | .mobile => spec.mobile
  | .desktop => spec.desktop

/-- The raw value in a slot. A breakpoint never falls back on the other one. -/
def value? (spec : ClassSpec) : Slot → Option String
  | .fontFamily => spec.fontFamily
  | .fontWeight => spec.fontWeight
  | .letterSpacing => spec.letterSpacing
  | .textTransform => spec.textTransform
  | .fontSize b => (spec.tier? b).bind (·.fontSize)
  | .lineHeight b => (spec.tier? b).bind (·.lineHeight)

/-- The slots that hold a value, in order, with their values. -/
def declared (spec : ClassSpec) : List (Slot × String) :=
  Slot.all.filterMap (fun slot => (spec.value? slot).map (fun raw => (slot, raw)))

/-- The keys that name no property: those of the class, then those of each tier with the
breakpoint's name before a dot. -/
def unknownKeys (spec : ClassSpec) : List String :=
  spec.unknown.keys ++
    Breakpoint.all.flatMap (fun b =>
      match spec.tier? b with
      | some tier => tier.unknown.keys.map (fun key => b.name ++ "." ++ key)
      | none => [])

def withoutUnknown (spec : ClassSpec) : ClassSpec :=
  { spec with
    mobile := spec.mobile.map Tier.withoutUnknown
    desktop := spec.desktop.map Tier.withoutUnknown
    unknown := .empty }

@[simp] theorem value?_withoutUnknown (spec : ClassSpec) (slot : Slot) :
    spec.withoutUnknown.value? slot = spec.value? slot := by
  rcases spec with ⟨_, _, _, _, mobile, desktop, _⟩
  cases slot with
  | fontSize b => cases b <;> cases mobile <;> cases desktop <;> rfl
  | lineHeight b => cases b <;> cases mobile <;> cases desktop <;> rfl
  | _ => rfl

@[simp] theorem value?_empty (slot : Slot) : empty.value? slot = none := by
  cases slot with
  | fontSize b => cases b <;> rfl
  | lineHeight b => cases b <;> rfl
  | _ => rfl

theorem mem_declared {spec : ClassSpec} {slot : Slot} {raw : String} :
    (slot, raw) ∈ spec.declared ↔ spec.value? slot = some raw := by
  unfold declared
  simp only [List.mem_filterMap, Option.map_eq_some_iff, Prod.mk.injEq]
  constructor
  · rintro ⟨other, -, value, hvalue, rfl, rfl⟩
    exact hvalue
  · intro h
    exact ⟨slot, Slot.mem_all slot, raw, h, rfl, rfl⟩

end ClassSpec

/-- The least widths of the breakpoints, as written. -/
structure Widths where
  mobile : String
  desktop : String
deriving DecidableEq

def Widths.at (widths : Widths) : Breakpoint → String
  | .mobile => widths.mobile
  | .desktop => widths.desktop

end DesignTokens
