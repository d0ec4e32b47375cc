import DesignTokens.Property

/-!
# Breakpoints and slots

A slot is a place in a class where a value may stand: an invariant property, or a per-breakpoint
property at one breakpoint.
-/

namespace DesignTokens

inductive Breakpoint where
  | mobile
  | desktop
deriving DecidableEq

namespace Breakpoint

/-- In ascending order of width. -/
def all : List Breakpoint := [.mobile, .desktop]

def name : Breakpoint → String
  | .mobile => "mobile"
  | .desktop => "desktop"

def ofName? (name : String) : Option Breakpoint :=
  all.find? (fun b => b.name = name)

end Breakpoint

inductive Slot where
  | fontFamily
  | fontWeight
  | letterSpacing
  | textTransform
  | fontSize (breakpoint : Breakpoint)
  | lineHeight (breakpoint : Breakpoint)
deriving DecidableEq

namespace Slot

/-- The slots in the order in which their values are interned. -/
def all : List Slot :=
  [.fontFamily, .fontWeight, .letterSpacing, .textTransform,
    .fontSize .mobile, .lineHeight .mobile, .fontSize .desktop, .lineHeight .desktop]

theorem mem_all (s : Slot) : s ∈ all := by
  rcases s with _ | _ | _ | _ | b | b <;> first | decide | (cases b <;> decide)

def property : Slot → Property
  | .fontFamily => .fontFamily
  | .fontWeight => .fontWeight
  | .letterSpacing => .letterSpacing
  | .textTransform => .textTransform
  | .fontSize _ => .fontSize
  | .lineHeight _ => .lineHeight

def breakpoint? : Slot → Option Breakpoint
  | .fontSize b => some b
  | .lineHeight b => some b
  | _ => none

/-- The slot that decides a property at a breakpoint; a flat property has none. -/
def at? (p : Property) (b : Breakpoint) : Option Slot :=
  match p with
  | .fontFamily => some .fontFamily
  | .fontWeight => some .fontWeight
  | .fontSize => some (.fontSize b)
  | .lineHeight => some (.lineHeight b)
  | .letterSpacing => some .letterSpacing
  | .textTransform => some .textTransform
  | .spacing => none
  | .color => none

theorem property_of_at? {p : Property} {b : Breakpoint} {s : Slot} (h : at? p b = some s) :
    s.property = p := by
  cases p <;> simp [at?] at h <;> subst h <;> rfl

/-- The slots that count at a breakpoint, in emission order. -/
def forBreakpoint (b : Breakpoint) : List Slot :=
  Property.typography.filterMap (fun p => at? p b)

end Slot

end DesignTokens
