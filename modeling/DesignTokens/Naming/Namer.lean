import DesignTokens.Naming.Fragment
import DesignTokens.SortedMap

/-!
# Variable names

The name of a CSS variable depends on the property and the raw value or key alone, and for font
families on the alias map.
-/

namespace DesignTokens

/-- What every name of one design system shares. -/
structure Namer where
  brand : String
  category : String
  /-- Font families by alias. -/
  fontFamilies : SortedMap String

namespace Namer

/-- The slug of the first family of a list, quotes removed. -/
def derivedAlias (family : String) : String :=
  let unquoted := family.toList.filter (fun c => c ≠ '"' && c ≠ '\'')
  Slug.slugify (String.ofList (unquoted.takeWhile (· ≠ ',')))

/-- The first alias that the map gives to exactly this family. -/
def mappedAlias? (n : Namer) (family : String) : Option String :=
  (n.fontFamilies.entries.find? (fun entry => entry.2 = family)).map (·.1)

/-- The alias of a font family: its key in the map, else derived from its first name. -/
def fontAlias (n : Namer) (family : String) : String :=
  match n.mappedAlias? family with
  | some found => Slug.slugify found
  | none => derivedAlias family

/-- True of the slugs of the alias map's keys, which no derived alias may take. -/
def isReserved (n : Namer) (slug : String) : Bool :=
  n.fontFamilies.keys.any (fun key => Slug.slugify key = slug)

def fontFragment (n : Namer) (family : String) : String :=
  match n.mappedAlias? family with
  | some found =>
      let slug := Slug.slugify found
      if found = Slug.keySpelling slug then slug
      else Fragment.marked slug (found ++ "=" ++ family)
  | none =>
      let slug := derivedAlias family
      if family = slug && !n.isReserved slug then slug else Fragment.marked slug family

/-- The name for a class property's raw value, or for a table's key. -/
def name (n : Namer) (p : Property) (text : String) : String :=
  match p.rule.naming with
  | .classScoped =>
      "--" ++ n.brand ++ "-" ++ n.category ++ "-" ++ p.cssProperty ++ "-" ++ Fragment.ofValue p text
  | .fontAlias =>
      "--" ++ n.brand ++ "-" ++ n.category ++ "-font-family-" ++ n.fontFragment text
  | .flat word => "--" ++ n.brand ++ "-" ++ word ++ "-" ++ Fragment.ofKey text

end Namer

end DesignTokens
