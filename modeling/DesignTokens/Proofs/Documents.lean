import Mathlib.Data.List.MinMax
import Mathlib.Order.Nat
import DesignTokens.Document

/-!
# Parts of documents

What is said of a list or a table is said of all its parts.
-/

namespace DesignTokens.Document

theorem sortedItems_eq (items : List Document) : sortedItems items = items.map sorted := by
  induction items with
  | nil => rfl
  | cons item rest ih => rw [sortedItems, ih, List.map_cons]

theorem sortedMembers_eq (members : List (String × Document)) :
    sortedMembers members = members.map (fun member => (member.1, member.2.sorted)) := by
  induction members with
  | nil => rfl
  | cons member rest ih => rw [sortedMembers, ih, List.map_cons]

theorem areItemsSound_eq (items : List Document) : areItemsSound items = (items.map isSound).all id := by
  induction items with
  | nil => rfl
  | cons item rest ih => rw [areItemsSound, ih, List.map_cons, List.all_cons, id]

theorem areMembersSound_eq (members : List (String × Document)) :
    areMembersSound members = (members.map (·.2.isSound)).all id := by
  induction members with
  | nil => rfl
  | cons member rest ih => rw [areMembersSound, ih, List.map_cons, List.all_cons, id]

theorem depthOfItems_eq (items : List Document) : depthOfItems items = (items.map depth).foldr max 0 := by
  induction items with
  | nil => rfl
  | cons item rest ih => rw [depthOfItems, ih, List.map_cons, List.foldr_cons]

theorem depthOfMembers_eq (members : List (String × Document)) :
    depthOfMembers members = (members.map (·.2.depth)).foldr max 0 := by
  induction members with
  | nil => rfl
  | cons member rest ih => rw [depthOfMembers, ih, List.map_cons, List.foldr_cons]

theorem depthOfMembers_le {members : List (String × Document)} {n : Nat}
    (h : ∀ member ∈ members, member.2.depth ≤ n) : depthOfMembers members ≤ n := by
  rw [depthOfMembers_eq]
  exact List.max_le_of_forall_le _ n (List.forall_mem_map.2 h)

end DesignTokens.Document
