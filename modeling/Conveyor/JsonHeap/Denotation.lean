import Conveyor.JsonHeap.Items

/-!
# What trees of items stand for

A tree stands for a JSON value if the type and the fields of every item say so.
The names of children are those of the members; elements of arrays have none.
-/

namespace Conveyor.JsonHeap

open Conveyor.Json

/-- The value that an item and the items below it stand for. -/
inductive Denotes : Tree → CJson → Prop
  | null {addr name valuedouble} :
      Denotes (.node addr name ⟨.null, none, 0, valuedouble⟩ []) .null
  | false {addr name valuedouble} :
      Denotes (.node addr name ⟨.false, none, 0, valuedouble⟩ []) .false
  | true {addr name valuedouble} :
      Denotes (.node addr name ⟨.true, none, 1, valuedouble⟩ []) .true
  | number {addr name value} :
      Denotes (.node addr name ⟨.number, none, value.valueint, value⟩ [])
        (.number value)
  | string {addr name valuedouble} {stored : Stored} :
      Denotes (.node addr name ⟨.string, some stored, 0, valuedouble⟩ [])
        (.string stored.content)
  | array {addr name valuedouble children elements}
      (hnames : ∀ child ∈ children, Tree.name child = none)
      (hchildren : List.Forall₂ Denotes children elements) :
      Denotes (.node addr name ⟨.array, none, 0, valuedouble⟩ children)
        (.array elements)
  | object {addr name valuedouble children members}
      (hnames : children.map (fun child => child.name.map Stored.content) =
        members.map (fun member => some member.1))
      (hchildren : List.Forall₂ Denotes children (members.map Prod.snd)) :
      Denotes (.node addr name ⟨.object, none, 0, valuedouble⟩ children)
        (.object members)

/-- An element of an array. -/
def HoldsElement (tree : Tree) (value : CJson) : Prop :=
  tree.name = none ∧ Denotes tree value

/-- A member of an object. -/
def HoldsMember (tree : Tree) (member : Text × CJson) : Prop :=
  tree.name.map Stored.content = some member.1 ∧ Denotes tree member.2

/-- The children of an object are its members. -/
theorem Denotes.holdsMembers {tree : Tree} {members : List (Text × CJson)}
    (hdenotes : Denotes tree (.object members)) :
    List.Forall₂ HoldsMember tree.children members := by
  cases hdenotes with
  | object hnames hchildren =>
      rw [← List.forall₂_eq_eq_eq, List.forall₂_map_left_iff,
        List.forall₂_map_right_iff] at hnames
      rw [List.forall₂_map_right_iff] at hchildren
      exact hnames.mp (fun _ _ hname hdenotes => ⟨hname, hdenotes⟩) hchildren

theorem Denotes.valueint_eq {tree : Tree} {value : CJson}
    (hdenotes : Denotes tree value) :
    tree.data.valueint = value.valueint := by
  cases hdenotes <;> rfl

end Conveyor.JsonHeap
