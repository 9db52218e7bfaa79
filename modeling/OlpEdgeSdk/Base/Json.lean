import Mathlib.Data.List.TakeWhile

/-!
# JSON documents

A document as a tree, whose objects keep their members in order. `findMember` is the first
member of a name, and strings are read up to their first null.
-/

set_option autoImplicit false

namespace OlpEdgeSdk.Base

inductive Json where
  | null
  | bool (b : Bool)
  | int (n : Int)
  | double (x : Rat)
  | string (text : List Char)
  | array (items : List Json)
  | object (members : List (String × Json))

namespace Json

def isNull : Json → Bool
  | null => true
  | _ => false

/-- The first member of a name. -/
def findMember (name : String) : List (String × Json) → Option Json
  | [] => none
  | (key, value) :: members => if key = name then some value else findMember name members

theorem findMember_append (name : String) (members more : List (String × Json)) :
    findMember name (members ++ more) =
      (findMember name members).or (findMember name more) := by
  induction members with
  | nil => rfl
  | cons m members ih =>
    rw [List.cons_append, findMember, findMember]
    split
    · rfl
    · exact ih

/-- A member at the end of an object; no other value takes one. -/
def addMember (value : Json) (name : String) (member : Json) : Option Json :=
  match value with
  | object members => some (object (members ++ [(name, member)]))
  | _ => none

/-- Nothing can be added to null. -/
theorem foldlM_addMember_null {α : Type} (name : α → String) (member : α → Json)
    (items : List α) :
    items.foldlM (fun value a => value.addMember (name a) (member a)) null =
      if items = [] then some null else none := by
  cases items <;> rfl

/-- A text as a C string: it ends at the first null. -/
def cString (text : List Char) : List Char := text.takeWhile (· ≠ Char.ofNat 0)

@[simp] theorem cString_nil : cString [] = [] := rfl

theorem cString_eq_iff {text : List Char} : cString text = text ↔ Char.ofNat 0 ∉ text := by
  rw [cString, List.takeWhile_eq_self_iff]
  constructor
  · intro h hmem
    exact absurd rfl (decide_eq_true_eq.mp (h _ hmem))
  · intro h c hc
    apply decide_eq_true
    rintro rfl
    exact h hc

theorem cString_cString (text : List Char) : cString (cString text) = cString text := by
  rw [cString_eq_iff]
  intro hmem
  have hne := List.mem_takeWhile_imp hmem
  rw [decide_eq_true_eq] at hne
  exact hne rfl

end Json

end OlpEdgeSdk.Base
