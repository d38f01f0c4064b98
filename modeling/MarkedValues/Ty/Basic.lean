import MarkedValues.Dict

/-!
Types of values: three primitives, three collections of one element type, tuples and objects with a
type for each place, and `dynamic` where the type is not settled yet.
-/
namespace MarkedValues

/-- The type of a value. Object attributes are kept in ascending name order. -/
inductive Ty where
  | string
  | number
  | bool
  | list (elem : Ty)
  | set (elem : Ty)
  | map (elem : Ty)
  | tuple (elems : List Ty)
  | object (attrs : List (String × Ty))
  | dynamic
  deriving Inhabited

namespace Ty

/-- The object type of the attributes, of those with one name the last. -/
def objectOf (attrs : List (String × Ty)) : Ty := .object (Dict.ofList attrs)

def isPrimitive : Ty → Bool
  | .string | .number | .bool => true
  | _ => false

def isList : Ty → Bool
  | .list _ => true
  | _ => false

def isSet : Ty → Bool
  | .set _ => true
  | _ => false

def isMap : Ty → Bool
  | .map _ => true
  | _ => false

def isTuple : Ty → Bool
  | .tuple _ => true
  | _ => false

def isObject : Ty → Bool
  | .object _ => true
  | _ => false

def isDynamic : Ty → Bool
  | .dynamic => true
  | _ => false

@[simp] theorem isDynamic_iff {t : Ty} : t.isDynamic = true ↔ t = .dynamic := by
  cases t <;> simp [isDynamic]

def isCollection (t : Ty) : Bool := t.isList || t.isSet || t.isMap

def isSequence (t : Ty) : Bool := t.isList || t.isSet || t.isTuple

def isMapping (t : Ty) : Bool := t.isMap || t.isObject

/-- Values of this type have elements to go through. -/
def canIterate (t : Ty) : Bool := t.isSequence || t.isMapping

def elementType? : Ty → Option Ty
  | .list e | .set e | .map e => some e
  | _ => none

/-- The element type of a collection, `dynamic` for any other type. -/
def elementType (t : Ty) : Ty := t.elementType?.getD .dynamic

mutual

def hasDynamic : Ty → Bool
  | .dynamic => true
  | .string | .number | .bool => false
  | .list e | .set e | .map e => e.hasDynamic
  | .tuple es => anyDynamic es
  | .object attrs => anyAttrDynamic attrs

def anyDynamic : List Ty → Bool
  | [] => false
  | t :: ts => t.hasDynamic || anyDynamic ts

def anyAttrDynamic : List (String × Ty) → Bool
  | [] => false
  | (_, t) :: rest => t.hasDynamic || anyAttrDynamic rest

end

mutual

/-- How deep the type nests; a primitive has depth one. -/
def depth : Ty → Nat
  | .string | .number | .bool | .dynamic => 1
  | .list e | .set e | .map e => e.depth + 1
  | .tuple es => depthAll es + 1
  | .object attrs => depthAttrs attrs + 1

def depthAll : List Ty → Nat
  | [] => 0
  | t :: ts => Nat.max t.depth (depthAll ts)

def depthAttrs : List (String × Ty) → Nat
  | [] => 0
  | (_, t) :: rest => Nat.max t.depth (depthAttrs rest)

end

/-- The name used in messages; tuples and objects do not show their parts. -/
def text : Ty → String
  | .string => "string"
  | .number => "number"
  | .bool => "bool"
  | .list e => "list of " ++ e.text
  | .set e => "set of " ++ e.text
  | .map e => "map of " ++ e.text
  | .tuple _ => "tuple"
  | .object _ => "object"
  | .dynamic => "dynamic"

theorem depth_le_depthAll {t : Ty} {ts : List Ty} (h : t ∈ ts) : t.depth ≤ depthAll ts := by
  induction ts with
  | nil => cases h
  | cons u us ih =>
    rcases List.mem_cons.1 h with rfl | h
    · exact Nat.le_max_left _ _
    · exact Nat.le_trans (ih h) (Nat.le_max_right _ _)

theorem depth_le_depthAttrs {k : String} {t : Ty} {attrs : List (String × Ty)}
    (h : (k, t) ∈ attrs) : t.depth ≤ depthAttrs attrs := by
  induction attrs with
  | nil => cases h
  | cons e rest ih =>
    rcases List.mem_cons.1 h with rfl | h
    · exact Nat.le_max_left _ _
    · exact Nat.le_trans (ih h) (Nat.le_max_right _ _)

/-- A list of types is no deeper than a bound that holds for each of them. -/
theorem depthAll_le {ts : List Ty} {n : Nat} (h : ∀ t ∈ ts, t.depth ≤ n) : depthAll ts ≤ n := by
  induction ts with
  | nil => exact Nat.zero_le n
  | cons t ts ih =>
    exact Nat.max_le.2 ⟨h t (by simp), ih fun u hu => h u (List.mem_cons_of_mem t hu)⟩

theorem depth_pos (t : Ty) : 0 < t.depth := by
  cases t <;> simp [depth]

end Ty

end MarkedValues
