import MarkedValues.Marks
import MarkedValues.Number.Rounding
import MarkedValues.Ty.Order

/-!
Values. A value is null, unknown or known, has a type in each of these states, and carries marks.
A known value is a scalar, a sequence of values or a mapping from names to values; the type of a
known tuple or object is read off its parts, that of a collection names its element type.
-/
namespace MarkedValues

inductive Scalar where
  | string (s : String)
  | number (n : Number)
  | bool (b : Bool)
  deriving DecidableEq

inductive SequenceKind where
  | list (elem : Ty)
  | set (elem : Ty)
  | tuple
  deriving DecidableEq

inductive MappingKind where
  | map (elem : Ty)
  | object
  deriving DecidableEq

/-- A value with its marks. Set content is in canonical order and unmarked, mapping content in
    ascending key order; the constructors below this type's own see to both. -/
inductive Value where
  | null (ty : Ty) (marks : MarkSet)
  | unknown (ty : Ty) (notNull : Bool) (marks : MarkSet)
  | scalar (content : Scalar) (marks : MarkSet)
  | sequence (kind : SequenceKind) (elems : List Value) (marks : MarkSet)
  | mapping (kind : MappingKind) (entries : List (String × Value)) (marks : MarkSet)
  deriving Inhabited

def Scalar.ty : Scalar → Ty
  | .string _ => .string
  | .number _ => .number
  | .bool _ => .bool

namespace Value

mutual

def ty : Value → Ty
  | .null t _ | .unknown t _ _ => t
  | .scalar s _ => s.ty
  | .sequence (.list e) _ _ => .list e
  | .sequence (.set e) _ _ => .set e
  | .sequence .tuple es _ => .tuple (tyAll es)
  | .mapping (.map e) _ _ => .map e
  | .mapping .object es _ => .object (tyEntries es)

def tyAll : List Value → List Ty
  | [] => []
  | v :: vs => v.ty :: tyAll vs

def tyEntries : List (String × Value) → List (String × Ty)
  | [] => []
  | (k, v) :: rest => (k, v.ty) :: tyEntries rest

end

@[simp] theorem tyAll_eq_map (vs : List Value) : tyAll vs = vs.map ty := by
  induction vs with
  | nil => rfl
  | cons v vs ih => simp [tyAll, ih]

@[simp] theorem tyEntries_eq_map (es : List (String × Value)) :
    tyEntries es = es.map fun e => (e.1, e.2.ty) := by
  induction es with
  | nil => rfl
  | cons e es ih => simp [tyEntries, ih]

def string (s : String) : Value := .scalar (.string s) ∅
def number (n : Number) : Value := .scalar (.number n) ∅
def int (n : Int) : Value := number (Number.ofInt n)
def bool (b : Bool) : Value := .scalar (.bool b) ∅
def list (elem : Ty) (elems : List Value) : Value := .sequence (.list elem) elems ∅
def tuple (elems : List Value) : Value := .sequence .tuple elems ∅
def map (elem : Ty) (entries : List (String × Value)) : Value :=
  .mapping (.map elem) (Dict.ofList entries) ∅
def object (attrs : List (String × Value)) : Value := .mapping .object (Dict.ofList attrs) ∅
def stringList (ss : List String) : Value := list .string (ss.map string)

def nullOf (t : Ty) : Value := .null t ∅
def unknownOf (t : Ty) : Value := .unknown t false ∅

def dynamic : Value := unknownOf .dynamic

def isUnknown : Value → Bool
  | .unknown .. => true
  | _ => false

def isKnown (v : Value) : Bool := !v.isUnknown

def isNull : Value → Bool
  | .null .. => true
  | _ => false

/-- Unknown, but never to become null. -/
def isRefinedNotNull : Value → Bool
  | .unknown _ notNull _ => notNull
  | _ => false

/-- Records that an unknown never becomes null; any other value stays as it is. -/
def refineNotNull : Value → Value
  | .unknown t _ m => .unknown t true m
  | v => v

mutual

def isWhollyKnown : Value → Bool
  | .null .. | .scalar .. => true
  | .unknown .. => false
  | .sequence _ es _ => allWhollyKnown es
  | .mapping _ es _ => entriesWhollyKnown es

def allWhollyKnown : List Value → Bool
  | [] => true
  | v :: vs => v.isWhollyKnown && allWhollyKnown vs

def entriesWhollyKnown : List (String × Value) → Bool
  | [] => true
  | (_, v) :: rest => v.isWhollyKnown && entriesWhollyKnown rest

end

@[simp] theorem allWhollyKnown_eq_all (vs : List Value) :
    allWhollyKnown vs = vs.all isWhollyKnown := by
  induction vs with
  | nil => rfl
  | cons v vs ih => simp [allWhollyKnown, ih]

@[simp] theorem entriesWhollyKnown_eq_all (es : List (String × Value)) :
    entriesWhollyKnown es = es.all fun e => e.2.isWhollyKnown := by
  induction es with
  | nil => rfl
  | cons e es ih => simp [entriesWhollyKnown, ih]

def string? : Value → Option String
  | .scalar (.string s) _ => some s
  | _ => none

def number? : Value → Option Number
  | .scalar (.number n) _ => some n
  | _ => none

def int? (v : Value) : Option Int := v.number?.bind Number.toInt?

def bool? : Value → Option Bool
  | .scalar (.bool b) _ => some b
  | _ => none

def elements? : Value → Option (List Value)
  | .sequence _ es _ => some es
  | _ => none

def entries? : Value → Option (Dict Value)
  | .mapping _ es _ => some es
  | _ => none

def elements (v : Value) : List Value := v.elements?.getD []
def entries (v : Value) : Dict Value := v.entries?.getD []

def elementCount? (v : Value) : Option Nat :=
  (v.elements?.map List.length).or (v.entries?.map List.length)

end Value

end MarkedValues
