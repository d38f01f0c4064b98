import MarkedValues.Ty.Basic

/-!
Types are compared by kind first, in the order of their constructors, then part by part; attributes
compare as the sequence of their names and types. Equality is decided along the same recursion.
-/
namespace MarkedValues.Ty

mutual

def decEq : (a b : Ty) → Decidable (a = b)
  | .string, b => match b with
    | .string => .isTrue rfl
    | .number | .bool | .list _ | .set _ | .map _ | .tuple _ | .object _ | .dynamic => .isFalse nofun
  | .number, b => match b with
    | .number => .isTrue rfl
    | .string | .bool | .list _ | .set _ | .map _ | .tuple _ | .object _ | .dynamic => .isFalse nofun
  | .bool, b => match b with
    | .bool => .isTrue rfl
    | .string | .number | .list _ | .set _ | .map _ | .tuple _ | .object _ | .dynamic => .isFalse nofun
  | .dynamic, b => match b with
    | .dynamic => .isTrue rfl
    | .string | .number | .bool | .list _ | .set _ | .map _ | .tuple _ | .object _ => .isFalse nofun
  | .list x, b => match b with
    | .list y => match decEq x y with
      | .isTrue h => .isTrue (h ▸ rfl)
      | .isFalse h => .isFalse fun e => h (Ty.list.inj e)
    | .string | .number | .bool | .set _ | .map _ | .tuple _ | .object _ | .dynamic => .isFalse nofun
  | .set x, b => match b with
    | .set y => match decEq x y with
      | .isTrue h => .isTrue (h ▸ rfl)
      | .isFalse h => .isFalse fun e => h (Ty.set.inj e)
    | .string | .number | .bool | .list _ | .map _ | .tuple _ | .object _ | .dynamic => .isFalse nofun
  | .map x, b => match b with
    | .map y => match decEq x y with
      | .isTrue h => .isTrue (h ▸ rfl)
      | .isFalse h => .isFalse fun e => h (Ty.map.inj e)
    | .string | .number | .bool | .list _ | .set _ | .tuple _ | .object _ | .dynamic => .isFalse nofun
  | .tuple xs, b => match b with
    | .tuple ys => match decEqAll xs ys with
      | .isTrue h => .isTrue (h ▸ rfl)
      | .isFalse h => .isFalse fun e => h (Ty.tuple.inj e)
    | .string | .number | .bool | .list _ | .set _ | .map _ | .object _ | .dynamic => .isFalse nofun
  | .object xs, b => match b with
    | .object ys => match decEqAttrs xs ys with
      | .isTrue h => .isTrue (h ▸ rfl)
      | .isFalse h => .isFalse fun e => h (Ty.object.inj e)
    | .string | .number | .bool | .list _ | .set _ | .map _ | .tuple _ | .dynamic => .isFalse nofun

def decEqAll : (as bs : List Ty) → Decidable (as = bs)
  | [], [] => .isTrue rfl
  | [], _ :: _ => .isFalse nofun
  | _ :: _, [] => .isFalse nofun
  | a :: as, b :: bs => match decEq a b with
    | .isFalse h => .isFalse fun e => h (List.cons.inj e).1
    | .isTrue h => match decEqAll as bs with
      | .isTrue h' => .isTrue (h ▸ h' ▸ rfl)
      | .isFalse h' => .isFalse fun e => h' (List.cons.inj e).2

def decEqAttrs : (as bs : List (String × Ty)) → Decidable (as = bs)
  | [], [] => .isTrue rfl
  | [], _ :: _ => .isFalse nofun
  | _ :: _, [] => .isFalse nofun
  | (k, a) :: as, (l, b) :: bs =>
    if hk : k = l then
      match decEq a b with
      | .isFalse h => .isFalse fun e => h (Prod.mk.inj (List.cons.inj e).1).2
      | .isTrue h => match decEqAttrs as bs with
        | .isTrue h' => .isTrue (hk ▸ h ▸ h' ▸ rfl)
        | .isFalse h' => .isFalse fun e => h' (List.cons.inj e).2
    else .isFalse fun e => hk (Prod.mk.inj (List.cons.inj e).1).1

end

instance : DecidableEq Ty := decEq

def kindIndex : Ty → Nat
  | .string => 0
  | .number => 1
  | .bool => 2
  | .list _ => 3
  | .set _ => 4
  | .map _ => 5
  | .tuple _ => 6
  | .object _ => 7
  | .dynamic => 8

mutual

def order : Ty → Ty → Ordering
  | .list a, .list b => order a b
  | .set a, .set b => order a b
  | .map a, .map b => order a b
  | .tuple as, .tuple bs => orderAll as bs
  | .object as, .object bs => orderAttrs as bs
  | a, b => compare a.kindIndex b.kindIndex

def orderAll : List Ty → List Ty → Ordering
  | [], [] => .eq
  | [], _ :: _ => .lt
  | _ :: _, [] => .gt
  | a :: as, b :: bs => (order a b).then (orderAll as bs)

def orderAttrs : List (String × Ty) → List (String × Ty) → Ordering
  | [], [] => .eq
  | [], _ :: _ => .lt
  | _ :: _, [] => .gt
  | (k, a) :: as, (l, b) :: bs => ((compare k l).then (order a b)).then (orderAttrs as bs)

end

example : order (.object [("a", .string)]) (.object [("b", .dynamic)]) = .lt := by decide
example : (Ty.object [("a", .list .string)] = .object [("a", .list .string)]) := by decide

end MarkedValues.Ty
