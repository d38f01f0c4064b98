import MarkedValues.Value.Basic

/-!
Marks on values: those at the top, and those at any depth. `erase` removes every mark, `allMarks`
collects them; together they take a value apart into content and marks.
-/
namespace MarkedValues.Value

def marks : Value → MarkSet
  | .null _ m | .unknown _ _ m | .scalar _ m | .sequence _ _ m | .mapping _ _ m => m

def setMarks : Value → MarkSet → Value
  | .null t _, m => .null t m
  | .unknown t r _, m => .unknown t r m
  | .scalar s _, m => .scalar s m
  | .sequence k es _, m => .sequence k es m
  | .mapping k es _, m => .mapping k es m

def isMarked (v : Value) : Bool := !v.marks.isEmpty
def hasMark (v : Value) (m : Mark) : Bool := v.marks.contains m
def withMark (v : Value) (m : Mark) : Value := v.setMarks (v.marks.insert m)
def withMarks (v : Value) (ms : MarkSet) : Value := v.setMarks (v.marks ∪ ms)
def withoutMark (v : Value) (m : Mark) : Value := v.setMarks (v.marks.erase m)

def unmarked (v : Value) : Value := v.setMarks ∅

mutual

/-- The value without marks at any depth. -/
def erase : Value → Value
  | .null t _ => .null t ∅
  | .unknown t r _ => .unknown t r ∅
  | .scalar s _ => .scalar s ∅
  | .sequence k es _ => .sequence k (eraseAll es) ∅
  | .mapping k es _ => .mapping k (eraseEntries es) ∅

def eraseAll : List Value → List Value
  | [] => []
  | v :: vs => v.erase :: eraseAll vs

def eraseEntries : List (String × Value) → List (String × Value)
  | [] => []
  | (k, v) :: rest => (k, v.erase) :: eraseEntries rest

end

mutual

/-- The marks at every depth. -/
def allMarks : Value → MarkSet
  | .null _ m | .unknown _ _ m | .scalar _ m => m
  | .sequence _ es m => m ∪ marksOfAll es
  | .mapping _ es m => m ∪ marksOfEntries es

def marksOfAll : List Value → MarkSet
  | [] => ∅
  | v :: vs => v.allMarks ∪ marksOfAll vs

def marksOfEntries : List (String × Value) → MarkSet
  | [] => ∅
  | (_, v) :: rest => v.allMarks ∪ marksOfEntries rest

end

def containsMarks (v : Value) : Bool := !v.allMarks.isEmpty

@[simp] theorem eraseAll_eq_map (vs : List Value) : eraseAll vs = vs.map erase := by
  induction vs with
  | nil => rfl
  | cons v vs ih => simp [eraseAll, ih]

@[simp] theorem eraseEntries_eq_map (es : List (String × Value)) :
    eraseEntries es = es.map fun e => (e.1, e.2.erase) := by
  induction es with
  | nil => rfl
  | cons e es ih => simp [eraseEntries, ih]

@[simp] theorem marks_setMarks (v : Value) (m : MarkSet) : (v.setMarks m).marks = m := by
  cases v <;> rfl

@[simp] theorem setMarks_setMarks (v : Value) (m n : MarkSet) :
    (v.setMarks m).setMarks n = v.setMarks n := by
  cases v <;> rfl

@[simp] theorem setMarks_marks (v : Value) : v.setMarks v.marks = v := by
  cases v <;> rfl

@[simp] theorem ty_setMarks (v : Value) (m : MarkSet) : (v.setMarks m).ty = v.ty := by
  cases v with
  | sequence k es n => cases k <;> rfl
  | mapping k es n => cases k <;> rfl
  | _ => rfl

@[simp] theorem marks_erase (v : Value) : v.erase.marks = ∅ := by
  cases v <;> rfl

end MarkedValues.Value
