import MarkedValues.Value.Convert

/-!
Induction over types and over values. Both nest through lists and through entries; these principles
hand over the hypothesis for every part at once.
-/
namespace MarkedValues

section

variable {P : Ty → Prop}
  (string : P .string) (number : P .number) (bool : P .bool) (dynamic : P .dynamic)
  (list : ∀ e, P e → P (.list e)) (set : ∀ e, P e → P (.set e)) (map : ∀ e, P e → P (.map e))
  (tuple : ∀ ts, (∀ t ∈ ts, P t) → P (.tuple ts))
  (object : ∀ attrs, (∀ a ∈ attrs, P a.2) → P (.object attrs))

include string number bool dynamic list set map tuple object

@[elab_as_elim, induction_eliminator]
theorem Ty.induction (t : Ty) : P t := by
  match t with
  | .string => exact string
  | .number => exact number
  | .bool => exact bool
  | .dynamic => exact dynamic
  | .list e => exact list e (Ty.induction e)
  | .set e => exact set e (Ty.induction e)
  | .map e => exact map e (Ty.induction e)
  | .tuple ts => exact tuple ts fun u _ => Ty.induction u
  | .object attrs => exact object attrs fun a _ => Ty.induction a.2
termination_by sizeOf t
decreasing_by
  all_goals simp_wf
  · have := List.sizeOf_lt_of_mem ‹u ∈ ts›
    omega
  · have := List.sizeOf_lt_of_mem ‹a ∈ attrs›
    cases a
    simp at *
    omega

end

section

variable {P : Value → Prop}
  (null : ∀ t m, P (.null t m)) (unknown : ∀ t r m, P (.unknown t r m))
  (scalar : ∀ s m, P (.scalar s m))
  (sequence : ∀ k es m, (∀ v ∈ es, P v) → P (.sequence k es m))
  (mapping : ∀ k es m, (∀ e ∈ es, P e.2) → P (.mapping k es m))

include null unknown scalar sequence mapping

@[elab_as_elim, induction_eliminator]
theorem Value.induction (v : Value) : P v := by
  match v with
  | .null t m => exact null t m
  | .unknown t r m => exact unknown t r m
  | .scalar s m => exact scalar s m
  | .sequence k es m => exact sequence k es m fun w _ => Value.induction w
  | .mapping k es m => exact mapping k es m fun e _ => Value.induction e.2
termination_by sizeOf v
decreasing_by
  all_goals simp_wf
  · have := List.sizeOf_lt_of_mem ‹w ∈ es›
    omega
  · have := List.sizeOf_lt_of_mem ‹e ∈ es›
    cases e
    simp at *
    omega

end

end MarkedValues
