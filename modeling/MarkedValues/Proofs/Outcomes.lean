/-!
Outcomes taken apart: when a chain of steps that may fail ends well, each of its steps did. `Gives`
says of an outcome what holds of the result if there is one, `Fails` what holds of the error.
-/
namespace MarkedValues.Outcomes

variable {ε δ α β : Type}

theorem bind_eq_ok {x : Except ε α} {f : α → Except ε β} {b : β} :
    x >>= f = .ok b ↔ ∃ a, x = .ok a ∧ f a = .ok b := by
  cases x <;> simp [bind, Except.bind]

theorem bind_eq_error {x : Except ε α} {f : α → Except ε β} {e : ε} :
    x >>= f = .error e ↔ x = .error e ∨ ∃ a, x = .ok a ∧ f a = .error e := by
  cases x <;> simp [bind, Except.bind]

@[simp] theorem mapError_ok (f : ε → δ) (a : α) : (Except.ok a).mapError f = .ok a := rfl

@[simp] theorem mapError_error (f : ε → δ) (e : ε) :
    (Except.error e : Except ε α).mapError f = .error (f e) := rfl

theorem mapError_eq_ok {x : Except ε α} {f : ε → δ} {a : α} :
    x.mapError f = .ok a ↔ x = .ok a := by
  cases x <;> simp

theorem exists_ok_of_isOk {x : Except ε α} (h : x.isOk = true) : ∃ a, x = .ok a := by
  cases x with
  | error e => simp [Except.isOk, Except.toBool] at h
  | ok a => exact ⟨a, rfl⟩

theorem eq_ok_of_toOption {x : Except ε α} {a : α} (h : x.toOption = some a) : x = .ok a := by
  cases x with
  | error e => cases h
  | ok b => exact congrArg Except.ok (Option.some.inj h)

/-- Whatever the outcome gives has the property. -/
def Gives (P : α → Prop) (x : Except ε α) : Prop := ∀ a, x = .ok a → P a

variable {P : α → Prop}

@[simp] theorem gives_ok {a : α} : Gives P (.ok a : Except ε α) ↔ P a := by
  constructor
  · intro h
    exact h a rfl
  · intro h b hb
    cases hb
    exact h

@[simp] theorem gives_error {e : ε} : Gives P (.error e : Except ε α) := by
  intro a h
  cases h

theorem gives_bind {x : Except ε β} {f : β → Except ε α} :
    Gives P (x >>= f) ↔ ∀ b, x = .ok b → Gives P (f b) := by
  constructor
  · intro h b hb a ha
    exact h a (bind_eq_ok.2 ⟨b, hb, ha⟩)
  · intro h a ha
    obtain ⟨b, hb, ha⟩ := bind_eq_ok.1 ha
    exact h b hb a ha

theorem gives_ite {c : Prop} [Decidable c] {x y : Except ε α} :
    Gives P (if c then x else y) ↔ (c → Gives P x) ∧ (¬ c → Gives P y) := by
  by_cases h : c <;> simp [h]

theorem gives_mapM {f : β → Except ε α} {bs : List β} (each : ∀ b ∈ bs, Gives P (f b)) :
    Gives (fun as => ∀ a ∈ as, P a) (bs.mapM f) := by
  induction bs with
  | nil => simp [pure, Except.pure]
  | cons b bs ih =>
    rw [List.mapM_cons]
    refine gives_bind.2 fun a ha => gives_bind.2 fun as has => gives_ok.2 ?_
    intro c hc
    rcases List.mem_cons.1 hc with rfl | hc
    · exact each b (by simp) c ha
    · exact ih (fun b hb => each b (by simp [hb])) as has c hc

theorem length_of_mapM {f : β → Except ε α} {bs : List β} {as : List α}
    (h : bs.mapM f = .ok as) : as.length = bs.length := by
  induction bs generalizing as with
  | nil =>
    cases h
    rfl
  | cons b bs ih =>
    rw [List.mapM_cons] at h
    obtain ⟨a, _, h⟩ := bind_eq_ok.1 h
    obtain ⟨rest, hrest, h⟩ := bind_eq_ok.1 h
    cases h
    exact congrArg Nat.succ (ih hrest)

/-- The outcome is a result or an error with the property. -/
def Fails (P : ε → Prop) : Except ε α → Prop
  | .ok _ => True
  | .error e => P e

section

variable {P : ε → Prop} {x : Except ε α}

@[simp] theorem fails_ok {a : α} : Fails P (.ok a : Except ε α) := trivial

@[simp] theorem fails_error {e : ε} : Fails P (.error e : Except ε α) ↔ P e := .rfl

theorem fails_iff : Fails P x ↔ ∀ e, x = .error e → P e := by
  cases x <;> simp

theorem Fails.bind {f : α → Except ε β} (h : Fails P x) (rest : ∀ a, x = .ok a → Fails P (f a)) :
    Fails P (x >>= f) := by
  cases x with
  | error e => exact h
  | ok a => exact rest a rfl

theorem fails_ite {c : Prop} {_ : Decidable c} {x y : Except ε α} (pos : c → Fails P x)
    (neg : ¬ c → Fails P y) : Fails P (if c then x else y) := by
  split
  · next h => exact pos h
  · next h => exact neg h

theorem fails_mapM {f : β → Except ε α} {bs : List β} (each : ∀ b ∈ bs, Fails P (f b)) :
    Fails P (bs.mapM f) := by
  induction bs with
  | nil => exact fails_ok
  | cons b bs ih =>
    rw [List.mapM_cons]
    apply (each b (by simp)).bind
    intro a _
    apply (ih fun b hb => each b (by simp [hb])).bind
    intro as _
    exact fails_ok

theorem Fails.mapError {Q : δ → Prop} {g : ε → δ} (h : Fails P x) (imp : ∀ e, P e → Q (g e)) :
    Fails Q (x.mapError g) := by
  cases x with
  | error e => exact imp e h
  | ok a => exact fails_ok

end

end MarkedValues.Outcomes
