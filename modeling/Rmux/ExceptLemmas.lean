import Mathlib.Data.List.Basic

/-!
# Inversion of fallible computations

A computation in `Except` that succeeds has succeeded at each of its steps. `bind_eq_ok` takes off
one step, `foldlM_invariant` is the rule for a fold. `Holds` says what is true of a result if there
is one, and goes through a computation step by step (`Holds.bind`).
-/

namespace Except

variable {ε α β σ : Type} {x : Except ε α}

theorem ok_bind (a : α) (f : α → Except ε β) : ((.ok a : Except ε α) >>= f) = f a := rfl

variable {f : α → Except ε β}

theorem bind_eq_ok {b : β} (h : (x >>= f) = .ok b) : ∃ a, x = .ok a ∧ f a = .ok b := by
  cases x with
  | error e => cases h
  | ok a => exact ⟨a, rfl, h⟩

theorem toOption_bind (x : Except ε α) (f : α → Except ε β) :
    (x >>= f).toOption = x.toOption.bind fun a => (f a).toOption := by
  cases x <;> rfl

theorem toOption_eq_some_iff {a : α} : x.toOption = some a ↔ x = .ok a := by
  cases x with
  | error e | ok b => simp [Except.toOption]

theorem exists_of_toOption_map {f : α → β} {b : β} (h : x.toOption.map f = some b) :
    ∃ a, x = .ok a ∧ f a = b := by
  cases x with
  | error e => cases h
  | ok a => exact ⟨a, rfl, Option.some.inj h⟩

theorem foldlM_invariant {f : σ → α → Except ε σ} {I : σ → Prop}
    (hst : ∀ {s a s'}, I s → f s a = .ok s' → I s') :
    ∀ {l : List α} {s s' : σ}, I s → l.foldlM f s = .ok s' → I s'
  | [], s, s', hs, h => by
    obtain rfl := Except.ok.inj h
    exact hs
  | a :: l, s, s', hs, h => by
    obtain ⟨s₁, h₁, h⟩ := bind_eq_ok h
    exact foldlM_invariant hst (hst hs h₁) h

/-- What is given on success has a property. -/
def Holds (P : α → Prop) (x : Except ε α) : Prop := ∀ a, x = .ok a → P a

variable {P : α → Prop} {Q : β → Prop}

theorem holds_ok {a : α} (h : P a) : Holds P (.ok a : Except ε α) := by
  intro b hb
  cases hb
  exact h

theorem holds_error (e : ε) : Holds P (.error e : Except ε α) := by
  intro a ha
  cases ha

theorem holds_true (x : Except ε α) : Holds (fun _ => True) x := fun _ _ => trivial

theorem Holds.bind (hx : Holds P x) (hf : ∀ a, P a → Holds Q (f a)) : Holds Q (x >>= f) := by
  intro b hb
  obtain ⟨a, ha, hb⟩ := bind_eq_ok hb
  exact hf a (hx a ha) b hb

theorem Holds.map {f : α → β} (hx : Holds P x) (hf : ∀ a, P a → Q (f a)) : Holds Q (x.map f) := by
  cases x with
  | error e => exact holds_error e
  | ok a => exact holds_ok (hf a (hx a rfl))

theorem Holds.mapError {f : ε → ε} (hx : Holds P x) : Holds P (x.mapError f) := by
  cases x with
  | error e => exact holds_error _
  | ok a => exact hx

end Except
