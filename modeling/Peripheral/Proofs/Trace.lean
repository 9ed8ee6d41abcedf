import Mathlib.Data.List.Forall2

/-!
# Two runs side by side

A machine takes one input after the other; its trace says of each turn what came in, what was given back and what state the
machine was in afterwards. Two runs that start from related states and take related inputs are related turn by turn, as soon
as a single turn keeps them so (`forall₂_trace`).
-/

namespace Peripheral

/-- One turn of a machine. -/
structure Trace.Entry (α β σ : Type) where
  input : α
  output : β
  after : σ

variable {α β σ : Type}

/-- The turns of a machine that takes inputs one after the other. -/
def trace (step : σ → α → β × σ) : σ → List α → List (Trace.Entry α β σ)
  | _, [] => []
  | s, a :: rest => ⟨a, (step s a).1, (step s a).2⟩ :: trace step (step s a).2 rest

/-- What one turn keeps of two runs, all turns keep: the states stay related by `R`, and what is given back for inputs related
by `A` is related by `Q`. -/
theorem forall₂_trace {step : σ → α → β × σ} {R : σ → σ → Prop} {A : α → α → Prop} {Q : α → α → β → β → Prop}
    (turn : ∀ {s t a b}, R s t → A a b → Q a b (step s a).1 (step t b).1 ∧ R (step s a).2 (step t b).2)
    {s t : σ} {as bs : List α} (h : R s t) (hs : List.Forall₂ A as bs) :
    List.Forall₂ (fun x y => Q x.input y.input x.output y.output ∧ R x.after y.after) (trace step s as)
      (trace step t bs) := by
  induction hs generalizing s t with
  | nil => exact .nil
  | cons hab _ ih =>
    obtain ⟨hout, hafter⟩ := turn h hab
    exact .cons ⟨hout, hafter⟩ (ih hafter)

end Peripheral
