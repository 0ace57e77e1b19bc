/-
Runs of a system that takes one event after another.

A system is a function from a state and an event to the next state. A
run is built from events that each met a condition in the state they
happened in; what is asked of an event (that it is possible, that it
fails nothing, that it keeps to a rule) is a parameter, so that one
system serves several kinds of run. An invariant is proved for one
event and holds of whole runs (`Run.invariant`).
-/
import Mathlib.Data.List.Basic

namespace CacheOperator.Lib

/-- The states reached from `s` by events that met `P`. -/
inductive Run {σ ε : Type} (step : σ → ε → σ) (P : σ → ε → Prop)
    (s : σ) : σ → Prop
  | nil : Run step P s s
  | snoc {s' : σ} (h : Run step P s s') (e : ε) (he : P s' e) :
      Run step P s (step s' e)

/-- The events meet `P` one after the other. -/
def Meets {σ ε : Type} (step : σ → ε → σ) (P : σ → ε → Prop) :
    σ → List ε → Prop
  | _, [] => True
  | s, e :: es => P s e ∧ Meets step P (step s e) es

instance Meets.decidable {σ ε : Type} {step : σ → ε → σ}
    {P : σ → ε → Prop} [∀ s e, Decidable (P s e)] :
    (s : σ) → (es : List ε) → Decidable (Meets step P s es)
  | _, [] => isTrue trivial
  | s, e :: es =>
      have : Decidable (Meets step P (step s e) es) := Meets.decidable _ es
      inferInstanceAs (Decidable (P s e ∧ Meets step P (step s e) es))

/-- Some events and then some more. -/
theorem Meets.append {σ ε : Type} {step : σ → ε → σ} {P : σ → ε → Prop}
    {s : σ} {es es' : List ε} (h : Meets step P s (es ++ es')) :
    Meets step P s es ∧ Meets step P (es.foldl step s) es' := by
  induction es generalizing s with
  | nil => exact ⟨trivial, h⟩
  | cons e es ih =>
      obtain ⟨hes, hes'⟩ := ih h.2
      exact ⟨⟨h.1, hes⟩, hes'⟩

namespace Run

variable {σ ε : Type} {step : σ → ε → σ} {P : σ → ε → Prop} {s s' : σ}

/-- What every event keeps, every run keeps. -/
theorem invariant {I : σ → Prop} (hrun : Run step P s s')
    (hstep : ∀ s e, I s → P s e → I (step s e)) (hs : I s) : I s' := by
  induction hrun with
  | nil => exact hs
  | snoc _ e he ih => exact hstep _ e ih he

/-- A run goes on with a list of events. -/
theorem extend {es : List ε} (hrun : Run step P s s')
    (h : Meets step P s' es) : Run step P s (es.foldl step s') := by
  induction es generalizing s' with
  | nil => exact hrun
  | cons e es ih => exact ih (hrun.snoc e h.1) h.2

end Run

end CacheOperator.Lib
