/-
Loops that ask to be called again until something is over.

A loop is called, looks at what it waits for, and names the moment from
which it may be called again. It is not called otherwise, and nobody says
how much later the call comes. What it waits for began at some moment,
and a look that comes `limit` after it finds it over, or finds that it is
somebody else's turn (`handed`).

Each look that finds the wait going on asks for the next one a `period`
later, so the number of looks is bounded by the limit (`Looked.ends`).
-/
import CacheOperator.Lib.Run
import Mathlib.Tactic.Linarith

namespace CacheOperator.Lib

structure Poll (σ ε : Type) where
  step : σ → ε → σ
  /-- The moment of a call. -/
  clock : ε → Int
  /-- The calls in which nothing goes wrong. -/
  calm : ε → Prop
  /-- From when on the loop may be called again. -/
  due : σ → Option Int
  period : Int
  limit : Int
  ended : σ → Prop
  /-- The wait goes on, since this moment. -/
  waits : Int → σ → Prop
  /-- The rest is up to somebody else. -/
  handed : σ → Prop
  period_nonneg : 0 ≤ period
  ended_step : ∀ s e, calm e → ended s → ended (step s e)
  waits_step : ∀ t s e, calm e → waits t s →
    ended (step s e) ∨ waits t (step s e)
      ∧ due (step s e) = some (clock e + period)
  late_step : ∀ t s e, calm e → waits t s → limit ≤ clock e - t →
    ended (step s e) ∨ handed (step s e)

namespace Poll

variable {σ ε : Type}

/-- The call comes when it was asked for. -/
def Due (P : Poll σ ε) (s : σ) (e : ε) : Prop :=
  ∃ d, P.due s = some d ∧ d ≤ P.clock e

/-- After `n` looks: the wait is over, or the next look is to come `n`
periods after its begin; and the last one came within the limit, if it is
not somebody else's turn. -/
def Looked (P : Poll σ ε) (n : Nat) (s : σ) : Prop :=
  P.ended s ∨ ∃ t d, P.waits t s ∧ P.due s = some d
    ∧ t + P.period * n ≤ d
    ∧ (n ≤ 1 ∨ P.period * (n - 1) < P.limit ∨ P.handed s)

variable {P : Poll σ ε} {s : σ} {e : ε} {n : Nat}

/-- The look with which the wait begins. -/
theorem looked_first (h : P.ended s ∨ P.waits (P.clock e) s
      ∧ P.due s = some (P.clock e + P.period)) :
    P.Looked 1 s := by
  refine h.imp_right fun hwait => ?_
  refine ⟨P.clock e, P.clock e + P.period, hwait.1, hwait.2, ?_,
    Or.inl (Nat.le_refl 1)⟩
  rw [Nat.cast_one, mul_one]

namespace Looked

theorem next (h : P.Looked (n + 1) s) (hdue : P.Due s e)
    (hcalm : P.calm e) : P.Looked (n + 2) (P.step s e) := by
  rcases h with hended | ⟨t, d, hwaits, hd, hbegin, -⟩
  · exact Or.inl (P.ended_step s e hcalm hended)
  obtain ⟨d', hd', hle⟩ := hdue
  cases hd.symm.trans hd'
  rcases P.waits_step t s e hcalm hwaits with hended | ⟨hwaits', hd''⟩
  · exact Or.inl hended
  push_cast at hbegin
  have hnext : t + P.period * (n + 2 : Nat) ≤ P.clock e + P.period := by
    push_cast
    linarith
  by_cases hlate : P.limit ≤ P.clock e - t
  · refine (P.late_step t s e hcalm hwaits hlate).imp_right ?_
    intro hhanded
    exact ⟨t, _, hwaits', hd'', hnext, Or.inr (Or.inr hhanded)⟩
  · refine Or.inr ⟨t, _, hwaits', hd'', hnext, Or.inr (Or.inl ?_)⟩
    push_cast
    linarith

theorem many (es : List ε) (h : P.Looked (n + 1) s)
    (hdue : Meets P.step P.Due s es) (hcalm : ∀ e ∈ es, P.calm e) :
    P.Looked (n + 1 + es.length) (es.foldl P.step s) := by
  induction es generalizing s n with
  | nil => exact h
  | cons e es ih =>
      have hnext := h.next hdue.1 (hcalm e List.mem_cons_self)
      have hrest := ih hnext hdue.2
        fun e' he' => hcalm e' (List.mem_cons_of_mem e he')
      rw [show n + 1 + 1 + es.length = n + 1 + (es.length + 1) by omega]
        at hrest
      exact hrest

/-- A look more than was counted does no harm. -/
theorem fewer (h : P.Looked (n + 2) s) : P.Looked (n + 1) s := by
  rcases h with hended | ⟨t, d, hwaits, hd, hbegin, hlast⟩
  · exact Or.inl hended
  have hperiod := P.period_nonneg
  refine Or.inr ⟨t, d, hwaits, hd, ?_, ?_⟩
  · push_cast at hbegin ⊢
    linarith
  · rcases hlast with hfew | hlast | hhanded
    · omega
    · refine Or.inr (Or.inl ?_)
      push_cast at hlast ⊢
      linarith
    · exact Or.inr (Or.inr hhanded)

/-- The wait is over, or the loop will be called again; and then it is
not long, or somebody else's turn. -/
theorem ends (h : P.Looked n s) :
    P.ended s ∨ (P.due s).isSome = true
      ∧ (n ≤ 1 ∨ P.period * (n - 1) < P.limit ∨ P.handed s) := by
  refine h.imp_right ?_
  intro ⟨t, d, _, hd, _, hlast⟩
  rw [hd]
  exact ⟨rfl, hlast⟩

end Looked

end Poll

end CacheOperator.Lib
