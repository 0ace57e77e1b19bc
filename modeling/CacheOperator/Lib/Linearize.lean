/-
Requests that are served side by side.

# The system

Every request is a program over the calls of one shared object. It is
invoked, makes its calls in between the calls of the others, and returns;
all the while something else may happen to the object. The invocations
and the returns are the history of a run.

# The property

A list of acts (requests served whole, one after the other, and whatever
else happened) explains a history if it can be carried out from the first
state to the last with the answers that were given, has every request
that has returned and none twice, and keeps the order of time: a request
that had returned when another one was invoked comes before that one
(`Linearizes`).

# The rule

A request that makes at most one call is served as a whole at that call,
and at its invocation if it makes none. So every run of such requests has
an explanation (`linearizes_of_run`).
-/
import CacheOperator.Lib.Prog
import CacheOperator.Lib.Run

namespace CacheOperator.Lib

/-- The program makes at most one call, and does not fail. -/
def Prog.Single {S : Sig} {ε α : Type} : Prog S ε α → Prop
  | .ret _ => True
  | .fail _ => False
  | .call _ k => ∀ x, ∃ a, k x = .ret a

/-- What can be seen of a request from outside. -/
inductive Mark (ρ α : Type) where
  | invoked (i : Nat) (r : ρ)
  | returned (i : Nat) (a : α)

/-- The request that was invoked. -/
def Mark.invokes? {ρ α : Type} : Mark ρ α → Option Nat
  | .invoked i _ => some i
  | .returned _ _ => none

/-- What happens when nothing happens at the same time. -/
inductive Act (ρ α η : Type) where
  | served (i : Nat) (r : ρ) (a : α)
  | other (e : η)

/-- The request that was served. -/
def Act.id? {ρ α η : Type} : Act ρ α η → Option Nat
  | .served i _ _ => some i
  | .other _ => none

/-- Requests on their way, at one object. The history is newest first. -/
structure Threads (S : Sig) (σ ρ ε α : Type) where
  state : σ
  running : Nat → Option (Prog S ε α)
  history : List (Mark ρ α)

inductive ThreadEvent (ρ η : Type) where
  | invoke (i : Nat) (r : ρ)
  /-- The next call of a request. -/
  | turn (i : Nat)
  /-- A request that has come to its end is answered. -/
  | answer (i : Nat)
  | other (e : η)

section

variable {S : Sig} {σ ρ ε α η : Type} (V : Server S σ)
  (prog : ρ → Prog S ε α) (spec : ρ → σ → α × σ) (other : η → σ → σ)

namespace Threads

def step (w : Threads S σ ρ ε α) : ThreadEvent ρ η → Threads S σ ρ ε α
  | .invoke i r =>
      { w with
        running := Function.update w.running i (some (prog r))
        history := .invoked i r :: w.history }
  | .turn i =>
      match w.running i with
      | some (.call r k) =>
          { w with
            state := (V.serve r w.state).2
            running := Function.update w.running i
              (some (k (V.serve r w.state).1)) }
      | _ => w
  | .answer i =>
      match w.running i with
      | some (.ret a) =>
          { w with
            running := Function.update w.running i none
            history := .returned i a :: w.history }
      | _ => w
  | .other e => { w with state := other e w.state }

/-- A number is given to one request only. -/
def Possible (w : Threads S σ ρ ε α) : ThreadEvent ρ η → Prop
  | .invoke i _ => ∀ m ∈ w.history, m.invokes? ≠ some i
  | _ => True

instance (w : Threads S σ ρ ε α) :
    (e : ThreadEvent ρ η) → Decidable (w.Possible e)
  | .invoke i _ =>
      inferInstanceAs (Decidable (∀ m ∈ w.history, m.invokes? ≠ some i))
  | .turn _ => isTrue trivial
  | .answer _ => isTrue trivial
  | .other _ => isTrue trivial

end Threads

/-- The acts, newest first, lead from `s` to `s'`. -/
def Carries (s : σ) : List (Act ρ α η) → σ → Prop
  | [], s' => s' = s
  | .served _ r a :: acts, s' =>
      ∃ s₁, Carries s acts s₁ ∧ spec r s₁ = (a, s')
  | .other e :: acts, s' => ∃ s₁, Carries s acts s₁ ∧ other e s₁ = s'

/-- The acts explain the history. -/
structure Linearizes (s : σ) (history : List (Mark ρ α)) (s' : σ)
    (acts : List (Act ρ α η)) : Prop where
  carried : Carries spec other s acts s'
  once : (acts.filterMap Act.id?).Nodup
  invoked : ∀ i r a, .served i r a ∈ acts → .invoked i r ∈ history
  returned : ∀ i a, .returned i a ∈ history → ∃ r, .served i r a ∈ acts
  /-- Earlier is further back in both lists. -/
  ordered : ∀ i a j r,
    List.Sublist [.invoked j r, .returned i a] history →
      ∀ b, .served j r b ∈ acts →
        ∃ q, List.Sublist [.served j r b, .served i q a] acts

end

-- ======================================================== explanations

section

variable {S : Sig} {σ ρ ε α η : Type} {V : Server S σ}
  {prog : ρ → Prog S ε α} {spec : ρ → σ → α × σ} {other : η → σ → σ}
  {s s' : σ} {history : List (Mark ρ α)} {acts : List (Act ρ α η)}
  {i : Nat} {r : ρ} {a : α}

theorem mem_ids : i ∈ acts.filterMap Act.id?
    ↔ ∃ r a, .served i r a ∈ acts := by
  rw [List.mem_filterMap]
  constructor
  · intro ⟨act, hact, hid⟩
    cases act with
    | served j r a =>
        obtain rfl : j = i := Option.some.inj hid
        exact ⟨r, a, hact⟩
    | other e => cases hid
  · intro ⟨r, a, hact⟩
    exact ⟨_, hact, rfl⟩

namespace Linearizes

theorem nil : Linearizes spec other s [] s ([] : List (Act ρ α η)) where
  carried := rfl
  once := List.nodup_nil
  invoked _ _ _ h := by cases h
  returned _ _ h := by cases h
  ordered _ _ _ _ h := by cases h

/-- A request that was invoked is served now. -/
theorem serve (h : Linearizes spec other s history s' acts)
    (hinvoked : .invoked i r ∈ history)
    (hnew : i ∉ acts.filterMap Act.id?) :
    Linearizes spec other s history (spec r s').2
      (.served i r (spec r s').1 :: acts) where
  carried := ⟨s', h.carried, rfl⟩
  once := by
    rw [List.filterMap_cons_some (by rfl)]
    exact List.nodup_cons.mpr ⟨hnew, h.once⟩
  invoked j q b hb := by
    rcases List.mem_cons.mp hb with heq | hb
    · cases heq
      exact hinvoked
    · exact h.invoked j q b hb
  returned j b hb := by
    obtain ⟨q, hq⟩ := h.returned j b hb
    exact ⟨q, List.mem_cons_of_mem _ hq⟩
  ordered j b k q hsub c hc := by
    rcases List.mem_cons.mp hc with heq | hc
    · -- whoever has returned was served before
      have hmem : .returned j b ∈ history := hsub.subset (by simp)
      obtain ⟨q', hq'⟩ := h.returned j b hmem
      refine ⟨q', ?_⟩
      rw [heq]
      exact List.cons_sublist_cons.mpr (List.singleton_sublist.mpr hq')
    · obtain ⟨q', hq'⟩ := h.ordered j b k q hsub c hc
      exact ⟨q', hq'.cons _⟩

theorem happen (h : Linearizes spec other s history s' acts) (e : η) :
    Linearizes spec other s history (other e s') (.other e :: acts) where
  carried := ⟨s', h.carried, rfl⟩
  once := by
    rw [List.filterMap_cons_none (by rfl)]
    exact h.once
  invoked j q b hb := by
    rcases List.mem_cons.mp hb with heq | hb
    · cases heq
    · exact h.invoked j q b hb
  returned j b hb := by
    obtain ⟨q, hq⟩ := h.returned j b hb
    exact ⟨q, List.mem_cons_of_mem _ hq⟩
  ordered j b k q hsub c hc := by
    rcases List.mem_cons.mp hc with heq | hc
    · cases heq
    · obtain ⟨q', hq'⟩ := h.ordered j b k q hsub c hc
      exact ⟨q', hq'.cons _⟩

/-- An invocation that has not been served asks for nothing yet. -/
theorem invoke (h : Linearizes spec other s history s' acts)
    (hnew : ∀ q, .invoked i q ∉ history) (r : ρ) :
    Linearizes spec other s (.invoked i r :: history) s' acts where
  carried := h.carried
  once := h.once
  invoked j q b hb := List.mem_cons_of_mem _ (h.invoked j q b hb)
  returned j b hb := by
    rcases List.mem_cons.mp hb with heq | hb
    · cases heq
    · exact h.returned j b hb
  ordered j b k q hsub c hc := by
    rcases List.sublist_cons_iff.mp hsub with hsub | ⟨l, heq, -⟩
    · exact h.ordered j b k q hsub c hc
    · cases heq
      exact absurd (h.invoked i r c hc) (hnew r)

/-- A request that was served returns with its answer. -/
theorem answer (h : Linearizes spec other s history s' acts)
    (hserved : .served i r a ∈ acts) :
    Linearizes spec other s (.returned i a :: history) s' acts where
  carried := h.carried
  once := h.once
  invoked j q b hb := List.mem_cons_of_mem _ (h.invoked j q b hb)
  returned j b hb := by
    rcases List.mem_cons.mp hb with heq | hb
    · cases heq
      exact ⟨r, hserved⟩
    · exact h.returned j b hb
  ordered j b k q hsub c hc := by
    rcases List.sublist_cons_iff.mp hsub with hsub | ⟨l, heq, -⟩
    · exact h.ordered j b k q hsub c hc
    · cases heq

end Linearizes

-- ================================================================ runs

/-- Where a request on its way is: it has been served, and all that is
left is its answer; or all of it is left. -/
def Pending (prog : ρ → Prog S ε α) (history : List (Mark ρ α))
    (acts : List (Act ρ α η)) (i : Nat) (p : Prog S ε α) : Prop :=
  ∃ r, .invoked i r ∈ history
    ∧ ((∃ a, p = .ret a ∧ .served i r a ∈ acts)
      ∨ (∃ q k, p = .call q k) ∧ p = prog r
        ∧ i ∉ acts.filterMap Act.id?)

/-- The acts explain what has happened so far. -/
structure Explained (prog : ρ → Prog S ε α) (spec : ρ → σ → α × σ)
    (other : η → σ → σ) (s : σ) (w : Threads S σ ρ ε α)
    (acts : List (Act ρ α η)) : Prop where
  history : Linearizes spec other s w.history w.state acts
  pending : ∀ i p, w.running i = some p →
    Pending prog w.history acts i p

variable {w w' : Threads S σ ρ ε α}

theorem Pending.mark {p : Prog S ε α} (h : Pending prog history acts i p)
    (m : Mark ρ α) : Pending prog (m :: history) acts i p := by
  obtain ⟨r, hr, h⟩ := h
  exact ⟨r, List.mem_cons_of_mem _ hr, h⟩

/-- Another act leaves a request where it is. -/
theorem Pending.act {p : Prog S ε α} (h : Pending prog history acts i p)
    {act : Act ρ α η} (hact : act.id? ≠ some i) :
    Pending prog history (act :: acts) i p := by
  obtain ⟨r, hr, ⟨a, hp, ha⟩ | ⟨hcall, hp, hnew⟩⟩ := h
  · exact ⟨r, hr, Or.inl ⟨a, hp, List.mem_cons_of_mem _ ha⟩⟩
  · refine ⟨r, hr, Or.inr ⟨hcall, hp, ?_⟩⟩
    cases hid : act.id? with
    | none => rwa [List.filterMap_cons_none hid]
    | some j =>
        rw [List.filterMap_cons_some hid]
        intro hmem
        rcases List.mem_cons.mp hmem with rfl | hmem
        · exact hact hid
        · exact hnew hmem

/-- Every request makes at most one call, and alone it does what the
specification says. -/
def Atomically (V : Server S σ) (prog : ρ → Prog S ε α)
    (spec : ρ → σ → α × σ) : Prop :=
  ∀ r, (prog r).Single
    ∧ ∀ s, (prog r).run V s = (.ok (spec r s).1, (spec r s).2)

/-- One program is replaced, and the others stay where they were. -/
theorem forall_update {P : Nat → Prog S ε α → Prop}
    {running : Nat → Option (Prog S ε α)} {new : Option (Prog S ε α)}
    (hnew : ∀ p, new = some p → P i p)
    (hold : ∀ j p, j ≠ i → running j = some p → P j p) (j : Nat)
    (p : Prog S ε α) (hp : Function.update running i new j = some p) :
    P j p := by
  by_cases hji : j = i
  · subst hji
    rw [Function.update_self] at hp
    exact hnew p hp
  · rw [Function.update_of_ne hji] at hp
    exact hold j p hji hp

theorem served_id_ne {j : Nat} (hji : j ≠ i) :
    (Act.served i r a : Act ρ α η).id? ≠ some j := by
  intro heq
  exact hji (Option.some.inj heq).symm

theorem Explained.invoke (hprog : Atomically V prog spec)
    (h : Explained prog spec other s w acts)
    (hnew : ∀ q, .invoked i q ∉ w.history) (r : ρ) :
    ∃ acts', Explained prog spec other s
      (w.step V prog other (.invoke i r)) acts' := by
  have hids : i ∉ acts.filterMap Act.id? := by
    intro hmem
    obtain ⟨q, a, hq⟩ := mem_ids.mp hmem
    exact hnew q (h.history.invoked i q a hq)
  have hmarked := h.history.invoke hnew r
  obtain ⟨hsingle, hrun⟩ := hprog r
  cases hp : prog r with
  | fail e =>
      rw [hp] at hsingle
      cases hsingle
  | ret a =>
      -- without a call it is served right here
      have hspec := hrun w.state
      rw [hp, Prog.run_ret, Prod.mk.injEq, Except.ok.injEq] at hspec
      have hserved := hmarked.serve List.mem_cons_self hids
      rw [← hspec.1, ← hspec.2] at hserved
      refine ⟨_, hserved, forall_update ?_ ?_⟩
      · intro p hret
        rw [hp] at hret
        cases hret
        exact ⟨r, List.mem_cons_self, Or.inl ⟨a, rfl, List.mem_cons_self⟩⟩
      · intro j p hji hj
        exact ((h.pending j p hj).act (served_id_ne hji)).mark _
  | call q k =>
      refine ⟨acts, hmarked, forall_update ?_ ?_⟩
      · intro p hcall
        cases hcall
        exact ⟨r, List.mem_cons_self, Or.inr ⟨⟨q, k, hp⟩, rfl, hids⟩⟩
      · intro j p _ hj
        exact (h.pending j p hj).mark _

/-- The one call of a request is where it is served. -/
theorem Explained.turn (hprog : Atomically V prog spec)
    (h : Explained prog spec other s w acts) (i : Nat) :
    ∃ acts', Explained prog spec other s
      (w.step V prog other (.turn i)) acts' := by
  unfold Threads.step
  dsimp only
  split
  swap
  · exact ⟨acts, h⟩
  next q k hp =>
  obtain ⟨r, hr, ⟨a, hret, -⟩ | ⟨-, hcall, hids⟩⟩ := h.pending i _ hp
  · cases hret
  obtain ⟨hsingle, hrun⟩ := hprog r
  rw [← hcall] at hsingle hrun
  obtain ⟨a, ha⟩ := hsingle (V.serve q w.state).1
  have hspec := hrun w.state
  rw [Prog.run_call, ha, Prog.run_ret, Prod.mk.injEq, Except.ok.injEq]
    at hspec
  have hserved := h.history.serve hr hids
  rw [← hspec.1, ← hspec.2] at hserved
  refine ⟨_, hserved, forall_update ?_ ?_⟩
  · intro p hret
    rw [ha] at hret
    cases hret
    exact ⟨r, hr, Or.inl ⟨a, rfl, List.mem_cons_self⟩⟩
  · intro j p hji hj
    exact (h.pending j p hj).act (served_id_ne hji)

theorem Explained.answer (h : Explained prog spec other s w acts)
    (i : Nat) :
    Explained prog spec other s (w.step V prog other (.answer i)) acts := by
  unfold Threads.step
  dsimp only
  split
  swap
  · exact h
  next a hp =>
  obtain ⟨r, -, ⟨b, hret, hb⟩ | ⟨⟨q, k, hcall⟩, -⟩⟩ := h.pending i _ hp
  · cases hret
    refine ⟨h.history.answer hb, forall_update ?_ ?_⟩
    · intro p hnone
      cases hnone
    · intro j p _ hj
      exact (h.pending j p hj).mark _
  · cases hcall

theorem Explained.happen (h : Explained prog spec other s w acts) (e : η) :
    Explained prog spec other s (w.step V prog other (.other e))
      (.other e :: acts) := by
  refine ⟨h.history.happen e, fun j p hj => ?_⟩
  refine (h.pending j p hj).act ?_
  intro heq
  cases heq

/-- Whatever was going on at the same time, the requests were served one
after the other. -/
theorem linearizes_of_run (hprog : Atomically V prog spec)
    (hrun : Run (Threads.step V prog other) Threads.Possible
      ⟨s, fun _ => none, []⟩ w) :
    ∃ acts, Linearizes spec other s w.history w.state acts := by
  have hexplained : ∃ acts, Explained prog spec other s w acts := by
    refine hrun.invariant
      (I := fun w => ∃ acts, Explained prog spec other s w acts)
      (fun w e h he => ?_) ⟨[], .nil, ?_⟩
    · obtain ⟨acts, h⟩ := h
      cases e with
      | invoke i r => exact h.invoke hprog (fun q hq => he _ hq rfl) r
      | turn i => exact h.turn hprog i
      | answer i => exact ⟨acts, h.answer i⟩
      | other e => exact ⟨_, h.happen e⟩
    · intro i p hp
      cases hp
  obtain ⟨acts, h⟩ := hexplained
  exact ⟨acts, h.history⟩

end

end CacheOperator.Lib
