/-
Servers whose readers look into the past.

A reader that goes through a cache sees the state of some earlier
moment, and two reads in a row may see two moments. The state kept here
is a `Timeline`: the present and every state before it. A read may be
answered from any of them; a write meets the present, is refused, or
takes effect with its answer lost.

An answer is true when it is the server's own from some moment of the
timeline, and what the call did there is a moment of it too (`Tells`).
Moments are never taken back, so an answer stays true. What else is
wanted of the states is a property `Φ` of each of them and an order
`moves` from every earlier one to the present (`Along`); if the calls
that the answers allow keep both, so does every interleaving
(`Timeline.informed_of_run`).
-/
import CacheOperator.Lib.Informed

namespace CacheOperator.Lib

/-- The present, and the states before it, newest first. -/
structure Timeline (σ : Type) where
  now : σ
  past : List σ

/-- What befalls a call. -/
inductive Recall where
  | served
  | refused
  | lost
  /-- A read is answered from the state that is `n` moments old. -/
  | stale (n : Nat)
deriving DecidableEq

namespace Timeline

variable {S : Sig} {σ ε α : Type}

/-- Every state there has been. -/
def moments (w : Timeline σ) : List σ := w.now :: w.past

/-- The next moment. -/
def moved (w : Timeline σ) (s : σ) : Timeline σ := ⟨s, w.now :: w.past⟩

/-- Something else happens. -/
def Elsewhere (env : σ → σ → Prop) (w w' : Timeline σ) : Prop :=
  env w.now w'.now ∧ w' = w.moved w'.now

variable (V : Server S σ) (reads : S.Req → Bool)

/-- How a call is answered. -/
def dispatch : Dispatch S (Timeline σ) Recall
  | .served, r, w => ((V.serve r w.now).1, w.moved (V.serve r w.now).2)
  | .refused, r, w => (V.refuse r, w)
  | .lost, r, w => (V.refuse r, w.moved (V.serve r w.now).2)
  | .stale n, r, w =>
      if reads r then ((V.serve r (w.past.getD n w.now)).1, w)
      else ((V.serve r w.now).1, w.moved (V.serve r w.now).2)

/-- The answer is a refusal, or the server's own from some moment. -/
def Tells (w : Timeline σ) (a : Answer S) : Prop :=
  a.resp = V.refuse a.req ∨ ∃ s ∈ w.moments,
    a.resp = (V.serve a.req s).1 ∧ (V.serve a.req s).2 ∈ w.moments

/-- All moments satisfy `Φ`, and all of them lead to the present. -/
structure Along (Φ : σ → Prop) (moves : σ → σ → Prop) (w : Timeline σ) :
    Prop where
  each : ∀ s ∈ w.moments, Φ s
  ordered : ∀ s ∈ w.moments, moves s w.now

variable {V reads} {w w' : Timeline σ} {Φ : σ → Prop}
  {moves : σ → σ → Prop} {a : Answer S} {s : σ}

theorem now_mem : w.now ∈ w.moments := List.mem_cons_self

theorem Along.start (hs : Φ s) (hrefl : moves s s) :
    (Timeline.mk s []).Along Φ moves := by
  refine ⟨?_, ?_⟩
  · intro s' hs'
    rw [List.mem_singleton.mp hs']
    exact hs
  · intro s' hs'
    rw [List.mem_singleton.mp hs']
    exact hrefl

theorem Along.present (h : w.Along Φ moves) : Φ w.now :=
  h.each _ now_mem

theorem Along.moved (h : w.Along Φ moves)
    (htrans : ∀ s₁ s₂ s₃, moves s₁ s₂ → moves s₂ s₃ → moves s₁ s₃)
    (hs : Φ s) (hm : moves w.now s) (hrefl : moves s s) :
    (w.moved s).Along Φ moves := by
  refine ⟨?_, ?_⟩
  · intro s' hs'
    rcases List.mem_cons.mp hs' with rfl | hs'
    · exact hs
    · exact h.each s' hs'
  · intro s' hs'
    rcases List.mem_cons.mp hs' with rfl | hs'
    · exact hrefl
    · exact htrans _ _ _ (h.ordered s' hs') hm

/-- Answers stay true. -/
theorem Tells.moved (h : w.Tells V a) : (w.moved s).Tells V a := by
  rcases h with h | ⟨s', hs', hresp, hafter⟩
  · exact Or.inl h
  · exact Or.inr ⟨s', List.mem_cons_of_mem _ hs', hresp,
      List.mem_cons_of_mem _ hafter⟩

theorem dispatch_stale_read {n : Nat} {r : S.Req} (hr : reads r = true) :
    dispatch V reads (.stale n) r w
      = ((V.serve r (w.past.getD n w.now)).1, w) :=
  if_pos hr

/-- Only reads are answered from the past. -/
theorem dispatch_stale_write {n : Nat} {r : S.Req} (hr : ¬reads r = true) :
    dispatch V reads (.stale n) r w = dispatch V reads .served r w :=
  if_neg hr

/-- The state after a call: it has not moved, or as the server moves
it. -/
theorem dispatch_state (x : Recall) (r : S.Req) (w : Timeline σ) :
    (dispatch V reads x r w).2 = w
      ∨ (dispatch V reads x r w).2 = w.moved (V.serve r w.now).2 := by
  cases x with
  | served => exact Or.inr rfl
  | refused => exact Or.inl rfl
  | lost => exact Or.inr rfl
  | stale n =>
      by_cases hr : reads r = true
      · rw [dispatch_stale_read hr]
        exact Or.inl rfl
      · rw [dispatch_stale_write hr]
        exact Or.inr rfl

/-- Every answer is true when it is given. -/
theorem dispatch_tells (hreads : ∀ r s, reads r = true →
      (V.serve r s).2 = s) (x : Recall) (r : S.Req) (w : Timeline σ) :
    (dispatch V reads x r w).2.Tells V
      ⟨r, (dispatch V reads x r w).1⟩ := by
  have hserved : (w.moved (V.serve r w.now).2).Tells V
      ⟨r, (V.serve r w.now).1⟩ :=
    Or.inr ⟨w.now, List.mem_cons_of_mem _ now_mem, rfl, now_mem⟩
  cases x with
  | served => exact hserved
  | refused => exact Or.inl rfl
  | lost => exact Or.inl rfl
  | stale n =>
      by_cases hr : reads r = true
      · rw [dispatch_stale_read hr]
        have hmem : w.past.getD n w.now ∈ w.moments := by
          rw [List.getD_eq_getElem?_getD]
          cases hn : w.past[n]? with
          | none => exact now_mem
          | some s => exact List.mem_cons_of_mem _ (List.mem_of_getElem? hn)
        refine Or.inr ⟨_, hmem, rfl, ?_⟩
        show (V.serve r _).2 ∈ w.moments
        rw [hreads r _ hr]
        exact hmem
      · rw [dispatch_stale_write hr]
        exact hserved

/-- An execution under a plan of failures is a run in which one program
takes all the turns. -/
theorem turns_of_exec {env : Timeline σ → Timeline σ → Prop} (i : Nat)
    {p : Prog S ε α} (fs : List Fault) {c : Crew S (Timeline σ) ε α}
    (hp : (c.procs i).rest = p) :
    ∃ ts : List (Turn (Timeline σ) Recall),
      Meets (Crew.step (dispatch V reads))
        (Crew.Allows (dispatch V reads) (fun _ _ _ => True) env) c ts
      ∧ (ts.foldl (Crew.step (dispatch V reads)) c).state.now
        = (p.exec V fs c.state.now).state := by
  induction p generalizing fs c with
  | ret a => exact ⟨[], trivial, rfl⟩
  | fail e => exact ⟨[], trivial, rfl⟩
  | call r k ih =>
      -- one turn, and the rest of the program goes on from there
      have hturn : ∀ x : Recall, ∃ ts : List (Turn (Timeline σ) Recall),
          Meets (Crew.step (dispatch V reads))
            (Crew.Allows (dispatch V reads) (fun _ _ _ => True) env) c ts
          ∧ (ts.foldl (Crew.step (dispatch V reads)) c).state.now
            = ((k (dispatch V reads x r c.state).1).exec V fs.tail
              (dispatch V reads x r c.state).2.now).state := by
        intro x
        obtain ⟨hrest, hstate⟩ :=
          Crew.step_call (D := dispatch V reads) (x := x) hp
        obtain ⟨ts, hmeets, hend⟩ := ih _ fs.tail hrest
        rw [hstate] at hend
        exact ⟨.call i x :: ts, ⟨Crew.allows_call, hmeets⟩, hend⟩
      unfold Prog.exec
      cases fs.headD .none with
      | none => exact hturn .served
      | refused => exact hturn .refused
      | lost => exact hturn .lost
      | crash => exact ⟨[], trivial, rfl⟩

/-- Programs that start together keep to what their answers allow, along
every run, if those calls keep `Φ` and go along `moves`. -/
theorem informed_of_run {env : σ → σ → Prop}
    {P : Nat → List (Answer S) → S.Req → Prop}
    {C : List (Answer S) → (r : S.Req) → S.Resp r → Prop}
    {c : Crew S (Timeline σ) ε α} {progs : Nat → Prog S ε α}
    (hreads : ∀ r s, reads r = true → (V.serve r s).2 = s)
    (htrans : ∀ s₁ s₂ s₃, moves s₁ s₂ → moves s₂ s₃ → moves s₁ s₃)
    (hrefl : ∀ s, Φ s → moves s s)
    (hserve : ∀ i g r (w : Timeline σ), w.Along Φ moves → P i g r →
      (∀ a ∈ g, w.Tells V a) →
      Φ (V.serve r w.now).2 ∧ moves w.now (V.serve r w.now).2)
    (henv : ∀ s s', Φ s → env s s' → Φ s' ∧ moves s s') (hs : Φ s)
    (hprogs : ∀ i, (progs i).Informed (P i) (fun _ _ => True) [])
    (hrun : Run (Crew.step (dispatch V reads))
      (Crew.Allows (dispatch V reads) C (Elsewhere env))
      ⟨fun i => ⟨progs i, []⟩, ⟨s, []⟩⟩ c) :
    c.Informed P (fun a w => w.Tells V a) (Along Φ moves) := by
  have hstart : Crew.Informed P (fun a w => Tells V w a) (Along Φ moves)
      (⟨fun i => ⟨progs i, []⟩, ⟨s, []⟩⟩ : Crew S (Timeline σ) ε α) :=
    ⟨.start hs (hrefl s hs), hprogs, fun _ _ => nofun⟩
  refine hstart.of_run ?_ ?_ hrun
  · intro i g r x w hw hP hg
    refine ⟨?_, dispatch_tells hreads x r w, fun a ha => ?_⟩
    · rcases dispatch_state x r w with hst | hst
      · rw [hst]
        exact hw
      · rw [hst]
        obtain ⟨hΦ, hm⟩ := hserve i g r w hw hP hg
        exact hw.moved htrans hΦ hm (hrefl _ hΦ)
    · rcases dispatch_state x r w with hst | hst
      · rw [hst]
        exact ha
      · rw [hst]
        exact ha.moved
  · intro w w' hw he
    obtain ⟨hΦ, hm⟩ := henv _ _ hw.present he.1
    rw [he.2]
    exact ⟨hw.moved htrans hΦ hm (hrefl _ hΦ), fun a ha => ha.moved⟩

end Timeline

end CacheOperator.Lib
