/-
Programs that talk to a server, one call at a time.

# The shape

A program (`Prog`) is a tree: it returns, it fails with an error value,
or it makes a call and continues with the reply. Nothing is said about
the server at this point, so one tree serves every execution this
development needs: the undisturbed run (`run`), the run under a plan of
failures (`exec`), and the interleaved run of several programs
(`Lib/Interleave.lean`).

# Failures

`exec` consumes a plan with one `Fault` per call. A refused call has no
effect and is answered with the server's refusal; a lost one takes
effect but is answered with the same refusal; a crash ends the program
at that call, with everything it has done so far in place. A plan that
is used up injects nothing more, so the empty plan is the undisturbed
run (`exec_nil`).

# What the proofs use

`exec_bind` splits a sequence; `Uses` states which calls a program can
make whatever it is answered, and `exec_frame` turns that into a frame
rule: what no used call can change, no execution changes, under any
plan.
-/
import Mathlib.Data.List.Basic

namespace CacheOperator.Lib

/-- The calls a server understands, with the type of the reply to each. -/
structure Sig where
  Req : Type
  Resp : Req → Type

/-- A program over the calls of `S` that returns an `α` or fails with
an `ε`. -/
inductive Prog (S : Sig) (ε α : Type) : Type where
  | ret (a : α)
  | fail (e : ε)
  | call (r : S.Req) (k : S.Resp r → Prog S ε α)

namespace Prog

variable {S : Sig} {ε α β : Type}

/-- Sequencing; a failure skips what follows. -/
def bind : Prog S ε α → (α → Prog S ε β) → Prog S ε β
  | .ret a, f => f a
  | .fail e, _ => .fail e
  | .call r k, f => .call r fun x => (k x).bind f

instance : Monad (Prog S ε) where
  pure := .ret
  bind := bind

/-- Run `p` and hand its failure to the caller as a value. -/
def attempt : Prog S ε α → Prog S ε (Except ε α)
  | .ret a => .ret (.ok a)
  | .fail e => .ret (.error e)
  | .call r k => .call r fun x => (k x).attempt

theorem pure_eq (a : α) : (pure a : Prog S ε α) = .ret a := rfl

@[simp] theorem ret_bind (a : α) (f : α → Prog S ε β) :
    (Prog.ret a : Prog S ε α) >>= f = f a := rfl

@[simp] theorem fail_bind (e : ε) (f : α → Prog S ε β) :
    (Prog.fail e : Prog S ε α) >>= f = .fail e := rfl

@[simp] theorem call_bind (r : S.Req) (k : S.Resp r → Prog S ε α)
    (f : α → Prog S ε β) :
    Prog.call r k >>= f = .call r fun x => k x >>= f := rfl

end Prog

-- ============================================================ servers

/-- A server with states `σ`: how it answers a call, and what it answers
when it turns one down. -/
structure Server (S : Sig) (σ : Type) where
  serve : (r : S.Req) → σ → S.Resp r × σ
  refuse : (r : S.Req) → S.Resp r

/-- What befalls one call. -/
inductive Fault where
  /-- The call is served. -/
  | none
  /-- The call has no effect and is answered with a refusal. -/
  | refused
  /-- The call takes effect but is answered with a refusal. -/
  | lost
  /-- The program dies before the call. -/
  | crash
deriving DecidableEq, Repr

/-- One call of an execution, with the states around it. -/
structure Entry (S : Sig) (σ : Type) where
  req : S.Req
  resp : S.Resp req
  before : σ
  after : σ
  /-- The reply was a refusal the server did not decide on. -/
  failed : Bool

/-- The call as it looks through a map of the states. -/
def Entry.map {S : Sig} {σ τ : Type} (f : σ → τ) (e : Entry S σ) :
    Entry S τ :=
  ⟨e.req, e.resp, f e.before, f e.after, e.failed⟩

/-- How a program ends. -/
inductive Result (ε α : Type) where
  | ok (a : α)
  | error (e : ε)
  | crashed
deriving DecidableEq

instance {ε α : Type} (r : Result ε α) : Decidable (∃ a, r = .ok a) :=
  match r with
  | .ok a => isTrue ⟨a, rfl⟩
  | .error _ => isFalse nofun
  | .crashed => isFalse nofun

/-- An execution: how it ended, the state it left, the rest of the plan
and the calls that were made. -/
structure Outcome (S : Sig) (σ ε α : Type) where
  result : Result ε α
  state : σ
  faults : List Fault
  trace : List (Entry S σ)

namespace Outcome

variable {S : Sig} {σ ε α β : Type}

/-- The outcome of a program that made one more call first. -/
def after (e : Entry S σ) (o : Outcome S σ ε α) : Outcome S σ ε α :=
  { o with trace := e :: o.trace }

/-- Continue a finished execution, unless it failed or crashed. -/
def andThen (o : Outcome S σ ε α)
    (g : α → List Fault → σ → Outcome S σ ε β) : Outcome S σ ε β :=
  match o.result with
  | .ok a =>
      let o' := g a o.faults o.state
      { o' with trace := o.trace ++ o'.trace }
  | .error e => ⟨.error e, o.state, o.faults, o.trace⟩
  | .crashed => ⟨.crashed, o.state, o.faults, o.trace⟩

end Outcome

namespace Prog

variable {S : Sig} {σ ε α β : Type}

/-- Execution under a plan of failures. -/
def exec (V : Server S σ) : Prog S ε α → List Fault → σ → Outcome S σ ε α
  | .ret a, fs, s => ⟨.ok a, s, fs, []⟩
  | .fail e, fs, s => ⟨.error e, s, fs, []⟩
  | .call r k, fs, s =>
      match fs.headD .none with
      | .none =>
          ((k (V.serve r s).1).exec V fs.tail (V.serve r s).2).after
            ⟨r, (V.serve r s).1, s, (V.serve r s).2, false⟩
      | .refused =>
          ((k (V.refuse r)).exec V fs.tail s).after
            ⟨r, V.refuse r, s, s, true⟩
      | .lost =>
          ((k (V.refuse r)).exec V fs.tail (V.serve r s).2).after
            ⟨r, V.refuse r, s, (V.serve r s).2, true⟩
      | .crash => ⟨.crashed, s, fs.tail, []⟩

/-- Undisturbed execution: every call is served. -/
def run (V : Server S σ) : Prog S ε α → σ → Except ε α × σ
  | .ret a, s => (.ok a, s)
  | .fail e, s => (.error e, s)
  | .call r k, s => (k (V.serve r s).1).run V (V.serve r s).2

-- ================================================== sequencing lemmas

variable (V : Server S σ)

/-- One call of an execution: it is the last thing before a crash, or it
gets a reply `x` and leaves a state `s'`, which are the server's, or the
refusal with the call's effect in place or not. -/
theorem exec_call_cases (r : S.Req) (k : S.Resp r → Prog S ε α)
    (fs : List Fault) (s : σ) :
    (Prog.call r k).exec V fs s = ⟨.crashed, s, fs.tail, []⟩ ∨
      ∃ x s' failed,
        (s' = (V.serve r s).2 ∨ s' = s)
        ∧ (failed = false → x = (V.serve r s).1 ∧ s' = (V.serve r s).2)
        ∧ (failed = true → x = V.refuse r)
        ∧ (Prog.call r k).exec V fs s
          = ((k x).exec V fs.tail s').after ⟨r, x, s, s', failed⟩ := by
  simp only [exec]
  cases fs.headD .none with
  | crash => exact Or.inl rfl
  | none =>
      exact Or.inr ⟨_, _, false, Or.inl rfl, fun _ => ⟨rfl, rfl⟩,
        by simp, rfl⟩
  | refused =>
      exact Or.inr ⟨_, _, true, Or.inr rfl, by simp, fun _ => rfl, rfl⟩
  | lost =>
      exact Or.inr ⟨_, _, true, Or.inl rfl, by simp, fun _ => rfl, rfl⟩

theorem exec_bind (p : Prog S ε α) (f : α → Prog S ε β)
    (fs : List Fault) (s : σ) :
    (p >>= f).exec V fs s
      = (p.exec V fs s).andThen fun a fs' s' => (f a).exec V fs' s' := by
  induction p generalizing fs s with
  | ret a => rfl
  | fail e => rfl
  | call r k ih =>
      rw [call_bind]
      simp only [exec]
      cases fs.headD .none with
      | crash => rfl
      | none =>
          simp only [ih, Outcome.after, Outcome.andThen]
          cases ((k (V.serve r s).1).exec V fs.tail (V.serve r s).2).result
            <;> rfl
      | refused =>
          simp only [ih, Outcome.after, Outcome.andThen]
          cases ((k (V.refuse r)).exec V fs.tail s).result <;> rfl
      | lost =>
          simp only [ih, Outcome.after, Outcome.andThen]
          cases ((k (V.refuse r)).exec V fs.tail (V.serve r s).2).result
            <;> rfl

theorem run_bind (p : Prog S ε α) (f : α → Prog S ε β) (s : σ) :
    (p >>= f).run V s
      = match p.run V s with
        | (.ok a, s') => (f a).run V s'
        | (.error e, s') => (.error e, s') := by
  induction p generalizing s with
  | ret a => rfl
  | fail e => rfl
  | call r k ih => exact ih _ _

@[simp] theorem run_ret (a : α) (s : σ) :
    (Prog.ret a : Prog S ε α).run V s = (.ok a, s) := rfl

@[simp] theorem run_pure (a : α) (s : σ) :
    (pure a : Prog S ε α).run V s = (.ok a, s) := rfl

@[simp] theorem run_fail (e : ε) (s : σ) :
    (Prog.fail e : Prog S ε α).run V s = (.error e, s) := rfl

@[simp] theorem run_call (r : S.Req) (k : S.Resp r → Prog S ε α) (s : σ) :
    (Prog.call r k).run V s
      = (k (V.serve r s).1).run V (V.serve r s).2 := rfl

@[simp] theorem run_attempt (p : Prog S ε α) (s : σ) :
    p.attempt.run V s = (.ok (p.run V s).1, (p.run V s).2) := by
  induction p generalizing s with
  | ret a => rfl
  | fail e => rfl
  | call r k ih => exact ih _ _


/-- The undisturbed run is the execution under the empty plan. -/
theorem exec_nil (p : Prog S ε α) (s : σ) :
    (p.exec V [] s).state = (p.run V s).2
      ∧ (p.exec V [] s).faults = []
      ∧ (p.exec V [] s).result
        = (match (p.run V s).1 with
          | .ok a => .ok a
          | .error e => .error e) := by
  induction p generalizing s with
  | ret a => exact ⟨rfl, rfl, rfl⟩
  | fail e => exact ⟨rfl, rfl, rfl⟩
  | call r k ih => exact ih _ _

/-- A failure handed over as a value is no failure any more; a crash
stays a crash. -/
theorem exec_attempt (p : Prog S ε α) (fs : List Fault) (s : σ) :
    p.attempt.exec V fs s
      = { p.exec V fs s with
          result := match (p.exec V fs s).result with
            | .ok a => .ok (.ok a)
            | .error e => .ok (.error e)
            | .crashed => .crashed } := by
  induction p generalizing fs s with
  | ret a => rfl
  | fail e => rfl
  | call r k ih =>
      simp only [attempt, exec]
      cases fs.headD .none with
      | crash => rfl
      | none => simp only [ih]; rfl
      | refused => simp only [ih]; rfl
      | lost => simp only [ih]; rfl

/-- What follows on a failure that was handed over runs where the failure
left off. -/
theorem exec_attempt_bind (p : Prog S ε α) (f : Except ε α → Prog S ε β)
    (fs : List Fault) (s : σ) {x : Except ε α}
    (h : (p.exec V fs s).result
      = match x with
        | .ok a => .ok a
        | .error e => .error e) :
    (p.attempt >>= f).exec V fs s
      = { (f x).exec V (p.exec V fs s).faults (p.exec V fs s).state with
          trace := (p.exec V fs s).trace
            ++ ((f x).exec V (p.exec V fs s).faults
                (p.exec V fs s).state).trace } := by
  rw [exec_bind, exec_attempt]
  cases x with
  | ok a => simp only [Outcome.andThen, h]
  | error e => simp only [Outcome.andThen, h]

-- ======================================================== the traces

/-- A call of a sequence is a call of its first part, or of the second
part started where the first one ended. -/
theorem mem_trace_bind {p : Prog S ε α} {f : α → Prog S ε β}
    {fs : List Fault} {s : σ} {e : Entry S σ} :
    e ∈ ((p >>= f).exec V fs s).trace ↔
      e ∈ (p.exec V fs s).trace ∨
        ∃ a, (p.exec V fs s).result = .ok a ∧
          e ∈ ((f a).exec V (p.exec V fs s).faults
            (p.exec V fs s).state).trace := by
  rw [exec_bind]
  simp only [Outcome.andThen]
  cases h : (p.exec V fs s).result with
  | ok a => simp
  | error e => simp
  | crashed => simp

/-- How a sequence can end: its first part stopped it, or its second
part ended so. -/
theorem exec_bind_cases (p : Prog S ε α) (f : α → Prog S ε β)
    (fs : List Fault) (s : σ) :
    (∃ a, (p.exec V fs s).result = .ok a
        ∧ ((p >>= f).exec V fs s).result
          = ((f a).exec V (p.exec V fs s).faults
              (p.exec V fs s).state).result
        ∧ ((p >>= f).exec V fs s).state
          = ((f a).exec V (p.exec V fs s).faults
              (p.exec V fs s).state).state)
      ∨ ((∀ a, (p.exec V fs s).result ≠ .ok a)
        ∧ (∀ b, ((p >>= f).exec V fs s).result ≠ .ok b)
        ∧ ((p >>= f).exec V fs s).state = (p.exec V fs s).state
        ∧ ((p >>= f).exec V fs s).trace = (p.exec V fs s).trace) := by
  rw [exec_bind]
  simp only [Outcome.andThen]
  cases h : (p.exec V fs s).result with
  | ok a => exact Or.inl ⟨a, rfl, rfl, rfl⟩
  | error e => exact Or.inr ⟨by simp, by simp, rfl, rfl⟩
  | crashed => exact Or.inr ⟨by simp, by simp, rfl, rfl⟩

/-- Every recorded call was served, or failed without effect. -/
theorem entry_effect {p : Prog S ε α} {fs : List Fault} {s : σ}
    {e : Entry S σ} (he : e ∈ (p.exec V fs s).trace) :
    e.after = (V.serve e.req e.before).2 ∨ e.after = e.before := by
  induction p generalizing fs s with
  | ret a => simp [exec] at he
  | fail x => simp [exec] at he
  | call r k ih =>
      obtain hc | ⟨x, s', failed, hs', -, -, hc⟩ :=
        exec_call_cases V r k fs s
      · rw [hc] at he
        simp at he
      · rw [hc] at he
        rcases List.mem_cons.mp he with rfl | he
        · exact hs'
        · exact ih _ he

/-- Every recorded reply is the server's, or its refusal. -/
theorem entry_resp {p : Prog S ε α} {fs : List Fault} {s : σ}
    {e : Entry S σ} (he : e ∈ (p.exec V fs s).trace) :
    e.resp = (V.serve e.req e.before).1 ∨ e.resp = V.refuse e.req := by
  induction p generalizing fs s with
  | ret a => simp [exec] at he
  | fail x => simp [exec] at he
  | call r k ih =>
      obtain hc | ⟨x, s', failed, -, hserved, hfailed, hc⟩ :=
        exec_call_cases V r k fs s
      · rw [hc] at he
        simp at he
      · rw [hc] at he
        rcases List.mem_cons.mp he with rfl | he
        · cases failed with
          | false => exact Or.inl (hserved rfl).1
          | true => exact Or.inr (hfailed rfl)
        · exact ih _ he

/-- What no call of an execution changes is the same all along it. -/
theorem view_of_trace {γ : Type} (view : σ → γ) {p : Prog S ε α}
    {fs : List Fault} {s : σ}
    (h : ∀ e ∈ (p.exec V fs s).trace, view e.after = view e.before) :
    view (p.exec V fs s).state = view s
      ∧ ∀ e ∈ (p.exec V fs s).trace, view e.before = view s := by
  induction p generalizing fs s with
  | ret a => exact ⟨rfl, by simp [exec]⟩
  | fail x => exact ⟨rfl, by simp [exec]⟩
  | call r k ih =>
      obtain hc | ⟨x, s', failed, -, -, -, hc⟩ :=
        exec_call_cases V r k fs s
      · rw [hc]
        exact ⟨rfl, by simp⟩
      · rw [hc] at h ⊢
        have hhead : view s' = view s := h _ List.mem_cons_self
        obtain ⟨hst, htr⟩ := ih x fun e he =>
          h e (List.mem_cons_of_mem _ he)
        rw [hhead] at hst htr
        refine ⟨hst, fun e he => ?_⟩
        rcases List.mem_cons.mp he with rfl | he
        · rfl
        · exact htr e he

-- ==================================================== the frame rule

/-- Every call the program can make, whatever it is answered, satisfies
`P`. -/
def Uses (P : S.Req → Prop) : Prog S ε α → Prop
  | .ret _ => True
  | .fail _ => True
  | .call r k => P r ∧ ∀ x, (k x).Uses P

variable {V} {P Q : S.Req → Prop}

theorem Uses.mono (h : ∀ r, P r → Q r) {p : Prog S ε α} (hp : p.Uses P) :
    p.Uses Q := by
  induction p with
  | ret a => trivial
  | fail e => trivial
  | call r k ih => exact ⟨h r hp.1, fun x => ih x (hp.2 x)⟩

theorem Uses.bind {p : Prog S ε α} {f : α → Prog S ε β}
    (hp : p.Uses P) (hf : ∀ a, (f a).Uses P) : (p >>= f).Uses P := by
  induction p with
  | ret a => exact hf a
  | fail e => trivial
  | call r k ih => exact ⟨hp.1, fun x => ih x (hp.2 x)⟩

theorem Uses.attempt {p : Prog S ε α} (hp : p.Uses P) :
    p.attempt.Uses P := by
  induction p with
  | ret a => trivial
  | fail e => trivial
  | call r k ih => exact ⟨hp.1, fun x => ih x (hp.2 x)⟩

/-- The recorded calls are among the calls the program can make. -/
theorem Uses.trace {p : Prog S ε α} (hp : p.Uses P) {fs : List Fault}
    {s : σ} {e : Entry S σ} (he : e ∈ (p.exec V fs s).trace) :
    P e.req := by
  induction p generalizing fs s with
  | ret a => simp [exec] at he
  | fail x => simp [exec] at he
  | call r k ih =>
      obtain hc | ⟨x, s', failed, -, -, -, hc⟩ :=
        exec_call_cases V r k fs s
      · rw [hc] at he
        simp at he
      · rw [hc] at he
        rcases List.mem_cons.mp he with rfl | he
        · exact hp.1
        · exact ih _ (hp.2 _) he

/-- What no used call can change, no execution changes: neither its end
state nor any state it passes through. -/
theorem exec_frame {γ : Type} {view : σ → γ}
    (hP : ∀ r s, P r → view (V.serve r s).2 = view s)
    {p : Prog S ε α} (hp : p.Uses P) (fs : List Fault) (s : σ) :
    view (p.exec V fs s).state = view s
      ∧ ∀ e ∈ (p.exec V fs s).trace,
        view e.before = view s ∧ view e.after = view s := by
  induction p generalizing fs s with
  | ret a => exact ⟨rfl, by simp [exec]⟩
  | fail x => exact ⟨rfl, by simp [exec]⟩
  | call r k ih =>
      obtain hc | ⟨x, s', failed, hs', -, -, hc⟩ :=
        exec_call_cases V r k fs s
      · rw [hc]
        exact ⟨rfl, by simp⟩
      · have hview : view s' = view s := by
          rcases hs' with rfl | rfl
          · exact hP r s hp.1
          · rfl
        obtain ⟨hst, htr⟩ := ih x (hp.2 x) fs.tail s'
        rw [hview] at hst htr
        rw [hc]
        refine ⟨hst, fun e he => ?_⟩
        rcases List.mem_cons.mp he with rfl | he
        · exact ⟨rfl, hview⟩
        · exact htr e he

/-- The frame rule for the undisturbed run. -/
theorem run_frame {γ : Type} {view : σ → γ}
    (hP : ∀ r s, P r → view (V.serve r s).2 = view s)
    {p : Prog S ε α} (hp : p.Uses P) (s : σ) :
    view (p.run V s).2 = view s := by
  rw [← (exec_nil V p s).1]
  exact (exec_frame hP hp [] s).1

theorem uses_any (p : Prog S ε α) : p.Uses fun _ => True := by
  induction p with
  | ret a => trivial
  | fail e => trivial
  | call r k ih => exact ⟨trivial, ih⟩

end Prog

end CacheOperator.Lib
