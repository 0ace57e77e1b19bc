/-
Programs side by side at one server.

# The system

A crew of programs takes turns: one turn serves the next call of one of
them, or something else happens to the state. How a call is answered is
a function of a choice (served, refused, answered from an old copy), so
that a schedule with its choices can be run; which turns a run may take
is a condition on the answers a program has been given so far.

# The rule

`Among` is what a program guarantees among others: whenever the others
have only moved the state along `rely`, each of its calls moves it along
`guar`. When every program's `guar` is covered by `rely`, and so is what
else happens, a program started among the others keeps its guarantee
along every run (`Crew.among_of_run`).
-/
import CacheOperator.Lib.Prog
import CacheOperator.Lib.Run

namespace CacheOperator.Lib

/-- A call and its reply. -/
structure Answer (S : Sig) where
  req : S.Req
  resp : S.Resp req

/-- How a server answers, with a choice. -/
abbrev Dispatch (S : Sig) (σ χ : Type) :=
  χ → (r : S.Req) → σ → S.Resp r × σ

/-- A program on its way: what is left of it, and the answers it has
been given, newest first. -/
structure Proc (S : Sig) (ε α : Type) where
  rest : Prog S ε α
  given : List (Answer S)

/-- Programs at one server. -/
structure Crew (S : Sig) (σ ε α : Type) where
  procs : Nat → Proc S ε α
  state : σ

/-- One turn: a call of a program, or another state. -/
inductive Turn (σ χ : Type) where
  | call (i : Nat) (x : χ)
  | other (s : σ)

section

variable {S : Sig} {σ χ ε α β : Type} (D : Dispatch S σ χ)

/-- The program after its next call, and the state. -/
def Proc.next (x : χ) (p : Proc S ε α) (s : σ) : Proc S ε α × σ :=
  match p.rest with
  | .call r k => (⟨k (D x r s).1, ⟨r, (D x r s).1⟩ :: p.given⟩, (D x r s).2)
  | _ => (p, s)

def Crew.step (c : Crew S σ ε α) : Turn σ χ → Crew S σ ε α
  | .call i x =>
      ⟨Function.update c.procs i ((c.procs i).next D x c.state).1,
        ((c.procs i).next D x c.state).2⟩
  | .other s => { c with state := s }

/-- The turns a run may take: the answers satisfy `C`, and what else
happens satisfies `env`. -/
def Crew.Allows (C : List (Answer S) → (r : S.Req) → S.Resp r → Prop)
    (env : σ → σ → Prop) (c : Crew S σ ε α) : Turn σ χ → Prop
  | .call i x =>
      match (c.procs i).rest with
      | .call r _ => C (c.procs i).given r (D x r c.state).1
      | _ => True
  | .other s => env c.state s

instance Crew.decidableAllows
    {C : List (Answer S) → (r : S.Req) → S.Resp r → Prop}
    [∀ g r x, Decidable (C g r x)] {env : σ → σ → Prop}
    [∀ s s', Decidable (env s s')] (c : Crew S σ ε α) :
    (t : Turn σ χ) → Decidable (c.Allows D C env t)
  | .other s => inferInstanceAs (Decidable (env c.state s))
  | .call i x =>
      match h : (c.procs i).rest with
      | .call r _ =>
          decidable_of_iff (C (c.procs i).given r (D x r c.state).1)
            (by simp only [Crew.Allows, h])
      | .ret _ => isTrue (by simp only [Crew.Allows, h])
      | .fail _ => isTrue (by simp only [Crew.Allows, h])

variable {D} {c : Crew S σ ε α} {i : Nat} {x : χ}

theorem Proc.next_call {p : Proc S ε α} {s : σ} {r : S.Req}
    {k : S.Resp r → Prog S ε α} (hp : p.rest = .call r k) :
    p.next D x s
      = (⟨k (D x r s).1, ⟨r, (D x r s).1⟩ :: p.given⟩, (D x r s).2) := by
  unfold Proc.next
  rw [hp]

theorem Proc.next_ended {p : Proc S ε α} {s : σ}
    (hp : ∀ r k, p.rest ≠ .call r k) : p.next D x s = (p, s) := by
  unfold Proc.next
  cases h : p.rest with
  | call r k => exact absurd h (hp r k)
  | ret a => rfl
  | fail e => rfl

/-- A turn of a program that has ended changes nothing. -/
theorem Crew.step_ended (hp : ∀ r k, (c.procs i).rest ≠ .call r k) :
    c.step D (.call i x) = c := by
  unfold Crew.step
  simp only [Proc.next_ended hp, Function.update_eq_self]

/-- Where nothing is asked of the answers, every call may be made. -/
theorem Crew.allows_call {env : σ → σ → Prop} :
    c.Allows D (fun _ _ _ => True) env (.call i x) := by
  simp only [Crew.Allows]
  cases (c.procs i).rest <;> trivial

/-- A turn of a program that has a call to make. -/
theorem Crew.step_call {r : S.Req} {k : S.Resp r → Prog S ε α}
    (hp : (c.procs i).rest = .call r k) :
    ((c.step D (.call i x)).procs i).rest = k (D x r c.state).1
      ∧ (c.step D (.call i x)).state = (D x r c.state).2 := by
  unfold Crew.step
  simp only [Proc.next_call hp, Function.update_self, and_self]

-- ======================================================= guarantees

namespace Prog

variable (D)

/-- Among others that move the state along `rely`, the program moves it
along `guar`, and ends as `Q` says. -/
def Among (C : List (Answer S) → (r : S.Req) → S.Resp r → Prop)
    (rely : σ → σ → Prop) (guar : S.Req → σ → σ → Prop)
    (Q : List (Answer S) → Except ε α → σ → Prop) :
    Prog S ε α → List (Answer S) → σ → Prop
  | .ret a, g, s => Q g (.ok a) s
  | .fail e, g, s => Q g (.error e) s
  | .call r k, g, s => ∀ s₁, rely s s₁ → ∀ x, C g r (D x r s₁).1 →
      guar r s₁ (D x r s₁).2
        ∧ (k (D x r s₁).1).Among C rely guar Q (⟨r, (D x r s₁).1⟩ :: g)
          (D x r s₁).2

namespace Among

variable {D} {C : List (Answer S) → (r : S.Req) → S.Resp r → Prop}
  {rely : σ → σ → Prop} {guar : S.Req → σ → σ → Prop}
  {R : List (Answer S) → Except ε α → σ → Prop}
  {g : List (Answer S)} {s s' : σ}

theorem bind {Q : List (Answer S) → Except ε β → σ → Prop}
    {p : Prog S ε α} {f : α → Prog S ε β}
    (hp : p.Among D C rely guar R g s)
    (hok : ∀ g' a s', R g' (.ok a) s' →
      (f a).Among D C rely guar Q g' s')
    (herror : ∀ g' e s', R g' (.error e) s' → Q g' (.error e) s') :
    (p >>= f).Among D C rely guar Q g s := by
  induction p generalizing g s with
  | ret a => exact hok _ _ _ hp
  | fail e => exact herror _ _ _ hp
  | call r k ih =>
      intro s₁ hs₁ x hx
      obtain ⟨hg, hrest⟩ := hp s₁ hs₁ x hx
      exact ⟨hg, ih _ hrest⟩

theorem attempt {Q : List (Answer S) → Except ε (Except ε α) → σ → Prop}
    {p : Prog S ε α} (hp : p.Among D C rely guar R g s)
    (h : ∀ g' res s', R g' res s' → Q g' (.ok res) s') :
    p.attempt.Among D C rely guar Q g s := by
  induction p generalizing g s with
  | ret a => exact h _ _ _ hp
  | fail e => exact h _ _ _ hp
  | call r k ih =>
      intro s₁ hs₁ x hx
      obtain ⟨hg, hrest⟩ := hp s₁ hs₁ x hx
      exact ⟨hg, ih _ hrest⟩

/-- The guarantee outlasts what the others do, as long as nothing is
said about the end. -/
theorem stable {p : Prog S ε α}
    (htrans : ∀ a b c, rely a b → rely b c → rely a c)
    (h : p.Among D C rely guar (fun _ _ _ => True) g s)
    (hs : rely s s') :
    p.Among D C rely guar (fun _ _ _ => True) g s' := by
  cases p with
  | ret a => trivial
  | fail e => trivial
  | call r k => exact fun s₁ hs₁ => h s₁ (htrans _ _ _ hs hs₁)

/-- A program whose calls all keep `guar`, whatever it is answered. -/
theorem of_uses {P : S.Req → Prop} {p : Prog S ε α} (hp : p.Uses P)
    (hP : ∀ r s s₁ x, P r → rely s s₁ → guar r s₁ (D x r s₁).2) :
    p.Among D C rely guar (fun _ _ _ => True) g s := by
  induction p generalizing g s with
  | ret a => trivial
  | fail e => trivial
  | call r k ih =>
      intro s₁ hs₁ x _
      exact ⟨hP r s s₁ x hp.1 hs₁, ih _ (hp.2 _)⟩

end Among

end Prog

-- ============================================================== runs

namespace Crew

variable {C : List (Answer S) → (r : S.Req) → S.Resp r → Prop}
  {env rely : σ → σ → Prop} {guar : Nat → S.Req → σ → σ → Prop}
  {c c' : Crew S σ ε α}

/-- Every program of the crew keeps its guarantee from now on. -/
def AllAmong (D : Dispatch S σ χ)
    (C : List (Answer S) → (r : S.Req) → S.Resp r → Prop)
    (rely : σ → σ → Prop) (guar : Nat → S.Req → σ → σ → Prop)
    (c : Crew S σ ε α) : Prop :=
  ∀ i, (c.procs i).rest.Among D C rely (guar i) (fun _ _ _ => True)
    (c.procs i).given c.state

/-- One turn: the state moves along `rely`, and the crew keeps its
guarantees. -/
theorem AllAmong.step
    (htrans : ∀ a b c, rely a b → rely b c → rely a c)
    (hguar : ∀ i r s s', guar i r s s' → rely s s')
    (henv : ∀ s s', rely s s → env s s' → rely s s') {t : Turn σ χ}
    (hs : rely c.state c.state) (h : c.AllAmong D C rely guar)
    (ht : c.Allows D C env t) :
    (c.step D t).AllAmong D C rely guar
      ∧ rely c.state (c.step D t).state := by
  cases t with
  | other s =>
      have hs' : rely c.state s := henv _ _ hs ht
      exact ⟨fun i => (h i).stable htrans hs', hs'⟩
  | call i x =>
      by_cases hend : ∀ r k, (c.procs i).rest ≠ .call r k
      · rw [Crew.step_ended hend]
        exact ⟨h, hs⟩
      · obtain ⟨r, k, hp⟩ : ∃ r k, (c.procs i).rest = .call r k := by
          simpa using hend
        have hi := h i
        unfold Crew.Allows at ht
        rw [hp] at hi
        simp only [hp] at ht
        obtain ⟨hg, hrest⟩ := hi _ hs x ht
        have hs' : rely c.state (D x r c.state).2 := hguar _ _ _ _ hg
        unfold Crew.step
        simp only [Proc.next_call hp]
        refine ⟨fun j => ?_, hs'⟩
        by_cases hj : j = i
        · subst hj
          simp only [Function.update_self]
          exact hrest
        · simp only [Function.update_of_ne hj]
          exact (h j).stable htrans hs'

/-- A crew keeps its guarantees along every run, which moves the state
along `rely`. -/
theorem among_of_run (hrefl : ∀ a b, rely a b → rely b b)
    (htrans : ∀ a b c, rely a b → rely b c → rely a c)
    (hguar : ∀ i r s s', guar i r s s' → rely s s')
    (henv : ∀ s s', rely s s → env s s' → rely s s')
    (hs : rely c.state c.state) (h : c.AllAmong D C rely guar)
    (hrun : Run (Crew.step D) (Crew.Allows D C env) c c') :
    c'.AllAmong D C rely guar ∧ rely c.state c'.state := by
  refine hrun.invariant (I := fun c₁ => c₁.AllAmong D C rely guar
    ∧ rely c.state c₁.state) (fun c₁ t ih ht => ?_) ⟨h, hs⟩
  obtain ⟨hstep, hs₁⟩ :=
    ih.1.step htrans hguar henv (hrefl _ _ ih.2) ht
  exact ⟨hstep, htrans _ _ _ ih.2 hs₁⟩

end Crew

end

end CacheOperator.Lib
