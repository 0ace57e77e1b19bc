/-
What a program may conclude from the answers it has been given.

# The notion

The text of a program fixes more than the calls it can make: it fixes
which call can follow on which answers. `Informed P Q` says so of the
tree alone, with no server in it: each call satisfies `P` of the answers
given before it, newest first, and each end satisfies `Q` of all of
them. "It writes back the object it was given" and "it reports what it
has just been told" are such facts.

# Among others

What an answer still says about the state when the call is made is the
server's affair. `Crew.informed_of_run` puts the two together: if every
answer is true when it is given, and stays true whatever the others do,
then at every turn of every interleaving the calling program's answers
are true and its call is one that those answers allow.
-/
import CacheOperator.Lib.Interleave

namespace CacheOperator.Lib

variable {S : Sig} {σ χ ε α β : Type}

namespace Prog

/-- Every call satisfies `P` of the answers given before it, and every
end satisfies `Q` of all answers. -/
def Informed (P : List (Answer S) → S.Req → Prop)
    (Q : List (Answer S) → Except ε α → Prop) :
    Prog S ε α → List (Answer S) → Prop
  | .ret a, g => Q g (.ok a)
  | .fail e, g => Q g (.error e)
  | .call r k, g => P g r ∧ ∀ x, (k x).Informed P Q (⟨r, x⟩ :: g)

namespace Informed

variable {P P' : List (Answer S) → S.Req → Prop}
  {Q R : List (Answer S) → Except ε α → Prop} {g : List (Answer S)}

/-- Weakening; what is asked of a call may use that answers are only
ever added. -/
theorem imp {p : Prog S ε α} (hp : p.Informed P R g)
    (hP : ∀ g' r, g <:+ g' → P g' r → P' g' r)
    (hQ : ∀ g' res, g <:+ g' → R g' res → Q g' res) :
    p.Informed P' Q g := by
  induction p generalizing g with
  | ret a => exact hQ g _ (List.suffix_refl g) hp
  | fail e => exact hQ g _ (List.suffix_refl g) hp
  | call r k ih =>
      refine ⟨hP g r (List.suffix_refl g) hp.1, fun x => ih x (hp.2 x) ?_ ?_⟩
      · exact fun g' r' hg => hP g' r' ((List.suffix_cons _ g).trans hg)
      · exact fun g' res hg => hQ g' res ((List.suffix_cons _ g).trans hg)

/-- A sequence: the second part starts with the answers of the first. -/
theorem bind {Q : List (Answer S) → Except ε β → Prop} {p : Prog S ε α}
    {f : α → Prog S ε β} (hp : p.Informed P R g)
    (hok : ∀ g' a, g <:+ g' → R g' (.ok a) → (f a).Informed P Q g')
    (herror : ∀ g' e, g <:+ g' → R g' (.error e) → Q g' (.error e)) :
    (p >>= f).Informed P Q g := by
  induction p generalizing g with
  | ret a => exact hok g a (List.suffix_refl g) hp
  | fail e => exact herror g e (List.suffix_refl g) hp
  | call r k ih =>
      refine ⟨hp.1, fun x => ih x (hp.2 x) ?_ ?_⟩
      · exact fun g' a hg => hok g' a ((List.suffix_cons _ g).trans hg)
      · exact fun g' e hg => herror g' e ((List.suffix_cons _ g).trans hg)

theorem attempt {Q : List (Answer S) → Except ε (Except ε α) → Prop}
    {p : Prog S ε α} (hp : p.Informed P R g)
    (h : ∀ g' res, g <:+ g' → R g' res → Q g' (.ok res)) :
    p.attempt.Informed P Q g := by
  induction p generalizing g with
  | ret a => exact h g _ (List.suffix_refl g) hp
  | fail e => exact h g _ (List.suffix_refl g) hp
  | call r k ih =>
      refine ⟨hp.1, fun x => ih x (hp.2 x) ?_⟩
      exact fun g' res hg => h g' res ((List.suffix_cons _ g).trans hg)

end Informed

end Prog

-- ========================================================= among others

/-- At this point of a run: every program only makes calls that its
answers allow, its answers are true, and the state is a proper one. -/
structure Crew.Informed (P : Nat → List (Answer S) → S.Req → Prop)
    (H : Answer S → σ → Prop) (I : σ → Prop) (c : Crew S σ ε α) :
    Prop where
  state : I c.state
  calls : ∀ i, (c.procs i).rest.Informed (P i) (fun _ _ => True)
    (c.procs i).given
  given : ∀ i, ∀ a ∈ (c.procs i).given, H a c.state

namespace Crew.Informed

variable {D : Dispatch S σ χ} {env : σ → σ → Prop}
  {C : List (Answer S) → (r : S.Req) → S.Resp r → Prop}
  {P : Nat → List (Answer S) → S.Req → Prop} {H : Answer S → σ → Prop}
  {I : σ → Prop} {c c' : Crew S σ ε α}

/-- The call that a program is about to make is one its answers
allow. -/
theorem call (h : c.Informed P H I) {i : Nat} {r : S.Req}
    {k : S.Resp r → Prog S ε α} (hp : (c.procs i).rest = .call r k) :
    P i (c.procs i).given r := by
  have hi := h.calls i
  rw [hp] at hi
  exact hi.1

/-- One turn. -/
theorem step
    (hcall : ∀ i g r x s, I s → P i g r → (∀ a ∈ g, H a s) →
      I (D x r s).2 ∧ H ⟨r, (D x r s).1⟩ (D x r s).2
        ∧ ∀ a, H a s → H a (D x r s).2)
    (henv : ∀ s s', I s → env s s' → I s' ∧ ∀ a, H a s → H a s')
    (h : c.Informed P H I) {t : Turn σ χ} (ht : c.Allows D C env t) :
    (c.step D t).Informed P H I := by
  cases t with
  | other s =>
      obtain ⟨hI, hkept⟩ := henv _ s h.state ht
      exact ⟨hI, h.calls, fun i a ha => hkept a (h.given i a ha)⟩
  | call i x =>
      by_cases hend : ∀ r k, (c.procs i).rest ≠ .call r k
      · rw [Crew.step_ended hend]
        exact h
      · obtain ⟨r, k, hp⟩ : ∃ r k, (c.procs i).rest = .call r k := by
          simpa using hend
        have hi := h.calls i
        rw [hp] at hi
        obtain ⟨hI, hnew, hkept⟩ :=
          hcall i _ r x c.state h.state hi.1 (h.given i)
        unfold Crew.step
        simp only [Proc.next_call hp]
        refine ⟨hI, fun j => ?_, fun j a ha => ?_⟩
        · by_cases hj : j = i
          · subst hj
            simp only [Function.update_self]
            exact hi.2 _
          · simp only [Function.update_of_ne hj]
            exact h.calls j
        · by_cases hj : j = i
          · subst hj
            simp only [Function.update_self] at ha
            rcases List.mem_cons.mp ha with rfl | ha
            · exact hnew
            · exact hkept a (h.given j a ha)
          · simp only [Function.update_of_ne hj] at ha
            exact hkept a (h.given j a ha)

/-- Whole runs. -/
theorem of_run
    (hcall : ∀ i g r x s, I s → P i g r → (∀ a ∈ g, H a s) →
      I (D x r s).2 ∧ H ⟨r, (D x r s).1⟩ (D x r s).2
        ∧ ∀ a, H a s → H a (D x r s).2)
    (henv : ∀ s s', I s → env s s' → I s' ∧ ∀ a, H a s → H a s')
    (hrun : Run (Crew.step D) (Crew.Allows D C env) c c')
    (h : c.Informed P H I) : c'.Informed P H I :=
  hrun.invariant (fun _ _ h ht => h.step hcall henv ht) h

end Crew.Informed

end CacheOperator.Lib
