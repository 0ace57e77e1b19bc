/-
What a program guarantees whatever fails.

`Sat V p s E Q` says of every execution of `p` from `s`, under any plan
of failures: each call it makes satisfies `E`, and it ends with a result
and a state that satisfy `Q`. There is one rule for each way to build a
program, so a guarantee is proved by walking down the program's text;
`Sat.of_uses` does a whole program at once from the calls it can make.

The undisturbed run is one of the executions (`Sat.run`), so what is
guaranteed under failures holds of it too. `Completes` and `Makes` say
that it returns, and that it makes some call.
-/
import CacheOperator.Lib.Prog

namespace CacheOperator.Lib

/-- How an undisturbed run ended. -/
def Result.ofExcept {ε α : Type} : Except ε α → Result ε α
  | .ok a => .ok a
  | .error e => .error e

namespace Prog

variable {S : Sig} {σ ε α β : Type} {V : Server S σ}

/-- Every execution of `p` from `s` makes calls that satisfy `E` only,
and ends as `Q` says. -/
def Sat (V : Server S σ) (p : Prog S ε α) (s : σ)
    (E : Entry S σ → Prop) (Q : Result ε α → σ → Prop) : Prop :=
  ∀ fs, (∀ e ∈ (p.exec V fs s).trace, E e)
    ∧ Q (p.exec V fs s).result (p.exec V fs s).state

namespace Sat

variable {s : σ} {E E' : Entry S σ → Prop} {Q R : Result ε α → σ → Prop}

theorem ret {a : α} (h : Q (.ok a) s) : (Prog.ret a).Sat V s E Q :=
  fun fs => ⟨by simp [exec], h⟩

theorem fail {e : ε} (h : Q (.error e) s) : (Prog.fail e).Sat V s E Q :=
  fun fs => ⟨by simp [exec], h⟩

/-- A call that may change the state: it is the last thing before a
crash, or it is served, refused or lost. -/
theorem call {r : S.Req} {k : S.Resp r → Prog S ε α}
    (hcrash : Q .crashed s)
    (hserved : E ⟨r, (V.serve r s).1, s, (V.serve r s).2, false⟩
      ∧ (k (V.serve r s).1).Sat V (V.serve r s).2 E Q)
    (hrefused : E ⟨r, V.refuse r, s, s, true⟩
      ∧ (k (V.refuse r)).Sat V s E Q)
    (hlost : E ⟨r, V.refuse r, s, (V.serve r s).2, true⟩
      ∧ (k (V.refuse r)).Sat V (V.serve r s).2 E Q) :
    (Prog.call r k).Sat V s E Q := by
  intro fs
  unfold exec
  cases fs.headD .none with
  | crash => exact ⟨by simp, hcrash⟩
  | none =>
      obtain ⟨htr, hend⟩ := hserved.2 fs.tail
      exact ⟨List.forall_mem_cons.mpr ⟨hserved.1, htr⟩, hend⟩
  | refused =>
      obtain ⟨htr, hend⟩ := hrefused.2 fs.tail
      exact ⟨List.forall_mem_cons.mpr ⟨hrefused.1, htr⟩, hend⟩
  | lost =>
      obtain ⟨htr, hend⟩ := hlost.2 fs.tail
      exact ⟨List.forall_mem_cons.mpr ⟨hlost.1, htr⟩, hend⟩

/-- A call that only reads. -/
theorem read {r : S.Req} {k : S.Resp r → Prog S ε α}
    (hs : (V.serve r s).2 = s) (hcrash : Q .crashed s)
    (hE : ∀ x failed, E ⟨r, x, s, s, failed⟩)
    (hserved : (k (V.serve r s).1).Sat V s E Q)
    (hrefused : (k (V.refuse r)).Sat V s E Q) :
    (Prog.call r k).Sat V s E Q := by
  refine call hcrash ?_ ⟨hE _ _, hrefused⟩ ?_
  · rw [hs]
    exact ⟨hE _ _, hserved⟩
  · rw [hs]
    exact ⟨hE _ _, hrefused⟩

/-- A sequence: what the first part guarantees is enough for the second
one, or for the end when the first part stops. -/
theorem bind {Q : Result ε β → σ → Prop} {p : Prog S ε α}
    {f : α → Prog S ε β} (hp : p.Sat V s E R)
    (hok : ∀ a s', R (.ok a) s' → (f a).Sat V s' E Q)
    (herror : ∀ e s', R (.error e) s' → Q (.error e) s')
    (hcrash : ∀ s', R .crashed s' → Q .crashed s') :
    (p >>= f).Sat V s E Q := by
  intro fs
  obtain ⟨htr, hend⟩ := hp fs
  rw [exec_bind]
  unfold Outcome.andThen
  cases hres : (p.exec V fs s).result with
  | ok a =>
      rw [hres] at hend
      obtain ⟨htr', hend'⟩ := hok a _ hend (p.exec V fs s).faults
      refine ⟨fun e he => ?_, hend'⟩
      rcases List.mem_append.mp he with he | he
      · exact htr e he
      · exact htr' e he
  | error e =>
      rw [hres] at hend
      exact ⟨htr, herror e _ hend⟩
  | crashed =>
      rw [hres] at hend
      exact ⟨htr, hcrash _ hend⟩

/-- After a program that changes nothing and can return one value only,
the rest runs from that value. -/
theorem bind_only {Q : Result ε β → σ → Prop} {p : Prog S ε α}
    {f : α → Prog S ε β} {x : α}
    (hp : p.Sat V s E fun res s' => s' = s ∧ ∀ a, res = .ok a → a = x)
    (hcrash : Q .crashed s) (herror : ∀ e, Q (.error e) s)
    (hok : (f x).Sat V s E Q) : (p >>= f).Sat V s E Q := by
  refine bind hp ?_ ?_ ?_
  · intro a s' h
    rw [h.1, h.2 a rfl]
    exact hok
  · intro e s' h
    rw [h.1]
    exact herror e
  · intro s' h
    rw [h.1]
    exact hcrash

/-- A failure handed over as a value. -/
theorem attempt {Q : Result ε (Except ε α) → σ → Prop} {p : Prog S ε α}
    (hp : p.Sat V s E R) (hok : ∀ a s', R (.ok a) s' → Q (.ok (.ok a)) s')
    (herror : ∀ e s', R (.error e) s' → Q (.ok (.error e)) s')
    (hcrash : ∀ s', R .crashed s' → Q .crashed s') :
    p.attempt.Sat V s E Q := by
  intro fs
  obtain ⟨htr, hend⟩ := hp fs
  rw [exec_attempt]
  refine ⟨htr, ?_⟩
  cases hres : (p.exec V fs s).result with
  | ok a => rw [hres] at hend; exact hok a _ hend
  | error e => rw [hres] at hend; exact herror e _ hend
  | crashed => rw [hres] at hend; exact hcrash _ hend

/-- Weakening. -/
theorem imp {p : Prog S ε α} (hp : p.Sat V s E R)
    (hE : ∀ e, E e → E' e) (hQ : ∀ r s', R r s' → Q r s') :
    p.Sat V s E' Q := by
  intro fs
  obtain ⟨htr, hend⟩ := hp fs
  exact ⟨fun e he => hE e (htr e he), hQ _ _ hend⟩

theorem and {p : Prog S ε α} (h : p.Sat V s E Q) (h' : p.Sat V s E' R) :
    p.Sat V s (fun e => E e ∧ E' e) fun r s' => Q r s' ∧ R r s' :=
  fun fs => ⟨fun e he => ⟨(h fs).1 e he, (h' fs).1 e he⟩,
    (h fs).2, (h' fs).2⟩

/-- What no used call can change stays, and every call is a used one
with that in front of it and behind it. -/
theorem of_uses {γ : Type} (view : σ → γ) {P : S.Req → Prop}
    (hP : ∀ r s, P r → view (V.serve r s).2 = view s)
    {p : Prog S ε α} (hp : p.Uses P) :
    p.Sat V s
      (fun e => P e.req ∧ view e.before = view s ∧ view e.after = view s)
      fun _ s' => view s' = view s := by
  intro fs
  obtain ⟨hst, htr⟩ := exec_frame hP hp fs s
  exact ⟨fun e he => ⟨hp.trace he, htr e he⟩, hst⟩

/-- What every used call keeps holds at the end. -/
theorem of_uses_keeping {I : σ → Prop} {P : S.Req → Prop}
    (hI : ∀ r s, P r → I s → I (V.serve r s).2)
    {p : Prog S ε α} (hp : p.Uses P) (hs : I s) :
    p.Sat V s (fun _ => True) fun _ s' => I s' := by
  induction p generalizing s with
  | ret a => exact .ret hs
  | fail e => exact .fail hs
  | call r k ih =>
      have hserved : I (V.serve r s).2 := hI r s hp.1 hs
      exact .call hs ⟨trivial, ih _ (hp.2 _) hserved⟩
        ⟨trivial, ih _ (hp.2 _) hs⟩ ⟨trivial, ih _ (hp.2 _) hserved⟩

/-- Every call is a used one. -/
theorem calls {P : S.Req → Prop} {p : Prog S ε α} (hp : p.Uses P) :
    p.Sat V s (fun e => P e.req) fun _ _ => True :=
  fun _ => ⟨fun _ he => hp.trace he, trivial⟩

/-- The undisturbed run is one of the executions. -/
theorem run {p : Prog S ε α} (hp : p.Sat V s E Q) :
    Q (.ofExcept (p.run V s).1) (p.run V s).2 := by
  have hend := (hp []).2
  obtain ⟨hst, -, hres⟩ := exec_nil V p s
  rw [hst, hres] at hend
  cases hr : (p.run V s).1 with
  | ok a => rw [hr] at hend; exact hend
  | error e => rw [hr] at hend; exact hend

/-- A sequence of parts of which only what they return matters. -/
theorem bind_returns {R : α → σ → Prop} {Q : β → σ → Prop}
    {p : Prog S ε α} {f : α → Prog S ε β}
    (hp : p.Sat V s E fun res s' => ∀ a, res = .ok a → R a s')
    (hf : ∀ a s', R a s' →
      (f a).Sat V s' E fun res s'' => ∀ b, res = .ok b → Q b s'') :
    (p >>= f).Sat V s E fun res s' => ∀ b, res = .ok b → Q b s' :=
  bind hp (fun a s' h => hf a s' (h a rfl)) (fun _ _ _ => nofun)
    fun _ _ => nofun

end Sat

/-- Every execution of `p` from `s` that returns ends as `R` says. -/
def Returns (V : Server S σ) (p : Prog S ε α) (s : σ)
    (R : α → σ → Prop) : Prop :=
  p.Sat V s (fun _ => True) fun res s' => ∀ a, res = .ok a → R a s'

namespace Returns

variable {s : σ} {R R' : α → σ → Prop} {p : Prog S ε α}

theorem ret {a : α} (h : R a s) : (Prog.ret a : Prog S ε α).Returns V s R :=
  Sat.ret fun _ heq => by cases heq; exact h

theorem fail {e : ε} : (Prog.fail e : Prog S ε α).Returns V s R :=
  Sat.fail fun _ => nofun

/-- A call, which may also be refused in whatever state that leaves. -/
theorem call {r : S.Req} {k : S.Resp r → Prog S ε α}
    (hserved : (k (V.serve r s).1).Returns V (V.serve r s).2 R)
    (hrefused : ∀ s', (k (V.refuse r)).Returns V s' R) :
    (Prog.call r k).Returns V s R :=
  Sat.call (fun _ => nofun) ⟨trivial, hserved⟩ ⟨trivial, hrefused s⟩
    ⟨trivial, hrefused _⟩

theorem read {r : S.Req} {k : S.Resp r → Prog S ε α}
    (hs : (V.serve r s).2 = s)
    (hserved : (k (V.serve r s).1).Returns V s R)
    (hrefused : (k (V.refuse r)).Returns V s R) :
    (Prog.call r k).Returns V s R :=
  Sat.read hs (fun _ => nofun) (fun _ _ => trivial) hserved hrefused

theorem of_sat {E : Entry S σ → Prop} {Q : Result ε α → σ → Prop}
    (h : p.Sat V s E Q) (hok : ∀ a s', Q (.ok a) s' → R a s') :
    p.Returns V s R :=
  h.imp (fun _ _ => trivial) fun _ s' hq a heq =>
    hok a s' (by rw [← heq]; exact hq)

theorem imp (h : p.Returns V s R) (hR : ∀ a s', R a s' → R' a s') :
    p.Returns V s R' :=
  Sat.imp h (fun _ h => h) fun _ s' hr a heq => hR a s' (hr a heq)

theorem bind {Q : β → σ → Prop} {f : α → Prog S ε β}
    (hp : p.Returns V s R) (hf : ∀ a s', R a s' → (f a).Returns V s' Q) :
    (p >>= f).Returns V s Q :=
  Sat.bind_returns hp hf

/-- An execution that returned has ended as `R` says. -/
theorem exec (h : p.Returns V s R) {fs : List Fault} {a : α}
    (hok : (p.exec V fs s).result = .ok a) : R a (p.exec V fs s).state :=
  (h fs).2 a hok

/-- So has an undisturbed run. -/
theorem run (h : p.Returns V s R) {a : α} {s' : σ}
    (hrun : p.run V s = (.ok a, s')) : R a s' := by
  have hend := Sat.run h
  rw [hrun] at hend
  exact hend a rfl

end Returns

-- ==================================================== undisturbed runs

/-- The undisturbed run of `p` from `s` returns. -/
def Completes (V : Server S σ) (p : Prog S ε α) (s : σ) : Prop :=
  ∃ a, (p.run V s).1 = .ok a

/-- A run of two parts ends where the first one fails, or where the
second one ends. -/
theorem run_bind_cases {p : Prog S ε α} {f : α → Prog S ε β} {s : σ}
    {Q : Except ε β × σ → Prop}
    (hok : ∀ a s', p.run V s = (.ok a, s') → Q ((f a).run V s'))
    (herr : ∀ e s', p.run V s = (.error e, s') → Q (.error e, s')) :
    Q ((p >>= f).run V s) := by
  rw [run_bind]
  cases hrun : p.run V s with
  | mk res s' =>
      cases res with
      | ok a => exact hok a s' hrun
      | error e => exact herr e s' hrun

namespace Completes

variable {s s' : σ} {R : α → σ → Prop} {p : Prog S ε α}
  {f : α → Prog S ε β}

theorem not_error (h : p.Completes V s) {e : ε} :
    p.run V s ≠ (.error e, s') := by
  intro hrun
  obtain ⟨a, ha⟩ := h
  rw [hrun] at ha
  cases ha

theorem bind (hp : p.Completes V s) (hR : p.Returns V s R)
    (hf : ∀ a s', R a s' → (f a).Completes V s') :
    (p >>= f).Completes V s :=
  run_bind_cases (Q := fun out => ∃ b, out.1 = .ok b)
    (fun a s' hrun => hf a s' (hR.run hrun))
    fun _ _ hrun => absurd hrun hp.not_error

end Completes

/-- The undisturbed run of `p` from `s` makes a call that satisfies
`E`. -/
def Makes (V : Server S σ) (p : Prog S ε α) (s : σ)
    (E : Entry S σ → Prop) : Prop :=
  ∃ e ∈ (p.exec V [] s).trace, E e

namespace Makes

variable {s s' : σ} {E : Entry S σ → Prop} {p : Prog S ε α}
  {f : α → Prog S ε β} {r : S.Req} {k : S.Resp r → Prog S ε α}

/-- The call is the first one. -/
theorem first (h : E ⟨r, (V.serve r s).1, s, (V.serve r s).2, false⟩) :
    (Prog.call r k).Makes V s E :=
  ⟨_, List.mem_cons_self, h⟩

/-- The call is a later one. -/
theorem later (h : (k (V.serve r s).1).Makes V (V.serve r s).2 E) :
    (Prog.call r k).Makes V s E := by
  obtain ⟨e, he, hE⟩ := h
  exact ⟨e, List.mem_cons_of_mem _ he, hE⟩

/-- The call is made by the first part. -/
theorem bind_left (h : p.Makes V s E) : (p >>= f).Makes V s E := by
  obtain ⟨e, he, hE⟩ := h
  refine ⟨e, ?_, hE⟩
  rw [exec_bind]
  unfold Outcome.andThen
  cases (p.exec V [] s).result with
  | ok a => exact List.mem_append_left _ he
  | error e => exact he
  | crashed => exact he

/-- The call is made by the second part. -/
theorem bind_right {a : α} (hrun : p.run V s = (.ok a, s'))
    (h : (f a).Makes V s' E) : (p >>= f).Makes V s E := by
  obtain ⟨e, he, hE⟩ := h
  refine ⟨e, ?_, hE⟩
  obtain ⟨hst, hfaults, hres⟩ := exec_nil V p s
  rw [hrun] at hst hres
  rw [exec_bind]
  unfold Outcome.andThen
  rw [hres, hst, hfaults]
  exact List.mem_append_right _ he

theorem attempt (h : p.Makes V s E) : p.attempt.Makes V s E := by
  obtain ⟨e, he, hE⟩ := h
  refine ⟨e, ?_, hE⟩
  rw [exec_attempt]
  exact he

end Makes

/-- What no call is, none that is made is. -/
theorem Sat.not_makes {p : Prog S ε α} {s : σ} {E : Entry S σ → Prop}
    {Q : Result ε α → σ → Prop} (h : p.Sat V s (fun e => ¬E e) Q) :
    ¬p.Makes V s E := by
  intro hmakes
  obtain ⟨e, he, hE⟩ := hmakes
  exact (h []).1 e he hE

-- ========================================================= simulation

variable {τ : Type}

/-- Two servers that answer alike, as seen through `f`, take a program
through the same execution. -/
theorem exec_simulate {W : Server S τ} {f : τ → σ} {I : τ → Prop}
    (hserve : ∀ r t, I t → (W.serve r t).1 = (V.serve r (f t)).1
      ∧ f (W.serve r t).2 = (V.serve r (f t)).2 ∧ I (W.serve r t).2)
    (hrefuse : ∀ r, W.refuse r = V.refuse r) (p : Prog S ε α)
    (fs : List Fault) {t : τ} (ht : I t) :
    (p.exec W fs t).result = (p.exec V fs (f t)).result
      ∧ f (p.exec W fs t).state = (p.exec V fs (f t)).state
      ∧ I (p.exec W fs t).state
      ∧ (p.exec W fs t).trace.map (Entry.map f)
        = (p.exec V fs (f t)).trace := by
  induction p generalizing fs t with
  | ret a => exact ⟨rfl, rfl, ht, rfl⟩
  | fail e => exact ⟨rfl, rfl, ht, rfl⟩
  | call r k ih =>
      obtain ⟨hresp, hstate, hinv⟩ := hserve r t ht
      unfold exec
      cases fs.headD .none with
      | crash => exact ⟨rfl, rfl, ht, rfl⟩
      | none =>
          obtain ⟨h1, h2, h3, h4⟩ := ih (W.serve r t).1 fs.tail hinv
          rw [hresp, hstate] at h1 h2 h4
          rw [hresp] at h3
          dsimp only [Outcome.after]
          rw [List.map_cons, hresp, h1, h2, h4]
          refine ⟨rfl, rfl, h3, ?_⟩
          unfold Entry.map
          rw [hstate]
      | refused =>
          obtain ⟨h1, h2, h3, h4⟩ := ih (W.refuse r) fs.tail ht
          rw [hrefuse] at h1 h2 h3 h4
          dsimp only [Outcome.after]
          rw [List.map_cons, hrefuse, h1, h2, h4]
          exact ⟨rfl, rfl, h3, rfl⟩
      | lost =>
          obtain ⟨h1, h2, h3, h4⟩ := ih (W.refuse r) fs.tail hinv
          rw [hrefuse, hstate] at h1 h2 h4
          rw [hrefuse] at h3
          dsimp only [Outcome.after]
          rw [List.map_cons, hrefuse, h1, h2, h4]
          refine ⟨rfl, rfl, h3, ?_⟩
          unfold Entry.map
          rw [hstate]

/-- What a program guarantees at one server it guarantees at one that
answers alike. -/
theorem Sat.simulate {W : Server S τ} {f : τ → σ} {I : τ → Prop}
    {E : Entry S σ → Prop} {Q : Result ε α → σ → Prop}
    (hserve : ∀ r t, I t → (W.serve r t).1 = (V.serve r (f t)).1
      ∧ f (W.serve r t).2 = (V.serve r (f t)).2 ∧ I (W.serve r t).2)
    (hrefuse : ∀ r, W.refuse r = V.refuse r) {p : Prog S ε α} {t : τ}
    (ht : I t) (hp : p.Sat V (f t) E Q) :
    p.Sat W t (fun e => E (e.map f)) fun res t' => I t' ∧ Q res (f t') := by
  intro fs
  obtain ⟨hres, hstate, hinv, htrace⟩ :=
    exec_simulate hserve hrefuse p fs ht
  obtain ⟨htr, hend⟩ := hp fs
  rw [← htrace] at htr
  rw [← hres, ← hstate] at hend
  exact ⟨fun e he => htr _ (List.mem_map_of_mem he), hinv, hend⟩

end Prog

end CacheOperator.Lib
