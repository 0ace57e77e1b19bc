/-
What `createOrUpdate` guarantees, for every owned kind at once.

One execution reads the object and writes it at most once. Whatever
fails, the state at the end is the one at the start or the start with
the callback's object stored (`Writes`); a result without error means
that the stored object is the one the callback asked for (`Settles`).
Undisturbed, the only error is the callback's own
(`reconcileObject_run`).

The callbacks of the namespaced objects have one failure: the object is
controlled by somebody else (`Foreign`).
-/
import CacheOperator.Proofs.Server
import CacheOperator.Model.Reconcile

namespace CacheOperator

open Lib

/-- What the callback is given: the stored object, or a new one. -/
def Cluster.storedOr (s : Cluster) (k : Kind) (key : NamespacedName) :
    Object k :=
  match s.objects k key with
  | some o => o.1
  | none => fresh k key

/-- The callback leaves alone what the API server compares. -/
def Keeps {k : Kind} (mutate : Object k → Except GoError (Object k)) :
    Prop :=
  ∀ o o', mutate o = .ok o' →
    o'.key = o.key
      ∧ o'.metadata.resourceVersion = o.metadata.resourceVersion
      ∧ o'.metadata.finalizers = o.metadata.finalizers

section

variable {k : Kind} {key : NamespacedName}
  {mutate : Object k → Except GoError (Object k)} {s s' : Cluster}

theorem storedOr_of_some {o : {o : Object k // o.key = key}}
    (h : s.objects k key = some o) : s.storedOr k key = o.1 := by
  unfold Cluster.storedOr
  rw [h]

theorem storedOr_of_none (h : s.objects k key = none) :
    s.storedOr k key = fresh k key := by
  unfold Cluster.storedOr
  rw [h]

theorem storedOr_key : (s.storedOr k key).key = key := by
  cases h : s.objects k key with
  | none => rw [storedOr_of_none h]; rfl
  | some o => rw [storedOr_of_some h]; exact o.2

/-- The key check of `callMutate` never fires. -/
theorem callMutate_eq (hm : Keeps mutate) :
    callMutate key mutate (s.storedOr k key)
      = mutate (s.storedOr k key) := by
  unfold callMutate
  cases h : mutate (s.storedOr k key) with
  | error e => rfl
  | ok o =>
      have hkey := (hm _ _ h).1
      rw [storedOr_key] at hkey
      simp [hkey]

/-- The callback's object has been written. -/
def Writes (key : NamespacedName)
    (mutate : Object k → Except GoError (Object k)) (s s' : Cluster) :
    Prop :=
  ∃ o, mutate (s.storedOr k key) = .ok o ∧ s' = s.put (s.stamp o)

/-- The stored object is the one the callback asks for: it was already,
or it has been written. -/
def Settles (key : NamespacedName)
    (mutate : Object k → Except GoError (Object k)) (s s' : Cluster) :
    Prop :=
  (s' = s ∧ ∃ o, s.objects k key = some o ∧ mutate o.1 = .ok o.1)
    ∨ Writes key mutate s s'

/-- A call of a sub-reconciler that started in `s`: it writes the
callback's object, and only from `s`. -/
def WritesAtMost (key : NamespacedName)
    (mutate : Object k → Except GoError (Object k)) (s : Cluster)
    (e : Call) : Prop :=
  (e.before = s ∨ Writes key mutate s e.before)
    ∧ (e.after = e.before ∨ e.before = s ∧ Writes key mutate s e.after)

/-- How a sub-reconciler that started in `s` ends. -/
def EndsSettled (key : NamespacedName)
    (mutate : Object k → Except GoError (Object k)) (s : Cluster) :
    Result GoError Unit → Cluster → Prop
  | .ok _, s' => Settles key mutate s s'
  | .error _, s' => s' = s ∨ Writes key mutate s s'
  | .crashed, s' => s' = s ∨ Writes key mutate s s'

/-- Creating what is missing stores the object. -/
theorem serve_create_missing {o : Object k}
    (hnone : s.objects k key = none) (hkey : o.key = key) :
    api.serve (.create k o) s = (.ok (s.stamp o), s.put (s.stamp o)) := by
  subst hkey
  show s.serveCreate o = _
  unfold Cluster.serveCreate
  rw [hnone]

/-- Updating what was just read stores the object. -/
theorem serve_update_read (hk : k ≠ .distributedCache)
    {old : {o : Object k // o.key = key}} {o : Object k}
    (hold : s.objects k key = some old) (hkey : o.key = key)
    (hrv : o.metadata.resourceVersion = old.1.metadata.resourceVersion)
    (hfin : o.metadata.finalizers = old.1.metadata.finalizers)
    (hne : o ≠ old.1) :
    api.serve (.update k o) s = (.ok (s.stamp o), s.put (s.stamp o)) := by
  subst hkey
  have hadm : admitted k old.1 o = o := by
    cases k with
    | distributedCache => exact absurd rfl hk
    | _ => rfl
  have hfinal : finalized old.1 o = false := by
    unfold finalized
    rw [hfin]
    cases o.metadata.deleting <;>
      cases old.1.metadata.finalizers.isEmpty <;> rfl
  show s.serveUpdate o = _
  unfold Cluster.serveUpdate
  rw [hold]
  simp only [hrv, ne_eq, not_true_eq_false, if_false, hfinal,
    Bool.false_eq_true, hadm, Cluster.write, hne]

/-- The end of `createOrUpdate`: one write whose error is passed on. -/
theorem sat_write {r : Request} {cont : Reply r → Op OperationResult}
    (op : OperationResult) {E : Call → Prop}
    {Q : Result GoError OperationResult → Cluster → Prop}
    (hstate : (api.serve r s).2 = s')
    (hserved : cont (api.serve r s).1 = .ret op)
    (hrefused : cont (api.refuse r) = .fail errRefused)
    (hE : ∀ x b, E ⟨r, x, s, s, b⟩ ∧ E ⟨r, x, s, s', b⟩)
    (hcrash : Q .crashed s) (hok : Q (.ok op) s')
    (herr : Q (.error errRefused) s ∧ Q (.error errRefused) s') :
    (Prog.call (S := Api) r cont).Sat api s E Q := by
  refine Prog.Sat.call hcrash ?_ ?_ ?_
  · rw [hstate, hserved]
    exact ⟨(hE _ _).2, .ret hok⟩
  · rw [hrefused]
    exact ⟨(hE _ _).1, .fail herr.1⟩
  · rw [hstate, hrefused]
    exact ⟨(hE _ _).2, .fail herr.2⟩

/-- How `createOrUpdate` ends: the object is as the callback leaves it,
or the callback's object has been written, or one of both when there was
an error. -/
def Upserted (key : NamespacedName)
    (mutate : Object k → Except GoError (Object k)) (s : Cluster) :
    Result GoError OperationResult → Cluster → Prop
  | .ok .none, s' =>
      s' = s ∧ ∃ o, s.objects k key = some o ∧ mutate o.1 = .ok o.1
  | .ok _, s' => Writes key mutate s s'
  | .error _, s' => s' = s ∨ Writes key mutate s s'
  | .crashed, s' => s' = s

/-- Every call starts from the state of the first one, and every end is
that state or the state with the callback's object written. -/
theorem createOrUpdate_sat (hk : k ≠ .distributedCache)
    (hm : Keeps mutate) :
    (createOrUpdate k key mutate).Sat api s
      (fun e => e.before = s ∧ (e.after = s ∨ Writes key mutate s e.after))
      (Upserted key mutate s) := by
  unfold createOrUpdate
  simp only [bind, pure, Prog.bind, request]
  refine Prog.Sat.read rfl rfl (fun x b => ⟨rfl, Or.inl rfl⟩) ?_ ?_
  · have hcall : callMutate key mutate (s.storedOr k key)
        = mutate (s.storedOr k key) := callMutate_eq hm
    cases hobj : s.objects k key with
    | none =>
        rw [storedOr_of_none hobj] at hcall
        rw [serve_get_none hobj]
        dsimp only
        rw [if_pos (show errNotFound.isNotFound = true from rfl), hcall]
        cases hmut : mutate (fresh k key) with
        | error e => exact .fail (Or.inl rfl)
        | ok o =>
            have hw : Writes key mutate s (s.put (s.stamp o)) :=
              ⟨o, by rw [storedOr_of_none hobj, hmut], rfl⟩
            have hsv := serve_create_missing hobj (hm _ _ hmut).1
            refine sat_write .created (congrArg Prod.snd hsv) ?_ rfl
              (fun x b => ⟨⟨rfl, Or.inl rfl⟩, rfl, Or.inr hw⟩) rfl hw
              ⟨Or.inl rfl, Or.inr hw⟩
            rw [hsv]
    | some old =>
        rw [storedOr_of_some hobj] at hcall
        rw [serve_get_some hobj]
        dsimp only
        rw [hcall]
        cases hmut : mutate old.1 with
        | error e => exact .fail (Or.inl rfl)
        | ok o =>
            dsimp only
            by_cases heq : o = old.1
            · rw [if_pos heq]
              exact .ret ⟨rfl, old, hobj, by rw [hmut, heq]⟩
            · rw [if_neg heq]
              have hw : Writes key mutate s (s.put (s.stamp o)) :=
                ⟨o, by rw [storedOr_of_some hobj, hmut], rfl⟩
              obtain ⟨hkey, hrv, hfin⟩ := hm _ _ hmut
              have hsv := serve_update_read hk hobj
                (hkey.trans old.2) hrv hfin heq
              refine sat_write .updated (congrArg Prod.snd hsv) ?_ rfl
                (fun x b => ⟨⟨rfl, Or.inl rfl⟩, rfl, Or.inr hw⟩) rfl hw
                ⟨Or.inl rfl, Or.inr hw⟩
              rw [hsv]
  · exact .fail (Or.inl rfl)

-- ==================================================== reconcileObject

section

variable {what reason : String} {cache : DistributedCache}
  {message : OperationResult → String}

theorem reconcileObject_sat (hk : k ≠ .distributedCache)
    (hm : Keeps mutate) :
    (reconcileObject k key what mutate cache reason message).Sat api s
      (WritesAtMost key mutate s) (EndsSettled key mutate s) := by
  have hcu : (createOrUpdate k key mutate).Sat api s _ _ :=
    createOrUpdate_sat hk hm
  -- what is known once the failure has been made a value
  have hattempt : (createOrUpdate k key mutate).attempt.Sat api s
      (WritesAtMost key mutate s)
      fun res s' => match res with
        | .ok x => Upserted key mutate s (.ofExcept x) s'
        | .error _ => False
        | .crashed => s' = s := by
    refine Prog.Sat.attempt (hcu.imp ?_ fun _ _ h => h)
      (fun _ _ h => h) (fun _ _ h => h) fun _ h => h
    intro e he
    obtain ⟨hb, ha | ha⟩ := he
    · exact ⟨Or.inl hb, Or.inl (ha.trans hb.symm)⟩
    · exact ⟨Or.inl hb, Or.inr ⟨hb, ha⟩⟩
  -- the event after a write
  have hevent : ∀ s' text, Writes key mutate s s' →
      (request (.event cache.ns reason text)).Sat api s'
        (WritesAtMost key mutate s) (EndsSettled key mutate s) := by
    intro s' text hw
    exact Prog.Sat.read rfl (Or.inr hw)
      (fun x b => ⟨Or.inr hw, Or.inl rfl⟩) (.ret (Or.inr hw))
      (.ret (Or.inr hw))
  refine Prog.Sat.bind hattempt ?_ (fun _ _ h => h.elim)
    (fun _ h => Or.inl h)
  intro x s' h
  cases x with
  | error e => exact .fail h
  | ok op =>
      cases op with
      | none => exact .ret (Or.inl h)
      | created => exact hevent s' (message .created) h
      | updated => exact hevent s' (message .updated) h

/-- Undisturbed, the callback's error is the only one. -/
theorem createOrUpdate_run (hk : k ≠ .distributedCache)
    (hm : Keeps mutate) {o : Object k}
    (ho : mutate (s.storedOr k key) = .ok o) :
    ∃ op, ((createOrUpdate k key mutate).run api s).1 = .ok op := by
  have hcall : callMutate key mutate (s.storedOr k key) = .ok o :=
    (callMutate_eq hm).trans ho
  unfold createOrUpdate
  simp only [bind, pure, Prog.bind, request, Prog.run_call]
  cases hobj : s.objects k key with
  | none =>
      rw [serve_get_none hobj]
      dsimp only
      rw [if_pos (show errNotFound.isNotFound = true from rfl)]
      rw [storedOr_of_none hobj] at hcall ho
      rw [hcall]
      dsimp only
      rw [Prog.run_call, serve_create_missing hobj (hm _ _ ho).1]
      exact ⟨_, rfl⟩
  | some old =>
      rw [serve_get_some hobj]
      dsimp only
      rw [storedOr_of_some hobj] at hcall ho
      rw [hcall]
      dsimp only
      by_cases heq : o = old.1
      · rw [if_pos heq]
        exact ⟨_, rfl⟩
      · obtain ⟨hkey, hrv, hfin⟩ := hm _ _ ho
        rw [if_neg heq, Prog.run_call, serve_update_read hk hobj
          (hkey.trans old.2) hrv hfin heq]
        exact ⟨_, rfl⟩

theorem reconcileObject_run (hk : k ≠ .distributedCache)
    (hm : Keeps mutate) {o : Object k}
    (ho : mutate (s.storedOr k key) = .ok o) :
    ((reconcileObject k key what mutate cache reason message).run api s).1
      = .ok () := by
  obtain ⟨op, hop⟩ := createOrUpdate_run hk hm ho
  unfold reconcileObject
  rw [Prog.run_bind, Prog.run_attempt, hop]
  cases op <;> rfl

end

end

end CacheOperator
