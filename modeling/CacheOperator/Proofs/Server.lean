/-
What each call can change.

A call writes at most one object (`Request.target`); every other object
and, unless it updates a pod, every pod is as before. With `Sat.of_uses`
this turns the list of calls a piece of the operator can make into a
frame for it.

The second half says what the writes that matter do when they are
served: an update of the object that was just read succeeds.
-/
import CacheOperator.Lib.Sat
import CacheOperator.Model.Cluster

namespace CacheOperator

open Lib

/-- What a call may write. -/
inductive Target where
  | object (k : Kind) (key : NamespacedName)
  | pod (key : NamespacedName)
deriving DecidableEq

/-- The one thing a call may write. -/
def Request.target : Request → Option Target
  | .get _ _ => none
  | .create k o => some (.object k o.key)
  | .update k o => some (.object k o.key)
  | .updateStatus cache => some (.object .distributedCache cache.key)
  | .deleteNamespace name => some (.object .ns ⟨"", name⟩)
  | .listPods _ _ => none
  | .updatePod p => some (.pod p.key)
  | .event _ _ _ => none

/-- A call with the states around it. -/
abbrev Call := Entry Api Cluster

namespace Cluster

variable {s : Cluster} {k : Kind} {key : NamespacedName}

theorem put_objects_self (o : Object k) :
    (s.put o).objects k o.key = some ⟨o, rfl⟩ := by
  simp [put]

theorem put_objects_key (o : Object k) (ho : o.key = key) :
    (s.put o).objects k key = some ⟨o, ho⟩ := by
  subst ho
  exact put_objects_self o

theorem put_objects_of_ne {k' : Kind} {o : Object k'}
    (h : Target.object k' o.key ≠ .object k key) :
    (s.put o).objects k key = s.objects k key := by
  unfold put
  by_cases hk : k = k'
  · subst hk
    have hkey : key ≠ o.key := by
      rintro rfl
      exact h rfl
    simp [hkey]
  · simp [Function.update_of_ne hk]

theorem remove_objects_of_ne {k' : Kind} {key' : NamespacedName}
    (h : Target.object k' key' ≠ .object k key) :
    (s.remove k' key').objects k key = s.objects k key := by
  unfold remove
  by_cases hk : k = k'
  · subst hk
    have hkey : key ≠ key' := by
      rintro rfl
      exact h rfl
    simp [hkey]
  · simp [Function.update_of_ne hk]

theorem write_objects_of_ne {k' : Kind} {old o : Object k'}
    (h : Target.object k' o.key ≠ .object k key) :
    (s.write old o).2.objects k key = s.objects k key := by
  unfold write
  by_cases ho : o = old
  · rw [if_pos ho]
  · rw [if_neg ho]
    exact put_objects_of_ne h

/-- A write stores the object, stamped unless nothing changed. -/
theorem write_objects_self {old o : Object k} {hkey : old.key = key}
    (hold : s.objects k key = some ⟨old, hkey⟩) (hok : o.key = key) :
    ∃ o', (s.write old o).2.objects k key = some o'
      ∧ (o'.1 = o ∨ o'.1 = s.stamp o) := by
  unfold write
  by_cases ho : o = old
  · rw [if_pos ho]
    exact ⟨_, hold, Or.inl ho.symm⟩
  · rw [if_neg ho]
    subst hok
    exact ⟨_, put_objects_self (s.stamp o), Or.inr rfl⟩

theorem write_pods {old o : Object k} : (s.write old o).2.pods = s.pods := by
  unfold write
  by_cases ho : o = old
  · rw [if_pos ho]
  · rw [if_neg ho]
    rfl

end Cluster

theorem admitted_key {k : Kind} (old o : Object k) :
    (admitted k old o).key = o.key := by
  cases k <;> rfl

theorem serve_get_none {s : Cluster} {k : Kind} {key : NamespacedName}
    (h : s.objects k key = none) :
    api.serve (.get k key) s = (.error errNotFound, s) := by
  show (s.serveGet k key, s) = _
  unfold Cluster.serveGet
  rw [h]

theorem serve_get_some {s : Cluster} {k : Kind} {key : NamespacedName}
    {o : {o : Object k // o.key = key}} (h : s.objects k key = some o) :
    api.serve (.get k key) s = (.ok o, s) := by
  show (s.serveGet k key, s) = _
  unfold Cluster.serveGet
  rw [h]

/-- A cache object with another status. -/
def withStatus (cache : DistributedCache)
    (status : DistributedCacheStatus) : DistributedCache :=
  { cache with body := { cache.body with status := status } }

/-- A status update leaves an object alone, or changes its status. -/
theorem serve_updateStatus (s : Cluster) (c : DistributedCache)
    (key : NamespacedName) :
    (api.serve (.updateStatus c) s).2.objects .distributedCache key
        = s.objects .distributedCache key
      ∨ ∃ old new, s.objects .distributedCache key = some old
        ∧ (api.serve (.updateStatus c) s).2.objects .distributedCache key
          = some new
        ∧ (new.1 = withStatus old.1 c.body.status
          ∨ new.1 = s.stamp (withStatus old.1 c.body.status)) := by
  show (s.serveUpdateStatus c).2.objects _ key = _
    ∨ ∃ old new, _ ∧ (s.serveUpdateStatus c).2.objects _ key = _ ∧ _
  unfold Cluster.serveUpdateStatus
  split
  · exact Or.inl rfl
  · next old hkey hold =>
    split
    · exact Or.inl rfl
    · by_cases hk : key = c.key
      · subst hk
        obtain ⟨new, hnew, hcase⟩ :=
          Cluster.write_objects_self (o := withStatus old c.body.status)
            hold hkey
        exact Or.inr ⟨⟨old, hkey⟩, new, hold, hnew, hcase⟩
      · refine Or.inl (Cluster.write_objects_of_ne ?_)
        show Target.object _ old.key ≠ _
        rw [hkey]
        intro h
        injection h with _ h
        exact hk h.symm

/-- A status update that succeeds has stored the status. -/
theorem serve_updateStatus_ok {s : Cluster} {c x : DistributedCache}
    {key : NamespacedName} (hkey : c.key = key)
    (h : (api.serve (.updateStatus c) s).1 = .ok x) :
    ∃ new, (api.serve (.updateStatus c) s).2.objects .distributedCache
        key = some new ∧ new.1.body.status = c.body.status := by
  subst hkey
  show ∃ new, (s.serveUpdateStatus c).2.objects _ c.key = some new ∧ _
  replace h : (s.serveUpdateStatus c).1 = .ok x := h
  unfold Cluster.serveUpdateStatus at h ⊢
  split at h
  · cases h
  · next old hkey hold =>
    split at h
    · cases h
    · next hrv =>
      rw [if_neg hrv]
      obtain ⟨new, hnew, hcase⟩ := Cluster.write_objects_self
        (o := withStatus old c.body.status) hold hkey
      refine ⟨new, hnew, ?_⟩
      rcases hcase with hcase | hcase
      · rw [hcase]
        rfl
      · rw [hcase]
        rfl

-- ========================================================= the frames

section

variable {s : Cluster} {r : Request}

/-- A call leaves every object alone but the one it is about. -/
theorem serve_objects {k : Kind} {key : NamespacedName}
    (h : r.target ≠ some (.object k key)) :
    (api.serve r s).2.objects k key = s.objects k key := by
  have hne : ∀ {t : Target}, r.target = some t → t ≠ .object k key := by
    intro t ht htk
    rw [ht, htk] at h
    exact h rfl
  cases r with
  | get k' key' => rfl
  | listPods ns labels => rfl
  | event ns reason message => rfl
  | create k' o =>
      show (s.serveCreate o).2.objects k key = _
      unfold Cluster.serveCreate
      split
      · rfl
      · exact Cluster.put_objects_of_ne (hne rfl)
  | update k' o =>
      show (s.serveUpdate o).2.objects k key = _
      unfold Cluster.serveUpdate
      split
      · rfl
      · next old hold _ =>
        split
        · rfl
        split
        · exact Cluster.remove_objects_of_ne (hne rfl)
        · refine Cluster.write_objects_of_ne ?_
          rw [admitted_key]
          exact hne rfl
  | updateStatus cache =>
      show (s.serveUpdateStatus cache).2.objects k key = _
      unfold Cluster.serveUpdateStatus
      split
      · rfl
      · next old hold _ =>
        split
        · rfl
        · refine Cluster.write_objects_of_ne ?_
          show Target.object _ old.key ≠ _
          rw [hold]
          exact hne rfl
  | deleteNamespace name =>
      show (s.serveDeleteNamespace name).2.objects k key = _
      unfold Cluster.serveDeleteNamespace
      split
      · rfl
      · next old hold _ =>
        refine Cluster.write_objects_of_ne ?_
        show Target.object _ old.key ≠ _
        rw [hold]
        exact hne rfl
  | updatePod p =>
      show (s.serveUpdatePod p).2.objects k key = _
      unfold Cluster.serveUpdatePod
      split
      · rfl
      split
      · rfl
      split
      · rfl
      · rfl

/-- Only an update of a pod changes pods. -/
theorem serve_pods (h : ∀ key, r.target ≠ some (.pod key)) :
    (api.serve r s).2.pods = s.pods := by
  cases r with
  | get k' key' => rfl
  | listPods ns labels => rfl
  | event ns reason message => rfl
  | create k' o =>
      show (s.serveCreate o).2.pods = _
      unfold Cluster.serveCreate
      split
      · rfl
      · rfl
  | update k' o =>
      show (s.serveUpdate o).2.pods = _
      unfold Cluster.serveUpdate
      split
      · rfl
      split
      · rfl
      split
      · rfl
      · exact Cluster.write_pods
  | updateStatus cache =>
      show (s.serveUpdateStatus cache).2.pods = _
      unfold Cluster.serveUpdateStatus
      split
      · rfl
      split
      · rfl
      · exact Cluster.write_pods
  | deleteNamespace name =>
      show (s.serveDeleteNamespace name).2.pods = _
      unfold Cluster.serveDeleteNamespace
      split
      · rfl
      · exact Cluster.write_pods
  | updatePod p => exact absurd rfl (h p.key)

/-- No call adds a pod, takes one away or renames one. -/
theorem serve_podKeys (r : Request) (s : Cluster) :
    (api.serve r s).2.pods.items.map Pod.key = s.pods.items.map Pod.key := by
  by_cases hpod : ∃ p, r = .updatePod p
  · obtain ⟨p, rfl⟩ := hpod
    show (s.serveUpdatePod p).2.pods.items.map Pod.key = _
    unfold Cluster.serveUpdatePod
    split
    · rfl
    split
    · rfl
    split
    · rfl
    · exact PodSet.keys_replaced ..
  · rw [serve_pods]
    intro key ht
    cases r with
    | updatePod p => exact hpod ⟨p, rfl⟩
    | _ => cases ht

theorem run_podKeys {α : Type} (p : Op α) (s : Cluster) :
    (p.run api s).2.pods.items.map Pod.key = s.pods.items.map Pod.key := by
  let view (s : Cluster) : List NamespacedName := s.pods.items.map Pod.key
  have hview : ∀ r s, True → view (api.serve r s).2 = view s :=
    fun r s _ => serve_podKeys r s
  exact Prog.run_frame hview (Prog.uses_any p) s

end

end CacheOperator
