/-
The phases of `Reconcile`, one guarantee each.

The drain, the StatefulSet and the ring concern three things: the
StatefulSet, the ring ConfigMap and the pods of the cache (`core`). The
cell, the Service and every status report leave all three alone
(`Peripheral`). The StatefulSet phase and the ring phase write one
object each, and what they write is the callback's object.
-/
import CacheOperator.Proofs.Calls
import CacheOperator.Proofs.CreateOrUpdate

namespace CacheOperator

open Lib

-- ====================================================== the callbacks

section

variable {k : Kind} {cache : DistributedCache} {component : String}
  {body : Object k → k.Body} {o o' : Object k}

/-- The object would have the cache for a controller but has somebody
else. -/
def Foreign (cache : DistributedCache) (o : Object k) : Prop :=
  isCrossNamespaceChild cache = false
    ∧ ∃ ref, o.metadata.controller = some ref
      ∧ ¬(ref.kind = cacheKind ∧ ref.name = cache.name)

instance (cache : DistributedCache) (o : Object k) :
    Decidable (Foreign cache o) :=
  inferInstanceAs (Decidable (isCrossNamespaceChild cache = false
    ∧ ∃ ref ∈ o.metadata.controller,
      ¬(ref.kind = cacheKind ∧ ref.name = cache.name)))

theorem not_foreign_fresh (key : NamespacedName) :
    ¬Foreign cache (fresh k key) := by
  rintro ⟨-, ref, href, -⟩
  cases href

/-- What the callback's object is, when there is one. -/
theorem mutateOwned_ok (h : mutateOwned cache component body o = .ok o') :
    o'.body = body o ∧ o'.key = o.key
      ∧ o'.metadata.resourceVersion = o.metadata.resourceVersion
      ∧ o'.metadata.finalizers = o.metadata.finalizers
      ∧ ¬Foreign cache o' ∧ ¬Foreign cache o := by
  unfold mutateOwned setControllerReferenceIfSameNamespace at h
  by_cases hx : isCrossNamespaceChild cache = true
  · rw [if_pos hx] at h
    cases h
    have hcross : ∀ c : Object k, ¬Foreign cache c := by
      rintro c ⟨hf, -⟩
      rw [hx] at hf
      cases hf
    exact ⟨rfl, rfl, rfl, rfl, hcross _, hcross _⟩
  · rw [if_neg hx] at h
    unfold setControllerReference at h
    -- both ways to succeed store the cache's own reference
    have hown : ∀ {c : Object k}, c.metadata.controller
        = some ⟨cacheKind, cache.name, cache.metadata.uid⟩ →
        ¬Foreign cache c := by
      rintro c hc ⟨-, ref, href, hne⟩
      rw [hc] at href
      cases href
      exact hne ⟨rfl, rfl⟩
    dsimp only at h
    split at h
    · next hnone =>
      cases h
      refine ⟨rfl, rfl, rfl, rfl, hown rfl, ?_⟩
      rintro ⟨-, ref, href, -⟩
      rw [show o.metadata.controller = none from hnone] at href
      cases href
    · next ref href =>
      split at h
      · next hmine =>
        cases h
        refine ⟨rfl, rfl, rfl, rfl, hown rfl, ?_⟩
        rintro ⟨-, ref', href', hne⟩
        rw [show o.metadata.controller = some ref from href] at href'
        cases href'
        exact hne hmine
      · cases h

/-- The callback fails for a foreign object only. -/
theorem mutateOwned_of_not_foreign (h : ¬Foreign cache o) :
    ∃ o', mutateOwned cache component body o = .ok o' := by
  unfold mutateOwned setControllerReferenceIfSameNamespace
  by_cases hx : isCrossNamespaceChild cache = true
  · rw [if_pos hx]
    exact ⟨_, rfl⟩
  · rw [if_neg hx]
    unfold setControllerReference
    dsimp only
    split
    · exact ⟨_, rfl⟩
    · next ref href =>
      by_cases hown : ref.kind = cacheKind ∧ ref.name = cache.name
      · rw [if_pos hown]
        exact ⟨_, rfl⟩
      · exact absurd ⟨Bool.eq_false_iff.mpr hx, ref, href, hown⟩ h

theorem keeps_mutateOwned : Keeps (mutateOwned cache component body) := by
  intro o o' h
  obtain ⟨-, hkey, hrv, hfin, -, -⟩ := mutateOwned_ok h
  exact ⟨hkey, hrv, hfin⟩

theorem keeps_mutateCellNamespace :
    Keeps (mutateCellNamespace cache) := by
  intro o o' h
  cases h
  exact ⟨rfl, rfl, rfl⟩

end

-- ================================================= what a write leaves

section

variable {k : Kind} {key : NamespacedName} {cache : DistributedCache}
  {component : String} {body : Object k → k.Body} {s s' : Cluster}

/-- After the phase the object is there, with the body the callback
computed from the one found. -/
theorem settles_stored
    (h : Settles key (mutateOwned cache component body) s s') :
    ∃ o, s'.objects k key = some o ∧ ¬Foreign cache o.1
      ∧ o.1.body = body (s.storedOr k key) := by
  rcases h with ⟨rfl, o, ho, hm⟩ | ⟨o, hm, rfl⟩
  · obtain ⟨hb, -, -, -, hnf, -⟩ := mutateOwned_ok hm
    exact ⟨o, ho, hnf, by rw [storedOr_of_some ho]; exact hb⟩
  · obtain ⟨hb, hkey, -, -, hnf, -⟩ := mutateOwned_ok hm
    have hk : (s.stamp o).key = key := hkey.trans storedOr_key
    subst hk
    exact ⟨⟨s.stamp o, rfl⟩, Cluster.put_objects_self _, hnf, hb⟩

theorem writes_stored
    (h : Writes key (mutateOwned cache component body) s s') :
    ∃ o, s'.objects k key = some o ∧ ¬Foreign cache o.1
      ∧ o.1.body = body (s.storedOr k key) :=
  settles_stored (Or.inr h)

/-- Everything else is as it was. -/
theorem writes_frame {mutate : Object k → Except GoError (Object k)}
    (hm : Keeps mutate) (h : Writes key mutate s s') :
    s'.pods = s.pods ∧ ∀ k' key', Target.object k key ≠ .object k' key' →
      s'.objects k' key' = s.objects k' key' := by
  obtain ⟨o, ho, rfl⟩ := h
  have hkey : (s.stamp o).key = key :=
    (hm _ _ ho).1.trans storedOr_key
  refine ⟨rfl, fun k' key' hne => Cluster.put_objects_of_ne ?_⟩
  rw [hkey]
  exact hne

end

-- ============================================ the phases on the side

/-- What the drain, the StatefulSet phase and the ring phase are
about. -/
def Cluster.core (cache : DistributedCache) (s : Cluster) :
    Option {o : Object .statefulSet // o.key = statefulSetKey cache}
      × Option {o : Object .configMap // o.key = ringKey cache} × PodSet :=
  (s.objects .statefulSet (statefulSetKey cache),
    s.objects .configMap (ringKey cache), s.pods)

/-- The call writes none of what `core` shows, for any cache, and reads
no StatefulSet. -/
def Request.Peripheral (r : Request) : Prop :=
  (∀ key, r ≠ .get .statefulSet key) ∧
    match r.target with
    | none => True
    | some (.object k _) => k ≠ .statefulSet ∧ k ≠ .configMap
    | some (.pod _) => False

theorem core_serve (cache : DistributedCache) (r : Request) (s : Cluster)
    (h : r.Peripheral) : (api.serve r s).2.core cache = s.core cache := by
  obtain ⟨-, h⟩ := h
  have hobj : ∀ k key, k = .statefulSet ∨ k = .configMap →
      (api.serve r s).2.objects k key = s.objects k key := by
    intro k key hk
    refine serve_objects fun ht => ?_
    rw [ht] at h
    rcases hk with rfl | rfl
    · exact h.1 rfl
    · exact h.2 rfl
  have hpods : (api.serve r s).2.pods = s.pods := by
    refine serve_pods fun key ht => ?_
    rw [ht] at h
    exact h
  unfold Cluster.core
  rw [hobj _ _ (Or.inl rfl), hobj _ _ (Or.inr rfl), hpods]

section

variable {cache : DistributedCache} {now : Time} {s : Cluster}

/-- A sub-reconciler of another kind is peripheral. -/
theorem Request.OfObject.peripheral {k : Kind} {key : NamespacedName}
    {r : Request} (h : r.OfObject cache k key) (hsts : k ≠ .statefulSet)
    (hcm : k ≠ .configMap) : r.Peripheral := by
  cases h with
  | get =>
      refine ⟨fun key h => ?_, trivial⟩
      injection h with h
      exact hsts h
  | create o h => exact ⟨fun _ => nofun, hsts, hcm⟩
  | update o h => exact ⟨fun _ => nofun, hsts, hcm⟩
  | event reason text => exact ⟨fun _ => nofun, trivial⟩

theorem reconcileCell_peripheral :
    (reconcileCell cache).Uses Request.Peripheral :=
  reconcileCell_uses fun _ _ _ _ hsts hcm h => h.peripheral hsts hcm

theorem reconcileServiceTwice_peripheral :
    (reconcileServiceTwice cache).Uses Request.Peripheral :=
  reconcileServiceTwice_uses fun _ h => h.peripheral (by simp) (by simp)

theorem peripheral_updateStatus (c : DistributedCache) :
    (Request.updateStatus c).Peripheral :=
  ⟨fun _ => nofun, by simp, by simp⟩

theorem finish_peripheral {b : Bool} {ring : Ring} :
    (finish now cache b ring).Uses Request.Peripheral :=
  finish_uses fun c _ => peripheral_updateStatus c

end

end CacheOperator
