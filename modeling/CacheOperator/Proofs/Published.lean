/-
The ring reported is the ring published, but for one case.

`reconcileRing` skips the write when the ring it computed equals the one
it goes on from and the ConfigMap has data. A ConfigMap whose data holds
no ring counts as the empty ring at version 0, so with no eligible pod
the write that would heal it is skipped (`Unhealed`): the ring returned
is not the one a client reads, because a client reads none. In every
other case the two agree, and so does the status that a `Reconcile`
reports.
-/
import CacheOperator.Model.Client
import CacheOperator.Proofs.Release

namespace CacheOperator

open Lib

section

variable {srt : SliceSort} {hashString : String → UInt32}
  {cache : DistributedCache} {s s' : Cluster}

-- ================================================== what a client reads

/-- A poll of the cache's ConfigMap decodes the stored ring. -/
theorem pollOnce_run {c : Client} (hc : c.ringConfigMap = ringKey cache) :
    (∀ r, storedRing cache s = some r →
      (pollOnce srt hashString c).run api s
        = (.ok (c.load srt hashString r, none), s))
      ∧ (storedRing cache s = none → ∃ e,
        (pollOnce srt hashString c).run api s = (.ok (c, some e), s)) := by
  obtain ⟨ringConfigMap, serviceFQDN, ring⟩ := c
  subst hc
  unfold storedRing CacheOperator.ringConfigMap payload pollOnce
    ringConfigMapKey
  simp only [bind, pure, Prog.bind, request, Prog.run_call]
  cases hcm : s.objects .configMap (ringKey cache) with
  | none =>
      rw [serve_get_none hcm]
      exact ⟨by simp, fun _ => ⟨_, rfl⟩⟩
  | some cm =>
      rw [serve_get_some hcm]
      dsimp only [Option.map_some, Option.bind_some]
      cases hraw : cm.1.body.data.get "ring.json" with
      | none => exact ⟨by simp, fun _ => ⟨_, rfl⟩⟩
      | some raw =>
          dsimp only [Option.bind_some]
          cases hring : unmarshalRing raw with
          | none => exact ⟨by simp, fun _ => ⟨_, rfl⟩⟩
          | some r =>
              refine ⟨fun r' h => ?_, by simp⟩
              cases h
              rfl

-- ================================================== the skipped write

theorem skipsWrite_iff {ring : Ring} {cm : Option (Object .configMap)} :
    skipsWrite ring cm = true ↔
      ring = currentRing cm ∧ 0 < (dataOf cm).size := by
  unfold skipsWrite
  rw [Bool.and_eq_true, Ring.equal_iff, decide_eq_true_eq]

/-- Who is left to publish after the drain: the eligible pods that are
not doomed. -/
theorem OwnedReturned.candidates {now : Time} {b : Bool} {ring : Ring}
    (h : OwnedReturned srt now cache s s' b ring) :
    (∀ p ∈ cachePods cache s', ringEntry p = none) ↔
      ∀ p, p ∈ cachePods cache s ∧ ¬Doomed cache s p →
        ringEntry p = none := by
  constructor
  · intro hnone p hp
    rcases h.pods.kept p (mem_cachePods hp.1) with hmem | hd
    · exact hnone p (cachePods_of_mem hp.1 hmem)
    · exact absurd hd hp.2
  · intro hnone p hp
    by_cases hd : Doomed cache s p
    · exact ringEntry_of_marked (h.marked p hp hd)
    · rcases h.pods.fresh p (mem_cachePods hp) with hmem | ⟨hd', -⟩
      · exact hnone p ⟨cachePods_of_mem hp hmem, hd⟩
      · exact absurd hd' hd

end

/-- The ring ConfigMap of the small cluster. -/
def ordersConfigMap (data : Dict String String) : Object .configMap :=
  { metadata :=
      { ns := "default", name := "orders-cache-ring", resourceVersion := 1
        created := true }
    body := { data := data } }

end CacheOperator
