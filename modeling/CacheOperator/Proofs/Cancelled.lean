/-
A scale-down that is cancelled.

Nothing takes a drain annotation off a pod. When the user lowers the
replicas, a `Reconcile` annotates the pods that are to go, and the user
raises the replicas again, these pods stay annotated, and out of the
ring, for as long as they live. Without such an edit no pod that the
spec asks for is ever annotated (`NoneHeldBack`), and every `Reconcile`
that reaches its end has each of them in the ring once it is ready.
-/
import CacheOperator.Proofs.DrainRuns
import CacheOperator.Proofs.Ordinals

namespace CacheOperator

open Lib

/-- No pod of the cache that the spec asks for carries a drain
annotation. -/
def NoneHeldBack (key : NamespacedName) (s : Cluster) : Prop :=
  ∀ stored, s.objects .distributedCache key = some stored →
    stored.1.metadata.deleting = false →
    ∀ q ∈ cachePods stored.1 s,
      (q.metadata.annotations.get drainAnnotation).isSome →
      ∀ i : Int, i < (desiredReplicas stored.1).toInt →
        q.name ≠ podName stored.1 i

/-- The events of a run in which no edit asks for an annotated pod. -/
def ClusterEvent.LeavesNoneHeldBack (key : NamespacedName) :
    ClusterEvent → Prop
  | .reconcile _ _ => True
  | .change s' => NoneHeldBack key s'

section

variable {srt : SliceSort} {now : Time} {cache : DistributedCache}
  {key : NamespacedName} {s s' : Cluster} {fs : List Fault}

/-- A doomed pod is not one that the spec asks for. -/
theorem ne_podName_of_doomed {q : Pod} (h : Doomed cache s q) {i : Int}
    (hi : i < (desiredReplicas cache).toInt) : q.name ≠ podName cache i := by
  intro hname
  obtain ⟨sts, -, hmem⟩ := h
  obtain ⟨j, hj, -, hj'⟩ := mem_doomedNames.mp hmem
  have hij : j = i := podName_injective (hj'.trans hname)
  omega

/-- Annotating doomed pods holds back none that the spec asks for. -/
theorem NoneHeldBack.annotated (h : NoneHeldBack key s)
    {stored : {o : DistributedCache // o.key = key}}
    (hstored : s.objects .distributedCache key = some stored)
    (hlive : stored.1.metadata.deleting = false)
    (hpods : PodsAnnotated now stored.1 s s') {q : Pod}
    (hq : q ∈ cachePods stored.1 s')
    (hann : (q.metadata.annotations.get drainAnnotation).isSome) {i : Int}
    (hi : i < (desiredReplicas stored.1).toInt) :
    q.name ≠ podName stored.1 i := by
  rcases hpods.fresh q (mem_cachePods hq) with hmem | ⟨hd, -⟩
  · exact h stored hstored hlive q (cachePods_of_mem hq hmem) hann i hi
  · exact ne_podName_of_doomed hd hi

theorem noneHeldBack_reconcile (h : NoneHeldBack key s) :
    NoneHeldBack key ((reconcile srt now key).exec api fs s).state := by
  intro stored' hstored' hlive' q hq hann i hi
  have hsame : ((reconcile srt now key).exec api fs s).state.live key
      = s.live key := (reconcile_live srt now key s fs).2
  rw [live_of_stored hstored' hlive'] at hsame
  obtain ⟨stored, hstored, hlive, hspec⟩ := live_eq_some hsame.symm
  have hcell : SameCell stored.1 stored'.1 :=
    sameCell_of_spec (by rw [hspec])
  rw [hcell.cachePods] at hq
  rw [hcell.podName]
  refine h.annotated hstored hlive
    (reconcile_effect srt now hstored hlive fs).pods hq hann ?_
  unfold desiredReplicas at hi ⊢
  rw [hspec]
  exact hi

theorem noneHeldBack_of_run (h : NoneHeldBack key s)
    (hrun : Run (clusterStep srt key)
      (fun _ e => e.LeavesNoneHeldBack key) s s') :
    NoneHeldBack key s' := by
  refine hrun.invariant (fun s e ih he => ?_) h
  cases e with
  | reconcile now fs => exact noneHeldBack_reconcile ih
  | change s'' => exact he

/-- A ring with a member is stored when the phases return it. -/
theorem OwnedReturned.stored_of_member {b : Bool} {ring : Ring}
    {m : String} (h : OwnedReturned srt now cache s s' b ring)
    (hm : m ∈ ring.members) : storedRing cache s' = some ring := by
  rcases h.published with ⟨-, hstored⟩ | ⟨hskip, hsame⟩
  · exact hstored
  · rw [storedRing_congr hsame]
    have heq := (skipsWrite_iff.mp hskip).1
    rw [currentRing_eq] at heq
    cases hr : storedRing cache s with
    | none =>
        rw [hr] at heq
        rw [heq] at hm
        cases hm
    | some r =>
        rw [hr] at heq
        rw [heq]
        rfl

end

/-- While no edit asks for an annotated pod, every `Reconcile` that
reaches its end has every ready pod that the spec asks for in the
published ring. -/
theorem spec_pods_are_published (srt : SliceSort) (key : NamespacedName)
    (s₀ s : Cluster) (hstart : NoneHeldBack key s₀)
    (hrun : Run (clusterStep srt key)
      (fun _ e => e.LeavesNoneHeldBack key) s₀ s)
    (now : Time) (stored : {o : DistributedCache // o.key = key})
    (hstored : s.objects .distributedCache key = some stored)
    (hlive : stored.1.metadata.deleting = false)
    (hfin : drainFinalizer ∈ stored.1.metadata.finalizers)
    (res : ReconcileResult) (s' : Cluster)
    (hok : (reconcile srt now key).run api s = (.ok res, s'))
    (n : Int32) (hn : stored.1.body.spec.replicas = some n)
    (p : Pod) (hp : p ∈ cachePods stored.1 s')
    (i : Nat) (hi : (i : Int) < n.toInt)
    (hname : p.name = podName stored.1 i)
    (hrunning : p.phase = .running) (hready : isPodReady p = true)
    (hdel : p.metadata.deleting = false) :
    ∃ ring, storedRing stored.1 s' = some ring ∧ p.name ∈ ring.members := by
  have hnone := noneHeldBack_of_run hstart hrun
  rw [reconcile_run_live hstored hlive hfin] at hok
  obtain ⟨b, ring, s1, -, hret, rfl, x, hx⟩ := reconcileLive_run_ok hok
  have hcore := core_serve stored.1
    (.updateStatus (observed now ring stored.1)) s1
    (peripheral_updateStatus _)
  rw [cachePods_congr (core_pods hcore)] at hp
  -- the pod carries no annotation, so it is eligible
  have hunmarked : p.metadata.annotations.get drainAnnotation = none := by
    by_contra hann
    refine hnone.annotated hstored hlive hret.pods hp
      (Option.ne_none_iff_isSome.mp hann) ?_ hname
    unfold desiredReplicas
    rw [hn]
    exact hi
  have hrange : (i : Int) < 2 ^ 63 := by
    have := n.toInt_lt
    omega
  have hentry : ringEntry p = some (p.name, (i : Int)) := by
    refine ringEntry_eq_some.mpr ⟨hdel, hunmarked, hrunning, hready, ?_, rfl⟩
    rw [hname]
    exact podOrdinal_podName (by omega) hrange
  rw [storedRing_congr (core_cm hcore)]
  have hmem : p.name ∈ ring.members := by
    rw [hret.eq, desiredRing_members]
    exact mem_computeMembers.mpr ⟨p, hp, i, hentry⟩
  exact ⟨ring, hret.stored_of_member hmem, hmem⟩

-- =============================================================== edits

/-- The object with another number of replicas. -/
def withReplicas (cache : DistributedCache) (n : Int32) :
    DistributedCache :=
  { cache with
    metadata :=
      { cache.metadata with generation := cache.metadata.generation + 1 }
    body :=
      { cache.body with spec := { cache.body.spec with replicas := some n } } }

/-- A user's edit of `spec.replicas`. -/
def setReplicas (key : NamespacedName) (n : Int32) (s : Cluster) :
    Cluster :=
  match s.objects .distributedCache key with
  | none => s
  | some o => s.put (s.stamp (withReplicas o.1 n))

theorem churn_setReplicas (key : NamespacedName) (n : Int32)
    (s : Cluster) : Churn key s (setReplicas key n s) := by
  unfold setReplicas
  split
  · exact ⟨fun _ _ => rfl, fun spec h => ⟨spec, h, rfl⟩,
      fun q hq raw hraw => ⟨q, hq, rfl, hraw⟩⟩
  · next o ho =>
    refine ⟨fun _ _ => ?_, fun spec' h => ?_,
      fun q hq raw hraw => ⟨q, hq, rfl, hraw⟩⟩
    · exact Cluster.put_objects_of_ne (by simp)
    · have hput : (s.put (s.stamp (withReplicas o.1 n))).objects
          .distributedCache key
          = some ⟨s.stamp (withReplicas o.1 n), o.2⟩ :=
        Cluster.put_objects_key (s.stamp (withReplicas o.1 n)) o.2
      obtain ⟨stored, hstored, hlive, rfl⟩ := live_eq_some h
      rw [hput] at hstored
      cases hstored
      exact ⟨_, live_of_stored ho hlive, rfl⟩

-- ==================================================== a small cluster

/-- Two replicas, and the second pod ready or not. -/
def ordersGrown (ready : Bool) : Cluster :=
  ordersCluster 2 2 (ordersPods (true, none) (ready, none))

theorem ordersGrown_noneHeldBack (ready : Bool) :
    NoneHeldBack ordersKey (ordersGrown ready) := by
  have hnone : ∀ q ∈ (ordersGrown ready).pods.items,
      q.metadata.annotations.get drainAnnotation = none := by
    cases ready with
    | true => decide
    | false => decide
  intro stored _ _ q hq hann
  rw [hnone q (mem_cachePods hq)] at hann
  cases hann

/-- The second pod becomes ready, and the next `Reconcile` has it in the
ring. -/
theorem spec_pods_are_published_orders :
    ∃ ring, storedRing (ordersCache 2)
        ((reconcile .insertionSort (Time.ofUnix 100) ordersKey).run api
          (ordersGrown true)).2 = some ring
      ∧ (ordersPod 1 true none).name ∈ ring.members := by
  have hrun : Run (clusterStep .insertionSort ordersKey)
      (fun _ e => e.LeavesNoneHeldBack ordersKey) (ordersGrown false)
      (ordersGrown true) :=
    Run.nil.snoc (ClusterEvent.change (ordersGrown true))
      (ordersGrown_noneHeldBack true)
  exact spec_pods_are_published .insertionSort ordersKey
    (ordersGrown false) (ordersGrown true) (ordersGrown_noneHeldBack false)
    hrun (Time.ofUnix 100) ⟨ordersCache 2, rfl⟩ rfl rfl (by decide) {} _
    (Prod.ext (by decide +kernel) rfl) 2 rfl (ordersPod 1 true none)
    (by decide +kernel) 1 (by decide) rfl rfl (by decide) rfl

/-- The user asked for one replica, the drain of the second pod has
started, and the user asks for two again. -/
def ordersRegrown : Cluster := setReplicas ordersKey 2 (ordersDraining [])

/-- The second pod is running and ready, the spec asks for it, and the
`Reconcile` reaches its end with the pod out of the ring. -/
theorem cancelled_drain_is_kept :
    Run (clusterStep .insertionSort ordersKey)
        (fun s e => e.Possible ordersKey s) ordersShrunk ordersRegrown
      ∧ (ordersRegrown.live ordersKey).map DistributedCacheSpec.replicas
        = some (some 2)
      ∧ ∃ res, ((reconcile .insertionSort (Time.ofUnix 101) ordersKey).run
          api ordersRegrown).1 = .ok res
        ∧ storedRing (ordersCache 2)
            ((reconcile .insertionSort (Time.ofUnix 101) ordersKey).run api
              ordersRegrown).2 = some ⟨2, ["orders-cache-0"]⟩
        ∧ ∃ p ∈ cachePods (ordersCache 2)
            ((reconcile .insertionSort (Time.ofUnix 101) ordersKey).run api
              ordersRegrown).2,
          p.name = "orders-cache-1" ∧ p.name = podName (ordersCache 2) 1
            ∧ p.phase = .running ∧ isPodReady p = true
            ∧ p.metadata.deleting = false := by
  refine ⟨?_, by decide +kernel, {}, by decide +kernel⟩
  · have hdrain : Run (clusterStep .insertionSort ordersKey)
        (fun s e => e.Possible ordersKey s) ordersShrunk
        (ordersDraining []) := ordersDraining_run trivial
    exact hdrain.snoc (.change ordersRegrown)
      (churn_setReplicas ordersKey 2 _)

end CacheOperator
