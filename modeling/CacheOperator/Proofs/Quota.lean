/-
The quota of a cell against the replicas of its StatefulSet.

Both are written by the same Reconcile, but from different numbers: the
quota from the replicas the user asks for, the StatefulSet from those it
is held at while a scale-down drains. The quota has room for one more pod
and a quarter more memory, which is enough to cover the pods that are held
for small reductions only. A quarter more memory holds one more pod from
four replicas on, and all of it is computed in 32 and 64 bits.
-/
import CacheOperator.Proofs.Settled
import CacheOperator.Proofs.Status

namespace CacheOperator

open Lib

-- ========================================================== the limits

/-- A hard limit of the stored quota. -/
def hardLimit (cache : DistributedCache) (s : Cluster)
    (r : ResourceName) : Option Quantity :=
  (s.objects .resourceQuota ⟨targetNamespace cache, "cell-quota"⟩).bind
    fun o => o.1.body.hard.get r

/-- The memory of `n` pods. -/
def podMemory (cache : DistributedCache) (n : Int) : Int :=
  n * cache.body.spec.memoryPerPod.value.toInt

/-- The stored quota admits all pods of the stored StatefulSet. -/
def Covers (cache : DistributedCache) (s : Cluster) : Prop :=
  ∀ n, storedReplicas cache s = some n →
    (∃ pods, hardLimit cache s .pods = some pods
        ∧ n.toInt ≤ pods.value.toInt)
      ∧ ∀ r ∈ [ResourceName.limitsMemory, .requestsMemory],
        ∃ memory, hardLimit cache s r = some memory
          ∧ podMemory cache n.toInt ≤ memory.value.toInt

/-- The numbers the quota is computed from stay within their types. -/
structure Fits (cache : DistributedCache) (d : Int32) : Prop where
  replicas : cache.body.spec.replicas = some d
  nonneg : 0 ≤ d.toInt
  memory : 0 < cache.body.spec.memoryPerPod.value.toInt
  pods : d.toInt + 1 < 2 ^ 31
  headroom : podMemory cache d.toInt + podMemory cache d.toInt / 4 < 2 ^ 63

section
variable {srt : SliceSort} {now : Time} {cache : DistributedCache}
  {s s' : Cluster} {d : Int32}

theorem Fits.podMemory_nonneg (h : Fits cache d) :
    0 ≤ podMemory cache d.toInt :=
  Int.mul_nonneg h.nonneg (Int.le_of_lt h.memory)

theorem Fits.podCap (h : Fits cache d) :
    (podCap cache).toInt = d.toInt + 1 := by
  have hnonneg := h.nonneg
  have hpods := h.pods
  unfold CacheOperator.podCap desiredReplicas
  rw [h.replicas, Option.getD_some, Int32.toInt_add,
    show (1 : Int32).toInt = 1 from rfl]
  apply Int.bmod_eq_of_le <;> omega

theorem Fits.quotaMemory (h : Fits cache d) :
    (quotaMemory cache).value.toInt
      = podMemory cache d.toInt + podMemory cache d.toInt / 4 := by
  have hnonneg := h.podMemory_nonneg
  have hheadroom := h.headroom
  have htotal : (cache.body.spec.memoryPerPod.value
      * (desiredReplicas cache).toInt64).toInt
        = podMemory cache d.toInt := by
    have hcomm : cache.body.spec.memoryPerPod.value.toInt * d.toInt
        = podMemory cache d.toInt := Int.mul_comm ..
    unfold desiredReplicas
    rw [h.replicas, Option.getD_some, Int64.toInt_mul, Int32.toInt_toInt64,
      hcomm]
    apply Int.bmod_eq_of_le <;> omega
  have hquarter : (cache.body.spec.memoryPerPod.value
      * (desiredReplicas cache).toInt64 / 4).toInt
        = podMemory cache d.toInt / 4 := by
    rw [Int64.toInt_div, htotal, show (4 : Int64).toInt = 4 from rfl,
      Int.tdiv_eq_ediv_of_nonneg hnonneg]
    apply Int.bmod_eq_of_le <;> omega
  unfold CacheOperator.quotaMemory
  dsimp only
  rw [Int64.toInt_add, htotal, hquarter]
  apply Int.bmod_eq_of_le <;> omega

/-- The limits of a quota in shape. -/
theorem hardLimit_of_stands
    (h : Stands .resourceQuota ⟨targetNamespace cache, "cell-quota"⟩
      (mutateResourceQuota cache) s) :
    hardLimit cache s .pods = some ⟨(podCap cache).toInt64⟩
      ∧ ∀ r ∈ [ResourceName.limitsMemory, .requestsMemory],
        hardLimit cache s r = some (quotaMemory cache) := by
  obtain ⟨o, ho, hm⟩ := h
  obtain ⟨hbody, -⟩ := mutateOwned_ok hm
  unfold hardLimit
  rw [ho, Option.bind_some, hbody]
  refine ⟨rfl, ?_⟩
  intro r hr
  rw [Option.bind_some, hbody]
  simp only [List.mem_cons, List.not_mem_nil, or_false] at hr
  rcases hr with rfl | rfl <;> rfl

/-- The limits after the quota phase, whatever the quota was before. -/
theorem reconcileResourceQuota_limits (fs : List Fault)
    (hend : ((reconcileResourceQuota cache).exec api fs s).result
      = .ok ()) :
    hardLimit cache ((reconcileResourceQuota cache).exec api fs s).state
        .pods = some ⟨(podCap cache).toInt64⟩
      ∧ ∀ r ∈ [ResourceName.limitsMemory, .requestsMemory],
        hardLimit cache
          ((reconcileResourceQuota cache).exec api fs s).state r
          = some (quotaMemory cache) := by
  have hret : (reconcileResourceQuota cache).Returns api s fun _ s' =>
      Stands .resourceQuota ⟨targetNamespace cache, "cell-quota"⟩
          (mutateResourceQuota cache) s'
        ∧ Cluster.SameBut [.resourceQuota] s s' ∧ s'.pods = s.pods :=
    reconcileObject_stands (by simp) keeps_mutateOwned
      (steady_mutateOwned fun _ _ _ _ => rfl)
  exact hardLimit_of_stands (hret.exec hend).1

/-- With the quota in shape, it covers `n` replicas if these are within
its headroom. -/
theorem covers_iff {n : Int32} (hfits : Fits cache d)
    (hquota : Stands .resourceQuota ⟨targetNamespace cache, "cell-quota"⟩
      (mutateResourceQuota cache) s)
    (hn : storedReplicas cache s = some n) :
    Covers cache s ↔ n.toInt ≤ d.toInt + 1
      ∧ podMemory cache n.toInt
        ≤ podMemory cache d.toInt + podMemory cache d.toInt / 4 := by
  obtain ⟨hpods, hmemory⟩ := hardLimit_of_stands hquota
  constructor
  · intro h
    obtain ⟨⟨pods, hp, hle⟩, hmem⟩ := h n hn
    obtain ⟨memory, hm, hle'⟩ := hmem .limitsMemory (by simp)
    rw [hpods] at hp
    rw [hmemory _ (by simp)] at hm
    cases hp
    cases hm
    rw [Int32.toInt_toInt64, hfits.podCap] at hle
    rw [hfits.quotaMemory] at hle'
    exact ⟨hle, hle'⟩
  · intro ⟨hle, hle'⟩ n' hn'
    rw [hn] at hn'
    cases hn'
    refine ⟨⟨_, hpods, ?_⟩, fun r hr => ⟨_, hmemory r hr, ?_⟩⟩
    · rw [Int32.toInt_toInt64, hfits.podCap]
      exact hle
    · rw [hfits.quotaMemory]
      exact hle'

/-- Where the StatefulSet is held, it is held at more than is asked
for. -/
theorem heldReplicas_cases (b : Bool) (d : Int32) (c : Option Int32) :
    (∃ h, c = some h ∧ d < h ∧ b = false
        ∧ heldReplicas b (some d) c = some h)
      ∨ (∀ h, c = some h → d < h → b = true)
        ∧ heldReplicas b (some d) c = some d := by
  cases b with
  | true => exact Or.inr ⟨fun _ _ _ => rfl, rfl⟩
  | false =>
    cases c with
    | none => exact Or.inr ⟨nofun, rfl⟩
    | some h =>
      by_cases hlt : d < h
      · exact Or.inl ⟨h, rfl, hlt, rfl, if_pos hlt⟩
      · refine Or.inr ⟨?_, if_neg hlt⟩
        intro h' heq hlt'
        cases heq
        exact absurd hlt' hlt

end

/-- After a Reconcile to its end the quota of an isolated cache covers the
pods of the StatefulSet if and only if that is not held, or is held at no
more than one pod and a quarter of the memory above what is asked for. -/
theorem quota_covers_iff (srt : SliceSort) (now : Time)
    (key : NamespacedName) (fs : List Fault) (s : Cluster)
    (stored : {o : DistributedCache // o.key = key})
    (hstored : s.objects .distributedCache key = some stored)
    (hlive : stored.1.metadata.deleting = false)
    (hiso : isolated stored.1 = true) {d : Int32}
    (hfits : Fits stored.1 d) {r : ReconcileResult}
    (hend : ((reconcile srt now key).exec api fs s).result = .ok r)
    (hrequeue : r.requeue = false) :
    Covers stored.1 ((reconcile srt now key).exec api fs s).state
      ↔ ∀ h, storedReplicas stored.1 s = some h → d < h →
        ¬Permits now stored.1 s →
        h.toInt ≤ d.toInt + 1
          ∧ podMemory stored.1 h.toInt
            ≤ podMemory stored.1 d.toInt
              + podMemory stored.1 d.toInt / 4 := by
  obtain ⟨-, b, ring, s1, hconcluded⟩ :=
    (reconcile_returns hstored hlive).exec hend hrequeue
  generalize ((reconcile srt now key).exec api fs s).state = s'
    at hconcluded ⊢
  -- the status is all that the last call changes
  have hsame : Cluster.SameBut [.distributedCache] s1 s' := by
    rw [hconcluded.state]
    exact .of_updateStatus _
  have hquota := (hconcluded.owned.cell hiso).quota.sameBut hsame (by decide)
  have hreplicas : storedReplicas stored.1 s'
      = heldReplicas b (some d) (storedReplicas stored.1 s) := by
    rw [← storedOr_replicas (s := s), ← hfits.replicas,
      ← hconcluded.owned.replicas]
    unfold storedReplicas
    rw [hsame .statefulSet (by decide)]
  rcases heldReplicas_cases b d (storedReplicas stored.1 s)
    with ⟨h, hh, hlt, hb, hheld⟩ | ⟨hfree, hheld⟩
  · -- the StatefulSet is held at `h`
    have hno : ¬Permits now stored.1 s := by
      rw [← hconcluded.owned.permitted, hb]
      simp
    rw [covers_iff hfits hquota (hreplicas.trans hheld)]
    constructor
    · intro hcovers h' hh' _ _
      rw [hh] at hh'
      cases hh'
      exact hcovers
    · intro hall
      exact hall h hh hlt hno
  · -- it has what is asked for
    rw [covers_iff hfits hquota (hreplicas.trans hheld)]
    have hnonneg := hfits.podMemory_nonneg
    constructor
    · intro _ h hh hlt hno
      have hyes := hconcluded.owned.permitted.mp (hfree h hh hlt)
      exact absurd hyes hno
    · intro _
      omega

-- ============================================= the quota by itself

/-- The memory limits hold as many pods as the pod limit admits. -/
def HoldsPodCap (cache : DistributedCache) (s : Cluster) : Prop :=
  ∃ pods, hardLimit cache s .pods = some pods
    ∧ ∀ r ∈ [ResourceName.limitsMemory, .requestsMemory],
      ∃ memory, hardLimit cache s r = some memory
        ∧ podMemory cache pods.value.toInt ≤ memory.value.toInt

/-- The limits are the integers that the formulas stand for. -/
def ExactLimits (cache : DistributedCache) (d : Int) (s : Cluster) : Prop :=
  (∃ pods, hardLimit cache s .pods = some pods
      ∧ pods.value.toInt = d + 1 ∧ 0 < pods.value.toInt)
    ∧ ∀ r ∈ [ResourceName.limitsMemory, .requestsMemory],
      ∃ memory, hardLimit cache s r = some memory
        ∧ memory.value.toInt = podMemory cache d + podMemory cache d / 4
        ∧ 0 < memory.value.toInt

/-- A quarter of the pods is one more pod from four pods on. -/
theorem podMemory_succ_le_iff {cache : DistributedCache} {d : Int}
    (hm : 0 < cache.body.spec.memoryPerPod.value.toInt) :
    podMemory cache (d + 1) ≤ podMemory cache d + podMemory cache d / 4
      ↔ 4 ≤ d := by
  have hsucc : podMemory cache (d + 1)
      = podMemory cache d + cache.body.spec.memoryPerPod.value.toInt := by
    unfold podMemory
    rw [Int.add_mul, Int.one_mul]
  rw [hsucc, Int.add_le_add_iff_left, Int.le_ediv_iff_mul_le (by decide)]
  unfold podMemory
  rw [Int.mul_comm _ 4]
  exact Int.mul_le_mul_right hm

/-- The quota holds the pods its pod limit admits if and only if there are
at least four replicas. -/
theorem quota_holds_pod_cap_iff (cache : DistributedCache) (d : Int32)
    (hfits : Fits cache d) (fs : List Fault) (s : Cluster)
    (hend : ((reconcileResourceQuota cache).exec api fs s).result
      = .ok ()) :
    HoldsPodCap cache ((reconcileResourceQuota cache).exec api fs s).state
      ↔ 4 ≤ d.toInt := by
  obtain ⟨hpods, hmemory⟩ := reconcileResourceQuota_limits fs hend
  rw [← podMemory_succ_le_iff hfits.memory]
  constructor
  · intro h
    obtain ⟨pods, hp, hall⟩ := h
    obtain ⟨memory, hm, hle⟩ := hall .limitsMemory (by simp)
    rw [hpods] at hp
    rw [hmemory _ (by simp)] at hm
    cases hp
    cases hm
    rw [Int32.toInt_toInt64, hfits.podCap, hfits.quotaMemory] at hle
    exact hle
  · intro hle
    refine ⟨_, hpods, fun r hr => ⟨_, hmemory r hr, ?_⟩⟩
    rw [Int32.toInt_toInt64, hfits.podCap, hfits.quotaMemory]
    exact hle

/-- Four replicas of 64 MiB each. -/
theorem quota_holds_pod_cap_iff_orders :
    HoldsPodCap (ordersTenant 4) ((reconcileResourceQuota
        (ordersTenant 4)).exec api [] Cluster.empty).state
      ↔ 4 ≤ (4 : Int32).toInt :=
  quota_holds_pod_cap_iff (ordersTenant 4) 4
    ⟨rfl, by decide, by decide, by decide, by decide⟩ [] Cluster.empty
    (by decide +kernel)

/-- One replica of 64 MiB: the quota admits two pods, and 80 MiB. -/
theorem pod_cap_exceeds_memory :
    ((reconcileResourceQuota (ordersTenant 1)).exec api []
        Cluster.empty).result = .ok ()
      ∧ hardLimit (ordersTenant 1) ((reconcileResourceQuota
        (ordersTenant 1)).exec api [] Cluster.empty).state .pods = some ⟨2⟩
      ∧ hardLimit (ordersTenant 1) ((reconcileResourceQuota
        (ordersTenant 1)).exec api [] Cluster.empty).state .limitsMemory
          = some ⟨83886080⟩
      ∧ hardLimit (ordersTenant 1) ((reconcileResourceQuota
        (ordersTenant 1)).exec api [] Cluster.empty).state .requestsMemory
          = some ⟨83886080⟩
      ∧ podMemory (ordersTenant 1) 2 = 134217728 := by
  decide +kernel

/-- The limits are exact if and only if the sums fit in 32 and 64
bits. -/
theorem quota_exact_iff (cache : DistributedCache) (d : Int32)
    (hreplicas : cache.body.spec.replicas = some d) (hd : 1 ≤ d.toInt)
    (hm : 0 < cache.body.spec.memoryPerPod.value.toInt)
    (fs : List Fault) (s : Cluster)
    (hend : ((reconcileResourceQuota cache).exec api fs s).result
      = .ok ()) :
    ExactLimits cache d.toInt
        ((reconcileResourceQuota cache).exec api fs s).state
      ↔ d.toInt + 1 < 2 ^ 31
        ∧ podMemory cache d.toInt + podMemory cache d.toInt / 4
          < 2 ^ 63 := by
  obtain ⟨hpods, hmemory⟩ := reconcileResourceQuota_limits fs hend
  constructor
  · -- an exact limit is within the range of its type
    intro h
    obtain ⟨⟨pods, hp, hcount, -⟩, hall⟩ := h
    obtain ⟨memory, hm, hbytes, -⟩ := hall .limitsMemory (by simp)
    rw [hpods] at hp
    cases hp
    rw [Int32.toInt_toInt64] at hcount
    rw [← hcount, ← hbytes]
    exact ⟨(podCap cache).toInt_lt, memory.value.toInt_lt⟩
  · intro ⟨hcount, hbytes⟩
    have hfits : Fits cache d := ⟨hreplicas, by omega, hm, hcount, hbytes⟩
    have hpos : 0 < podMemory cache d.toInt := Int.mul_pos (by omega) hm
    refine ⟨⟨_, hpods, ?_⟩, fun r hr => ⟨_, hmemory r hr, ?_⟩⟩
    · rw [Int32.toInt_toInt64, hfits.podCap]
      omega
    · rw [hfits.quotaMemory]
      omega

theorem quota_exact_iff_orders :
    ExactLimits (ordersTenant 1) (1 : Int32).toInt ((reconcileResourceQuota
        (ordersTenant 1)).exec api [] Cluster.empty).state
      ↔ (1 : Int32).toInt + 1 < 2 ^ 31
        ∧ podMemory (ordersTenant 1) (1 : Int32).toInt
          + podMemory (ordersTenant 1) (1 : Int32).toInt / 4 < 2 ^ 63 :=
  quota_exact_iff (ordersTenant 1) 1 rfl (by decide) (by decide) []
    Cluster.empty (by decide +kernel)

/-- An isolated cache with pods of `memory` bytes. -/
def ordersSized (replicas : Int32) (memory : Int64) : DistributedCache :=
  { ordersTenant replicas with body :=
      { (ordersTenant replicas).body with spec :=
        { (ordersTenant replicas).body.spec with
          memoryPerPod := ⟨memory⟩ } } }

/-- The largest number of replicas admits a negative number of pods, and
one pod of 7 EiB a negative amount of memory. -/
theorem quota_wraps :
    (((reconcileResourceQuota (ordersTenant 2147483647)).exec api []
          Cluster.empty).result = .ok ()
        ∧ hardLimit (ordersTenant 2147483647) ((reconcileResourceQuota
            (ordersTenant 2147483647)).exec api [] Cluster.empty).state
            .pods = some ⟨-2147483648⟩)
      ∧ ((reconcileResourceQuota (ordersSized 1 8070450532247928832)).exec
            api [] Cluster.empty).result = .ok ()
        ∧ hardLimit (ordersSized 1 8070450532247928832)
            ((reconcileResourceQuota (ordersSized 1
              8070450532247928832)).exec api [] Cluster.empty).state
            .limitsMemory = some ⟨-8358680908399640576⟩ := by
  decide +kernel

-- ==================================================== a small cluster

/-- The StatefulSet in the cell. -/
def ordersCellSet (replicas : Int32) : Object .statefulSet :=
  { ordersStatefulSet replicas with metadata :=
      { (ordersStatefulSet replicas).metadata with
        ns := "cache-orders-cache" } }

/-- The isolated cache has three pods, and the user asks for `replicas` of
them. -/
def ordersCellShrunk (replicas : Int32) : Cluster :=
  { (Cluster.empty.put (ordersTenant replicas)).put (ordersCellSet 3) with
    pods := ⟨[ordersCellPod 0, ordersCellPod 1, ordersCellPod 2],
      by decide⟩ }

theorem ordersTenant_fits : Fits (ordersTenant 1) 1 :=
  ⟨rfl, by decide, by decide, by decide, by decide⟩

theorem quota_covers_iff_orders :
    Covers (ordersTenant 1) ((reconcile .insertionSort (Time.ofUnix 100)
        ordersKey).exec api [] (ordersCellShrunk 1)).state
      ↔ ∀ h, storedReplicas (ordersTenant 1) (ordersCellShrunk 1) = some h →
        1 < h → ¬Permits (Time.ofUnix 100) (ordersTenant 1)
          (ordersCellShrunk 1) →
        h.toInt ≤ (1 : Int32).toInt + 1
          ∧ podMemory (ordersTenant 1) h.toInt
            ≤ podMemory (ordersTenant 1) (1 : Int32).toInt
              + podMemory (ordersTenant 1) (1 : Int32).toInt / 4 :=
  quota_covers_iff .insertionSort (Time.ofUnix 100) ordersKey []
    (ordersCellShrunk 1) ⟨ordersTenant 1, rfl⟩ rfl rfl rfl
    ordersTenant_fits (r := ⟨false, 2 * second⟩) (by decide +kernel) rfl

/-- The cluster after a Reconcile. -/
def ordersCellHeld : Cluster :=
  ((reconcile .insertionSort (Time.ofUnix 100) ordersKey).exec api []
    (ordersCellShrunk 1)).state

/-- The user goes from three pods to one. While they drain the StatefulSet
is held at three, but the quota admits two pods, and the memory of one and
a quarter. -/
theorem held_pods_exceed_quota :
    ((reconcile .insertionSort (Time.ofUnix 100) ordersKey).exec api []
        (ordersCellShrunk 1)).result = .ok ⟨false, 2 * second⟩
      ∧ storedReplicas (ordersTenant 1) ordersCellHeld = some 3
      ∧ hardLimit (ordersTenant 1) ordersCellHeld .pods = some ⟨2⟩
      ∧ hardLimit (ordersTenant 1) ordersCellHeld .limitsMemory
        = some ⟨83886080⟩
      ∧ podMemory (ordersTenant 1) 3 = 201326592
      ∧ ¬Covers (ordersTenant 1) ordersCellHeld := by
  have hreplicas : storedReplicas (ordersTenant 1) ordersCellHeld
      = some 3 := by
    decide +kernel
  have hpods : hardLimit (ordersTenant 1) ordersCellHeld .pods
      = some ⟨2⟩ := by
    decide +kernel
  refine ⟨by decide +kernel, hreplicas, hpods, by decide +kernel, rfl, ?_⟩
  intro hcovers
  obtain ⟨⟨pods, hlimit, hle⟩, -⟩ := hcovers 3 hreplicas
  rw [hpods] at hlimit
  cases hlimit
  exact absurd hle (by decide)

end CacheOperator
