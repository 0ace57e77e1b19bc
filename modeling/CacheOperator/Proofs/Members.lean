/-
Who is in the ring, and in which order.

`computeMembers` lists pods by label, reads an ordinal from the end of
each name and sorts by it. For the pods of one StatefulSet that is
canonical (`computeMembers_canonical`): the names carry different
ordinals, so neither the order of the listing nor the choice of the sort
shows in the result, and a second `reconcileRing` over another order
publishes nothing new.

The labels are all that makes a pod one of the cache's, and the reading of
the ordinal accepts more names than a StatefulSet writes: any base before
the last dash, a plus sign, leading zeros. A pod with such a name
(`Stray`) is published like the others. `publishes_own_pods_iff` says that
these names are the only way in: without one, every member is a pod name
of this cache and no ordinal occurs twice.
-/
import CacheOperator.Proofs.DrainRuns
import CacheOperator.Proofs.Idempotent
import CacheOperator.Proofs.Ordinals

namespace CacheOperator

open Lib

/-- A pod the ring takes, its name aside. -/
structure Eligible (p : Pod) : Prop where
  running : p.phase = .running
  ready : isPodReady p = true
  kept : p.metadata.deleting = false
  undrained : p.metadata.annotations.get drainAnnotation = none

section

variable {srt srt' : SliceSort} {base : String} {pods pods' : List Pod}
  {cache : DistributedCache} {s s' : Cluster} {ring : Ring}

theorem ringEntry_iff {p : Pod} {name : String} {ord : Int} :
    ringEntry p = some (name, ord)
      ↔ Eligible p ∧ podOrdinal p.name = some ord ∧ p.name = name := by
  rw [ringEntry_eq_some]
  constructor
  · intro h
    obtain ⟨hdel, hann, hrun, hready, hord, hname⟩ := h
    exact ⟨⟨hrun, hready, hdel, hann⟩, hord, hname⟩
  · intro h
    obtain ⟨⟨hrun, hready, hdel, hann⟩, hord, hname⟩ := h
    exact ⟨hdel, hann, hrun, hready, hord, hname⟩

-- ===================================================== no name twice

theorem entryNames_sublist (pods : List Pod) :
    ((pods.filterMap ringEntry).map Prod.fst).Sublist
      (pods.map Pod.name) := by
  induction pods with
  | nil => exact .slnil
  | cons p pods ih =>
      cases he : ringEntry p with
      | none =>
          rw [List.filterMap_cons_none he]
          exact ih.cons _
      | some e =>
          obtain ⟨-, -, hname⟩ := ringEntry_iff.mp he
          rw [List.filterMap_cons_some he, List.map_cons, List.map_cons,
            hname]
          exact ih.cons_cons _

/-- Pods with different names are published once each. -/
theorem nodup_computeMembers (h : (pods.map Pod.name).Nodup) :
    (computeMembers srt pods).Nodup := by
  have hperm := (srt.perm (byKey Prod.snd)
    (pods.filterMap ringEntry)).map Prod.fst
  exact hperm.nodup_iff.mpr (h.sublist (entryNames_sublist pods))

/-- The listed pods have different names: they share their namespace. -/
theorem nodup_cachePods_names :
    ((cachePods cache s).map Pod.name).Nodup := by
  apply List.Nodup.map_on _ nodup_cachePods.of_map
  intro p hp q hq hname
  exact pod_unique (mem_cachePods hp) (mem_cachePods hq)
    (pod_key_eq ((cachePods_ns hp).trans (cachePods_ns hq).symm) hname)

-- ============================================ pods of one StatefulSet

/-- The pods are named as the StatefulSet `base` names them. -/
def NamedBy (base : String) (pods : List Pod) : Prop :=
  ∀ p ∈ pods, ∃ i : Int, 0 ≤ i ∧ i < 2 ^ 31 ∧ p.name = ordinalName base i

/-- Pod names of one StatefulSet, the first with the smaller ordinal. -/
def OrdinalBelow (base : String) (m n : String) : Prop :=
  ∃ i j : Int, 0 ≤ i ∧ i < j ∧ m = ordinalName base i
    ∧ n = ordinalName base j

/-- The ordinal that is read is the one in the name. -/
theorem NamedBy.entry (h : NamedBy base pods) {e : String × Int}
    (he : e ∈ pods.filterMap ringEntry) :
    0 ≤ e.2 ∧ e.1 = ordinalName base e.2 := by
  obtain ⟨p, hp, hentry⟩ := List.mem_filterMap.mp he
  obtain ⟨-, hord, hname⟩ := ringEntry_iff.mp hentry
  obtain ⟨i, hlo, hhi, hi⟩ := h p hp
  rw [hi, podOrdinal_ordinalName hlo (by omega)] at hord
  injection hord with hord
  rw [← hname, ← hord]
  exact ⟨hlo, hi⟩

/-- So the ordinals tell the entries apart. -/
theorem NamedBy.injective (h : NamedBy base pods) :
    ∀ d ∈ pods.filterMap ringEntry, ∀ e ∈ pods.filterMap ringEntry,
      d.2 = e.2 → d = e := by
  intro d hd e he hord
  apply Prod.ext _ hord
  rw [(h.entry hd).2, (h.entry he).2, hord]

theorem NamedBy.mem_iff (h : NamedBy base pods) {name : String} :
    name ∈ computeMembers srt pods
      ↔ ∃ p ∈ pods, Eligible p ∧ p.name = name := by
  rw [mem_computeMembers]
  constructor
  · intro hmem
    obtain ⟨p, hp, ord, hentry⟩ := hmem
    obtain ⟨helig, -, hname⟩ := ringEntry_iff.mp hentry
    exact ⟨p, hp, helig, hname⟩
  · intro hmem
    obtain ⟨p, hp, helig, hname⟩ := hmem
    obtain ⟨i, hlo, hhi, hi⟩ := h p hp
    refine ⟨p, hp, i, ringEntry_iff.mpr ⟨helig, ?_, hname⟩⟩
    rw [hi]
    exact podOrdinal_ordinalName hlo (by omega)

theorem NamedBy.ascending (h : NamedBy base pods)
    (hnodup : (pods.map Pod.name).Nodup) :
    (computeMembers srt pods).Pairwise (OrdinalBelow base) := by
  have hentries : (pods.filterMap ringEntry).Nodup :=
    (hnodup.sublist (entryNames_sublist pods)).of_map
  unfold computeMembers
  rw [List.pairwise_map]
  apply (srt.strictly_sorted hentries h.injective).imp_of_mem
  intro d e hd he hlt
  obtain ⟨hlo, hdname⟩ := h.entry (srt.mem_sort.mp hd)
  obtain ⟨-, hename⟩ := h.entry (srt.mem_sort.mp he)
  exact ⟨d.2, e.2, hlo, hlt, hdname, hename⟩

theorem NamedBy.reordered (h : NamedBy base pods)
    (hperm : pods'.Perm pods) :
    computeMembers srt' pods' = computeMembers srt pods := by
  unfold computeMembers
  rw [srt.sort_eq_of_perm srt' (hperm.filterMap ringEntry) h.injective]

/-- A ring that stands does so under another order of the listing. -/
theorem RingStands.reordered (h : RingStands srt cache ring s)
    (hcm : s'.objects = s.objects) (hnamed : NamedBy base (cachePods cache s))
    (hperm : (cachePods cache s').Perm (cachePods cache s)) :
    RingStands srt' cache ring s' := by
  have hcm' : ringConfigMap cache s' = ringConfigMap cache s :=
    ringConfigMap_congr (by rw [hcm])
  constructor
  · rw [← h.eq]
    unfold nextRing
    rw [hcm', hnamed.reordered hperm]
  · rw [hcm']
    exact h.skips

/-- Over a ring that stands nothing is written, whatever fails. -/
theorem reconcileRing_keeps (h : RingStands srt cache ring s)
    (fs : List Fault) :
    ((reconcileRing srt cache).exec api fs s).state = s := by
  have hread : (reconcileRing srt cache).Sat api s (fun _ => True)
      (fun _ s' => s' = s) := by
    unfold reconcileRing
    refine Prog.Sat.bind_only (listPods_sat fun _ _ => trivial) rfl
      (fun _ => rfl) ?_
    refine Prog.Sat.bind_only (getRingConfigMap_sat fun _ _ => trivial) rfl
      (fun _ => rfl) ?_
    have hdesired : desiredRing (computeMembers srt (cachePods cache s))
        (currentRing (ringConfigMap cache s)) = ring := h.eq
    dsimp only
    rw [hdesired, if_pos h.skips]
    exact .ret rfl
  exact (hread fs).2

end

/-- `computeMembers` is canonical for the pods of one StatefulSet: it
publishes the pods the ring takes, each once, by ascending ordinal, and
the order of the listing does not matter. So `reconcileRing` does not
touch a ring it published when the listing comes in another order. -/
theorem computeMembers_canonical (srt : SliceSort) (base : String)
    (pods : List Pod) (hnodup : (pods.map Pod.name).Nodup)
    (hnamed : NamedBy base pods) :
    (∀ name, name ∈ computeMembers srt pods
        ↔ ∃ p ∈ pods, Eligible p ∧ p.name = name)
      ∧ (computeMembers srt pods).Nodup
      ∧ (computeMembers srt pods).Pairwise (OrdinalBelow base)
      ∧ (∀ (srt' : SliceSort) (pods' : List Pod), pods'.Perm pods →
        computeMembers srt' pods' = computeMembers srt pods)
      ∧ ∀ (cache : DistributedCache) (s : Cluster) (fs : List Fault)
        (ring : Ring), cachePods cache s = pods →
        ((reconcileRing srt cache).exec api fs s).result = .ok ring →
        ∀ (srt' : SliceSort) (s' : Cluster),
          s'.objects = ((reconcileRing srt cache).exec api fs s).state.objects →
          (cachePods cache s').Perm pods →
          (reconcileRing srt' cache).run api s' = (.ok ring, s')
            ∧ ∀ fs', ((reconcileRing srt' cache).exec api fs' s').state
              = s' := by
  refine ⟨fun name => hnamed.mem_iff, nodup_computeMembers hnodup,
    hnamed.ascending hnodup, fun srt' pods' => hnamed.reordered, ?_⟩
  intro cache s fs ring hpods hok srt' s' hobjects hperm
  obtain ⟨hstands, -, hkept⟩ := reconcileRing_returns.exec hok
  rw [← hpods, ← cachePods_congr hkept] at hnamed hperm
  have hstands' : RingStands srt' cache ring s' :=
    hstands.reordered hobjects hnamed hperm
  exact ⟨reconcileRing_run_stands hstands', reconcileRing_keeps hstands'⟩

/-- The pods 10 and 9 of the cache, as one listing has them. -/
def ordersPodsDown : PodSet where
  items := [ordersPod 10 true none, ordersPod 9 true none]
  nodup := by decide +kernel

/-- The same pods the other way round. -/
def ordersPodsUp : PodSet where
  items := [ordersPod 9 true none, ordersPod 10 true none]
  nodup := by decide +kernel

/-- The cluster after the ring phase over the first listing, with the
second one. -/
def ordersRelisted : Cluster :=
  { ((reconcileRing .insertionSort (ordersCache 2)).exec api []
      (ordersCluster 2 2 ordersPodsDown)).state with pods := ordersPodsUp }

/-- The members go by number, 9 before 10, and the ring is not touched
under the second listing. -/
theorem computeMembers_canonical_orders :
    (computeMembers .insertionSort ordersPodsDown.items).Pairwise
        (OrdinalBelow "orders-cache")
      ∧ (reconcileRing .insertionSort (ordersCache 2)).run api ordersRelisted
        = (.ok ⟨1, ["orders-cache-9", "orders-cache-10"]⟩,
          ordersRelisted) := by
  have hnamed : NamedBy "orders-cache" ordersPodsDown.items := by
    intro p hp
    rcases List.mem_pair.mp hp with rfl | rfl
    · exact ⟨10, by decide, by decide, rfl⟩
    · exact ⟨9, by decide, by decide, rfl⟩
  have hdown : cachePods (ordersCache 2) (ordersCluster 2 2 ordersPodsDown)
      = ordersPodsDown.items := by decide +kernel
  have hup : cachePods (ordersCache 2) ordersRelisted
      = ordersPodsUp.items := by decide +kernel
  obtain ⟨-, -, hascending, -, hkept⟩ := computeMembers_canonical
    .insertionSort "orders-cache" ordersPodsDown.items (by decide +kernel)
    hnamed
  refine ⟨hascending, ?_⟩
  have hrun := hkept (ordersCache 2) (ordersCluster 2 2 ordersPodsDown) []
    ⟨1, ["orders-cache-9", "orders-cache-10"]⟩ hdown (by decide +kernel)
    .insertionSort ordersRelisted rfl
  rw [hup] at hrun
  exact (hrun (List.Perm.swap _ _ _)).1

-- ================================================== pods of others

/-- A pod the ring reads an ordinal from, with a name that no pod of the
cache's StatefulSet has: another base, or a padded ordinal. -/
def Stray (cache : DistributedCache) (p : Pod) : Prop :=
  ∃ base ds : List Char, p.name.toList = base ++ '-' :: ds ∧ '-' ∉ ds
    ∧ (Decimal.parseInt64 ds).isSome
    ∧ (base ≠ cache.name.toList ∨ Decimal.Padded ds)

/-- The members are pod names of the cache with different ordinals. -/
def OwnMembers (cache : DistributedCache) (members : List String) : Prop :=
  (∀ m ∈ members, ∃ i : Int, 0 ≤ i ∧ m = podName cache i)
    ∧ members.Pairwise fun m n => podOrdinal m ≠ podOrdinal n

/-- `reconcileRing` published the ring: it returned it, or it ended
otherwise but has written it. -/
def Publishes (srt : SliceSort) (cache : DistributedCache) (fs : List Fault)
    (s : Cluster) (ring : Ring) : Prop :=
  ((reconcileRing srt cache).exec api fs s).result = .ok ring
    ∨ ((reconcileRing srt cache).exec api fs s).state ≠ s
      ∧ storedRing cache ((reconcileRing srt cache).exec api fs s).state
        = some ring

section

variable {srt : SliceSort} {cache : DistributedCache} {s : Cluster}
  {p : Pod} {ring : Ring} {fs : List Fault}

theorem RingWritten.published {s' : Cluster}
    (h : RingWritten srt cache s s') (hne : s' ≠ s)
    (hring : storedRing cache s' = some ring) :
    ring = nextRing srt cache s := by
  rcases h.configMap with heq | ⟨hstored, -⟩
  · exact absurd heq hne
  · rw [hstored] at hring
    injection hring with hring
    exact hring.symm

theorem Publishes.members (h : Publishes srt cache fs s ring) :
    ring.members = computeMembers srt (cachePods cache s) := by
  have hends : EndsRing srt cache s
      ((reconcileRing srt cache).exec api fs s).result
      ((reconcileRing srt cache).exec api fs s).state :=
    (reconcileRing_sat fs).2
  have heq : ring = nextRing srt cache s := by
    rcases h with hok | ⟨hne, hring⟩
    · rw [hok] at hends
      exact hends.eq
    · cases hres : ((reconcileRing srt cache).exec api fs s).result with
      | ok r =>
          rw [hres] at hends
          exact hends.toRingWritten.published hne hring
      | error e =>
          rw [hres] at hends
          exact RingWritten.published hends hne hring
      | crashed =>
          rw [hres] at hends
          exact RingWritten.published hends hne hring
  rw [heq, nextRing_members]

/-- The last dash splits a name in one way only. -/
theorem split_unique {base base' ds ds' : List Char} (hds : '-' ∉ ds)
    (hds' : '-' ∉ ds') (h : base ++ '-' :: ds = base' ++ '-' :: ds') :
    base = base' ∧ ds = ds' := by
  have hafter := afterLastDash_append base hds
  rw [h, afterLastDash_append base' hds'] at hafter
  injection hafter with hafter
  subst hafter
  exact ⟨List.append_cancel_right h, rfl⟩

/-- No pod name of the cache is stray. -/
theorem not_stray_podName {i : Int} (hi : 0 ≤ i)
    (hname : p.name = podName cache i) : ¬Stray cache p := by
  intro h
  obtain ⟨base, ds, hsplit, hdash, -, hodd⟩ := h
  have hlist : (podName cache i).toList
      = cache.name.toList ++ '-' :: Decimal.format i := ordinalName_toList
  rw [hname, hlist] at hsplit
  obtain ⟨hbase, hds⟩ :=
    split_unique (dash_not_mem_format hi) hdash hsplit
  rcases hodd with hother | hpadded
  · exact hother hbase.symm
  · rw [← hds] at hpadded
    exact Decimal.not_padded_format hi hpadded

/-- A name with an ordinal that is not stray is the pod name of that
ordinal. -/
theorem podName_of_not_stray {ord : Int} (h : ¬Stray cache p)
    (hord : podOrdinal p.name = some ord) :
    0 ≤ ord ∧ p.name = podName cache ord := by
  obtain ⟨base, ds, n, hsplit, hdash, hn, rfl⟩ := podOrdinal_eq_some.mp hord
  have hbase : base = cache.name.toList := by
    by_contra hne
    exact h ⟨base, ds, hsplit, hdash, by rw [hn]; rfl, Or.inl hne⟩
  have hplain : ¬Decimal.Padded ds := by
    intro hpadded
    exact h ⟨base, ds, hsplit, hdash, by rw [hn]; rfl, Or.inr hpadded⟩
  obtain ⟨hlo, hformat⟩ := Decimal.format_of_parse
    (Decimal.parseInt64_eq_some hn) hdash hplain
  refine ⟨hlo, String.toList_inj.mp ?_⟩
  have hlist : (podName cache n.toInt).toList
      = cache.name.toList ++ '-' :: Decimal.format n.toInt :=
    ordinalName_toList
  rw [hlist, hsplit, hbase, hformat]

end

/-- The ring publishes the cache's own pods and each ordinal once, exactly
when no pod it takes has a stray name. -/
theorem publishes_own_pods_iff (srt : SliceSort) (cache : DistributedCache)
    (s : Cluster) (fs : List Fault) (ring : Ring)
    (h : Publishes srt cache fs s ring) :
    OwnMembers cache ring.members
      ↔ ∀ p ∈ cachePods cache s, Eligible p → ¬Stray cache p := by
  rw [h.members]
  constructor
  · intro hown p hp helig hstray
    have ⟨base, ds, hsplit, hdash, hsome, _⟩ := hstray
    obtain ⟨n, hn⟩ := Option.isSome_iff_exists.mp hsome
    have hord : podOrdinal p.name = some n.toInt :=
      podOrdinal_eq_some.mpr ⟨base, ds, n, hsplit, hdash, hn, rfl⟩
    have hmem : p.name ∈ computeMembers srt (cachePods cache s) :=
      mem_computeMembers.mpr ⟨p, hp, n.toInt,
        ringEntry_iff.mpr ⟨helig, hord, rfl⟩⟩
    obtain ⟨i, hi, hname⟩ := hown.1 p.name hmem
    exact not_stray_podName hi hname hstray
  · intro hclean
    -- every member is the pod name of the ordinal it was sorted by
    have hnamed : ∀ m ∈ computeMembers srt (cachePods cache s),
        ∃ ord : Int, podOrdinal m = some ord ∧ 0 ≤ ord
          ∧ m = podName cache ord := by
      intro m hm
      obtain ⟨p, hp, ord, hentry⟩ := mem_computeMembers.mp hm
      obtain ⟨helig, hord, rfl⟩ := ringEntry_iff.mp hentry
      exact ⟨ord, hord, podName_of_not_stray (hclean p hp helig) hord⟩
    constructor
    · intro m hm
      obtain ⟨ord, -, hown⟩ := hnamed m hm
      exact ⟨ord, hown⟩
    · apply (nodup_computeMembers nodup_cachePods_names).imp_of_mem
      intro m n hm hn hne heq
      obtain ⟨i, hi, -, hmi⟩ := hnamed m hm
      obtain ⟨j, hj, -, hnj⟩ := hnamed n hn
      rw [hi, hj] at heq
      injection heq with heq
      exact hne (by rw [hmi, hnj, heq])

theorem publishes_own_pods_iff_orders :
    OwnMembers (ordersCache 2) ["orders-cache-9", "orders-cache-10"]
      ↔ ∀ p ∈ cachePods (ordersCache 2) (ordersCluster 2 2 ordersPodsDown),
        Eligible p → ¬Stray (ordersCache 2) p :=
  publishes_own_pods_iff .insertionSort (ordersCache 2)
    (ordersCluster 2 2 ordersPodsDown) []
    ⟨1, ["orders-cache-9", "orders-cache-10"]⟩ (Or.inl (by decide +kernel))

/-- A ready pod with the labels of the cache under any name. -/
def labelledPod (name : String) : Pod :=
  { ordersPod 7 true none with metadata :=
      { (ordersPod 7 true none).metadata with name := name } }

/-- Pod 7 of the cache, one of another owner, and one that spells its
ordinal with zeros. -/
def straysAndSeven : PodSet where
  items := [labelledPod "other-3", labelledPod "orders-cache-007",
    labelledPod "orders-cache-7"]
  nodup := by decide +kernel

/-- All three are published: one is no pod of the cache, and two have the
same ordinal. -/
theorem stray_pods_are_published :
    ∃ ring : Ring,
      ((reconcileRing .insertionSort (ordersCache 8)).exec api []
        (ordersCluster 8 8 straysAndSeven)).result = .ok ring
        ∧ ring.members
          = ["other-3", "orders-cache-007", "orders-cache-7"]
        ∧ (∀ i, "other-3" ≠ podName (ordersCache 8) i)
        ∧ (∀ i, 0 ≤ i →
          "orders-cache-007" ≠ podName (ordersCache 8) i)
        ∧ podOrdinal "orders-cache-007" = podOrdinal "orders-cache-7"
        ∧ ¬OwnMembers (ordersCache 8) ring.members := by
  have hother : ∀ i, "other-3" ≠ podName (ordersCache 8) i := by
    intro i h
    have hlist := congrArg String.toList h
    rw [show (podName (ordersCache 8) i).toList
      = "orders-cache".toList ++ '-' :: Decimal.format i
      from ordinalName_toList] at hlist
    injection hlist with _ hlist
    injection hlist with hc
    exact absurd hc (by decide)
  refine ⟨⟨1, ["other-3", "orders-cache-007", "orders-cache-7"]⟩,
    by decide +kernel, rfl, hother, ?_, by decide +kernel, ?_⟩
  · intro i hi h
    apply not_stray_podName (p := labelledPod "orders-cache-007") hi h
    exact ⟨"orders-cache".toList, "007".toList, by decide +kernel,
      by decide, by decide +kernel, Or.inr (Or.inr ⟨'0', ['7'], rfl⟩)⟩
  · intro hown
    obtain ⟨i, -, hi⟩ := hown.1 "other-3" List.mem_cons_self
    exact hother i hi

end CacheOperator
