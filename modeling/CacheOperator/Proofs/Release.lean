/-
No undrained pod is released.

A `Reconcile` releases pods in three ways: it lowers the StatefulSet's
replicas, it issues the deletion of the cell's namespace, or it takes
the finalizer from an object under deletion. For any state of the
cluster and any plan of failures, every pod it listed and releases so
was drained before it started, and it has not annotated any pod.

# The argument

A release is traced back to a fact about the state at the start: the
permission of the scale-down drain (`Permits`), or that every listed pod
is drained (`AllDrained`). The same fact makes the drain loops silent,
so no pod changes during the whole execution, and every list call
answers with the pods of the start.
-/
import CacheOperator.Proofs.Live

namespace CacheOperator

open Lib

-- =========================================================== releases

/-- The pods a call answered with. -/
def listed (e : Call) : List Pod :=
  match e with
  | ⟨.listPods _ _, .ok pods, _, _, _⟩ => pods
  | _ => []

/-- The call asks for the deletion of a namespace. -/
def IssuesNamespaceDelete (e : Call) : Prop :=
  ∃ name, e.req = .deleteNamespace name

/-- The call takes the drain finalizer from an object under deletion. -/
def RemovesFinalizer (key : NamespacedName) (e : Call) : Prop :=
  ∃ old, e.before.objects .distributedCache key = some old
    ∧ old.1.metadata.deleting = true
    ∧ drainFinalizer ∈ old.1.metadata.finalizers
    ∧ ∀ new, e.after.objects .distributedCache key = some new →
      drainFinalizer ∉ new.1.metadata.finalizers

/-- Every pod of the cache is drained. -/
def AllDrained (now : Time) (cache : DistributedCache) (s : Cluster) :
    Prop :=
  ∀ p ∈ cachePods cache s, Drained now (grace cache) p

-- ======================================================== quiet calls

/-- A call that releases nothing by itself and updates no pod; a list
call is about the cache's pods. -/
def Request.Quiet (cache : DistributedCache) : Request → Prop
  | .get _ _ => True
  | .create k _ => k ≠ .distributedCache
  | .update k _ => k ≠ .distributedCache
  | .updateStatus _ => True
  | .deleteNamespace _ => False
  | .listPods ns labels =>
      ns = targetNamespace cache ∧ labels = podLabels cache
  | .updatePod _ => False
  | .event _ _ _ => True

/-- A quiet call or the update of a pod. -/
def Request.Draining (cache : DistributedCache) (r : Request) : Prop :=
  r.Quiet cache ∨ ∃ p, r = .updatePod p

/-- The finalizers of an object. -/
def finalizersOf (key : NamespacedName) (s : Cluster) :
    Option (List String) :=
  (s.objects .distributedCache key).map fun o => o.1.metadata.finalizers

section

variable {srt : SliceSort} {now : Time} {cache : DistributedCache}
  {key : NamespacedName} {s : Cluster} {e : Call} {r : Request}

theorem not_removesFinalizer_of_same
    (h : finalizersOf key e.after = finalizersOf key e.before) :
    ¬RemovesFinalizer key e := by
  rintro ⟨old, hold, -, hmem, hgone⟩
  unfold finalizersOf at h
  rw [hold] at h
  cases hnew : e.after.objects .distributedCache key with
  | none => rw [hnew] at h; cases h
  | some new =>
      rw [hnew] at h
      simp only [Option.map_some, Option.some.injEq] at h
      refine hgone new hnew ?_
      rw [h]
      exact hmem

/-- A status update keeps the finalizers. -/
theorem finalizersOf_updateStatus (c : DistributedCache) :
    finalizersOf key (api.serve (.updateStatus c) s).2
      = finalizersOf key s := by
  unfold finalizersOf
  rcases serve_updateStatus s c key with h | ⟨old, new, hold, hnew, h⟩
  · rw [h]
  · rw [hold, hnew]
    rcases h with h | h
    · simp [h, withStatus]
    · simp [h, withStatus, Cluster.stamp]

/-- But for its status, a quiet call or a pod update leaves every cache
object alone. -/
theorem cache_serve (h : r.Draining cache) (hr : ∀ c, r ≠ .updateStatus c) :
    (api.serve r s).2.objects .distributedCache key
      = s.objects .distributedCache key := by
  refine serve_objects fun ht => ?_
  rcases h with h | ⟨p, rfl⟩
  · cases r with
    | create k o =>
        injection ht with ht
        injection ht with hk
        exact h hk
    | update k o =>
        injection ht with ht
        injection ht with hk
        exact h hk
    | updateStatus c => exact hr c rfl
    | deleteNamespace name => exact h
    | get k key => cases ht
    | listPods ns labels => cases ht
    | updatePod p => cases ht
    | event ns reason message => cases ht
  · cases ht

/-- Quiet calls and pod updates keep every finalizer. -/
theorem finalizersOf_serve (h : r.Draining cache) :
    finalizersOf key (api.serve r s).2 = finalizersOf key s := by
  by_cases hstatus : ∃ c, r = .updateStatus c
  · obtain ⟨c, rfl⟩ := hstatus
    exact finalizersOf_updateStatus c
  · unfold finalizersOf
    rw [cache_serve h fun c hc => hstatus ⟨c, hc⟩]

/-- Programs made of quiet calls and pod updates release neither a
namespace nor the object. -/
theorem not_releases_of_uses {α : Type} {p : Op α}
    (hp : p.Uses (Request.Draining cache)) :
    p.Sat api s (fun e => ¬IssuesNamespaceDelete e
      ∧ ¬RemovesFinalizer key e) fun _ _ => True := by
  refine (Prog.Sat.of_uses (finalizersOf key)
    (fun r s h => finalizersOf_serve h) hp).imp ?_ fun _ _ _ => trivial
  rintro e ⟨hq, hb, ha⟩
  refine ⟨?_, not_removesFinalizer_of_same (ha.trans hb.symm)⟩
  rintro ⟨name, hname⟩
  rw [hname] at hq
  rcases hq with hq | ⟨q, hq⟩
  · exact hq
  · cases hq

theorem Request.OfObject.quiet {k : Kind} {key : NamespacedName}
    {c : DistributedCache} (h : r.OfObject c k key)
    (hk : k ≠ .distributedCache) : r.Quiet cache := by
  cases h with
  | get => trivial
  | create o h => exact hk
  | update o h => exact hk
  | event reason text => trivial

theorem reconcileCell_quiet :
    (reconcileCell cache).Uses (Request.Quiet cache) :=
  reconcileCell_uses fun _ _ _ hown _ _ h => h.quiet hown.ne_cache

theorem reconcileServiceTwice_quiet :
    (reconcileServiceTwice cache).Uses (Request.Quiet cache) :=
  reconcileServiceTwice_uses fun _ h => h.quiet (by simp)

theorem reconcileStatefulSet_quiet {b : Bool} :
    (reconcileStatefulSet cache b).Uses (Request.Quiet cache) :=
  reconcileObject_uses fun _ h => h.quiet (by simp)

theorem reconcileRing_quiet :
    (reconcileRing srt cache).Uses (Request.Quiet cache) :=
  reconcileRing_uses ⟨rfl, rfl⟩ fun _ h => h.quiet (by simp)

theorem reconcileDeletionLoop_draining (ps : List Pod) (b : Bool) :
    (reconcileDeletionLoop now cache ps b).Uses (Request.Draining cache) :=
  reconcileDeletionLoop_uses ps b fun _ _ _ => Or.inr ⟨_, rfl⟩

theorem reconcileLive_draining :
    (reconcileLive srt now cache).Uses (Request.Draining cache) :=
  reconcileLive_uses (fun _ _ _ hown h => Or.inl (h.quiet hown.ne_cache))
    (Or.inl ⟨rfl, rfl⟩) (fun p => Or.inr ⟨p, rfl⟩)
    fun _ _ => Or.inl trivial

-- =================================================== the live object

/-- A phase on the side makes quiet calls and keeps `core`. -/
theorem peripheral_silent {α : Type} {reason : Reason} {text : String}
    {p : Op α} {s1 : Cluster} (hp : p.Uses Request.Peripheral)
    (hq : p.Uses (Request.Quiet cache))
    (hs1 : s1.core cache = s.core cache) :
    (orDegrade now cache reason text p).Sat api s1
      (fun e => e.req.Quiet cache)
      fun _ s2 => s2.core cache = s.core cache := by
  have hcore : (orDegrade now cache reason text p).Uses
      Request.Peripheral :=
    orDegrade_uses hp fun c _ => peripheral_updateStatus c
  have hquiet : (orDegrade now cache reason text p).Uses
      (Request.Quiet cache) := orDegrade_uses hq fun _ _ => trivial
  refine ((Prog.Sat.of_uses (Cluster.core cache) (core_serve cache)
    hcore).and (.calls hquiet)).imp (fun e he => he.2) ?_
  exact fun r s2 h => h.1.trans hs1

/-- With the permission given by the state, no call of the whole
`Reconcile` updates a pod. -/
theorem reconcileLive_silent (h : Permits now cache s) :
    (reconcileLive srt now cache).Sat api s (fun e => e.req.Quiet cache)
      fun _ _ => True := by
  have hquiet : ∀ {α : Type} {p : Op α} {s1 : Cluster},
      p.Uses (Request.Quiet cache) → p.Sat api s1
        (fun e => e.req.Quiet cache) fun _ _ => True :=
    fun hp => .calls hp
  unfold reconcileLive reconcileOwned
  refine Prog.Sat.bind (R := fun _ _ => True) ?_
    (fun x s1 _ => hquiet (finish_uses fun _ _ => trivial))
    (fun _ _ _ => trivial) fun _ _ => trivial
  refine Prog.Sat.bind (peripheral_silent reconcileCell_peripheral
    reconcileCell_quiet rfl) ?_ (fun _ _ _ => trivial) fun _ _ => trivial
  intro _ s1 h1
  refine Prog.Sat.bind (peripheral_silent reconcileServiceTwice_peripheral
    reconcileServiceTwice_quiet h1) ?_ (fun _ _ _ => trivial)
    fun _ _ => trivial
  intro _ s2 h2
  refine Prog.Sat.bind (R := fun _ _ => True) ?_ ?_
    (fun _ _ _ => trivial) fun _ _ => trivial
  · refine Prog.Sat.bind (R := fun _ _ => True)
      ((drainScaleDown_of_permits ((permits_congr h2).mpr h)
        (fun _ _ => trivial) fun _ _ => ⟨rfl, rfl⟩).attempt
        (fun _ _ _ => trivial) (fun _ _ _ => trivial) fun _ _ => trivial)
      ?_ (fun _ _ _ => trivial) fun _ _ => trivial
    intro x s3 _
    cases x with
    | ok b => exact .ret trivial
    | error x => exact hquiet ⟨trivial, fun _ => trivial⟩
  · intro b s3 _
    refine hquiet (Prog.Uses.bind ?_ fun _ => Prog.Uses.bind ?_
      fun _ => trivial)
    · exact orDegrade_uses reconcileStatefulSet_quiet fun _ _ => trivial
    · exact orDegrade_uses reconcileRing_quiet fun _ _ => trivial

/-- A live object releases nothing but by lowering the replicas, with
the permission. -/
theorem reconcileLive_sat (key : NamespacedName) :
    (reconcileLive srt now cache).Sat api s
      (fun e => OwnedCall now cache s e ∧ ¬IssuesNamespaceDelete e
        ∧ ¬RemovesFinalizer key e) fun _ _ => True := by
  refine (Prog.Sat.and (Q := fun _ _ => True) ?_
    (not_releases_of_uses reconcileLive_draining)).imp
    (fun e he => he) fun _ _ _ => trivial
  unfold reconcileLive
  refine Prog.Sat.bind (reconcileOwned_sat) ?_ (fun _ _ _ => trivial)
    fun _ _ => trivial
  intro x s1 _
  refine (Prog.Sat.of_uses (Cluster.core cache) (core_serve cache)
    finish_peripheral).imp ?_ fun _ _ _ => trivial
  rintro e ⟨-, hb, ha⟩ c d hl
  exact absurd hl (not_lowers_of_same (core_sts (ha.trans hb.symm)))

-- =========================================== the object under deletion

/-- The call writes no StatefulSet. -/
def Request.SparesStatefulSets (r : Request) : Prop :=
  ∀ key, r.target ≠ some (.object .statefulSet key)

/-- The call updates no pod, and a list call is about the cache's
pods. -/
def Request.Silent (cache : DistributedCache) : Request → Prop
  | .updatePod _ => False
  | .listPods ns labels =>
      ns = targetNamespace cache ∧ labels = podLabels cache
  | _ => True

theorem Request.Quiet.silent (h : r.Quiet cache) : r.Silent cache := by
  cases r with
  | updatePod p => exact h
  | listPods ns labels => exact h
  | _ => trivial

theorem Request.OfObject.spares {k : Kind} {key : NamespacedName}
    (h : r.OfObject cache k key) (hk : k ≠ .statefulSet) :
    r.SparesStatefulSets := by
  intro key' ht
  cases h with
  | get => cases ht
  | create o h =>
      injection ht with ht
      injection ht with ht
      exact hk ht
  | update o h =>
      injection ht with ht
      injection ht with ht
      exact hk ht
  | event reason text => cases ht

theorem spares_updateCache (o : DistributedCache) :
    (Request.update .distributedCache o).SparesStatefulSets := by
  intro key ht
  injection ht with ht
  injection ht with ht
  cases ht

theorem spares_deleteNamespace (name : String) :
    (Request.deleteNamespace name).SparesStatefulSets := by
  intro key ht
  injection ht with ht
  injection ht with ht
  cases ht

theorem listPods_spares {what : String} :
    (listPods cache what).Uses Request.SparesStatefulSets :=
  listPods_uses fun _ => nofun

theorem reconcileRing_spares :
    (reconcileRing srt cache).Uses Request.SparesStatefulSets :=
  reconcileRing_uses (fun _ => nofun) fun _ h => h.spares (by simp)

theorem tearDown_spares :
    (tearDown cache).Uses Request.SparesStatefulSets :=
  tearDown_uses (fun _ => nofun) (fun _ => spares_deleteNamespace _)
    (spares_updateCache _) fun _ _ _ => nofun

theorem tearDown_silent :
    (tearDown cache).Uses (Request.Silent cache) :=
  tearDown_uses trivial (fun _ => trivial) trivial fun _ _ => trivial

theorem not_lowers_of_uses {α : Type} {p : Op α}
    (hp : p.Uses Request.SparesStatefulSets) :
    p.Sat api s (fun e => ∀ c d, ¬Lowers cache e c d) fun _ _ => True := by
  refine (Prog.Sat.of_uses
    (fun s => s.objects .statefulSet (statefulSetKey cache))
    (fun r s h => serve_objects (h _)) hp).imp ?_ fun _ _ _ => trivial
  rintro e ⟨-, hb, ha⟩ c d
  exact not_lowers_of_same (ha.trans hb.symm)

/-- A call under deletion: it never lowers the replicas, and it releases
the namespace or the object only when every pod was drained. -/
def DeletionCall (now : Time) (cache : DistributedCache)
    (key : NamespacedName) (s : Cluster) (e : Call) : Prop :=
  (∀ c d, ¬Lowers cache e c d)
    ∧ (IssuesNamespaceDelete e ∨ RemovesFinalizer key e →
      AllDrained now cache s)

/-- What does not release is allowed at any time. -/
theorem deletionCall_of_uses {α : Type} {p : Op α} {s1 : Cluster}
    (hs : p.Uses Request.SparesStatefulSets)
    (hd : p.Uses (Request.Draining cache)) :
    p.Sat api s1 (DeletionCall now cache key s) fun _ _ => True := by
  have hl : p.Sat api s1 (fun e => ∀ c d, ¬Lowers cache e c d)
      fun _ _ => True := not_lowers_of_uses hs
  have hr : p.Sat api s1 (fun e => ¬IssuesNamespaceDelete e
      ∧ ¬RemovesFinalizer key e) fun _ _ => True :=
    not_releases_of_uses hd
  refine (hl.and hr).imp ?_ fun _ _ _ => trivial
  rintro e ⟨hlow, hdel, hfin⟩
  exact ⟨hlow, fun h => (h.elim hdel hfin).elim⟩

/-- Under deletion the replicas are never lowered, and the namespace and
the object are released only when every pod of the cache is drained. -/
theorem reconcileDeletion_sat (key : NamespacedName) :
    (reconcileDeletion srt now cache).Sat api s
      (DeletionCall now cache key s) fun _ _ => True := by
  have hloop : ∀ ps, (reconcileDeletionLoop now cache ps true).Sat api s
      (DeletionCall now cache key s)
      fun res _ => res = .ok true →
        ∀ p ∈ ps, Drained now (grace cache) p := by
    intro ps
    have hr : (reconcileDeletionLoop now cache ps true).Sat api s
        (fun e => ¬IssuesNamespaceDelete e ∧ ¬RemovesFinalizer key e)
        fun _ _ => True :=
      not_releases_of_uses (reconcileDeletionLoop_draining ps true)
    refine ((reconcileDeletionLoop_sat ps true).and hr).imp ?_ ?_
    · rintro e ⟨⟨hb, ha⟩, hdel, hfin⟩
      refine ⟨fun c d => not_lowers_of_same ?_,
        fun h => (h.elim hdel hfin).elim⟩
      rw [ha, hb]
    · rintro res s1 ⟨⟨-, h⟩, -⟩ hres
      exact (h hres).2
  unfold reconcileDeletion
  split
  · exact .ret trivial
  · have hcall : ∀ x b, DeletionCall now cache key s
        ⟨.listPods (targetNamespace cache) (podLabels cache), x, s, s, b⟩ := by
      intro x b
      refine ⟨fun c d => not_lowers_of_same rfl, fun h => ?_⟩
      rcases h with hdel | hfin
      · obtain ⟨name, hdel⟩ := hdel
        cases hdel
      · exact absurd hfin (not_removesFinalizer_of_same rfl)
    refine Prog.Sat.bind_only (listPods_sat hcall) trivial
      (fun _ => trivial) ?_
    refine Prog.Sat.bind (hloop _) ?_ (fun _ _ _ => trivial)
      fun _ _ => trivial
    intro allDrained s2 hall
    refine Prog.Sat.bind (R := fun _ _ => True)
      ((deletionCall_of_uses reconcileRing_spares
        (reconcileRing_quiet.mono fun _ h => Or.inl h)).attempt
        (fun _ _ _ => trivial) (fun _ _ _ => trivial)
        fun _ _ => trivial) ?_ (fun _ _ _ => trivial) fun _ _ => trivial
    intro x s3 _
    cases allDrained with
    | false => exact .ret trivial
    | true =>
        have hl : (tearDown cache).Sat api s3
            (fun e => ∀ c d, ¬Lowers cache e c d) fun _ _ => True :=
          not_lowers_of_uses tearDown_spares
        exact hl.imp (fun e he => ⟨he, fun _ => hall rfl⟩)
          fun _ _ _ => trivial

/-- When every pod of the cache is drained, no call updates one. -/
theorem reconcileDeletion_silent (h : AllDrained now cache s) :
    (reconcileDeletion srt now cache).Sat api s
      (fun e => e.req.Silent cache) fun _ _ => True := by
  unfold reconcileDeletion
  split
  · exact .ret trivial
  · refine Prog.Sat.bind_only (listPods_sat fun _ _ => ⟨rfl, rfl⟩) trivial
      (fun _ => trivial) ?_
    rw [reconcileDeletionLoop_of_drained h]
    refine Prog.Sat.bind (R := fun _ _ => True) (.ret trivial) ?_
      (fun _ _ _ => trivial) fun _ _ => trivial
    intro allDrained s2 _
    refine Prog.Sat.bind (R := fun _ _ => True)
      (((Prog.Sat.calls reconcileRing_quiet).imp
        (fun e he => he.silent) fun _ _ h => h).attempt
        (fun _ _ _ => trivial) (fun _ _ _ => trivial)
        fun _ _ => trivial) ?_ (fun _ _ _ => trivial) fun _ _ => trivial
    intro x s3 _
    split
    · exact .ret trivial
    · exact .calls tearDown_silent

-- ==================================================== every Reconcile

/-- What a release says about the state at the start. -/
structure ReleaseCall (now : Time) (cache : DistributedCache)
    (key : NamespacedName) (s : Cluster) (e : Call) : Prop where
  lowers : ∀ c d, Lowers cache e c d →
    cache.metadata.deleting = false ∧ cache.body.spec.replicas = some d
      ∧ e.before.core cache = s.core cache ∧ Permits now cache s
  deletes : IssuesNamespaceDelete e ∨ RemovesFinalizer key e →
    cache.metadata.deleting = true ∧ AllDrained now cache s

/-- The fact that stands behind a release. -/
def Cleared (now : Time) (cache : DistributedCache) (s : Cluster) : Prop :=
  (cache.metadata.deleting = false ∧ Permits now cache s)
    ∨ (cache.metadata.deleting = true ∧ AllDrained now cache s)

/-- A call that reads or records an event releases nothing. -/
theorem ReleaseCall.of_same (hreq : ∀ name, e.req ≠ .deleteNamespace name)
    (hsame : e.after.objects = e.before.objects) :
    ReleaseCall now cache key s e where
  lowers c d hl := by
    refine absurd hl (not_lowers_of_same ?_)
    rw [hsame]
  deletes h := by
    rcases h with ⟨name, h⟩ | h
    · exact absurd h (hreq name)
    · refine absurd h (not_removesFinalizer_of_same ?_)
      unfold finalizersOf
      rw [hsame]

/-- Adding the finalizer to an object that is not under deletion. -/
theorem holdCache_sat {stored : {o : DistributedCache // o.key = key}}
    (hstored : s.objects .distributedCache key = some stored)
    (hlive : stored.1.metadata.deleting = false) :
    (holdCache stored.1).Sat api s
      (ReleaseCall now stored.1 key s) fun _ _ => True := by
  have hcall : ∀ x s1 b,
      s1.objects .statefulSet (statefulSetKey stored.1)
        = s.objects .statefulSet (statefulSetKey stored.1) →
      ReleaseCall now stored.1 key s ⟨.update .distributedCache
        (addFinalizer stored.1), x, s, s1, b⟩ := by
    intro x s1 b hsts
    refine ⟨fun c d hl => absurd hl (not_lowers_of_same hsts), ?_⟩
    rintro (⟨name, h⟩ | ⟨old, hold, hold', -⟩)
    · cases h
    · rw [show s.objects .distributedCache key = some old from hold]
        at hstored
      cases hstored
      rw [hlive] at hold'
      cases hold'
  have hserve : (api.serve (.update .distributedCache
      (addFinalizer stored.1)) s).2.objects .statefulSet
      (statefulSetKey stored.1)
      = s.objects .statefulSet (statefulSetKey stored.1) :=
    serve_objects (spares_updateCache _ _)
  unfold holdCache
  simp only [bind, pure, Prog.bind, request]
  refine Prog.Sat.call trivial ⟨hcall _ _ _ hserve, ?_⟩
    ⟨hcall _ _ _ rfl, .fail trivial⟩ ⟨hcall _ _ _ hserve, .fail trivial⟩
  cases (api.serve (.update .distributedCache
    (addFinalizer stored.1)) s).1 with
  | error e => exact .fail trivial
  | ok c => exact .ret trivial

theorem reconcile_sat (srt : SliceSort) (now : Time)
    {stored : {o : DistributedCache // o.key = key}}
    (hstored : s.objects .distributedCache key = some stored) :
    (reconcile srt now key).Sat api s
      (ReleaseCall now stored.1 key s) fun _ _ => True := by
  unfold reconcile
  simp only [bind, pure, Prog.bind, request]
  refine Prog.Sat.read rfl trivial
    (fun _ _ => .of_same (by simp) rfl) ?_ (.fail trivial)
  rw [serve_get_some hstored]
  dsimp only
  split
  · next hdel =>
    refine (reconcileDeletion_sat key).imp ?_ fun _ _ _ => trivial
    rintro e ⟨hl, hr⟩
    exact ⟨fun c d h => absurd h (hl c d), fun h => ⟨hdel, hr h⟩⟩
  · next hdel =>
    have hlive : stored.1.metadata.deleting = false :=
      Bool.eq_false_iff.mpr hdel
    split
    · exact holdCache_sat hstored hlive
    · refine (reconcileLive_sat key).imp ?_ fun _ _ _ => trivial
      rintro e ⟨hl, hd, hf⟩
      exact ⟨fun c d h => ⟨hlive, hl c d h⟩,
        fun h => (h.elim hd hf).elim⟩

/-- Behind a release no pod is updated. -/
theorem reconcile_silent (srt : SliceSort)
    {stored : {o : DistributedCache // o.key = key}}
    (hstored : s.objects .distributedCache key = some stored)
    (h : Cleared now stored.1 s) :
    (reconcile srt now key).Sat api s
      (fun e => e.req.Silent stored.1) fun _ _ => True := by
  unfold reconcile
  simp only [bind, pure, Prog.bind, request]
  refine Prog.Sat.read rfl trivial (fun _ _ => trivial) ?_ (.fail trivial)
  rw [serve_get_some hstored]
  dsimp only
  split
  · next hdel =>
    rcases h with ⟨hf, -⟩ | ⟨-, h⟩
    · rw [hdel] at hf
      cases hf
    · exact reconcileDeletion_silent h
  · next hdel =>
    split
    · exact .calls (holdCache_uses trivial)
    · rcases h with ⟨-, h⟩ | ⟨ht, -⟩
      · exact (reconcileLive_silent h).imp (fun e he => he.silent)
          fun _ _ _ => trivial
      · exact absurd ht hdel

/-- A listed pod is a pod of the cache at the time of the call. -/
theorem mem_listed {fs : List Fault} {l : Call} {p : Pod}
    (hl : l ∈ ((reconcile srt now key).exec api fs s).trace)
    (hs : l.req.Silent cache) (hp : p ∈ listed l) :
    p ∈ cachePods cache l.before := by
  have hresp := Prog.entry_resp api hl
  obtain ⟨req, resp, before, after, failed⟩ := l
  unfold listed at hp
  split at hp
  · next ns labels pods b a f heq =>
    injection heq with h1 h2 h3 h4 h5
    subst h1
    cases h2
    subst h3
    obtain ⟨rfl, rfl⟩ := hs
    rcases hresp with h | h
    · injection h with h
      rw [h] at hp
      exact hp
    · cases h
  · cases hp

/-- Behind a release every list call answers with the pods of the
start, and none of them is updated. -/
theorem listed_of_cleared (srt : SliceSort) (fs : List Fault)
    {stored : {o : DistributedCache // o.key = key}}
    (hstored : s.objects .distributedCache key = some stored)
    (h : Cleared now stored.1 s) :
    (∀ l ∈ ((reconcile srt now key).exec api fs s).trace,
        ∀ p ∈ listed l, p ∈ cachePods stored.1 s)
      ∧ ∀ l ∈ ((reconcile srt now key).exec api fs s).trace,
        ∀ p, l.req ≠ .updatePod p := by
  obtain ⟨hsilent, -⟩ := reconcile_silent srt hstored h fs
  -- no call changes a pod, so the pods are those of the start all along
  have hkeep : ∀ e ∈ ((reconcile srt now key).exec api fs s).trace,
      e.after.pods = e.before.pods := by
    intro e he
    have hs : e.req.Silent stored.1 := hsilent e he
    rcases Prog.entry_effect api he with hafter | hafter
    · rw [hafter]
      refine serve_pods fun k ht => ?_
      cases hreq : e.req with
      | updatePod p => rw [hreq] at hs; exact hs
      | _ => rw [hreq] at ht; cases ht
    · rw [hafter]
  obtain ⟨-, hpods⟩ := Prog.view_of_trace api Cluster.pods hkeep
  refine ⟨fun l hl p hp => ?_, fun l hl p hreq => ?_⟩
  · have hmem := mem_listed hl (hsilent l hl) hp
    rw [cachePods_congr (hpods l hl)] at hmem
    exact hmem
  · have hs : l.req.Silent stored.1 := hsilent l hl
    rw [hreq] at hs
    exact hs

end

section

variable (srt : SliceSort) (now : Time) (key : NamespacedName)
  (fs : List Fault) (s : Cluster)

/-- Every pod that a `Reconcile` listed and releases was drained before
it started, it updates no pod when it releases any, and it lowers
nothing while a doomed pod is not drained. -/
theorem released_pods_were_drained
    (stored : {o : DistributedCache // o.key = key})
    (hstored : s.objects .distributedCache key = some stored) :
    (∀ e ∈ ((reconcile srt now key).exec api fs s).trace, ∀ c d,
        Lowers stored.1 e c d →
        ∀ l ∈ ((reconcile srt now key).exec api fs s).trace,
          (∀ p, l.req ≠ .updatePod p)
            ∧ ∀ p ∈ listed l, ∀ i : Int, d.toInt ≤ i → i < c.toInt →
              p.name = podName stored.1 i →
              p ∈ s.pods.items ∧ Drained now (grace stored.1) p)
      ∧ (∀ e ∈ ((reconcile srt now key).exec api fs s).trace,
        IssuesNamespaceDelete e ∨ RemovesFinalizer key e →
        ∀ l ∈ ((reconcile srt now key).exec api fs s).trace,
          (∀ p, l.req ≠ .updatePod p)
            ∧ ∀ p ∈ listed l,
              p ∈ s.pods.items ∧ Drained now (grace stored.1) p)
      ∧ ((∃ p ∈ cachePods stored.1 s, Doomed stored.1 s p
          ∧ ¬Drained now (grace stored.1) p) →
        ∀ e ∈ ((reconcile srt now key).exec api fs s).trace, ∀ c d,
          ¬Lowers stored.1 e c d) := by
  obtain ⟨hcalls, -⟩ := reconcile_sat srt now hstored fs
  refine ⟨fun e he c d hl => ?_, fun e he hr => ?_, ?_⟩
  · obtain ⟨hlive, hd, hcore, hperm⟩ := (hcalls e he).lowers c d hl
    obtain ⟨hlist, hquiet⟩ := listed_of_cleared srt fs
      hstored (Or.inl ⟨hlive, hperm⟩)
    intro l hl'
    refine ⟨hquiet l hl', fun p hp i hlo hhi hname => ?_⟩
    have hmem := hlist l hl' p hp
    exact ⟨mem_cachePods hmem,
      hperm p hmem (doomed_of_lowers hl hcore hd hlo hhi hname)⟩
  · obtain ⟨hdel, hall⟩ := (hcalls e he).deletes hr
    obtain ⟨hlist, hquiet⟩ := listed_of_cleared srt fs
      hstored (Or.inr ⟨hdel, hall⟩)
    intro l hl
    refine ⟨hquiet l hl, fun p hp => ?_⟩
    have hmem := hlist l hl p hp
    exact ⟨mem_cachePods hmem, hall p hmem⟩
  · rintro ⟨p, hp, hdoomed, hnot⟩ e he c d hl
    obtain ⟨-, -, -, hperm⟩ := (hcalls e he).lowers c d hl
    exact hnot (hperm p hp hdoomed)

end

-- ==================================================== a small cluster

/-- The cache of the documentation, with the finalizer and a grace
period of 30 seconds. -/
def ordersCache (replicas : Int32) : DistributedCache :=
  { metadata :=
      { ns := "default", name := "orders-cache", uid := "1"
        resourceVersion := 1, generation := 1, created := true
        finalizers := [drainFinalizer] }
    body :=
      { spec :=
          { replicas := some replicas, image := "tiny-cache"
            memoryPerPod := ⟨67108864⟩, drain := ⟨30⟩, tenant := none }
        status := Kind.distributedCache.zero.status } }

def ordersKey : NamespacedName := ⟨"default", "orders-cache"⟩

def ordersStatefulSet (replicas : Int32) : Object .statefulSet :=
  { metadata :=
      { ns := "default", name := "orders-cache", resourceVersion := 1
        created := true }
    body := { Kind.statefulSet.zero with replicas := some replicas } }

/-- A pod of the cache, running, with its readiness and the second its
drain started. -/
def ordersPod (ordinal : Int) (ready : Bool) (since : Option Int64) : Pod :=
  { metadata :=
      { ns := "default", name := podName (ordersCache 1) ordinal
        resourceVersion := 1, created := true
        labels := podLabels (ordersCache 1)
        annotations := match since with
          | some ts => Dict.empty.set drainAnnotation (decimal ts)
          | none => .empty }
    phase := .running
    conditions := [⟨.ready, if ready then .yes else .no⟩] }

/-- The two pods with the ordinals 0 and 1. -/
def ordersPods (p q : Bool × Option Int64) : PodSet where
  items := [ordersPod 0 p.1 p.2, ordersPod 1 q.1 q.2]
  nodup := by
    have hne : podName (ordersCache 1) 0 ≠ podName (ordersCache 1) 1 := by
      decide
    simp [ordersPod, Pod.key, ObjectMeta.key, hne]

theorem ordersPods_untold :
    ∀ p ∈ (ordersPods (true, none) (true, none)).items,
      p.metadata.annotations.get drainAnnotation = none := by
  decide

/-- The cache, its StatefulSet and its two pods. -/
def ordersCluster (replicas stored : Int32) (pods : PodSet) : Cluster :=
  { (Cluster.empty.put (ordersCache replicas)).put
      (ordersStatefulSet stored) with pods := pods }

/-- The second pod has drained for 30 seconds: the scale-down from two
replicas to one goes through, and the theorem applies to it. -/
theorem released_pods_were_drained_orders :
    (∃ e ∈ ((reconcile .insertionSort (Time.ofUnix 130) ordersKey).exec
        api [] (ordersCluster 1 2 (ordersPods (true, none)
          (true, some 100)))).trace, Lowers (ordersCache 1) e 2 1)
      ∧ ∀ e ∈ ((reconcile .insertionSort (Time.ofUnix 130) ordersKey).exec
          api [] (ordersCluster 1 2 (ordersPods (true, none)
            (true, some 100)))).trace, ∀ c d,
        Lowers (ordersCache 1) e c d →
        ∀ l ∈ ((reconcile .insertionSort (Time.ofUnix 130) ordersKey).exec
          api [] (ordersCluster 1 2 (ordersPods (true, none)
            (true, some 100)))).trace,
          (∀ p, l.req ≠ .updatePod p)
            ∧ ∀ p ∈ listed l, ∀ i : Int, d.toInt ≤ i → i < c.toInt →
              p.name = podName (ordersCache 1) i →
              p ∈ (ordersPods (true, none) (true, some 100)).items
                ∧ Drained (Time.ofUnix 130) (grace (ordersCache 1)) p :=
  ⟨by decide +kernel,
    (released_pods_were_drained .insertionSort (Time.ofUnix 130) ordersKey
      [] (ordersCluster 1 2 (ordersPods (true, none) (true, some 100)))
      ⟨ordersCache 1, rfl⟩ rfl).1⟩

end CacheOperator
