/-
A deletion runs to its end.

The stages are those of `reconcileDeletion`, and each of them is passed
by the Reconcile that comes late enough:

- the first one tells every pod to drain (`Leaving`);
- while the grace period runs, nothing changes;
- the first one after it lets the object go or, if the cache has a cell,
  marks the namespace for deletion (`CellLeaving`);
- when the namespace is gone, which is Kubernetes' part (`CellRemoved`),
  the next one lets the object go.

An object that was let go is gone for good or waits for the finalizers of
others, and no Reconcile touches it again (`Departed`).
-/
import CacheOperator.Proofs.Converges

namespace CacheOperator

open Lib

/-- Every listed pod was told by `since` to drain. -/
structure Leaving {key : NamespacedName} (since : Time)
    (stored : {o : DistributedCache // o.key = key}) (s : Cluster) :
    Prop where
  condemned : Condemned s stored
  told : ∀ p ∈ cachePods stored.1 s, Readable p ∧ NotAhead since p

/-- The object is gone, or held back by others only. -/
def Departed (key : NamespacedName) (s : Cluster) : Prop :=
  ∀ o, s.objects .distributedCache key = some o →
    o.1.metadata.deleting = true
      ∧ drainFinalizer ∉ o.1.metadata.finalizers

/-- The cell has been marked for deletion. -/
def CellLeaving (cache : DistributedCache) (s : Cluster) : Prop :=
  isCrossNamespaceChild cache = true
    ∧ ∃ ns, s.objects .ns ⟨"", targetNamespace cache⟩ = some ns
      ∧ ns.1.metadata.deleting = true

/-- The namespace of the cell is gone, and some pods with it. -/
structure CellRemoved (cache : DistributedCache) (s s' : Cluster) :
    Prop where
  caches : s'.objects .distributedCache = s.objects .distributedCache
  cell : s'.objects .ns ⟨"", targetNamespace cache⟩ = none
  pods : ∀ p ∈ s'.pods.items, p ∈ s.pods.items

section

variable {srt : SliceSort} {now t since : Time} {key : NamespacedName}
  {cache : DistributedCache} {s s' : Cluster}
  {stored : {o : DistributedCache // o.key = key}}

-- =========================================================== the object

/-- The object is under deletion for as long as it is there. -/
def StillDeleting (key : NamespacedName) (s : Cluster) : Prop :=
  ∀ o, s.objects .distributedCache key = some o →
    o.1.metadata.deleting = true

/-- The write that takes the finalizer off is of an object under
deletion. -/
theorem StillDeleting.update (hdel : stored.1.metadata.deleting = true)
    (hs : StillDeleting key s) :
    StillDeleting key
      (s.serveUpdate (removeFinalizer stored.1)).2 := by
  obtain ⟨c, rfl⟩ := stored
  unfold Cluster.serveUpdate
  split
  · exact hs
  next old hkey hold =>
  split
  · exact hs
  split
  · intro o ho
    have hnone : (s.remove .distributedCache
        (removeFinalizer c).key).objects .distributedCache
        (removeFinalizer c).key = none := by
      simp [Cluster.remove]
    cases hnone.symm.trans ho
  · intro o ho
    obtain ⟨new, hnew, hcase⟩ :=
      Cluster.write_objects_self hold (admitted_key old _)
    cases hnew.symm.trans ho
    rcases hcase with hcase | hcase
    · rw [hcase]
      exact hdel
    · rw [hcase]
      exact hdel

/-- The call takes the finalizer off, or writes no cache. -/
def ReleasesOnly (cache : DistributedCache) (r : Request) : Prop :=
  r = .update .distributedCache (removeFinalizer cache)
    ∨ r.SparesKinds [.distributedCache]

theorem reconcileDeletion_releasesOnly (cache : DistributedCache) :
    (reconcileDeletion srt t cache).Uses (ReleasesOnly cache) :=
  reconcileDeletion_uses (fun r hr => Or.inr (hr.sparesKinds (by simp)))
    (Or.inr (by simp [Request.SparesKinds, Request.target]))
    (fun p => Or.inr (by simp [Request.SparesKinds, Request.target]))
    (tearDown_uses (Or.inr (by simp [Request.SparesKinds, Request.target]))
      (fun _ => Or.inr (by simp [Request.SparesKinds, Request.target]))
      (Or.inl rfl)
      fun _ _ => Or.inr (by simp [Request.SparesKinds, Request.target]))

/-- The object was let go, or is there as it was. -/
def Withdrawn (stored : {o : DistributedCache // o.key = key})
    (s : Cluster) : Prop :=
  Departed key s ∨ Condemned s stored

theorem Withdrawn.stillDeleting (h : Withdrawn stored s) :
    StillDeleting key s := by
  intro o ho
  rcases h with hdeparted | hcondemned
  · exact (hdeparted o ho).1
  · cases hcondemned.stored.symm.trans ho
    exact hcondemned.deleting

/-- No call of the deletion does anything else to the object. -/
theorem Withdrawn.serve {r : Request} (h : Withdrawn stored s)
    (hdel : stored.1.metadata.deleting = true)
    (hr : ReleasesOnly stored.1 r) :
    Withdrawn stored (api.serve r s).2 := by
  rcases hr with rfl | hr
  · rcases serve_update_released (s := s) (removeFinalizer stored.1)
      stored.2 (not_mem_removeFinalizer _) with hreleased | ⟨hsame, -⟩
    · left
      intro o ho
      exact ⟨h.stillDeleting.update hdel o ho, hreleased o ho⟩
    · show Withdrawn stored (api.serve (.update .distributedCache
        (removeFinalizer stored.1)) s).2
      rw [hsame]
      exact h
  · have hsame : (api.serve r s).2.objects .distributedCache
        = s.objects .distributedCache :=
      objects_of_sparesKinds hr (by simp) s
    refine h.imp (fun hdeparted o ho => ?_) fun hcondemned => ?_
    · rw [hsame] at ho
      exact hdeparted o ho
    · refine ⟨?_, hcondemned.deleting, hcondemned.finalizer⟩
      rw [hsame]
      exact hcondemned.stored

theorem reconcileDeletion_withdrawn (h : Condemned s stored) :
    (reconcileDeletion srt t stored.1).Sat api s (fun _ => True)
      fun _ s' => Withdrawn stored s' :=
  Prog.Sat.of_uses_keeping
    (fun _ _ hr hs => hs.serve h.deleting hr)
    (reconcileDeletion_releasesOnly stored.1) (Or.inr h)

/-- Reconcile of an object under deletion, whatever fails. -/
theorem reconcile_sat_deleting {I : Cluster → Prop}
    (h : Condemned s stored) (hs : I s)
    (hdel : (reconcileDeletion srt t stored.1).Sat api s (fun _ => True)
      fun _ s' => I s') :
    (reconcile srt t key).Sat api s (fun _ => True) fun _ s' => I s' := by
  unfold reconcile
  simp only [bind, pure, Prog.bind, request]
  refine .read rfl hs (fun _ _ => trivial) ?_ (.fail hs)
  rw [serve_get_some h.stored]
  dsimp only
  rw [if_pos h.deleting]
  exact hdel

/-- A Reconcile under deletion lets the object go, or leaves it alone. -/
theorem reconcileAt_condemned (h : Condemned s stored) :
    Withdrawn stored (reconcileAt srt key s t) :=
  (reconcile_sat_deleting h (Or.inr h)
    (reconcileDeletion_withdrawn h)).run

theorem Released.departed (h : Condemned s stored)
    (hreleased : Released key (reconcileAt srt key s t)) :
    Departed key (reconcileAt srt key s t) := by
  have hend : Withdrawn stored (reconcileAt srt key s t) :=
    reconcileAt_condemned h
  rcases hend with hdeparted | hcondemned
  · exact hdeparted
  · exact absurd hcondemned.finalizer (hreleased _ hcondemned.stored)

/-- An object that was let go is read, and that is all. -/
theorem Departed.reads (srt : SliceSort) (t : Time) (h : Departed key s) :
    ∃ k, reconcile srt t key = .call (.get .distributedCache key) k
      ∧ k (api.serve (.get .distributedCache key) s).1 = .ret {}
      ∧ ∃ e, k (api.refuse (.get .distributedCache key)) = .fail e := by
  unfold reconcile
  simp only [bind, pure, Prog.bind, request]
  refine ⟨_, rfl, ?_, _, rfl⟩
  cases hstored : s.objects .distributedCache key with
  | none =>
      rw [serve_get_none hstored]
      rfl
  | some o =>
      obtain ⟨hdeleting, hfin⟩ := h o hstored
      rw [serve_get_some hstored]
      dsimp only
      rw [if_pos hdeleting]
      unfold reconcileDeletion
      rw [if_pos hfin]
      rfl

/-- Nothing is done for it. -/
theorem Departed.sat (h : Departed key s) :
    (reconcile srt t key).Sat api s (fun _ => True) fun _ s' => s' = s := by
  obtain ⟨k, heq, hret, e, hfail⟩ := h.reads srt t
  rw [heq]
  refine .read rfl rfl (fun _ _ => trivial) ?_ ?_
  · rw [hret]
    exact .ret rfl
  · rw [hfail]
    exact .fail rfl

theorem Departed.kept (h : Departed key s) :
    reconcileAt srt key s t = s :=
  h.sat.run

/-- Nor is anything asked for. -/
theorem Departed.run (h : Departed key s) :
    (reconcile srt t key).run api s = (.ok {}, s) := by
  obtain ⟨k, heq, hret, -⟩ := h.reads srt t
  rw [heq, Prog.run_call, hret]
  rfl

-- ============================================================ the drain

/-- Pods whose annotations can be read are only looked at. -/
theorem reconcileDeletionLoop_of_readable {ps : List Pod}
    (h : ∀ p ∈ ps, Readable p) (b : Bool) :
    ∃ b', reconcileDeletionLoop now cache ps b = .ret b' := by
  induction ps generalizing b with
  | nil => exact ⟨b, rfl⟩
  | cons p ps ih =>
      obtain ⟨raw, ts, hraw, hts⟩ := h p List.mem_cons_self
      unfold reconcileDeletionLoop
      rw [hraw]
      dsimp only
      rw [hts]
      exact ih (fun q hq => h q (List.mem_cons_of_mem p hq)) _

/-- The pods, the ring, and the teardown when all pods have drained. -/
theorem reconcile_run_drained {b : Bool} (h : Condemned s stored)
    (hloop : (reconcileDeletionLoop t stored.1 (cachePods stored.1 s)
      true).run api s = (.ok b, s')) :
    (reconcile srt t key).run api s
      = if b = true then
          (tearDown stored.1).run api
            ((reconcileRing srt stored.1).run api s').2
        else (.ok { requeueAfter := 2 * second },
          ((reconcileRing srt stored.1).run api s').2) := by
  have hlist : (listPods stored.1 "list pods for deletion drain").run api s
      = (.ok (cachePods stored.1 s), s) := rfl
  have hring : (reconcileRing srt stored.1).attempt.run api s'
      = (.ok ((reconcileRing srt stored.1).run api s').1,
        ((reconcileRing srt stored.1).run api s').2) := Prog.run_attempt ..
  rw [reconcile_run_deleting h]
  unfold reconcileDeletion
  rw [if_neg (by simpa using h.finalizer), Prog.run_bind, hlist]
  dsimp only
  rw [Prog.run_bind, hloop]
  dsimp only
  rw [Prog.run_bind, hring]
  dsimp only
  cases b <;> rfl

/-- A Reconcile that finds every pod told: the ring is published once
more, and the rest depends on the drain alone. -/
theorem reconcileAt_leaving (srt : SliceSort) (t : Time)
    (h : Leaving since stored s) :
    ∃ (b : Bool) (s1 : Cluster),
      (∀ k ∈ [Kind.distributedCache, .ns], s1.objects k = s.objects k)
      ∧ s1.pods = s.pods
      ∧ (AllDrained t stored.1 s → b = true)
      ∧ reconcileAt srt key s t
        = if b = true then ((tearDown stored.1).run api s1).2 else s1 := by
  obtain ⟨b, hb⟩ : ∃ b, reconcileDeletionLoop t stored.1
      (cachePods stored.1 s) true = .ret b :=
    reconcileDeletionLoop_of_readable (fun p hp => (h.told p hp).1) true
  have huses : (reconcileRing srt stored.1).Uses
      (Request.SparesKinds [.distributedCache, .ns]) :=
    reconcileRing_uses (fun _ _ _ => nofun)
      fun _ hr => hr.sparesKinds (by simp)
  refine ⟨b, ((reconcileRing srt stored.1).run api s).2, ?_, ?_, ?_, ?_⟩
  · intro k hk
    exact (Prog.Sat.of_uses (fun s : Cluster => s.objects k)
      (fun r s hr => objects_of_sparesKinds hr hk s) huses).run
  · exact Prog.run_frame (fun r s h => pods_of_silent h)
      (reconcileRing_quiet.mono fun _ h => h.silent) s
  · intro hall
    have hdrained := reconcileDeletionLoop_of_drained hall true
    rw [hb] at hdrained
    injection hdrained
  · unfold reconcileAt
    rw [reconcile_run_drained h.condemned (b := b) (by rw [hb]; rfl)]
    split <;> rfl

/-- The first Reconcile of the deletion. -/
theorem leaving_first (h : Condemned s stored)
    (hread : ∀ p ∈ cachePods stored.1 s,
      (p.metadata.annotations.get drainAnnotation).isSome → Readable p)
    (hahead : ∀ p ∈ cachePods stored.1 s, NotAhead t p) :
    Departed key (reconcileAt srt key s t)
      ∨ Leaving t stored (reconcileAt srt key s t) := by
  refine (reconcileAt_condemned h).imp_right fun h' => ⟨h', ?_⟩
  unfold reconcileAt
  rw [reconcile_run_deleting h]
  exact reconcileDeletion_readable h.finalizer hread hahead

-- ========================================================= the teardown

theorem releaseCache_state (s1 : Cluster) :
    ((releaseCache cache).run api s1).2
      = (api.serve (.update .distributedCache (removeFinalizer cache))
        s1).2 := by
  unfold releaseCache
  simp only [bind, pure, Prog.bind, request, Prog.run_call]
  cases (api.serve (.update .distributedCache (removeFinalizer cache))
    s1).1 <;> rfl

theorem releaseCache_released (h : Condemned s stored) :
    Released key ((releaseCache stored.1).run api s).2 := by
  rw [releaseCache_state]
  rcases serve_update_released (s := s) (removeFinalizer stored.1) stored.2
    (not_mem_removeFinalizer _) with hreleased | ⟨-, hother⟩
  · exact hreleased
  · exact absurd rfl (hother stored h.stored)

/-- The cell is gone, or on its way. -/
theorem deleteCellNamespace_run (cache : DistributedCache) (s : Cluster) :
    (deleteCellNamespace cache).run api s = (.ok true, s)
      ∨ s.objects .ns ⟨"", targetNamespace cache⟩ ≠ none
        ∧ ∃ s', (deleteCellNamespace cache).run api s = (.ok false, s')
          ∧ ∃ ns, s'.objects .ns ⟨"", targetNamespace cache⟩ = some ns
            ∧ ns.1.metadata.deleting = true := by
  unfold deleteCellNamespace
  simp only [bind, pure, Prog.bind, request, Prog.run_call]
  cases hns : s.objects .ns ⟨"", targetNamespace cache⟩ with
  | none =>
      rw [serve_get_none hns]
      exact Or.inl rfl
  | some ns =>
      rw [serve_get_some hns]
      dsimp only
      refine Or.inr ⟨by simp, ?_⟩
      by_cases hdel : ns.1.metadata.deleting = true
      · rw [if_pos hdel]
        exact ⟨s, rfl, ns, hns, hdel⟩
      · rw [if_neg hdel]
        have hserve : api.serve (.deleteNamespace (targetNamespace cache)) s
            = (.ok (), (s.write ns.1 { ns.1 with metadata :=
              { ns.1.metadata with deleting := true } }).2) := by
          show s.serveDeleteNamespace (targetNamespace cache) = _
          unfold Cluster.serveDeleteNamespace
          rw [hns]
        simp only [Prog.run_call, hserve]
        obtain ⟨new, hnew, hcase⟩ := Cluster.write_objects_self hns
          (show ({ ns.1 with metadata :=
            { ns.1.metadata with deleting := true } } : Object .ns).key = _
            from ns.2)
        refine ⟨_, rfl, new, hnew, ?_⟩
        rcases hcase with hcase | hcase
        · rw [hcase]
        · rw [hcase]
          rfl

/-- The teardown lets the object go, unless the cell is still there; then
it asks to be called again. -/
theorem tearDown_ends (h : Condemned s stored) :
    Released key ((tearDown stored.1).run api s).2
      ∨ s.objects .ns ⟨"", targetNamespace stored.1⟩ ≠ none
        ∧ CellLeaving stored.1 ((tearDown stored.1).run api s).2
        ∧ ((tearDown stored.1).run api s).1
          = .ok { requeueAfter := 2 * second } := by
  unfold tearDown
  split
  swap
  · exact Or.inl (releaseCache_released h)
  next hcross =>
  rw [Prog.run_bind]
  rcases deleteCellNamespace_run stored.1 s with
    hgone | ⟨hthere, s', hrun, hleaving⟩
  · rw [wrapping_run hgone]
    exact Or.inl (releaseCache_released h)
  · rw [wrapping_run hrun]
    exact Or.inr ⟨hthere, ⟨hcross, hleaving⟩, rfl⟩

/-- A Reconcile of a deletion whose pods have been told, and one that
comes when the grace period has passed. -/
theorem leaving_next (srt : SliceSort) (h : Leaving since stored s)
    (t : Time) :
    (Departed key (reconcileAt srt key s t)
      ∨ Leaving since stored (reconcileAt srt key s t))
    ∧ (grace stored.1 ≤ t.nanos - since.nanos →
      Departed key (reconcileAt srt key s t)
        ∨ s.objects .ns ⟨"", targetNamespace stored.1⟩ ≠ none
          ∧ CellLeaving stored.1 (reconcileAt srt key s t)) := by
  obtain ⟨b, s1, hobjects, hpods, hdrained, heq⟩ :=
    reconcileAt_leaving srt t h
  have hkept : (reconcileAt srt key s t).pods = s.pods := by
    rw [heq, ← hpods]
    split
    · exact Prog.run_frame (fun r s h => pods_of_silent h) tearDown_silent
        s1
    · rfl
  refine ⟨(reconcileAt_condemned h.condemned).imp_right
    fun h' => ⟨h', fun p hp => ?_⟩, fun hlater => ?_⟩
  · rw [cachePods_congr hkept] at hp
    exact h.told p hp
  · have hb : b = true := by
      refine hdrained fun p hp => ?_
      obtain ⟨hread, hahead⟩ := h.told p hp
      exact drained_later hread hahead hlater
    rw [hb, if_pos rfl] at heq
    have h1 : Condemned s1 stored := by
      refine ⟨?_, h.condemned.deleting, h.condemned.finalizer⟩
      rw [hobjects .distributedCache (by simp)]
      exact h.condemned.stored
    have hends := tearDown_ends h1
    rw [← heq, hobjects .ns (by simp)] at hends
    refine hends.imp (Released.departed h.condemned) ?_
    exact fun ⟨hthere, hleaving, _⟩ => ⟨hthere, hleaving⟩

theorem leaving_many (ts : List Time) :
    ∀ {s : Cluster}, Departed key s ∨ Leaving since stored s →
      Departed key (ts.foldl (reconcileAt srt key) s)
        ∨ Leaving since stored (ts.foldl (reconcileAt srt key) s) := by
  induction ts with
  | nil => exact id
  | cons t ts ih =>
      intro s h
      apply ih
      rcases h with hdeparted | hleaving
      · left
        rw [hdeparted.kept]
        exact hdeparted
      · exact (leaving_next srt hleaving t).1

/-- When the namespace of the cell is gone, the deletion goes on where it
was. -/
theorem CellRemoved.leaving (h : CellRemoved stored.1 s s')
    (hleaving : Leaving since stored s) : Leaving since stored s' := by
  refine ⟨⟨?_, hleaving.condemned.deleting, hleaving.condemned.finalizer⟩,
    fun p hp => ?_⟩
  · rw [h.caches]
    exact hleaving.condemned.stored
  · exact hleaving.told p (cachePods_of_mem hp (h.pods p (mem_cachePods hp)))

end

/-- A deletion comes to its end, if the annotations that are on the
listed pods can be read and do not lie ahead of the clock. After the
Reconcile at `t₀`, any number at any times, and one that is later by the
grace period, the object has been let go, or the namespace of its cell is
on its way out; and whenever that is gone, the next Reconcile that comes
late enough lets the object go. Where it has been let go, no Reconcile
changes anything, whatever fails. -/
theorem deletion_settles (srt : SliceSort) (key : NamespacedName)
    (s : Cluster) (stored : {o : DistributedCache // o.key = key})
    (h : Condemned s stored) (t₀ t : Time) (ts : List Time)
    (hread : ∀ p ∈ cachePods stored.1 s,
      (p.metadata.annotations.get drainAnnotation).isSome → Readable p)
    (hahead : ∀ p ∈ cachePods stored.1 s, NotAhead t₀ p)
    (hlater : grace stored.1 ≤ t.nanos - t₀.nanos) (s' : Cluster)
    (hs' : s' = (t₀ :: ts ++ [t]).foldl (reconcileAt srt key) s) :
    (Departed key s'
      ∨ CellLeaving stored.1 s'
        ∧ ∀ s₂ t₂, CellRemoved stored.1 s' s₂ →
          grace stored.1 ≤ t₂.nanos - t₀.nanos →
            Departed key (reconcileAt srt key s₂ t₂))
      ∧ ∀ s₃ t₃ fs, Departed key s₃ →
        ((reconcile srt t₃ key).exec api fs s₃).state = s₃ := by
  refine ⟨?_, fun s₃ t₃ fs hdeparted => (hdeparted.sat fs).2⟩
  rw [List.foldl_append] at hs'
  subst hs'
  have hwaits : Departed key ((t₀ :: ts).foldl (reconcileAt srt key) s)
      ∨ Leaving t₀ stored ((t₀ :: ts).foldl (reconcileAt srt key) s) :=
    leaving_many ts (leaving_first h hread hahead)
  generalize (t₀ :: ts).foldl (reconcileAt srt key) s = w at hwaits
  show Departed key (reconcileAt srt key w t)
    ∨ CellLeaving stored.1 (reconcileAt srt key w t) ∧ _
  rcases hwaits with hdeparted | hleaving
  · left
    rw [hdeparted.kept]
    exact hdeparted
  obtain ⟨hstays, hends⟩ := leaving_next srt hleaving t
  rcases hends hlater with hdeparted | ⟨-, hcell⟩
  · exact Or.inl hdeparted
  refine hstays.imp_right fun hleaving' => ⟨hcell, ?_⟩
  intro s₂ t₂ hremoved hlater₂
  rcases (leaving_next srt (hremoved.leaving hleaving') t₂).2 hlater₂ with
    hdeparted | ⟨hthere, -⟩
  · exact hdeparted
  · exact absurd hremoved.cell hthere

/-- The user deletes the cache `orders`, which has a cell with a pod. -/
def ordersWithdrawn : Cluster :=
  ordersCellReady.put (ordersDeleted (some ⟨true⟩))

/-- The drain begins at second 100; the clock is set back once. -/
def ordersWithdrawnEnd : Cluster :=
  [Time.ofUnix 100, Time.ofUnix 90, Time.ofUnix 130].foldl
    (reconcileAt .insertionSort ordersKey) ordersWithdrawn

theorem deletion_settles_orders :
    (ordersWithdrawnEnd.objects .ns ⟨"", "cache-orders-cache"⟩).map
        (fun ns => ns.1.metadata.deleting) = some true
      ∧ (Departed ordersKey ordersWithdrawnEnd
        ∨ CellLeaving (ordersDeleted (some ⟨true⟩)) ordersWithdrawnEnd
          ∧ ∀ s₂ t₂, CellRemoved (ordersDeleted (some ⟨true⟩))
              ordersWithdrawnEnd s₂ →
            grace (ordersDeleted (some ⟨true⟩))
              ≤ t₂.nanos - (Time.ofUnix 100).nanos →
            Departed ordersKey
              (reconcileAt .insertionSort ordersKey s₂ t₂)) := by
  refine ⟨by decide +kernel, ?_⟩
  have hnone : ∀ p ∈ ordersWithdrawn.pods.items,
      p.metadata.annotations.get drainAnnotation = none := by
    decide +kernel
  refine (deletion_settles .insertionSort ordersKey ordersWithdrawn
    ⟨ordersDeleted (some ⟨true⟩), rfl⟩ ⟨rfl, rfl, by decide⟩
    (Time.ofUnix 100) (Time.ofUnix 130) [Time.ofUnix 90] ?_ ?_ (by decide)
    _ rfl).1
  · intro p hp hsome
    rw [hnone p (mem_cachePods hp)] at hsome
    cases hsome
  · exact fun p hp => notAhead_of_untold (hnone p (mem_cachePods hp))

end CacheOperator
