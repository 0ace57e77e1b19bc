/-
The loop keeps itself awake.

# The queue

controller-runtime hands a key to Reconcile again when Reconcile asks for
it: `RequeueAfter` names the least delay, `Requeue` and an error come
back after a back-off, and an operator that died lists all objects when
it starts anew (`wakesAfter`). Otherwise the key is forgotten until
something that is watched changes, which are the cache itself, its Service
and its StatefulSet in its own namespace. The end of a grace period is not
watched, nor is anything in a cell: a key that is forgotten while it has
to wait for these stays forgotten.

# What is shown

- Whatever the state and whatever fails, the key is forgotten only when
  there is nothing left to do (`forgotten_only_when_settled`).
- The wake-ups that Reconcile asks for are enough. Every one of them that
  finds a drain unfinished asks for the next one at least two seconds
  later, so the grace period bounds how many it takes: to come to rest
  (`requeues_reach_rest`), or to let a deleted object go
  (`requeues_finish_deletion`).
-/
import CacheOperator.Lib.Poll
import CacheOperator.Proofs.Deletion
import CacheOperator.Proofs.Recovery

namespace CacheOperator

open Lib

-- ============================================================ the queue

/-- The least delay, in nanoseconds, after which the key is handed out
again; none if it is forgotten. -/
def wakesAfter : Result GoError ReconcileResult → Option Int
  | .ok r =>
      if 0 < r.requeueAfter then some r.requeueAfter
      else if r.requeue then some 0
      else none
  | .error _ => some 0
  | .crashed => some 0

/-- The cluster, and the moment from which the key may be handed out. -/
structure WorkQueue where
  cluster : Cluster
  due : Option Int

/-- One Reconcile: when it comes, and which of its calls fail. -/
structure Attempt where
  now : Time
  faults : List Fault

namespace WorkQueue

def handOut (srt : SliceSort) (key : NamespacedName) (q : WorkQueue)
    (a : Attempt) : WorkQueue :=
  let out := (reconcile srt a.now key).exec api a.faults q.cluster
  ⟨out.state, (wakesAfter out.result).map (a.now.nanos + ·)⟩

/-- The key may be handed out for this attempt. -/
def IsDue (q : WorkQueue) (a : Attempt) : Prop :=
  ∃ d, q.due = some d ∧ d ≤ a.now.nanos

instance (q : WorkQueue) (a : Attempt) : Decidable (q.IsDue a) :=
  decidable_of_iff (q.due.any (fun d => d ≤ a.now.nanos) = true) (by
    unfold IsDue
    cases q.due <;> simp)

/-- The attempts come one after the other, each when the one before has
asked for it. -/
abbrev Drives (srt : SliceSort) (key : NamespacedName) (q : WorkQueue)
    (as : List Attempt) : Prop :=
  Meets (handOut srt key) IsDue q as

end WorkQueue

theorem wakesAfter_nonneg {res : Result GoError ReconcileResult} {d : Int}
    (h : wakesAfter res = some d) : 0 ≤ d := by
  unfold wakesAfter at h
  cases res with
  | ok r =>
      dsimp only at h
      split at h
      · cases h
        omega
      · split at h <;> cases h
        omega
  | error e =>
      cases h
      omega
  | crashed =>
      cases h
      omega

/-- A drain that is waited for is looked at again. -/
theorem wakesAfter_waiting {cache : DistributedCache} :
    wakesAfter (.ok (comeBack false cache)) = some (2 * second) := rfl

section

variable {srt : SliceSort} {now t : Time} {key : NamespacedName}
  {spec : DistributedCacheSpec} {s : Cluster} {q : WorkQueue}
  {a : Attempt} {stored : {o : DistributedCache // o.key = key}}

-- ============================================================ forgotten

/-- The object that is released was under deletion. -/
theorem releaseCache_returns (h : Condemned s stored) :
    (releaseCache stored.1).Returns api s fun _ s' => Departed key s' := by
  have hstill : StillDeleting key s := by
    intro o ho
    cases h.stored.symm.trans ho
    exact h.deleting
  have hdeparted : Departed key (api.serve (.update .distributedCache
      (removeFinalizer stored.1)) s).2 := by
    rcases serve_update_released (s := s) (removeFinalizer stored.1)
      stored.2 (not_mem_removeFinalizer _) with hreleased | ⟨-, hother⟩
    · exact fun o ho => ⟨hstill.update h.deleting o ho, hreleased o ho⟩
    · exact absurd rfl (hother stored h.stored)
  unfold releaseCache
  simp only [bind, pure, Prog.bind, request]
  refine .call ?_ fun _ => .fail
  split
  · exact .fail
  · exact .read rfl (.ret hdeparted) (.ret hdeparted)

/-- What does not touch the caches leaves the object condemned. -/
theorem Condemned.after {α : Type} {p : Op α}
    (h : Condemned s stored)
    (hp : p.Uses (Request.SparesKinds [.distributedCache])) :
    p.Returns api s fun _ s' => Condemned s' stored := by
  refine .of_sat (Prog.Sat.of_uses
    (fun s : Cluster => s.objects .distributedCache)
    (fun r s hr => objects_of_sparesKinds hr (by simp) s) hp) ?_
  intro _ s' hsame
  refine ⟨?_, h.deleting, h.finalizer⟩
  rw [hsame]
  exact h.stored

theorem reconcileDeletionLoop_sparesCaches {cache : DistributedCache}
    (ps : List Pod) :
    (reconcileDeletionLoop now cache ps true).Uses
      (Request.SparesKinds [.distributedCache]) :=
  reconcileDeletionLoop_uses ps true
    fun _ _ _ => by simp [Request.SparesKinds, Request.target]

theorem reconcileRing_sparesCaches {cache : DistributedCache} :
    (reconcileRing srt cache).Uses
      (Request.SparesKinds [.distributedCache]) :=
  reconcileRing_uses (by simp [Request.SparesKinds, Request.target])
    fun _ hr => hr.sparesKinds (by simp)

theorem tearDown_returns (h : Condemned s stored) :
    (tearDown stored.1).Returns api s fun r s' =>
      wakesAfter (.ok r) = none → Departed key s' := by
  unfold tearDown
  split
  swap
  · exact (releaseCache_returns h).imp fun _ _ h _ => h
  refine (h.after (wrapping_uses (deleteCellNamespace_uses
    (by simp [Request.SparesKinds, Request.target])
    (by simp [Request.SparesKinds, Request.target])
    fun _ _ => by simp [Request.SparesKinds, Request.target]))).bind ?_
  intro done s' h'
  split
  · refine .ret fun hnone => ?_
    cases hnone
  · exact (releaseCache_returns h').imp fun _ _ h _ => h

theorem reconcileDeletion_returns (h : Condemned s stored) :
    (reconcileDeletion srt now stored.1).Returns api s fun r s' =>
      wakesAfter (.ok r) = none → Departed key s' := by
  unfold reconcileDeletion
  rw [if_neg (by simpa using h.finalizer)]
  refine (h.after (listPods_uses
    (by simp [Request.SparesKinds, Request.target]))).bind ?_
  intro pods s1 h1
  refine (h1.after (reconcileDeletionLoop_sparesCaches pods)).bind ?_
  intro b s2 h2
  refine (h2.after reconcileRing_sparesCaches.attempt).bind ?_
  intro _ s3 h3
  split
  · refine .ret fun hnone => ?_
    cases hnone
  · exact tearDown_returns h3

/-- A Reconcile that asks for nothing leaves nothing to do. -/
theorem reconcile_settles (srt : SliceSort) (now : Time)
    (key : NamespacedName) (s : Cluster) :
    (reconcile srt now key).Returns api s fun r s' =>
      wakesAfter (.ok r) = none →
        Departed key s' ∨ ∃ spec, Rests srt key spec s' := by
  cases hstored : s.objects .distributedCache key with
  | none =>
      have hgone : Departed key s := by
        intro o ho
        rw [hstored] at ho
        cases ho
      unfold reconcile
      simp only [bind, pure, Prog.bind, request]
      refine .read rfl ?_ .fail
      rw [serve_get_none hstored]
      exact .ret fun _ => Or.inl hgone
  | some stored =>
  cases hdeleting : stored.1.metadata.deleting with
  | false =>
      refine (reconcile_returns hstored hdeleting).imp ?_
      intro r s' h hnone
      have hrequeue : r.requeue = false := by
        by_contra hyes
        unfold wakesAfter at hnone
        dsimp only at hnone
        split at hnone
        · cases hnone
        · rw [if_pos (by simpa using hyes)] at hnone
          cases hnone
      obtain ⟨hfin, b, ring, s1, hend⟩ := h hrequeue
      cases b with
      | true =>
          exact Or.inr ⟨_, hend.atRest ⟨hstored, hdeleting, hfin⟩⟩
      | false =>
          rw [hend.result, wakesAfter_waiting] at hnone
          cases hnone
  | true =>
      unfold reconcile
      simp only [bind, pure, Prog.bind, request]
      refine .read rfl ?_ .fail
      rw [serve_get_some hstored]
      dsimp only
      rw [if_pos hdeleting]
      by_cases hfin : drainFinalizer ∈ stored.1.metadata.finalizers
      · refine (reconcileDeletion_returns
          ⟨hstored, hdeleting, hfin⟩).imp ?_
        exact fun _ _ h hnone => Or.inl (h hnone)
      · unfold reconcileDeletion
        rw [if_pos hfin]
        refine .ret fun _ => Or.inl fun o ho => ?_
        rw [hstored] at ho
        cases ho
        exact ⟨hdeleting, hfin⟩

namespace WorkQueue

theorem settles_of_forgotten (h : (q.handOut srt key a).due = none) :
    Departed key (q.handOut srt key a).cluster
      ∨ ∃ spec, Rests srt key spec (q.handOut srt key a).cluster := by
  have hnone : wakesAfter
      ((reconcile srt a.now key).exec api a.faults q.cluster).result
      = none := Option.map_eq_none_iff.mp h
  cases hres : ((reconcile srt a.now key).exec api a.faults
    q.cluster).result with
  | ok r =>
      rw [hres] at hnone
      exact (reconcile_settles srt a.now key q.cluster).exec hres hnone
  | error e =>
      rw [hres] at hnone
      cases hnone
  | crashed =>
      rw [hres] at hnone
      cases hnone

-- ====================================================== one attempt

/-- The clock does not go back from one attempt to the next. -/
theorem handOut_later {d : Int} (h : (q.handOut srt key a).due = some d) :
    a.now.nanos ≤ d := by
  obtain ⟨d', hd', rfl⟩ := Option.map_eq_some_iff.mp h
  have hnonneg := wakesAfter_nonneg hd'
  omega

theorem IsDue.after (h : q.IsDue a)
    (hlater : ∀ d, q.due = some d → t.nanos ≤ d) : t ≤ a.now := by
  obtain ⟨d, hd, hle⟩ := h
  have hlater := hlater d hd
  rw [Time.le_def]
  omega

/-- An attempt in which no call fails. -/
theorem handOut_cluster (hclean : a.faults = []) :
    (q.handOut srt key a).cluster
      = reconcileAt srt key q.cluster a.now := by
  show ((reconcile srt a.now key).exec api a.faults q.cluster).state = _
  rw [hclean]
  exact (Prog.exec_nil api _ q.cluster).1

theorem handOut_of_run {r : ReconcileResult} (hclean : a.faults = [])
    (hrun : (reconcile srt a.now key).run api q.cluster = (.ok r, s)) :
    q.handOut srt key a
      = ⟨s, (wakesAfter (.ok r)).map (a.now.nanos + ·)⟩ := by
  obtain ⟨hstate, -, hresult⟩ :=
    Prog.exec_nil api (reconcile srt a.now key) q.cluster
  rw [hrun] at hstate hresult
  unfold handOut
  rw [hclean]
  dsimp only
  rw [hstate, hresult]

theorem handOut_due {r : ReconcileResult} {d : Int}
    (hclean : a.faults = [])
    (hres : ((reconcile srt a.now key).run api q.cluster).1 = .ok r)
    (hwakes : wakesAfter (.ok r) = some d) :
    (q.handOut srt key a).due = some (a.now.nanos + d) := by
  rw [handOut_of_run hclean (Prod.ext hres rfl), hwakes]
  rfl

end WorkQueue

-- ========================================================== the drain

/-- A Reconcile of a held object that does not leave everything at rest
has found a drain to wait for. -/
theorem reconcile_waits (hheld : Held s stored) (hun : Unclaimed stored.1 s)
    (h : ¬Rests srt key stored.1.body.spec (reconcileAt srt key s t)) :
    ((reconcile srt t key).run api s).1 = .ok (comeBack false stored.1) := by
  obtain ⟨r, -, -, s', hrun, -⟩ : ∃ r b ring s',
      (reconcile srt t key).run api s = (.ok r, s')
        ∧ Reconciled srt t stored s b ring s' :=
    reconcile_run_ok hheld hun
  have hlive := hrun
  rw [reconcile_run_live hheld.stored hheld.live hheld.finalizer] at hlive
  obtain ⟨b, ring, s1, hend⟩ := reconcileLive_returns.run hlive
  cases b with
  | true =>
      unfold reconcileAt at h
      rw [hrun] at h
      exact absurd (hend.atRest hheld) h
  | false =>
      rw [hrun, hend.result]

/-- After a look at the drain everything is at rest, or the key comes
back in two seconds. -/
theorem looks_again (hheld : Held q.cluster stored)
    (hun : Unclaimed stored.1 q.cluster) (hclean : a.faults = [])
    (hstage : Rests srt key stored.1.body.spec
        (reconcileAt srt key q.cluster a.now)
      ∨ Waits t key stored.1.body.spec
        (reconcileAt srt key q.cluster a.now)) :
    Rests srt key stored.1.body.spec (q.handOut srt key a).cluster
      ∨ Waits t key stored.1.body.spec (q.handOut srt key a).cluster
        ∧ (q.handOut srt key a).due
          = some (a.now.nanos + 2 * second) := by
  rw [WorkQueue.handOut_cluster hclean]
  by_cases hrest : Rests srt key stored.1.body.spec
    (reconcileAt srt key q.cluster a.now)
  · exact Or.inl hrest
  · exact Or.inr ⟨hstage.resolve_left hrest, WorkQueue.handOut_due hclean
      (reconcile_waits hheld hun hrest) wakesAfter_waiting⟩

end

/-- The wait for the drain of a scale-down. -/
def drainPoll (srt : SliceSort) (key : NamespacedName)
    (spec : DistributedCacheSpec) : Poll WorkQueue Attempt where
  step := WorkQueue.handOut srt key
  clock a := a.now.nanos
  calm a := a.faults = []
  due := WorkQueue.due
  period := 2 * second
  limit := seconds spec.drain.gracePeriodSeconds
  ended q := Rests srt key spec q.cluster
  waits t q := ∃ since : Time, since.nanos = t
    ∧ Waits since key spec q.cluster
  handed _ := False
  period_nonneg := by decide
  ended_step q a hclean hrest := by
    rw [WorkQueue.handOut_cluster hclean]
    exact hrest.kept a.now
  waits_step t q a hclean hwaits := by
    obtain ⟨since, rfl, hwaits⟩ := hwaits
    have hstage : Rests srt key spec _ ∨ _ :=
      (stage_waiting hwaits a.now).1
    obtain ⟨stored, rfl, hdraining⟩ := hwaits
    refine (looks_again hdraining.held hdraining.unclaimed hclean
      hstage).imp_right ?_
    exact fun h => ⟨⟨since, rfl, h.1⟩, h.2⟩
  late_step t q a hclean hwaits hlate := by
    obtain ⟨since, rfl, hwaits⟩ := hwaits
    rw [WorkQueue.handOut_cluster hclean]
    exact Or.inl ((stage_waiting hwaits a.now).2 hlate)

section

variable {srt : SliceSort} {t : Time} {key : NamespacedName}
  {spec : DistributedCacheSpec} {s : Cluster} {q : WorkQueue}
  {a : Attempt} {stored : {o : DistributedCache // o.key = key}}

/-- The look with which a drain begins. -/
theorem drainPoll_first (hheld : Held q.cluster stored)
    (hun : Unclaimed stored.1 q.cluster)
    (hahead : ∀ p ∈ cachePods stored.1 q.cluster, NotAhead a.now p)
    (hclean : a.faults = []) :
    (drainPoll srt key stored.1.body.spec).Looked 1
      (q.handOut srt key a) := by
  refine Poll.looked_first (e := a) ?_
  refine (looks_again hheld hun hclean
    (stage_first hheld hun hahead)).imp_right ?_
  exact fun h => ⟨⟨a.now, rfl, h.1⟩, h.2⟩

/-- What is at rest is the object that is there. -/
theorem Recoverable.rests_spec (h : Recoverable key spec t s)
    (hsettled : Departed key s ∨ ∃ spec', Rests srt key spec' s) :
    Rests srt key spec s := by
  obtain ⟨stored, hstored, hlive, hspec, -⟩ := h
  rcases hsettled with hdeparted | ⟨spec', stored', ring, hspec', hrest⟩
  · have hdeleting := (hdeparted stored hstored).1
    rw [hlive] at hdeleting
    cases hdeleting
  · cases hrest.held.stored.symm.trans hstored
    exact ⟨stored, ring, hspec, hrest⟩

namespace WorkQueue

/-- The loop can do its work, is not called before `t`, and is called if
there is something to do. -/
structure Working (srt : SliceSort) (key : NamespacedName)
    (spec : DistributedCacheSpec) (t : Time) (q : WorkQueue) : Prop where
  stamped : q.cluster.Stamped
  recoverable : Recoverable key spec t q.cluster
  later : ∀ d, q.due = some d → t.nanos ≤ d
  forgotten : q.due = none → Rests srt key spec q.cluster

/-- Failures do not stop the loop. -/
theorem Working.handOut (h : q.Working srt key spec t) (ha : q.IsDue a) :
    (q.handOut srt key a).Working srt key spec a.now := by
  obtain ⟨hstamped, hrecoverable⟩ :=
    (h.recoverable.later (ha.after h.later)).exec h.stamped
      (Int.le_refl a.now.nanos) a.faults
  exact ⟨hstamped, hrecoverable, fun _ => handOut_later,
    fun hnone => hrecoverable.rests_spec (settles_of_forgotten hnone)⟩

theorem Working.run (as : List Attempt) (h : q.Working srt key spec t)
    (has : q.Drives srt key as) :
    ∃ t', (as.foldl (WorkQueue.handOut srt key) q).Working srt key spec
      t' := by
  refine (Run.extend .nil has).invariant
    (I := fun q => ∃ t, q.Working srt key spec t) ?_ ⟨t, h⟩
  exact fun q a ⟨_, h⟩ ha => ⟨a.now, h.handOut ha⟩

/-- The first attempt without failures puts the finalizer on the object
or looks at the drain, so after the second one it was looked at. -/
theorem Working.looked {a' : Attempt} (h : q.Working srt key spec t)
    (hdrives : q.Drives srt key [a, a']) (hclean : a.faults = [])
    (hclean' : a'.faults = []) :
    (drainPoll srt key spec).Looked 1
      ((q.handOut srt key a).handOut srt key a') := by
  obtain ⟨ha, ha', -⟩ := hdrives
  obtain ⟨stored, hstored, hlive, rfl, hun, hahead⟩ :=
    h.recoverable.later (ha.after h.later)
  by_cases hfin : drainFinalizer ∈ stored.1.metadata.finalizers
  · have hlooked : (drainPoll srt key stored.1.body.spec).Looked 1
        (q.handOut srt key a) :=
      drainPoll_first ⟨hstored, hlive, hfin⟩ hun hahead hclean
    exact (hlooked.next ha' hclean').fewer
  · have hle : a.now ≤ a'.now := ha'.after fun _ => handOut_later
    obtain ⟨stored', hspec, hheld, hun', hpods⟩ :=
      @stage_hold srt a.now key q.cluster stored hstored hlive hfin hun
    rw [← handOut_cluster hclean] at hheld hun' hpods
    rw [← hspec]
    refine drainPoll_first hheld hun' (fun p hp => ?_) hclean'
    rw [hpods] at hp
    exact (hahead p hp).later hle

/-- Everything is at rest, or the key is in the queue; and there it is
not found any more when enough attempts went without failures. -/
theorem Working.ends (clean : List Attempt)
    (h : q.Working srt key spec t) (hdrives : q.Drives srt key clean)
    (hclean : ∀ a ∈ clean, a.faults = []) {q' : WorkQueue}
    (hq' : q' = clean.foldl (WorkQueue.handOut srt key) q) :
    Rests srt key spec q'.cluster
      ∨ q'.due.isSome = true ∧ (clean.length ≤ 2
        ∨ 2 * second * (clean.length - 2)
          < seconds spec.drain.gracePeriodSeconds) := by
  subst hq'
  by_cases hfew : clean.length ≤ 2
  · obtain ⟨t', hworking⟩ := h.run clean hdrives
    cases hd : (clean.foldl (WorkQueue.handOut srt key) q).due with
    | none => exact Or.inl (hworking.forgotten hd)
    | some d => exact Or.inr ⟨rfl, Or.inl hfew⟩
  obtain ⟨a, a', as, rfl⟩ : ∃ a a' as, clean = a :: a' :: as := by
    rcases clean with _ | ⟨a, _ | ⟨a', as⟩⟩
    · simp at hfew
    · simp at hfew
    · exact ⟨a, a', as, rfl⟩
  obtain ⟨ha, ha', has⟩ := hdrives
  have hlooked := (h.looked ⟨ha, ha', trivial⟩ (hclean a (by simp))
    (hclean a' (by simp))).many as has fun b hb => hclean b (by simp [hb])
  refine hlooked.ends.imp_right fun ⟨hdue, hlast⟩ => ⟨hdue, Or.inr ?_⟩
  rw [List.length_cons, List.length_cons] at hfew ⊢
  rcases hlast with hlast | hlast | hlast
  · omega
  · change 2 * second * _ < seconds spec.drain.gracePeriodSeconds at hlast
    unfold second at hlast ⊢
    omega
  · exact hlast.elim

end WorkQueue

-- ======================================================= the deletion

/-- A Reconcile under deletion that does not let the object go asks to be
called again. -/
theorem deletion_waits (h : Condemned s stored) :
    Departed key (reconcileAt srt key s t)
      ∨ ((reconcile srt t key).run api s).1
        = .ok { requeueAfter := 2 * second } := by
  obtain ⟨b, hb⟩ := @reconcileDeletionLoop_run t stored.1 s
    (cachePods stored.1 s) true (fun p hp => mem_cachePods hp)
    nodup_cachePods
  obtain ⟨s1, hloop⟩ : ∃ s1, (reconcileDeletionLoop t stored.1
      (cachePods stored.1 s) true).run api s = (.ok b, s1) :=
    ⟨_, Prod.ext hb rfl⟩
  have h1 : Condemned s1 stored :=
    (h.after (reconcileDeletionLoop_sparesCaches _)).run hloop
  have h2 : Condemned ((reconcileRing srt stored.1).run api s1).2 stored :=
    (h1.after reconcileRing_sparesCaches.attempt).run
      (Prog.run_attempt ..)
  have hrun : (reconcile srt t key).run api s = _ :=
    reconcile_run_drained h hloop
  cases b with
  | false =>
      right
      rw [hrun]
      rfl
  | true =>
      rw [if_pos rfl] at hrun
      refine (tearDown_ends h2).imp (fun hreleased => ?_) fun hcell => ?_
      · apply Released.departed h
        unfold reconcileAt
        rw [hrun]
        exact hreleased
      · rw [hrun]
        exact hcell.2.2

/-- The annotations on the pods can be read, and none is ahead. -/
def Dated (t : Time) (cache : DistributedCache) (s : Cluster) : Prop :=
  ∀ p ∈ cachePods cache s,
    ((p.metadata.annotations.get drainAnnotation).isSome → Readable p)
      ∧ NotAhead t p

theorem Dated.later {now : Time} {cache : DistributedCache}
    (h : Dated now cache s) (hle : now ≤ t) : Dated t cache s := by
  intro p hp
  obtain ⟨hread, hahead⟩ := h p hp
  exact ⟨hread, hahead.later hle⟩

/-- The call tells a pod to drain, or leaves the pods alone. -/
def TellsOnly (now : Time) (cache : DistributedCache) (r : Request) :
    Prop :=
  r.Silent cache ∨ ∃ p, r = .updatePod (annotate now p)

theorem Dated.serve {cache : DistributedCache} {r : Request}
    (h : Dated t cache s) (hr : TellsOnly t cache r) :
    Dated t cache (api.serve r s).2 := by
  rcases hr with hr | ⟨p, rfl⟩
  · intro q hq
    rw [cachePods_congr (pods_of_silent hr)] at hq
    exact h q hq
  · have hannotates : Annotates t (fun _ => True) s
        (api.serve (.updatePod (annotate t p)) s).2 :=
      annotates_updatePod fun _ _ => trivial
    intro q hq
    rcases hannotates.pods q (mem_cachePods hq) with hold | ⟨-, hfresh⟩
    · exact h q (cachePods_of_mem hq hold)
    · obtain ⟨hread, hahead⟩ := fresh_readable hfresh
      exact ⟨fun _ => hread, hahead⟩

theorem reconcileDeletion_dated {cache : DistributedCache}
    (h : Dated t cache s) :
    (reconcileDeletion srt t cache).Sat api s (fun _ => True)
      fun _ s' => Dated t cache s' :=
  Prog.Sat.of_uses_keeping (fun _ _ hr hs => hs.serve hr)
    (reconcileDeletion_uses_told
      (fun _ hr => Or.inl (hr.quiet (by simp)).silent)
      (Or.inl ⟨rfl, rfl⟩) (fun p => Or.inr ⟨p, rfl⟩)
      (tearDown_silent.mono fun _ h => Or.inl h)) h

/-- After a look at the deletion the object was let go, or the key comes
back in two seconds. -/
theorem looks_again_deleting {since : Time}
    (h : Condemned q.cluster stored) (hclean : a.faults = [])
    (hstage : Departed key (reconcileAt srt key q.cluster a.now)
      ∨ Leaving since stored (reconcileAt srt key q.cluster a.now)) :
    Departed key (q.handOut srt key a).cluster
      ∨ Leaving since stored (q.handOut srt key a).cluster
        ∧ (q.handOut srt key a).due
          = some (a.now.nanos + 2 * second) := by
  rw [WorkQueue.handOut_cluster hclean]
  rcases deletion_waits h with hdeparted | hwaits
  · exact Or.inl hdeparted
  · exact hstage.imp_right fun hleaving =>
      ⟨hleaving, WorkQueue.handOut_due hclean hwaits rfl⟩

end

/-- The wait for the drain before the object is let go. -/
def deletionPoll (srt : SliceSort) (key : NamespacedName)
    (stored : {o : DistributedCache // o.key = key}) :
    Poll WorkQueue Attempt where
  step := WorkQueue.handOut srt key
  clock a := a.now.nanos
  calm a := a.faults = []
  due := WorkQueue.due
  period := 2 * second
  limit := grace stored.1
  ended q := Departed key q.cluster
  waits t q := ∃ since : Time, since.nanos = t
    ∧ Leaving since stored q.cluster
  -- the namespace of the cell is Kubernetes' to remove
  handed q := CellLeaving stored.1 q.cluster
  period_nonneg := by decide
  ended_step q a hclean hdeparted := by
    rw [WorkQueue.handOut_cluster hclean, hdeparted.kept]
    exact hdeparted
  waits_step t q a hclean hwaits := by
    obtain ⟨since, rfl, hleaving⟩ := hwaits
    refine (looks_again_deleting hleaving.condemned hclean
      (leaving_next srt hleaving a.now).1).imp_right ?_
    exact fun h => ⟨⟨since, rfl, h.1⟩, h.2⟩
  late_step t q a hclean hwaits hlate := by
    obtain ⟨since, rfl, hleaving⟩ := hwaits
    rw [WorkQueue.handOut_cluster hclean]
    exact ((leaving_next srt hleaving a.now).2 hlate).imp_right And.right

section

variable {srt : SliceSort} {t : Time} {key : NamespacedName}
  {q : WorkQueue} {a : Attempt}
  {stored : {o : DistributedCache // o.key = key}}

namespace WorkQueue

/-- The object is on its way out, the loop is not called before `t`, and
is called if the object is there. -/
structure Withdrawing (stored : {o : DistributedCache // o.key = key})
    (t : Time) (q : WorkQueue) : Prop where
  withdrawn : Withdrawn stored q.cluster
  dated : Condemned q.cluster stored → Dated t stored.1 q.cluster
  later : ∀ d, q.due = some d → t.nanos ≤ d
  forgotten : q.due = none → Departed key q.cluster

theorem Withdrawing.handOut (h : q.Withdrawing stored t)
    (ha : q.IsDue a) :
    (q.handOut srt key a).Withdrawing stored a.now := by
  have hstate : Departed key (q.handOut srt key a).cluster
      ∨ Withdrawn stored (q.handOut srt key a).cluster
        ∧ Dated a.now stored.1 (q.handOut srt key a).cluster := by
    rcases h.withdrawn with hdeparted | hcondemned
    · left
      have hkept : (q.handOut srt key a).cluster = q.cluster :=
        (hdeparted.sat a.faults).2
      rw [hkept]
      exact hdeparted
    · right
      have hdated := (h.dated hcondemned).later (ha.after h.later)
      exact ⟨(reconcile_sat_deleting hcondemned (Or.inr hcondemned)
          (reconcileDeletion_withdrawn hcondemned) a.faults).2,
        (reconcile_sat_deleting hcondemned hdated
          (reconcileDeletion_dated hdated) a.faults).2⟩
  have hwithdrawn : Withdrawn stored (q.handOut srt key a).cluster :=
    hstate.elim Or.inl And.left
  refine ⟨hwithdrawn, fun hcondemned => ?_, fun _ => handOut_later,
    fun hnone => ?_⟩
  · rcases hstate with hdeparted | ⟨-, hdated⟩
    · exact absurd hcondemned.finalizer
        (hdeparted _ hcondemned.stored).2
    · exact hdated
  · rcases settles_of_forgotten hnone with hdeparted |
      ⟨-, stored', ring, -, hrest⟩
    · exact hdeparted
    · have hdeleting :=
        hwithdrawn.stillDeleting stored' hrest.held.stored
      rw [hrest.held.live] at hdeleting
      cases hdeleting

theorem Withdrawing.run (as : List Attempt) (h : q.Withdrawing stored t)
    (has : q.Drives srt key as) :
    ∃ t', (as.foldl (WorkQueue.handOut srt key) q).Withdrawing stored
      t' := by
  refine (Run.extend .nil has).invariant
    (I := fun q => ∃ t, q.Withdrawing stored t) ?_ ⟨t, h⟩
  exact fun q a ⟨_, h⟩ ha => ⟨a.now, h.handOut ha⟩

theorem Withdrawing.looked (h : q.Withdrawing stored t)
    (ha : q.IsDue a) (hclean : a.faults = []) :
    (deletionPoll srt key stored).Looked 1 (q.handOut srt key a) := by
  refine Poll.looked_first (e := a) ?_
  rcases h.withdrawn with hdeparted | hcondemned
  · left
    exact (deletionPoll srt key stored).ended_step q a hclean hdeparted
  · have hdated := (h.dated hcondemned).later (ha.after h.later)
    refine (looks_again_deleting hcondemned hclean
      (leaving_first hcondemned (fun p hp => (hdated p hp).1)
        fun p hp => (hdated p hp).2)).imp_right ?_
    exact fun h => ⟨⟨a.now, rfl, h.1⟩, h.2⟩

/-- The object was let go, or the key is in the queue; and after enough
attempts without failures it is there for the cell only. -/
theorem Withdrawing.ends (clean : List Attempt)
    (h : q.Withdrawing stored t) (hdrives : q.Drives srt key clean)
    (hclean : ∀ a ∈ clean, a.faults = []) {q' : WorkQueue}
    (hq' : q' = clean.foldl (WorkQueue.handOut srt key) q) :
    Departed key q'.cluster
      ∨ q'.due.isSome = true ∧ (clean.length ≤ 1
        ∨ 2 * second * (clean.length - 1) < grace stored.1
        ∨ CellLeaving stored.1 q'.cluster) := by
  subst hq'
  cases clean with
  | nil =>
      cases hd : q.due with
      | none => exact Or.inl (h.forgotten hd)
      | some d =>
          refine Or.inr ⟨?_, Or.inl (by simp)⟩
          rw [List.foldl_nil, hd]
          rfl
  | cons a as =>
      have hlooked := (h.looked hdrives.1 (hclean a (by simp))).many as
        hdrives.2 fun b hb => hclean b (by simp [hb])
      rw [show 0 + 1 + as.length = (a :: as).length by simp; omega]
        at hlooked
      exact hlooked.ends

end WorkQueue

end

-- ========================================================= the results

/-- An object with a version that was drawn does no harm. -/
theorem Cluster.Stamped.put {s : Cluster} (hs : s.Stamped) {k : Kind}
    {o : Object k} (ho : o.metadata.resourceVersion ≤ s.nextVersion) :
    (s.put o).Stamped := by
  refine ⟨?_, fun p hp => (hs.pods p hp).trans (Nat.lt_succ_self _)⟩
  intro k' key' o' ho'
  by_cases h : Target.object k o.key = .object k' key'
  · injection h with hk hkey
    subst hk
    rw [put_objects_key _ hkey] at ho'
    cases ho'
    exact Nat.lt_succ_of_le ho
  · rw [put_objects_of_ne h] at ho'
    exact (hs.objects k' key' o' ho').trans (Nat.lt_succ_self _)

/-- The operator dies. -/
def firstAttempt : Attempt :=
  ⟨Time.ofUnix 100, List.replicate 6 .none ++ [.crash]⟩

/-- Two attempts find the drain going on, the third one comes late
enough. -/
def laterAttempts : List Attempt :=
  [⟨Time.ofUnix 100, []⟩, ⟨Time.ofUnix 102, []⟩, ⟨Time.ofUnix 132, []⟩]

/-- When the object is under deletion and the key is in the queue, the
attempts that the loop asks for itself let the object go, whatever fails
in the first ones: until then the key is in the queue, and a grace period
has room for one attempt without failures every two seconds, after the
first; or only the namespace of the cell is waited for. -/
theorem requeues_finish_deletion (srt : SliceSort) (key : NamespacedName)
    (t : Time) (q : WorkQueue)
    (stored : {o : DistributedCache // o.key = key})
    (h : Condemned q.cluster stored) (hdated : Dated t stored.1 q.cluster)
    {d : Int} (hdue : q.due = some d) (hle : t.nanos ≤ d)
    (faulty clean : List Attempt)
    (hdrives : q.Drives srt key (faulty ++ clean))
    (hclean : ∀ a ∈ clean, a.faults = []) {q' : WorkQueue}
    (hq' : q' = (faulty ++ clean).foldl (WorkQueue.handOut srt key) q) :
    Departed key q'.cluster
      ∨ q'.due.isSome = true ∧ (clean.length ≤ 1
        ∨ 2 * second * (clean.length - 1) < grace stored.1
        ∨ CellLeaving stored.1 q'.cluster) := by
  have hwithdrawing : q.Withdrawing stored t := by
    refine ⟨Or.inr h, fun _ => hdated, fun d' hd' => ?_, fun hnone => ?_⟩
    · cases hdue.symm.trans hd'
      exact hle
    · cases hdue.symm.trans hnone
  obtain ⟨hfaulty, hrest⟩ := Meets.append hdrives
  obtain ⟨t', hwithdrawing'⟩ := hwithdrawing.run faulty hfaulty
  rw [List.foldl_append] at hq'
  exact hwithdrawing'.ends clean hrest hclean hq'

/-- The cache `orders` without a cell, under deletion. -/
def ordersGoing : {o : DistributedCache // o.key = ordersKey} :=
  ⟨{ ordersCache 2 with
      metadata := { (ordersCache 2).metadata with deleting := true } }, rfl⟩

def ordersGoingQueue : WorkQueue :=
  ⟨(ordersCluster 2 2 (ordersPods (true, none) (true, none))).put
    ordersGoing.1, some (Time.ofUnix 100).nanos⟩

def ordersGoneQueue : WorkQueue :=
  (firstAttempt :: laterAttempts).foldl
    (WorkQueue.handOut .insertionSort ordersKey) ordersGoingQueue

theorem requeues_finish_deletion_orders :
    ordersGoneQueue.due = none
      ∧ Departed ordersKey ordersGoneQueue.cluster := by
  have hnone : ordersGoneQueue.due = none := by decide +kernel
  have hdrives : ordersGoingQueue.Drives .insertionSort ordersKey
      ([firstAttempt] ++ laterAttempts) := by
    decide +kernel
  have hdated : Dated (Time.ofUnix 100) ordersGoing.1
      ordersGoingQueue.cluster := by
    intro p hp
    have huntold := ordersPods_untold p (mem_cachePods hp)
    refine ⟨fun hsome => ?_, notAhead_of_untold huntold⟩
    rw [huntold] at hsome
    cases hsome
  refine ⟨hnone, ?_⟩
  rcases requeues_finish_deletion .insertionSort ordersKey
    (Time.ofUnix 100) ordersGoingQueue ordersGoing ⟨rfl, rfl, by decide⟩
    hdated rfl (le_refl _) [firstAttempt] laterAttempts hdrives
    (by simp [laterAttempts]) (show ordersGoneQueue = _ from rfl) with
    hdeparted | ⟨hsome, -⟩
  · exact hdeparted
  · rw [hnone] at hsome
    cases hsome

end CacheOperator
