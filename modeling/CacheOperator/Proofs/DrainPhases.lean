/-
The drain of a pod as an automaton.

A pod serves until its drain is started and drains from then on; the
moment of the start is all the state there is (`DrainPhase`). The code
keeps it as a decimal string in an annotation that anybody can write, in
an object that it writes back whole. Every call of every interleaving
refines the automaton: it leaves a pod where it is, or starts the drain
of a pod that serves at the second of its own clock, and it touches
nothing else of any pod.

So a start, once there, is final as far as the operator is concerned,
and a pod that has drained for a grace period stays drained while the
cache asks for no longer one (`drained_is_for_good`): there is no order
of Reconciles, no old read and no lost reply by which the grace period of
a pod begins again.
-/
import CacheOperator.Proofs.Grace
import CacheOperator.Proofs.Ownership

namespace CacheOperator

open Lib

-- ======================================================== the automaton

/-- A pod serves, or drains since a Unix second. -/
inductive DrainPhase where
  | serving
  | draining (since : Int64)
deriving DecidableEq

/-- What may happen to it at the Unix second `t`. -/
inductive DrainPhase.Step (t : Int64) : DrainPhase → DrainPhase → Prop where
  | stay (p : DrainPhase) : Step t p p
  | start : Step t .serving (.draining t)

/-- The phase that a pod's annotation stands for. -/
def drainPhase (p : Pod) : DrainPhase :=
  match drainStart p with
  | none => .serving
  | some since => .draining since

/-- The second pod is the first one, but for its drain annotation. -/
structure SamePod (p p' : Pod) : Prop where
  metadata : p'.metadata = { p.metadata with
    resourceVersion := p'.metadata.resourceVersion
    annotations := p'.metadata.annotations }
  phase : p'.phase = p.phase
  conditions : p'.conditions = p.conditions
  annotations : ∀ a, a ≠ drainAnnotation →
    p'.metadata.annotations.get a = p.metadata.annotations.get a

section

variable {srt : SliceSort} {now t t' : Time} {key : NamespacedName}
  {w : Timeline Cluster} {s s' : Cluster} {p q : Pod}

theorem SamePod.refl (p : Pod) : SamePod p p :=
  ⟨rfl, rfl, rfl, fun _ _ => rfl⟩

/-- The pod that the update of an annotated pod stores. -/
def drainingPod (s : Cluster) (now : Time) (p : Pod) : Pod :=
  { annotate now p with metadata :=
    { (annotate now p).metadata with resourceVersion := s.nextVersion } }

theorem drainStart_drainingPod :
    drainStart (drainingPod s now p) = some now.unix :=
  (drainStart_of_some get_annotate).trans (parse_decimal_unix now)

theorem samePod_drainingPod : SamePod p (drainingPod s now p) := by
  refine ⟨rfl, rfl, rfl, fun a ha => ?_⟩
  exact Dict.get_set_of_ne _ _ ha

/-- The pods after the update are those before it, the annotated one in
its place. -/
theorem putPod_annotate_items :
    (s.putPod (annotate now p)).pods.items = s.pods.items.map fun q =>
      if q.key = p.key then drainingPod s now p else q := rfl

/-- What a turn can do to a pod. -/
theorem OperatorStep.pod (h : OperatorStep srt now key w s') :
    s'.pods = w.now.pods ∨ ∃ p ∈ w.now.pods.items, drainStart p = none
      ∧ s'.pods.items = w.now.pods.items.map fun q =>
        if q.key = p.key then drainingPod w.now now p else q := by
  cases h with
  | annotated cache p honce hheld hp hns hlabels hstart =>
      exact Or.inr ⟨p, hp, hstart, putPod_annotate_items⟩
  | _ => exact Or.inl rfl

/-- Two pods of one cluster with one key are one pod. -/
theorem pod_eq_of_key (hp : p ∈ s.pods.items) (hq : q ∈ s.pods.items)
    (hkey : q.key = p.key) : q = p := by
  have h := find?_of_mem hq
  rw [hkey, find?_of_mem hp] at h
  injection h with h
  exact h.symm

/-- The pod is as it was, or it had no start that can be read and has
been told to drain now. -/
def LeftOrTold (s : Cluster) (now : Time) (q q' : Pod) : Prop :=
  q' = q ∨ drainStart q = none ∧ q' = drainingPod s now q

/-- Either way it is the same pod, and moves along the automaton. -/
theorem LeftOrTold.follows (h : LeftOrTold s now p q) : SamePod p q
    ∧ DrainPhase.Step now.unix (drainPhase p) (drainPhase q) := by
  rcases h with rfl | ⟨hstart, rfl⟩
  · exact ⟨.refl _, .stay _⟩
  · refine ⟨samePod_drainingPod, ?_⟩
    unfold drainPhase
    rw [hstart, drainStart_drainingPod]
    exact .start

theorem OperatorStep.leftOrTold (h : OperatorStep srt now key w s')
    (hq : q ∈ w.now.pods.items) :
    ∃ q' ∈ s'.pods.items, LeftOrTold w.now now q q' := by
  rcases h.pod with hpods | ⟨p, hp, hstart, hpods⟩
  · rw [hpods]
    exact ⟨q, hq, Or.inl rfl⟩
  · rw [hpods]
    by_cases hkey : q.key = p.key
    · have heq := pod_eq_of_key hp hq hkey
      subst heq
      exact ⟨drainingPod w.now now q,
        List.mem_map.mpr ⟨q, hq, if_pos rfl⟩, Or.inr ⟨hstart, rfl⟩⟩
    · exact ⟨q, List.mem_map.mpr ⟨q, hq, if_neg hkey⟩, Or.inl rfl⟩

end

/-- In every interleaving, with reads of any age, a turn adds no pod and
takes none away. It leaves a pod as it is, or it writes its own second on
one that carries none that can be read, and so moves every pod along the
automaton. -/
theorem pods_follow_the_drain (srt : SliceSort) (nows : Nat → Time)
    (keys : Nat → NamespacedName) {s : Cluster} (hs : s.Stamped)
    {c : Crew Api (Timeline Cluster) GoError ReconcileResult}
    (hrun : OperatorRun Cluster.Moves (operatorCrew srt nows keys s) c)
    (i : Nat) (x : Recall) :
    (operatorTurn c i x).state.now.pods.items.map Pod.key
        = c.state.now.pods.items.map Pod.key
      ∧ ∀ q ∈ c.state.now.pods.items,
        ∃ q' ∈ (operatorTurn c i x).state.now.pods.items,
          LeftOrTold c.state.now (nows i) q q' ∧ SamePod q q'
            ∧ DrainPhase.Step (nows i).unix (drainPhase q)
              (drainPhase q') := by
  have hstep := operator_turn hs hrun i x
  refine ⟨hstep.podKeys, fun q hq => ?_⟩
  obtain ⟨q', hq', hleft⟩ := hstep.leftOrTold hq
  exact ⟨q', hq', hleft, hleft.follows⟩

/-- A cache under deletion. -/
def condemnedCache : DistributedCache :=
  { metadata := { ns := "shop", name := "orders", deleting := true,
                  finalizers := [drainFinalizer] }
    body :=
      { spec := ⟨some 1, "tiny-cache", ⟨64⟩, ⟨30⟩, none⟩
        status := Kind.distributedCache.zero.status } }

/-- Its pod, with some annotations. -/
def condemnedPod (annotations : Dict String String) : Pod :=
  { metadata := { ns := "shop", name := "orders-0", uid := "a",
                  labels := podLabels condemnedCache, annotations }
    phase := .running, conditions := [] }

def condemnedCluster (annotations : Dict String String) : Cluster :=
  { Cluster.empty.put (Cluster.empty.stamp condemnedCache) with
    pods := ⟨[condemnedPod annotations], List.nodup_singleton _⟩ }

theorem condemnedCluster_stamped (annotations : Dict String String) :
    (condemnedCluster annotations).Stamped := by
  have hcache : (Cluster.empty.put
      (Cluster.empty.stamp condemnedCache)).Stamped :=
    Cluster.empty_stamped.moves (Cluster.moves_put _)
  refine ⟨hcache.objects, ?_⟩
  intro p hp
  rw [List.mem_singleton.mp hp]
  exact Nat.zero_lt_two

/-- A `Reconcile` has read the cache and listed its pod. -/
def condemnedCrew : Crew Api (Timeline Cluster) GoError ReconcileResult :=
  (List.replicate 2 (Turn.call 0 Recall.served)).foldl
    (Crew.step (Timeline.dispatch api Request.reads))
    (operatorCrew .insertionSort (fun _ => Time.ofUnix 100)
      (fun _ => ⟨"shop", "orders"⟩) (condemnedCluster .empty))

theorem pods_follow_the_drain_condemned :
    (operatorTurn condemnedCrew 0 .served).state.now.pods.items.map
        drainPhase = [.draining 100]
      ∧ ∀ q ∈ condemnedCrew.state.now.pods.items,
        ∃ q' ∈ (operatorTurn condemnedCrew 0 .served).state.now.pods.items,
          LeftOrTold condemnedCrew.state.now (Time.ofUnix 100) q q'
            ∧ SamePod q q'
            ∧ DrainPhase.Step 100 (drainPhase q) (drainPhase q') := by
  refine ⟨by decide +kernel, ?_⟩
  exact (pods_follow_the_drain .insertionSort (fun _ => Time.ofUnix 100)
    (fun _ => ⟨"shop", "orders"⟩) (condemnedCluster_stamped .empty)
    (operatorRun_served _ _ 0 2) 0 .served).2

-- ============================================================ whole runs

/-- The others leave the drain of the pods with this uid alone, and give
the uid to no other pod. -/
def LeavesDrain (uid : String) (s s' : Cluster) : Prop :=
  ∀ q' ∈ s'.pods.items, q'.metadata.uid = uid →
    ∃ q ∈ s.pods.items, q.metadata.uid = uid
      ∧ drainStart q' = drainStart q

/-- The pods with this uid have drained. -/
def HasDrained (uid : String) (t : Time) (g : Int) (s : Cluster) : Prop :=
  ∀ q ∈ s.pods.items, q.metadata.uid = uid → Drained t g q

/-- The cache asks for a grace period of at most `g`, also when the next
write of the object has filled in the default. -/
def GraceWithin (key : NamespacedName) (g : Int) (s : Cluster) : Prop :=
  ∀ o, s.objects .distributedCache key = some o →
    seconds o.1.body.spec.rewritten.drain.gracePeriodSeconds ≤ g

section

variable {srt : SliceSort} {now t t' : Time} {key : NamespacedName}
  {w : Timeline Cluster} {s s' : Cluster} {p q : Pod} {uid : String} {g : Int}

theorem drained_iff :
    Drained t g p ↔ ∃ ts, drainStart p = some ts
      ∧ g ≤ t.sub (Time.ofUnix ts) := by
  constructor
  · intro h
    obtain ⟨raw, ts, hraw, hts, hage⟩ := h
    exact ⟨ts, (drainStart_of_some hraw).trans hts, hage⟩
  · intro h
    obtain ⟨ts, hts, hage⟩ := h
    obtain ⟨raw, hraw, hparse⟩ := Option.bind_eq_some_iff.mp hts
    exact ⟨raw, ts, hraw, hparse, hage⟩

theorem HasDrained.step (hd : HasDrained uid t g w.now)
    (h : OperatorStep srt now key w s') : HasDrained uid t g s' := by
  intro q hq huid
  rcases h.pod with hpods | ⟨p, hp, hstart, hpods⟩
  · rw [hpods] at hq
    exact hd q hq huid
  · rw [hpods] at hq
    obtain ⟨q₀, hq₀, rfl⟩ := List.mem_map.mp hq
    by_cases hkey : q₀.key = p.key
    · -- the annotated pod had not been draining
      rw [if_pos hkey] at huid
      obtain ⟨ts, hts, -⟩ := drained_iff.mp (hd p hp huid)
      rw [hts] at hstart
      cases hstart
    · rw [if_neg hkey] at huid ⊢
      exact hd q₀ hq₀ huid

theorem HasDrained.leaves (hd : HasDrained uid t g s)
    (h : LeavesDrain uid s s') : HasDrained uid t g s' := by
  intro q' hq' huid
  obtain ⟨q, hq, hquid, hsame⟩ := h q' hq' huid
  rw [drained_iff, hsame, ← drained_iff]
  exact hd q hq hquid

theorem GraceWithin.step {key' : NamespacedName}
    (h : GraceWithin key' g w.now) (hs : OperatorStep srt now key w s') :
    GraceWithin key' g s' := by
  intro new hnew
  obtain ⟨old, hold, huser⟩ := hs.userKept hnew
  rw [huser.spec]
  exact h old hold

/-- A shorter grace period is over, too. -/
theorem Drained.shorter {g' : Int} (h : Drained t g p) (hg : g' ≤ g) :
    Drained t g' p := by
  obtain ⟨raw, ts, hraw, hts, hage⟩ := h
  exact ⟨raw, ts, hraw, hts, hg.trans hage⟩

/-- Time only adds to the age of an annotation. -/
theorem sub_mono (h : t ≤ t') (u : Time) : t.sub u ≤ t'.sub u := by
  have h' := Time.le_def.mp h
  simp only [Time.sub]
  omega

theorem Drained.later (h : Drained t g p) (ht : t ≤ t') :
    Drained t' g p := by
  obtain ⟨ts, hts, hage⟩ := drained_iff.mp h
  exact drained_iff.mpr ⟨ts, hts, hage.trans (sub_mono ht _)⟩

end

/-- A pod that has drained for `g` counts as drained at every later
moment of every interleaving, by the grace period that the cache asks for
at that moment, while this is never more than `g`: the operator never
restarts a drain. -/
theorem drained_is_for_good (srt : SliceSort) (nows : Nat → Time)
    (keys : Nat → NamespacedName) {s : Cluster} (hs : s.Stamped)
    {key : NamespacedName} {uid : String} {t : Time} {g : Int}
    (hdrained : HasDrained uid t g s) (hgrace : GraceWithin key g s)
    {c : Crew Api (Timeline Cluster) GoError ReconcileResult}
    (hrun : OperatorRun (fun s s' => s.Moves s' ∧ LeavesDrain uid s s'
        ∧ GraceWithin key g s')
      (operatorCrew srt nows keys s) c) :
    ∀ s' ∈ c.state.moments, ∀ t', t ≤ t' →
      ∀ stored, s'.objects .distributedCache key = some stored →
        HasDrained uid t' (grace stored.1) s' := by
  have hinformed := operator_informed
    (Φ := fun s => HasDrained uid t g s ∧ GraceWithin key g s)
    (fun _ _ _ hw hstep =>
      ⟨hw.present.2.1.step hstep, hw.present.2.2.step hstep⟩)
    (fun _ _ _ hd he => ⟨⟨hd.1.leaves he.2.1, he.2.2⟩, he.1⟩)
    hs ⟨hdrained, hgrace⟩ hrun
  intro s' hs' t' ht stored hstored q hq huid
  obtain ⟨-, hd, hg⟩ := hinformed.state.each s' hs'
  have hle : grace stored.1 ≤ g :=
    (DistributedCacheSpec.grace_le_rewritten _).trans (hg stored hstored)
  exact ((hd q hq huid).later ht).shorter hle

theorem condemnedCluster_grace (annotations : Dict String String) :
    GraceWithin ⟨"shop", "orders"⟩ (30 * second)
      (condemnedCluster annotations) := by
  intro o ho
  rw [show (condemnedCluster annotations).objects .distributedCache
    ⟨"shop", "orders"⟩ = some ⟨Cluster.empty.stamp condemnedCache, rfl⟩
    from rfl] at ho
  cases ho
  decide

/-- The pod has drained since 60 when a `Reconcile` comes by at 100. -/
theorem drained_is_for_good_condemned :
    ∃ c, OperatorRun (fun s s' => s.Moves s' ∧ LeavesDrain "a" s s'
          ∧ GraceWithin ⟨"shop", "orders"⟩ (30 * second) s')
        (operatorCrew .insertionSort (fun _ => Time.ofUnix 100)
          (fun _ => ⟨"shop", "orders"⟩) (condemnedCluster
            (Dict.empty.set drainAnnotation "60"))) c
      ∧ c.state.past ≠ []
      ∧ ∃ stored, c.state.now.objects .distributedCache
          ⟨"shop", "orders"⟩ = some stored
        ∧ HasDrained "a" (Time.ofUnix 120) (grace stored.1)
          c.state.now := by
  have hrun : OperatorRun (fun s s' => s.Moves s' ∧ LeavesDrain "a" s s'
        ∧ GraceWithin ⟨"shop", "orders"⟩ (30 * second) s')
      (operatorCrew .insertionSort (fun _ => Time.ofUnix 100)
        (fun _ => ⟨"shop", "orders"⟩) (condemnedCluster
          (Dict.empty.set drainAnnotation "60"))) _ :=
    Run.nil.snoc (.call 0 .served) Crew.allows_call
  have hdrained : HasDrained "a" (Time.ofUnix 90) (30 * second)
      (condemnedCluster (Dict.empty.set drainAnnotation "60")) := by
    unfold HasDrained
    decide +kernel
  refine ⟨_, hrun, List.cons_ne_nil _ _,
    ⟨Cluster.empty.stamp condemnedCache, rfl⟩, rfl, ?_⟩
  exact drained_is_for_good .insertionSort _ _ (condemnedCluster_stamped _)
    hdrained (condemnedCluster_grace _) hrun _ List.mem_cons_self _
    (by decide) _ rfl

end CacheOperator
