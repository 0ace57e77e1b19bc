/-
Where a `Reconcile` writes, and what it says it wrote.

# Shared caches

Caches that are not isolated live side by side in one namespace and are
told apart by their names only: three objects, the pods with the name in
a label, and the cache object itself (`ownTargets`, `OfCache`). Every
turn of the Reconciles of such a cache keeps to what is its own, and
makes anything at all only after the drain finalizer was on the cache, so
that nothing is made for a cache that could vanish unnoticed.

So it touches nothing of another cache (`SameFor`), be that shared or in
a cell, unless the cell has the name of the shared cache's namespace:
there the two share a Service and a StatefulSet if their names agree.
`Proofs/Neighbours.lean` says when two cells get into each other's way.

# Events

An event is the last word of a phase about the write before it. In every
interleaving the write that an event reports has been accepted.
-/
import CacheOperator.Proofs.DrainPhases
import CacheOperator.Proofs.Ownership

namespace CacheOperator

open Lib

-- ======================================================== what is whose

/-- The objects of a cache that is not isolated. -/
def ownTargets (a : NamespacedName) : List Target :=
  [.object .distributedCache a, .object .service a, .object .statefulSet a,
    .object .configMap ⟨a.ns, a.name ++ "-ring"⟩]

/-- The pod is in the namespace of the cache and carries its labels. -/
def OfCache (a : NamespacedName) (p : Pod) : Prop :=
  p.metadata.ns = a.ns
    ∧ p.metadata.labels.get labelName = some appName
    ∧ p.metadata.labels.get labelInstance = some a.name

/-- Nothing of the cache has changed: not the object, not what it has
where it has it, and not its pods. -/
structure SameFor (b : DistributedCache) (s s' : Cluster) : Prop where
  cache : s'.objects .distributedCache b.key
    = s.objects .distributedCache b.key
  objects : ∀ k key, Owned b k key → s'.objects k key = s.objects k key
  pods : ∀ p, p.metadata.ns = targetNamespace b →
    matchesLabels (podLabels b) p = true →
    (p ∈ s'.pods.items ↔ p ∈ s.pods.items)

/-- The objects of `b` are not where those of the shared cache `a`
are. -/
def Apart (a : NamespacedName) (b : DistributedCache) : Prop :=
  b.key ≠ a ∧ (isolated b = false ∨ targetNamespace b ≠ a.ns)

/-- Everything else is as it was. -/
structure KeepsTo (a : NamespacedName) (s s' : Cluster) : Prop where
  objects : ∀ k key, Target.object k key ∉ ownTargets a →
    s'.objects k key = s.objects k key
  pods : ∀ p, ¬OfCache a p → (p ∈ s'.pods.items ↔ p ∈ s.pods.items)

/-- The cache, when it is there, is not isolated. -/
def Shared (a : NamespacedName) (s : Cluster) : Prop :=
  ∀ o, s.objects .distributedCache a = some o → isolated o.1 = false

/-- Some moment had the cache with the drain finalizer on it. -/
def HeldOnce (a : NamespacedName) (w : Timeline Cluster) : Prop :=
  ∃ cache, StoredOnce w a cache
    ∧ drainFinalizer ∈ cache.metadata.finalizers

section

variable {srt : SliceSort} {R : Ring → Prop} {a key : NamespacedName}
  {s s' : Cluster} {now : Time} {w : Timeline Cluster}
  {cache b : DistributedCache} {p : Pod}

theorem get_of_matches (h : matchesLabels (podLabels cache) p = true) :
    p.metadata.labels.get labelName = some appName
      ∧ p.metadata.labels.get labelInstance = some cache.name := by
  unfold matchesLabels at h
  rw [show (podLabels cache).entries
    = [(labelName, appName), (labelInstance, cache.name)] from rfl] at h
  simp only [List.all_cons, List.all_nil, Bool.and_true,
    Bool.and_eq_true, beq_iff_eq] at h
  exact h

/-- The name in the namespace is another one. -/
theorem Apart.name_ne (h : Apart a b) (hns : targetNamespace b = a.ns) :
    b.name ≠ a.name := by
  intro hname
  obtain ⟨hkey, hshared | hcell⟩ := h
  · apply hkey
    have hbns : b.ns = a.ns := by
      rw [← hns]
      unfold targetNamespace
      rw [hshared]
      rfl
    show (⟨b.ns, b.name⟩ : NamespacedName) = a
    rw [hbns, hname]
  · exact hcell hns

/-- What two caches have that are apart is apart. -/
theorem Apart.owned (h : Apart a b) {k : Kind} (hk : Owned b k key) :
    Target.object k key ∉ ownTargets a := by
  intro ht
  simp only [ownTargets, List.mem_cons, List.not_mem_nil, or_false,
    Target.object.injEq] at ht
  -- the ring's name begins with the name of the cache
  have hring : ∀ x y : String, x ++ "-ring" = y ++ "-ring" → x = y := by
    intro x y hxy
    have hl := congrArg String.toList hxy
    rw [String.toList_append, String.toList_append] at hl
    exact String.toList_inj.mp (List.append_cancel_right hl)
  cases hk with
  | cell => simp at ht
  | quota => simp at ht
  | policy => simp at ht
  | service =>
      have hkey : (⟨targetNamespace b, b.name⟩ : NamespacedName) = a := by
        simpa using ht
      subst hkey
      exact h.name_ne rfl rfl
  | statefulSet =>
      have hkey : (⟨targetNamespace b, b.name⟩ : NamespacedName) = a := by
        simpa [statefulSetKey] using ht
      subst hkey
      exact h.name_ne rfl rfl
  | ring =>
      have hkey : targetNamespace b = a.ns
          ∧ b.name ++ "-ring" = a.name ++ "-ring" := by
        simpa [ringKey, ringConfigMapName] using ht
      exact h.name_ne hkey.1 (hring _ _ hkey.2)

theorem KeepsTo.sameFor (h : KeepsTo a s s') (hab : Apart a b) :
    SameFor b s s' := by
  refine ⟨h.objects _ _ ?_, fun k key hk => h.objects k key (hab.owned hk),
    fun p hns hlabels => h.pods p ?_⟩
  · simpa [ownTargets] using hab.1
  · intro hof
    have hname := (get_of_matches hlabels).2
    rw [hof.2.2] at hname
    exact hab.name_ne (hns.symm.trans hof.1) (Option.some.inj hname).symm

-- ============================================================= one turn

theorem ofCache_of_matches (hns : p.metadata.ns = cache.ns)
    (h : matchesLabels (podLabels cache) p = true) :
    OfCache cache.key p :=
  ⟨hns, get_of_matches h⟩

/-- The spec of a cache that a turn leaves is the spec it found. -/
theorem Shared.step (h : Shared a w.now)
    (hs : OperatorStep srt now key w s') : Shared a s' := by
  intro new hnew
  obtain ⟨old, hold, huser⟩ := hs.userKept hnew
  unfold isolated
  rw [huser.spec]
  exact h old hold

/-- A callback of a shared cache is for one of its own objects. -/
theorem Shapes.own {k : Kind} {key' : NamespacedName}
    {mutate : Object k → Except GoError (Object k)}
    (h : Shapes cache R k key' mutate) (hshared : isolated cache = false) :
    Target.object k key' ∈ ownTargets cache.key := by
  have htarget : targetNamespace cache = cache.ns := by
    unfold targetNamespace
    rw [hshared]
    rfl
  have hkey : (⟨targetNamespace cache, cache.name⟩ : NamespacedName)
      = cache.key := by
    rw [htarget]
    rfl
  cases h with
  | cell hiso => rw [hshared] at hiso; cases hiso
  | quota hiso => rw [hshared] at hiso; cases hiso
  | policy hiso => rw [hshared] at hiso; cases hiso
  | service =>
      rw [hkey]
      simp [ownTargets]
  | statefulSet b =>
      rw [show statefulSetKey cache = cache.key from hkey]
      simp [ownTargets]
  | ring desired =>
      rw [show ringKey cache = ⟨cache.ns, cache.name ++ "-ring"⟩ by
        rw [← htarget]; rfl]
      simp [ownTargets, Object.key, ObjectMeta.key, Object.ns, Object.name]

/-- A write of an own object. -/
theorem keepsTo_put {k : Kind} {o : Object k}
    (h : Target.object k o.key ∈ ownTargets a) :
    KeepsTo a s (s.put o) := by
  refine ⟨fun k' key' hne => ?_, fun _ _ => Iff.rfl⟩
  apply Cluster.put_objects_of_ne
  intro heq
  exact hne (heq ▸ h)

/-- The replacement of an own pod. -/
theorem keepsTo_putPod (hp : p ∈ s.pods.items) (hof : OfCache a p) :
    KeepsTo a s (s.putPod (annotate now p)) := by
  refine ⟨fun _ _ _ => rfl, fun q hq => ?_⟩
  rw [putPod_annotate_items, List.mem_map]
  constructor
  · intro h
    obtain ⟨q₀, hq₀, heq⟩ := h
    by_cases hkey : q₀.key = p.key
    · rw [if_pos hkey] at heq
      subst heq
      exact absurd hof hq
    · rw [if_neg hkey] at heq
      exact heq ▸ hq₀
  · intro h
    refine ⟨q, h, if_neg fun hkey => ?_⟩
    exact hq (pod_eq_of_key hp h hkey ▸ hof)

/-- A turn of a shared cache keeps to what is its own. -/
theorem OperatorStep.keepsTo (h : OperatorStep srt now a w s')
    (hshared : ∀ s ∈ w.moments, Shared a s) : KeepsTo a w.now s' := by
  have hown : ∀ o : DistributedCache, o.key = a →
      KeepsTo a w.now (w.now.put (w.now.stamp o)) := by
    intro o ho
    apply keepsTo_put
    rw [show (w.now.stamp o).key = a from ho]
    simp [ownTargets]
  have hiso : ∀ cache, StoredOnce w a cache →
      cache.key = a ∧ isolated cache = false := by
    intro cache honce
    obtain ⟨s, hs, hkey, hobj⟩ := honce
    exact ⟨hkey, hshared s hs _ hobj⟩
  cases h with
  | kept => exact ⟨fun _ _ _ => rfl, fun _ _ => Iff.rfl⟩
  | held cache hkey hstored hlive => exact hown _ hkey
  | released cache hkey hstored hdel => exact hown _ hkey
  | reported cache c hkey hstored hc => exact hown _ hkey
  | gone cache hkey hstored hdel hlast =>
      refine ⟨fun k key' hne => ?_, fun _ _ => Iff.rfl⟩
      apply Cluster.remove_objects_of_ne
      intro heq
      exact hne (heq ▸ by simp [ownTargets])
  | created cache o honce hheld hshape hkey hnone ho =>
      obtain ⟨rfl, hno⟩ := hiso cache honce
      apply keepsTo_put
      rw [show (w.now.stamp o).key = _ from hkey]
      exact hshape.own hno
  | updated cache o old honce hheld hshape hkey hold ho =>
      obtain ⟨rfl, hno⟩ := hiso cache honce
      apply keepsTo_put
      rw [show (w.now.stamp o).key = _ from hkey]
      exact hshape.own hno
  | annotated cache p honce hheld hp hns hlabels hstart =>
      obtain ⟨rfl, hno⟩ := hiso cache honce
      refine keepsTo_putPod hp (ofCache_of_matches ?_ hlabels)
      rw [hns]
      unfold targetNamespace
      rw [hno]
      rfl
  | torn cache old honce hheld hdel hcross hold =>
      obtain ⟨-, hno⟩ := hiso cache honce
      unfold isCrossNamespaceChild targetNamespace at hcross
      rw [hno] at hcross
      simp at hcross

/-- What a turn makes or changes besides the cache object, it makes for
a cache that has been held. -/
theorem OperatorStep.heldOnce (h : OperatorStep srt now a w s') :
    (s'.pods = w.now.pods ∧ ∀ k key', k ≠ .distributedCache →
      s'.objects k key' = w.now.objects k key') ∨ HeldOnce a w := by
  have hcache : ∀ o : DistributedCache,
      (w.now.put o).pods = w.now.pods ∧ ∀ k key', k ≠ .distributedCache →
        (w.now.put o).objects k key' = w.now.objects k key' :=
    fun o => ⟨rfl, fun k key' hk =>
      Cluster.put_objects_of_kind o (Ne.symm hk)⟩
  cases h with
  | kept => exact Or.inl ⟨rfl, fun _ _ _ => rfl⟩
  | held cache hkey hstored hlive => exact Or.inl (hcache _)
  | released cache hkey hstored hdel => exact Or.inl (hcache _)
  | reported cache c hkey hstored hc => exact Or.inl (hcache _)
  | gone cache hkey hstored hdel hlast =>
      refine Or.inl ⟨rfl, fun k key' hk => ?_⟩
      apply Cluster.remove_objects_of_ne
      intro heq
      injection heq with heq
      exact hk heq.symm
  | created cache o honce hheld hshape hkey hnone ho =>
      exact Or.inr ⟨cache, honce, hheld⟩
  | updated cache o old honce hheld hshape hkey hold ho =>
      exact Or.inr ⟨cache, honce, hheld⟩
  | annotated cache p honce hheld hp hns hlabels hstart =>
      exact Or.inr ⟨cache, honce, hheld⟩
  | torn cache old honce hheld hdel hcross hold =>
      exact Or.inr ⟨cache, honce, hheld⟩

end

/-- In every interleaving in which a cache is never isolated, the turns
of its Reconciles change nothing outside what is its own, so nothing of
any other cache that is shared as well or has its cell elsewhere, and
nothing but the cache object itself before the drain finalizer has been
on it. -/
theorem shared_caches_are_apart (srt : SliceSort) (nows : Nat → Time)
    (keys : Nat → NamespacedName) {s : Cluster} (hs : s.Stamped)
    {a : NamespacedName} (hshared : Shared a s)
    {c : Crew Api (Timeline Cluster) GoError ReconcileResult}
    (hrun : OperatorRun (fun s s' => s.Moves s' ∧ Shared a s')
      (operatorCrew srt nows keys s) c)
    (i : Nat) (hi : keys i = a) (x : Recall) :
    KeepsTo a c.state.now (operatorTurn c i x).state.now
      ∧ (∀ b, Apart a b →
        SameFor b c.state.now (operatorTurn c i x).state.now)
      ∧ (HeldOnce a c.state
        ∨ (operatorTurn c i x).state.now.pods = c.state.now.pods
          ∧ ∀ k key, k ≠ .distributedCache →
            (operatorTurn c i x).state.now.objects k key
              = c.state.now.objects k key) := by
  have hinformed := operator_informed (Φ := Shared a)
    (fun _ _ _ hw hstep => hw.present.2.step hstep)
    (fun _ _ _ _ he => ⟨he.2, he.1⟩) hs hshared hrun
  have hstep := turn_step hinformed i x
  rw [hi] at hstep
  have hkeeps := hstep.keepsTo fun s' hs' =>
    (hinformed.state.each s' hs').2
  exact ⟨hkeeps, fun b hb => hkeeps.sameFor hb, hstep.heldOnce.symm⟩

/-- The cache `users` in the namespace `shop`. -/
def usersCache (tenant : Option TenantSpec) : DistributedCache :=
  { metadata := { ns := "shop", name := "users" }
    body :=
      { spec := ⟨some 2, "tiny-cache:1", ⟨64⟩, ⟨30⟩, tenant⟩
        status := Kind.distributedCache.zero.status } }

/-- The Service of `orders` is written; `users`, in the same namespace or
in its cell, has everything as it was. -/
theorem shared_caches_are_apart_labelled :
    (operatorTurn labelledCrew 0 .served).state.now.nextVersion
        ≠ labelledCrew.state.now.nextVersion
      ∧ SameFor (usersCache none) labelledCrew.state.now
        (operatorTurn labelledCrew 0 .served).state.now
      ∧ SameFor (usersCache (some ⟨true⟩)) labelledCrew.state.now
        (operatorTurn labelledCrew 0 .served).state.now := by
  refine ⟨by decide +kernel, ?_⟩
  have hshared : Shared ⟨"shop", "orders"⟩ labelledCluster := by
    intro o ho
    have hcache : labelledCluster.objects .distributedCache
        ⟨"shop", "orders"⟩ = some ⟨Cluster.empty.stamp
          (addFinalizer (shopCache "tiny-cache:1")), rfl⟩ := by
      decide +kernel
    rw [hcache] at ho
    cases ho
    rfl
  have hapart := (shared_caches_are_apart .insertionSort
    (fun _ => Time.ofUnix 100) (fun _ => ⟨"shop", "orders"⟩)
    labelledCluster_stamped hshared (operatorRun_served _ _ 0 2) 0 rfl
    .served).2.1
  refine ⟨hapart _ ⟨by decide, Or.inl rfl⟩,
    hapart _ ⟨by decide, Or.inr (by decide)⟩⟩

-- ============================================================ the events

/-- The call was answered without an error. -/
def replyOk : (r : Request) → Reply r → Bool
  | .get _ _, x => x.isOk
  | .create _ _, x => x.isOk
  | .update _ _, x => x.isOk
  | .updateStatus _, x => x.isOk
  | .deleteNamespace _, x => x.isOk
  | .listPods _ _, x => x.isOk
  | .updatePod _, x => x.isOk
  | .event _ _ _, _ => true

/-- The write that an event of a `Reconcile` of `key` at `now`
reports. -/
inductive ReportedWrite (now : Time) (key : NamespacedName) :
    String → Request → Prop where
  | created {cache : DistributedCache} {k : Kind} {o : Object k}
      (hkey : cache.key = key) (h : Owned cache k o.key) :
      ReportedWrite now key k.eventReason (.create k o)
  | updated {cache : DistributedCache} {k : Kind} {o : Object k}
      (hkey : cache.key = key) (h : Owned cache k o.key) :
      ReportedWrite now key k.eventReason (.update k o)
  | draining (p : Pod) :
      ReportedWrite now key "DrainStarted" (.updatePod (annotate now p))
  | tearing {cache : DistributedCache} (hkey : cache.key = key) :
      ReportedWrite now key "CellTearingDown"
        (.deleteNamespace (targetNamespace cache))
  | released {cache : DistributedCache} (hkey : cache.key = key) :
      ReportedWrite now key "DrainComplete"
        (.update .distributedCache (removeFinalizer cache))

/-- The API server has accepted the call at some moment. -/
def Accepted (w : Timeline Cluster) (r : Request) : Prop :=
  ∃ s ∈ w.moments, replyOk r (api.serve r s).1 = true
    ∧ (api.serve r s).2 ∈ w.moments

section

variable {now : Time} {key : NamespacedName} {cache : DistributedCache}
  {w : Timeline Cluster} {reason : String} {g : List (Answer Api)}

/-- An answer without an error is the server's own. -/
theorem accepted_of_tells {a : Answer Api} (h : w.Tells api a)
    (hok : replyOk a.req a.resp = true)
    (hrefuse : replyOk a.req (api.refuse a.req) = false) :
    Accepted w a.req := by
  rcases h with hrefused | ⟨s, hs, hresp, hafter⟩
  · rw [hrefused, hrefuse] at hok
    cases hok
  · rw [hresp] at hok
    exact ⟨s, hs, hok, hafter⟩

theorem Announced.accepted (h : Announced now cache reason g)
    (hkey : cache.key = key) (hg : ∀ a ∈ g, w.Tells api a) :
    ∃ a, g.head? = some a ∧ ReportedWrite now key reason a.req
      ∧ Accepted w a.req := by
  cases h with
  | created howned =>
      exact ⟨_, rfl, .created hkey howned,
        accepted_of_tells (hg _ List.mem_cons_self) rfl rfl⟩
  | updated howned =>
      exact ⟨_, rfl, .updated hkey howned,
        accepted_of_tells (hg _ List.mem_cons_self) rfl rfl⟩
  | draining =>
      exact ⟨_, rfl, .draining _,
        accepted_of_tells (hg _ List.mem_cons_self) rfl rfl⟩
  | tearing =>
      exact ⟨_, rfl, .tearing hkey,
        accepted_of_tells (hg _ List.mem_cons_self) rfl rfl⟩
  | released =>
      exact ⟨_, rfl, .released hkey,
        accepted_of_tells (hg _ List.mem_cons_self) rfl rfl⟩

end

/-- In every interleaving, a `Reconcile` that is about to record an event
records it with its own cache, and the last thing it was told is that the
write which the event reports has been accepted. -/
theorem events_report_writes (srt : SliceSort) (nows : Nat → Time)
    (keys : Nat → NamespacedName) {s : Cluster} (hs : s.Stamped)
    {c : Crew Api (Timeline Cluster) GoError ReconcileResult}
    (hrun : OperatorRun Cluster.Moves (operatorCrew srt nows keys s) c)
    {i : Nat} {ns reason text : String}
    {k : Reply (.event ns reason text) → Op ReconcileResult}
    (hnext : (c.procs i).rest
      = Prog.call (S := Api) (.event ns reason text) k) :
    ns = (keys i).ns ∧ ∃ a, (c.procs i).given.head? = some a
      ∧ ReportedWrite (nows i) (keys i) reason a.req
      ∧ Accepted c.state a.req := by
  have hinformed := operator_informed (Φ := fun _ => True)
    (fun _ _ _ _ _ => trivial) (fun _ _ _ _ h => ⟨trivial, h⟩) hs trivial
    hrun
  cases hinformed.call hnext with
  | event cache reason text h ha =>
      obtain ⟨hkey, -⟩ := h.read
      refine ⟨?_, ha.accepted hkey (hinformed.given i)⟩
      rw [← hkey]
      rfl

/-- The update of the Service has been accepted when its event is
due. -/
theorem events_report_writes_labelled :
    ∃ a, ((operatorTurn labelledCrew 0 .served).procs 0).given.head?
        = some a
      ∧ ReportedWrite (Time.ofUnix 100) ⟨"shop", "orders"⟩
        "ServiceReconciled" a.req
      ∧ Accepted (operatorTurn labelledCrew 0 .served).state a.req := by
  have h := events_report_writes .insertionSort (fun _ => Time.ofUnix 100)
    (fun _ => ⟨"shop", "orders"⟩) labelledCluster_stamped
    (operatorRun_served _ _ 0 3) (i := 0) rfl
  exact h.2

end CacheOperator
