/-
What is not the operator's stays.

Three parties write to the same objects: the user edits the cache, other
controllers and people put labels, annotations, finalizers and data of
their own on what the operator maintains, and the operator writes whole
objects back that it read some time ago. Optimistic concurrency is all
that protects the others, and it is enough: in every interleaving, with
reads of any age, a turn of a `Reconcile` changes what the operator owns
of an object and nothing else.

- Of a cache (`CacheKept`): the status and the drain finalizer. The
  object goes only when its deletion waits for that finalizer alone. The
  spec comes through the write of a finalizer if it says all that the
  defaults would fill in (`Lasting`); a grace period of zero does not.
- Of the objects made for it (`Merged`): the operator's labels, its owner
  reference, and the parts of the body it sets; the fields that a
  StatefulSet may not change and the other keys of the ConfigMap stay.
  In the cache's own namespace an object with another controller is not
  written at all.
-/
import CacheOperator.Proofs.Settled
import CacheOperator.Proofs.SpecRoundTrip
import CacheOperator.Proofs.Turns

namespace CacheOperator

open Lib

-- ==================================================== the user's object

/-- What the user said is in both. -/
structure UserKept (old new : DistributedCache) : Prop where
  spec : new.body.spec = old.body.spec
  metadata : new.metadata = { old.metadata with
    resourceVersion := new.metadata.resourceVersion
    created := new.metadata.created
    finalizers := new.metadata.finalizers }
  finalizers : new.metadata.finalizers.filter (· != drainFinalizer)
    = old.metadata.finalizers.filter (· != drainFinalizer)

/-- The cache is as it was in all that the user said, or it was waiting
for the drain finalizer alone and has gone. -/
structure CacheKept (key : NamespacedName) (s s' : Cluster) : Prop where
  absent : s.objects .distributedCache key = none →
    s'.objects .distributedCache key = none
  present : ∀ old, s.objects .distributedCache key = some old →
    (∃ new, s'.objects .distributedCache key = some new
      ∧ UserKept old.1 new.1)
    ∨ s'.objects .distributedCache key = none
      ∧ old.1.metadata.deleting = true
      ∧ ∀ f ∈ old.1.metadata.finalizers, f = drainFinalizer

/-- The specs of all caches last. -/
def Cluster.Lasting (s : Cluster) : Prop :=
  ∀ key o, s.objects .distributedCache key = some o →
    o.1.body.spec.Lasting

section

variable {srt : SliceSort} {key key' : NamespacedName} {s s' : Cluster}
  {cache : DistributedCache} {now : Time} {w : Timeline Cluster}

theorem UserKept.refl (o : DistributedCache) : UserKept o o :=
  ⟨rfl, rfl, rfl⟩

theorem CacheKept.of_eq
    (h : s'.objects .distributedCache key
      = s.objects .distributedCache key) : CacheKept key s s' := by
  refine ⟨fun hnone => h.trans hnone, fun old hold => ?_⟩
  exact Or.inl ⟨old, h.trans hold, .refl old.1⟩

/-- A write of another kind of object. -/
theorem Cluster.put_objects_of_kind {k k' : Kind} (o : Object k')
    (h : k' ≠ k) : (s.put o).objects k key = s.objects k key := by
  apply Cluster.put_objects_of_ne
  intro heq
  injection heq with hk
  exact h hk

/-- The cache is written as it is stored, with what is the operator's
changed. -/
theorem CacheKept.put {o : DistributedCache} {hkey : cache.key = key}
    (hstored : s.objects .distributedCache key = some ⟨cache, hkey⟩)
    (hok : o.key = key) (hkept : UserKept cache o) :
    CacheKept key s (s.put (s.stamp o)) := by
  refine ⟨?_, ?_⟩
  · intro hnone
    rw [hstored] at hnone
    cases hnone
  · intro old hold
    rw [hstored] at hold
    cases hold
    refine Or.inl ⟨_, Cluster.put_objects_key (s.stamp o) hok, hkept.spec,
      ?_, hkept.finalizers⟩
    show (s.stamp o).metadata = _
    unfold Cluster.stamp
    dsimp only
    rw [hkept.metadata]

theorem userKept_addFinalizer : UserKept cache (addFinalizer cache) := by
  refine ⟨rfl, rfl, ?_⟩
  show (cache.metadata.finalizers ++ [drainFinalizer]).filter _ = _
  rw [List.filter_append]
  simp

theorem userKept_removeFinalizer :
    UserKept cache (removeFinalizer cache) := by
  refine ⟨rfl, rfl, ?_⟩
  show (cache.metadata.finalizers.filter _).filter _ = _
  rw [List.filter_filter]
  simp

/-- Only the `Reconcile` of a cache changes it, and only in what is the
operator's. -/
theorem OperatorStep.cacheKept (h : OperatorStep srt now key w s') :
    CacheKept key w.now s'
      ∧ ∀ key', key' ≠ key → s'.objects .distributedCache key'
        = w.now.objects .distributedCache key' := by
  have hput : ∀ (o : DistributedCache), o.key = key →
      ∀ key', key' ≠ key → (w.now.put (w.now.stamp o)).objects
        .distributedCache key' = w.now.objects .distributedCache key' := by
    intro o ho key' hne
    apply Cluster.put_objects_of_ne
    intro heq
    injection heq with _ heq
    exact hne (heq.symm.trans ho)
  have hother : ∀ {k : Kind} (o : Object k), k ≠ .distributedCache →
      CacheKept key w.now (w.now.put o) ∧ ∀ key', key' ≠ key →
        (w.now.put o).objects .distributedCache key'
          = w.now.objects .distributedCache key' := by
    intro k o hk
    exact ⟨.of_eq (Cluster.put_objects_of_kind o hk),
      fun key' _ => Cluster.put_objects_of_kind o hk⟩
  cases h with
  | kept => exact ⟨.of_eq rfl, fun _ _ => rfl⟩
  | held cache hkey hstored hlive =>
      exact ⟨.put hstored hkey userKept_addFinalizer, hput _ hkey⟩
  | released cache hkey hstored hdel =>
      exact ⟨.put hstored hkey userKept_removeFinalizer, hput _ hkey⟩
  | gone cache hkey hstored hdel hlast =>
      refine ⟨⟨fun _ => Cluster.remove_objects_self _ _, ?_⟩, ?_⟩
      · intro old hold
        rw [hstored] at hold
        cases hold
        exact Or.inr ⟨Cluster.remove_objects_self _ _, hdel, hlast⟩
      · intro key' hne
        apply Cluster.remove_objects_of_ne
        intro heq
        injection heq with _ heq
        exact hne heq.symm
  | reported cache c hkey hstored hc =>
      exact ⟨.put hstored hkey ⟨rfl, rfl, rfl⟩, hput _ hkey⟩
  | created cache o honce hheld hshape hkey hnone ho =>
      exact hother _ hshape.owned.ne_cache
  | updated cache o old honce hheld hshape hkey hold ho =>
      exact hother _ hshape.owned.ne_cache
  | annotated cache p honce hheld hp hns hlabels hstart =>
      exact ⟨.of_eq rfl, fun _ _ => rfl⟩
  | torn cache old honce hheld hdel hcross hold =>
      exact hother _ (by simp)

/-- A cache that a turn leaves was there, and is as it was in all that the
user said. -/
theorem OperatorStep.userKept (h : OperatorStep srt now key w s')
    {new : {o : DistributedCache // o.key = key'}}
    (hnew : s'.objects .distributedCache key' = some new) :
    ∃ old, w.now.objects .distributedCache key' = some old
      ∧ UserKept old.1 new.1 := by
  obtain ⟨hkept, hothers⟩ := h.cacheKept
  by_cases hkey : key' = key
  · subst hkey
    cases hold : w.now.objects .distributedCache key' with
    | none =>
        rw [hkept.absent hold] at hnew
        cases hnew
    | some old =>
        rcases hkept.present old hold with
          ⟨new', hnew', huser⟩ | ⟨hnone, -⟩
        · rw [hnew'] at hnew
          cases hnew
          exact ⟨old, rfl, huser⟩
        · rw [hnone] at hnew
          cases hnew
  · rw [hothers key' hkey] at hnew
    exact ⟨new, hnew, .refl new.1⟩

theorem Cluster.Lasting.step (h : w.now.Lasting)
    (hs : OperatorStep srt now key w s') : s'.Lasting := by
  intro key' new hnew
  obtain ⟨old, hold, huser⟩ := hs.userKept hnew
  rw [huser.spec]
  exact h key' old hold

end

/-- In every interleaving of Reconciles, with reads of any age, refused
and lost calls and anything that others do in between, a turn leaves
every cache as it was in all that the user said, unless its deletion was
waiting for the drain finalizer alone; and it leaves the caches alone
that its `Reconcile` is not for. While the specs last, this is also what
is read once a write has been through JSON and the defaults. -/
theorem edits_are_never_lost (srt : SliceSort) (nows : Nat → Time)
    (keys : Nat → NamespacedName) {s : Cluster} (hs : s.Stamped)
    (hlasting : s.Lasting)
    {c : Crew Api (Timeline Cluster) GoError ReconcileResult}
    (hrun : OperatorRun (fun s s' => s.Moves s' ∧ s'.Lasting)
      (operatorCrew srt nows keys s) c)
    (i : Nat) (x : Recall) (key : NamespacedName) :
    CacheKept key c.state.now (operatorTurn c i x).state.now
      ∧ (∀ (format : QuantityFormat) (new : {o // o.key = key}),
        (operatorTurn c i x).state.now.objects .distributedCache key
          = some new →
        SpecJson.reread format new.1 = some new.1.body.spec)
      ∧ (key ≠ keys i →
        (operatorTurn c i x).state.now.objects .distributedCache key
          = c.state.now.objects .distributedCache key) := by
  have hinformed := operator_informed (Φ := Cluster.Lasting)
    (fun _ _ _ hw hstep => hw.present.2.step hstep)
    (fun _ _ _ _ he => ⟨he.2, he.1⟩) hs hlasting hrun
  have hstep := turn_step hinformed i x
  have hlasts := hinformed.state.present.2.step hstep
  obtain ⟨hkept, hothers⟩ := hstep.cacheKept
  refine ⟨?_, fun format new hnew =>
    SpecJson.reread_of_lasting format (hlasts key new hnew), hothers key⟩
  by_cases hkey : key = keys i
  · rw [hkey]
    exact hkept
  · exact .of_eq (hothers key hkey)

-- ========================================================== an edit lost?

/-- A cache with an image, not yet held. -/
def shopCache (image : String) : DistributedCache :=
  { metadata := { ns := "shop", name := "orders" }
    body :=
      { spec := ⟨some 2, image, ⟨64⟩, ⟨30⟩, none⟩
        status := Kind.distributedCache.zero.status } }

def shopCluster : Cluster :=
  Cluster.empty.put (Cluster.empty.stamp (shopCache "tiny-cache:1"))

theorem shopCluster_stamped : shopCluster.Stamped :=
  Cluster.empty_stamped.moves (Cluster.moves_put _)

/-- A write of a cache whose spec lasts. -/
theorem Cluster.Lasting.put {s : Cluster} (h : s.Lasting)
    {o : DistributedCache} (ho : o.body.spec.Lasting) :
    (s.put (s.stamp o)).Lasting := by
  intro key new hnew
  by_cases hkey : o.key = key
  · rw [Cluster.put_objects_key (s.stamp o) hkey] at hnew
    cases hnew
    exact ho
  · rw [Cluster.put_objects_of_ne] at hnew
    · exact h key new hnew
    · intro heq
      injection heq with _ heq
      exact hkey heq

theorem shopCache_lasting (image : String) :
    (shopCache image).body.spec.Lasting := by
  refine ⟨rfl, ?_⟩
  show (30 : Int32) ≠ 0
  decide

theorem shopCluster_lasting : shopCluster.Lasting := by
  refine Cluster.Lasting.put ?_ (shopCache_lasting _)
  intro key o ho
  cases ho

/-- A `Reconcile` has read the cache. -/
def shopRead : Crew Api (Timeline Cluster) GoError ReconcileResult :=
  operatorTurn (operatorCrew .insertionSort (fun _ => Time.ofUnix 100)
    (fun _ => ⟨"shop", "orders"⟩) shopCluster) 0 .served

/-- Then the user changes the image. -/
def shopEdited : Crew Api (Timeline Cluster) GoError ReconcileResult :=
  shopRead.step (Timeline.dispatch api Request.reads)
    (.other (shopRead.state.moved (shopRead.state.now.put
      (shopRead.state.now.stamp (shopCache "tiny-cache:2")))))

/-- The write of the finalizer, made from the object that was read before
the edit, leaves the edit in place. -/
theorem edits_are_never_lost_shop :
    ((operatorTurn shopEdited 0 .served).state.now.objects
        .distributedCache ⟨"shop", "orders"⟩).map
        (fun o => (o.1.body.spec.image, o.1.metadata.finalizers))
      = some ("tiny-cache:2", [])
      ∧ CacheKept ⟨"shop", "orders"⟩ shopEdited.state.now
        (operatorTurn shopEdited 0 .served).state.now := by
  refine ⟨by decide +kernel, ?_⟩
  have hread : OperatorRun (fun s s' => s.Moves s' ∧ s'.Lasting)
      (operatorCrew .insertionSort (fun _ => Time.ofUnix 100)
        (fun _ => ⟨"shop", "orders"⟩) shopCluster) shopRead :=
    Run.nil.snoc _ Crew.allows_call
  -- the edit is one of those that the run allows
  have hedit : (shopRead.state.now.put (shopRead.state.now.stamp
      (shopCache "tiny-cache:2"))).Lasting :=
    Cluster.Lasting.put (s := shopCluster) shopCluster_lasting
      (shopCache_lasting _)
  have hrun := hread.snoc
    (.other (shopRead.state.moved (shopRead.state.now.put
      (shopRead.state.now.stamp (shopCache "tiny-cache:2")))))
    ⟨⟨Cluster.moves_put _, hedit⟩, rfl⟩
  exact (edits_are_never_lost _ _ _ shopCluster_stamped
    shopCluster_lasting hrun 0 .served ⟨"shop", "orders"⟩).1

-- ==================================================== the owned objects

/-- The labels the operator sets. -/
def operatorLabels : List String :=
  [labelName, labelInstance, labelManagedBy, labelComponent, labelCellOf]

/-- What a write of the operator keeps of a body: the fields of a
StatefulSet that may not change, and the other keys of a ConfigMap. -/
def Kind.Kept : (k : Kind) → k.Body → k.Body → Prop
  | .statefulSet, b, b' => b'.serviceName = b.serviceName
      ∧ b'.selector = b.selector
      ∧ b'.podManagementPolicy = b.podManagementPolicy
  | .configMap, b, b' => ∀ d, d ≠ ringConfigMapKey →
      b'.data.get d = b.data.get d
  | _, _, _ => True

/-- The second object is the first one with what the operator sets. -/
structure Merged {k : Kind} (old new : Object k) : Prop where
  metadata : new.metadata = { old.metadata with
    resourceVersion := new.metadata.resourceVersion
    created := new.metadata.created
    deleting := new.metadata.deleting
    labels := new.metadata.labels
    controller := new.metadata.controller }
  labels : ∀ l, l ∉ operatorLabels →
    new.metadata.labels.get l = old.metadata.labels.get l
  deleting : k ≠ .ns → new.metadata.deleting = old.metadata.deleting
  condemned : old.metadata.deleting = true → new.metadata.deleting = true
  body : old.metadata.created = true → k.Kept old.body new.body

section

variable {srt : SliceSort} {R : Ring → Prop} {k : Kind}
  {key key' : NamespacedName} {s s' : Cluster}
  {cache : DistributedCache} {now : Time} {w : Timeline Cluster}
  {component : String} {body : Object k → k.Body} {o o' : Object k}

theorem Kind.Kept.refl (k : Kind) (b : k.Body) : k.Kept b b := by
  cases k with
  | statefulSet => exact ⟨rfl, rfl, rfl⟩
  | configMap => exact fun _ _ => rfl
  | _ => trivial

theorem Merged.refl (o : Object k) : Merged o o :=
  ⟨rfl, fun _ _ => rfl, fun _ => rfl, fun h => h, fun _ => .refl k o.body⟩

/-- Storing adds a version. -/
theorem Merged.stamp (h : Merged o o') (s : Cluster) :
    Merged o (s.stamp o') := by
  refine ⟨?_, h.labels, h.deleting, h.condemned, h.body⟩
  unfold Cluster.stamp
  dsimp only
  rw [h.metadata]

theorem get_ownedLabels {labels : Dict String String} {l : String}
    (hl : l ∉ operatorLabels) :
    (ownedLabels cache component labels).get l = labels.get l := by
  simp only [operatorLabels, List.mem_cons, List.not_mem_nil, or_false,
    not_or] at hl
  obtain ⟨h1, h2, h3, h4, -⟩ := hl
  unfold ownedLabels
  rw [Dict.get_set_of_ne _ _ h4, Dict.get_set_of_ne _ _ h3,
    Dict.get_set_of_ne _ _ h2, Dict.get_set_of_ne _ _ h1]

/-- The callback of a namespaced object sets the labels, the owner and
the body. -/
theorem mutateOwned_sets
    (h : mutateOwned cache component body o = .ok o') :
    o'.metadata = { o.metadata with
      labels := ownedLabels cache component o.metadata.labels
      controller := o'.metadata.controller } := by
  unfold mutateOwned setControllerReferenceIfSameNamespace at h
  by_cases hx : isCrossNamespaceChild cache = true
  · rw [if_pos hx] at h
    cases h
    rfl
  · rw [if_neg hx] at h
    unfold setControllerReference at h
    dsimp only at h
    split at h
    · cases h
      rfl
    · split at h
      · cases h
        rfl
      · cases h

theorem mutateOwned_merged
    (hbody : o.metadata.created = true → k.Kept o.body (body o))
    (h : mutateOwned cache component body o = .ok o') : Merged o o' := by
  have hsets := mutateOwned_sets h
  obtain ⟨hb, -⟩ := mutateOwned_ok h
  have hdel : o'.metadata.deleting = o.metadata.deleting := by rw [hsets]
  refine ⟨by rw [hsets], ?_, fun _ => hdel, fun h => hdel.trans h, ?_⟩
  · intro l hl
    rw [hsets]
    exact get_ownedLabels hl
  · rw [hb]
    exact hbody

/-- Every callback merges. -/
theorem Shapes.merged {mutate : Object k → Except GoError (Object k)}
    (hshape : Shapes cache R k key' mutate) (h : mutate o = .ok o') :
    Merged o o' := by
  cases hshape with
  | cell hiso =>
      cases h
      refine ⟨rfl, ?_, fun _ => rfl, fun h => h, fun _ => trivial⟩
      intro l hl
      have hcell : l ≠ labelCellOf := by
        intro heq
        rw [heq] at hl
        exact hl (by decide)
      show ((ownedLabels cache "cell" o.metadata.labels).set labelCellOf
        _).get l = _
      rw [Dict.get_set_of_ne _ _ hcell, get_ownedLabels hl]
  | quota hiso => exact mutateOwned_merged (fun _ => trivial) h
  | policy hiso => exact mutateOwned_merged (fun _ => trivial) h
  | service => exact mutateOwned_merged (fun _ => trivial) h
  | statefulSet b =>
      refine mutateOwned_merged (fun hcreated => ?_) h
      simp [Kind.Kept, hcreated]
  | ring desired =>
      refine mutateOwned_merged (fun _ d hd => ?_) h
      exact Dict.get_set_of_ne _ _ hd

/-- The object is still there and has been merged into; if somebody else
controls it in the cache's own namespace, it is as it was. -/
structure ObjectKept (key : NamespacedName) (k : Kind)
    (key' : NamespacedName) (s s' : Cluster) : Prop where
  merged : ∀ old, s.objects k key' = some old →
    ∃ new, s'.objects k key' = some new ∧ Merged old.1 new.1
  foreign : ∀ old ref, s.objects k key' = some old → k ≠ .ns →
    key'.ns = key.ns → old.1.metadata.controller = some ref →
    ¬(ref.kind = cacheKind ∧ ref.name = key.name) →
    s'.objects k key' = s.objects k key'

theorem ObjectKept.of_eq (h : s'.objects k key' = s.objects k key') :
    ObjectKept key k key' s s' :=
  ⟨fun old hold => ⟨old, h.trans hold, .refl old.1⟩,
    fun _ _ _ _ _ _ _ => h⟩

/-- In its own namespace the callback of a cache takes no object from
another controller. -/
theorem Shapes.not_foreign {mutate : Object k → Except GoError (Object k)}
    (hshape : Shapes cache R k key' mutate) (h : mutate o = .ok o')
    (hk : k ≠ .ns) (hns : key'.ns = cache.ns) {ref : OwnerReference}
    (href : o.metadata.controller = some ref) :
    ref.kind = cacheKind ∧ ref.name = cache.name := by
  have htarget : targetNamespace cache = cache.ns := by
    cases hshape with
    | cell hiso => exact absurd rfl hk
    | _ => exact hns
  have hcross : isCrossNamespaceChild cache = false := by
    unfold isCrossNamespaceChild
    rw [htarget]
    simp
  have hnf : ¬Foreign cache o := by
    cases hshape with
    | cell hiso => exact absurd rfl hk
    | _ => exact (mutateOwned_ok h).2.2.2.2.2
  by_contra hne
  exact hnf ⟨hcross, ref, href, hne⟩

theorem OperatorStep.objectKept (h : OperatorStep srt now key w s')
    (hk : k ≠ .distributedCache) (key' : NamespacedName) :
    ObjectKept key k key' w.now s' := by
  have hcache : ∀ o : DistributedCache,
      ObjectKept key k key' w.now (w.now.put o) :=
    fun o => .of_eq (Cluster.put_objects_of_kind o (Ne.symm hk))
  -- the write of an object that leaves those under other keys alone
  have hput : ∀ {k₁ : Kind} (o : Object k₁),
      (∀ h : k₁ = k, (h ▸ o).key = key' →
        ObjectKept key k key' w.now (w.now.put o)) →
      ObjectKept key k key' w.now (w.now.put o) := by
    intro k₁ o ho
    by_cases heq : Target.object k₁ o.key = .object k key'
    · injection heq with hk₁ hkey
      subst hk₁
      exact ho rfl hkey
    · exact .of_eq (Cluster.put_objects_of_ne heq)
  cases h with
  | kept => exact .of_eq rfl
  | held cache hkey hstored hlive => exact hcache _
  | released cache hkey hstored hdel => exact hcache _
  | reported cache c hkey hstored hc => exact hcache _
  | gone cache hkey hstored hdel hlast =>
      apply ObjectKept.of_eq
      apply Cluster.remove_objects_of_ne
      intro heq
      injection heq with heq
      exact hk heq.symm
  | annotated cache p honce hheld hp hns hlabels hstart =>
      exact .of_eq rfl
  | created cache o honce hheld hshape hkey hnone ho =>
      refine hput _ fun hk₁ hkey₁ => ?_
      subst hk₁
      have hsame : key' = _ := hkey₁.symm.trans hkey
      subst hsame
      refine ⟨fun old hold => ?_, fun old _ hold => ?_⟩
      · rw [hnone] at hold
        cases hold
      · rw [hnone] at hold
        cases hold
  | updated cache o old honce hheld hshape hkey hold ho =>
      refine hput _ fun hk₁ hkey₁ => ?_
      subst hk₁
      have hsame : key' = _ := hkey₁.symm.trans hkey
      subst hsame
      refine ⟨fun old' hold' => ?_, ?_⟩
      · rw [hold] at hold'
        cases hold'
        exact ⟨_, Cluster.put_objects_key _ hkey₁,
          (hshape.merged ho).stamp _⟩
      · intro old' ref hold' hns hkns href hne
        rw [hold] at hold'
        cases hold'
        obtain ⟨-, -, hcache, -⟩ := honce
        refine absurd ?_ hne
        rw [← hcache] at hkns ⊢
        exact hshape.not_foreign ho hns hkns href
  | torn cache old honce hheld hdel hcross hold =>
      refine hput _ fun hk₁ hkey₁ => ?_
      subst hk₁
      have hsame : key' = _ := hkey₁.symm.trans old.2
      subst hsame
      refine ⟨fun old' hold' => ?_, fun _ _ _ hns => absurd rfl hns⟩
      rw [hold] at hold'
      cases hold'
      refine ⟨_, Cluster.put_objects_key _ hkey₁, Merged.stamp ?_ _⟩
      exact ⟨rfl, fun _ _ => rfl, fun hne => absurd rfl hne,
        fun _ => rfl, fun _ => trivial⟩

theorem OperatorStep.podKeys (h : OperatorStep srt now key w s') :
    s'.pods.items.map Pod.key = w.now.pods.items.map Pod.key := by
  cases h with
  | annotated cache p honce hheld hp hns hlabels hstart =>
      exact PodSet.keys_replaced _ _
  | _ => rfl

/-- The cache that a turn removes is its own, and was waiting for the
drain finalizer alone. -/
theorem OperatorStep.removed (h : OperatorStep srt now key w s')
    {old : {o : DistributedCache // o.key = key'}}
    (hold : w.now.objects .distributedCache key' = some old)
    (hgone : s'.objects .distributedCache key' = none) :
    key' = key ∧ old.1.metadata.deleting = true
      ∧ ∀ f ∈ old.1.metadata.finalizers, f = drainFinalizer := by
  obtain ⟨hkept, hothers⟩ := h.cacheKept
  by_cases hkey : key' = key
  · subst hkey
    rcases hkept.present old hold with ⟨new, hnew, -⟩ | ⟨-, hlast⟩
    · rw [hgone] at hnew
      cases hnew
    · exact ⟨rfl, hlast⟩
  · rw [hothers key' hkey, hold] at hgone
    cases hgone

end

/-- In every interleaving, a turn of a `Reconcile` removes nothing but
its own released cache, no pod either, keeps of every other object what
the operator does not set, and writes none in the cache's own namespace
that another controller owns. -/
theorem writes_only_merge (srt : SliceSort) (nows : Nat → Time)
    (keys : Nat → NamespacedName) {s : Cluster} (hs : s.Stamped)
    {c : Crew Api (Timeline Cluster) GoError ReconcileResult}
    (hrun : OperatorRun Cluster.Moves (operatorCrew srt nows keys s) c)
    (i : Nat) (x : Recall) :
    (∀ k key, k ≠ .distributedCache →
      ObjectKept (keys i) k key c.state.now
        (operatorTurn c i x).state.now)
    ∧ (operatorTurn c i x).state.now.pods.items.map Pod.key
        = c.state.now.pods.items.map Pod.key
    ∧ ∀ key old, c.state.now.objects .distributedCache key = some old →
      (operatorTurn c i x).state.now.objects .distributedCache key
          = none →
        key = keys i ∧ old.1.metadata.deleting = true
          ∧ ∀ f ∈ old.1.metadata.finalizers, f = drainFinalizer := by
  have hstep := operator_turn hs hrun i x
  exact ⟨fun k key hk => hstep.objectKept hk key, hstep.podKeys,
    fun key old hold hgone => hstep.removed hold hgone⟩

/-- A held cache, and a Service under its name with a label of somebody
else's. -/
def labelledCluster : Cluster :=
  let cache := shopCache "tiny-cache:1"
  let s := Cluster.empty.put (Cluster.empty.stamp (addFinalizer cache))
  s.put (s.stamp ({ fresh .service ⟨"shop", "orders"⟩ with metadata :=
    { ns := "shop", name := "orders"
      labels := Dict.empty.set "team" "checkout" } } : Object .service))

/-- A `Reconcile` has read the cache and the Service. -/
def labelledCrew : Crew Api (Timeline Cluster) GoError ReconcileResult :=
  (List.replicate 2 (Turn.call 0 Recall.served)).foldl
    (Crew.step (Timeline.dispatch api Request.reads))
    (operatorCrew .insertionSort (fun _ => Time.ofUnix 100)
      (fun _ => ⟨"shop", "orders"⟩) labelledCluster)

theorem labelledCluster_stamped : labelledCluster.Stamped :=
  (Cluster.empty_stamped.moves (Cluster.moves_put _)).moves
    (Cluster.moves_put _)

theorem writes_only_merge_labelled :
    ((operatorTurn labelledCrew 0 .served).state.now.objects .service
        ⟨"shop", "orders"⟩).map
        (fun o => (o.1.metadata.labels.get "team", o.1.body.clusterIP))
      = some (some "checkout", "None")
      ∧ ObjectKept ⟨"shop", "orders"⟩ .service ⟨"shop", "orders"⟩
        labelledCrew.state.now
        (operatorTurn labelledCrew 0 .served).state.now := by
  refine ⟨by decide +kernel, ?_⟩
  exact (writes_only_merge .insertionSort (fun _ => Time.ofUnix 100)
    (fun _ => ⟨"shop", "orders"⟩) labelledCluster_stamped
    (operatorRun_served _ _ 0 2) 0 .served).1 _ _ (by decide)

end CacheOperator
