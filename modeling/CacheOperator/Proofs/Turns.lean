/-
One call of a `Reconcile` among others.

# The setting

Any number of Reconciles, of any caches, take turns call by call. Every
read may be answered from any earlier state (the operator reads through
a cache), every call may be refused or lost, a `Reconcile` that gets no
more turns has crashed, and between the turns anything may happen to the
cluster that draws fresh resource versions (`Cluster.Moves`).

# The result

A resource version names one state of an object for good. So when an
update is accepted, the object it replaces is the very one that the
`Reconcile` was given, however long ago: `OperatorStep` lists what a turn
can do to the present state, in terms of the present state alone, and
`operator_turn` says that every turn of every run is in the list. What
the operator never does, in any interleaving, is read off it.
-/
import CacheOperator.Lib.Timeline
import CacheOperator.Proofs.Drain
import CacheOperator.Proofs.Justified
import CacheOperator.Proofs.Phases
import CacheOperator.Proofs.Race

namespace CacheOperator

open Lib

-- ================================================= what a call can do

/-- A pod is stored by the next write. -/
def Cluster.putPod (s : Cluster) (p : Pod) : Cluster :=
  { s with
    pods := s.pods.replace { p with metadata :=
      { p.metadata with resourceVersion := s.nextVersion } }
    nextVersion := s.nextVersion + 1 }

/-- What a call can do to the state. -/
inductive Effect (s : Cluster) : Request → Cluster → Prop where
  | kept (r : Request) : Effect s r s
  | created {k : Kind} (o : Object k) (hnone : s.objects k o.key = none) :
      Effect s (.create k o) (s.put (s.stamp o))
  | removed {k : Kind} (o : Object k) (old : {c : Object k // c.key = o.key})
      (hold : s.objects k o.key = some old)
      (hrv : o.metadata.resourceVersion = old.1.metadata.resourceVersion)
      (hfin : finalized old.1 o = true) :
      Effect s (.update k o) (s.remove k o.key)
  | updated {k : Kind} (o : Object k) (old : {c : Object k // c.key = o.key})
      (hold : s.objects k o.key = some old)
      (hrv : o.metadata.resourceVersion = old.1.metadata.resourceVersion)
      (hfin : finalized old.1 o = false) :
      Effect s (.update k o) (s.put (s.stamp (admitted k old.1 o)))
  | reported (c : DistributedCache)
      (old : {o : DistributedCache // o.key = c.key})
      (hold : s.objects .distributedCache c.key = some old)
      (hrv : c.metadata.resourceVersion = old.1.metadata.resourceVersion) :
      Effect s (.updateStatus c)
        (s.put (s.stamp (withStatus old.1 c.body.status)))
  | marked (name : String) (old : {o : Object .ns // o.key = ⟨"", name⟩})
      (hold : s.objects .ns ⟨"", name⟩ = some old) :
      Effect s (.deleteNamespace name) (s.put (s.stamp
        { old.1 with metadata := { old.1.metadata with deleting := true } }))
  | podUpdated (p old : Pod) (hold : s.pods.find? p.key = some old)
      (hrv : p.metadata.resourceVersion = old.metadata.resourceVersion) :
      Effect s (.updatePod p) (s.putPod p)

/-- A write that passed the checks leaves everything alone or stores the
object. -/
theorem write_cases (s : Cluster) {k : Kind} (old o : Object k) :
    (s.write old o).2 = s ∨ (s.write old o).2 = s.put (s.stamp o) := by
  unfold Cluster.write
  by_cases h : o = old
  · rw [if_pos h]
    exact Or.inl rfl
  · rw [if_neg h]
    exact Or.inr rfl

theorem serve_effect (r : Request) (s : Cluster) :
    Effect s r (api.serve r s).2 := by
  cases r with
  | get k key => exact .kept _
  | listPods ns labels => exact .kept _
  | event ns reason message => exact .kept _
  | create k o =>
      show Effect s _ (s.serveCreate o).2
      unfold Cluster.serveCreate
      split
      · exact .kept _
      · next hnone => exact .created o hnone
  | update k o =>
      show Effect s _ (s.serveUpdate o).2
      unfold Cluster.serveUpdate
      split
      · exact .kept _
      · next old hkey hold =>
        split
        · exact .kept _
        · next hrv =>
          have hrv' := not_not.mp hrv
          split
          · next hfin => exact .removed o ⟨old, hkey⟩ hold hrv' hfin
          · next hfin =>
            dsimp only
            rcases write_cases s old (admitted k old o) with h | h
            · rw [h]
              exact .kept _
            · rw [h]
              exact .updated o ⟨old, hkey⟩ hold hrv'
                (Bool.eq_false_iff.mpr hfin)
  | updateStatus c =>
      show Effect s _ (s.serveUpdateStatus c).2
      unfold Cluster.serveUpdateStatus
      split
      · exact .kept _
      · next old hkey hold =>
        split
        · exact .kept _
        · next hrv =>
          dsimp only
          rcases write_cases s old (withStatus old c.body.status)
            with h | h
          · rw [show { old with body := { old.body with
              status := c.body.status } } = withStatus old c.body.status
              from rfl, h]
            exact .kept _
          · rw [show { old with body := { old.body with
              status := c.body.status } } = withStatus old c.body.status
              from rfl, h]
            exact .reported c ⟨old, hkey⟩ hold (not_not.mp hrv)
  | deleteNamespace name =>
      show Effect s _ (s.serveDeleteNamespace name).2
      unfold Cluster.serveDeleteNamespace
      split
      · exact .kept _
      · next old hkey hold =>
        dsimp only
        rcases write_cases s old { old with metadata :=
          { old.metadata with deleting := true } } with h | h
        · rw [h]
          exact .kept _
        · rw [h]
          exact .marked name ⟨old, hkey⟩ hold
  | updatePod p =>
      show Effect s _ (s.serveUpdatePod p).2
      unfold Cluster.serveUpdatePod
      split
      · exact .kept _
      · next old hold =>
        split
        · exact .kept _
        · next hrv =>
          split
          · exact .kept _
          · exact .podUpdated p old hold (not_not.mp hrv)

-- ============================================================ versions

namespace Cluster

/-- Everything stored has a resource version that was drawn. -/
structure Stamped (s : Cluster) : Prop where
  objects : ∀ k key o, s.objects k key = some o →
    o.1.metadata.resourceVersion < s.nextVersion
  pods : ∀ p ∈ s.pods.items, p.metadata.resourceVersion < s.nextVersion

/-- What has changed has drawn a version since. -/
structure Moves (s s' : Cluster) : Prop where
  next : s.nextVersion ≤ s'.nextVersion
  objects : ∀ k key o, s'.objects k key = some o →
    s.objects k key = some o
      ∨ s.nextVersion ≤ o.1.metadata.resourceVersion
        ∧ o.1.metadata.resourceVersion < s'.nextVersion
  pods : ∀ p ∈ s'.pods.items, p ∈ s.pods.items
    ∨ s.nextVersion ≤ p.metadata.resourceVersion
      ∧ p.metadata.resourceVersion < s'.nextVersion

variable {s s' s'' : Cluster}

theorem Moves.refl (s : Cluster) : s.Moves s :=
  ⟨Nat.le_refl _, fun _ _ _ h => Or.inl h, fun _ h => Or.inl h⟩

theorem Moves.trans (h : s.Moves s') (h' : s'.Moves s'') : s.Moves s'' := by
  refine ⟨h.next.trans h'.next, ?_, ?_⟩
  · intro k key o ho
    rcases h'.objects k key o ho with ho | ⟨hlo, hhi⟩
    · rcases h.objects k key o ho with ho | ⟨hlo, hhi⟩
      · exact Or.inl ho
      · exact Or.inr ⟨hlo, hhi.trans_le h'.next⟩
    · exact Or.inr ⟨h.next.trans hlo, hhi⟩
  · intro p hp
    rcases h'.pods p hp with hp | ⟨hlo, hhi⟩
    · rcases h.pods p hp with hp | ⟨hlo, hhi⟩
      · exact Or.inl hp
      · exact Or.inr ⟨hlo, hhi.trans_le h'.next⟩
    · exact Or.inr ⟨h.next.trans hlo, hhi⟩

theorem Stamped.moves (hs : s.Stamped) (h : s.Moves s') : s'.Stamped := by
  refine ⟨?_, ?_⟩
  · intro k key o ho
    rcases h.objects k key o ho with ho | ⟨-, hhi⟩
    · exact (hs.objects k key o ho).trans_le h.next
    · exact hhi
  · intro p hp
    rcases h.pods p hp with hp | ⟨-, hhi⟩
    · exact (hs.pods p hp).trans_le h.next
    · exact hhi

theorem empty_stamped : Cluster.empty.Stamped :=
  ⟨fun _ _ _ => nofun, fun _ => nofun⟩

theorem moves_put {k : Kind} (o : Object k) :
    s.Moves (s.put (s.stamp o)) := by
  refine ⟨Nat.le_succ _, ?_, fun p hp => Or.inl hp⟩
  intro k' key' o' ho'
  by_cases h : Target.object k (s.stamp o).key = .object k' key'
  · injection h with hk hkey
    subst hk
    rw [put_objects_key _ hkey] at ho'
    cases ho'
    exact Or.inr ⟨Nat.le_refl _, Nat.lt_succ_self _⟩
  · rw [put_objects_of_ne h] at ho'
    exact Or.inl ho'

theorem remove_objects_self (k : Kind) (key : NamespacedName) :
    (s.remove k key).objects k key = none := by
  unfold remove
  simp

theorem moves_remove (k : Kind) (key : NamespacedName) :
    s.Moves (s.remove k key) := by
  refine ⟨Nat.le_refl _, ?_, fun p hp => Or.inl hp⟩
  intro k' key' o' ho'
  by_cases h : Target.object k key = .object k' key'
  · injection h with hk hkey
    subst hk hkey
    rw [remove_objects_self] at ho'
    cases ho'
  · rw [remove_objects_of_ne h] at ho'
    exact Or.inl ho'

theorem moves_putPod (p : Pod) : s.Moves (s.putPod p) := by
  refine ⟨Nat.le_succ _, fun _ _ _ h => Or.inl h, ?_⟩
  intro q hq
  obtain ⟨q', hq', rfl⟩ := List.mem_map.mp hq
  split
  · exact Or.inr ⟨Nat.le_refl _, Nat.lt_succ_self _⟩
  · exact Or.inl hq'

end Cluster

/-- The API server draws a version for every change. -/
theorem serve_moves (r : Request) (s : Cluster) :
    s.Moves (api.serve r s).2 := by
  have h := serve_effect r s
  generalize (api.serve r s).2 = s' at h
  cases h with
  | kept => exact .refl s
  | created o hnone => exact Cluster.moves_put o
  | removed o old hold hrv hfin => exact Cluster.moves_remove _ _
  | updated o old hold hrv hfin => exact Cluster.moves_put _
  | reported c old hold hrv => exact Cluster.moves_put _
  | marked name old hold => exact Cluster.moves_put _
  | podUpdated p old hold hrv => exact Cluster.moves_putPod p

-- =========================================================== old reads

/-- The calls that only read. -/
def Request.reads : Request → Bool
  | .get _ _ => true
  | .listPods _ _ => true
  | _ => false

theorem serve_reads (r : Request) (s : Cluster) (h : r.reads = true) :
    (api.serve r s).2 = s := by
  cases r with
  | get k key => rfl
  | listPods ns labels => rfl
  | _ => cases h

/-- All moments of the timeline are proper ones, and only newer versions
have appeared since each of them. -/
abbrev Proper (Φ : Cluster → Prop) (w : Timeline Cluster) : Prop :=
  w.Along (fun s => s.Stamped ∧ Φ s) Cluster.Moves

/-- The object was stored under `key` at some moment. -/
def StoredOnce (w : Timeline Cluster) (key : NamespacedName)
    (cache : DistributedCache) : Prop :=
  ∃ s ∈ w.moments, ∃ h : cache.key = key,
    s.objects .distributedCache key = some ⟨cache, h⟩

section

variable {Φ : Cluster → Prop} {w : Timeline Cluster} {k : Kind}
  {key : NamespacedName} {g : List (Answer Api)}

/-- An object that was given was stored at some moment. -/
theorem stored_of_given (hg : ∀ a ∈ g, w.Tells api a) {o : Object k}
    (h : Given k key o g) :
    ∃ s ∈ w.moments, ∃ hkey : o.key = key,
      s.objects k key = some ⟨o, hkey⟩ := by
  obtain ⟨hkey, hmem⟩ := h
  rcases hg _ hmem with hrefused | ⟨s, hs, hresp, -⟩
  · cases hrefused
  · refine ⟨s, hs, hkey, ?_⟩
    cases hobj : s.objects k key with
    | none =>
        rw [show (api.serve (.get k key) s).1 = .error errNotFound from
          congrArg Prod.fst (serve_get_none hobj)] at hresp
        cases hresp
    | some o' =>
        rw [show (api.serve (.get k key) s).1 = .ok o' from
          congrArg Prod.fst (serve_get_some hobj)] at hresp
        injection hresp with hresp
        rw [hresp]

/-- What is stored now with the version of what was given is what was
given. -/
theorem given_eq_stored (hw : Proper Φ w) (hg : ∀ a ∈ g, w.Tells api a)
    {o : Object k} (h : Given k key o g)
    {stored : {o : Object k // o.key = key}}
    (hstored : w.now.objects k key = some stored)
    (hrv : o.metadata.resourceVersion
      = stored.1.metadata.resourceVersion) : stored.1 = o := by
  obtain ⟨s, hs, hkey, hobj⟩ := stored_of_given hg h
  rcases (hw.ordered s hs).objects k key stored hstored with
    hsame | ⟨hlo, -⟩
  · rw [hobj] at hsame
    injection hsame with hsame
    rw [← hsame]
  · have hlt := (hw.each s hs).1.objects k key _ hobj
    dsimp only at hlt
    omega

theorem given_stored (hw : Proper Φ w) (hg : ∀ a ∈ g, w.Tells api a)
    {o : Object k} (h : Given k key o g)
    {stored : {o : Object k // o.key = key}}
    (hstored : w.now.objects k key = some stored)
    (hrv : o.metadata.resourceVersion
      = stored.1.metadata.resourceVersion) (hkey : o.key = key) :
    w.now.objects k key = some ⟨o, hkey⟩ := by
  rw [hstored]
  exact congrArg some (Subtype.ext (given_eq_stored hw hg h hstored hrv))

/-- A pod that was listed was there, in the namespace and with the
labels. -/
theorem pod_of_listed {cache : DistributedCache} {p : Pod}
    (hg : ∀ a ∈ g, w.Tells api a) (h : Listed cache p g) :
    ∃ s ∈ w.moments, p ∈ s.pods.items
      ∧ p.metadata.ns = targetNamespace cache
      ∧ matchesLabels (podLabels cache) p = true := by
  obtain ⟨pods, hp, hmem⟩ := h
  rcases hg _ hmem with hrefused | ⟨s, hs, hresp, -⟩
  · cases hrefused
  · refine ⟨s, hs, ?_⟩
    have hpods : pods
        = s.podsIn (targetNamespace cache) (podLabels cache) := by
      injection hresp
    rw [hpods] at hp
    obtain ⟨hitem, hsel⟩ := List.mem_filter.mp hp
    rw [Bool.and_eq_true, beq_iff_eq] at hsel
    exact ⟨hitem, hsel.1, hsel.2⟩

theorem pod_eq_stored (hw : Proper Φ w) {s : Cluster}
    (hs : s ∈ w.moments) {p old : Pod} (hp : p ∈ s.pods.items)
    (hold : w.now.pods.find? p.key = some old)
    (hrv : p.metadata.resourceVersion = old.metadata.resourceVersion) :
    old = p := by
  have hmem : old ∈ w.now.pods.items := List.mem_of_find?_eq_some hold
  have hkey : old.key = p.key := by
    simpa using List.find?_some hold
  rcases (hw.ordered s hs).pods old hmem with hsame | ⟨hlo, -⟩
  · have h := find?_of_mem hsame
    rw [hkey, find?_of_mem hp] at h
    injection h with h
    exact h.symm
  · have hlt := (hw.each s hs).1.pods p hp
    omega

end

-- ============================================================ the turn

/-- The ring follows from the pods of the cache at one moment and its
ConfigMap at one. -/
def RingSeen (srt : SliceSort) (w : Timeline Cluster)
    (cache : DistributedCache) (ring : Ring) : Prop :=
  ∃ s ∈ w.moments, ∃ s' ∈ w.moments,
    ring = desiredRing (computeMembers srt (cachePods cache s))
      (currentRing (ringConfigMap cache s'))

/-- What a call of a `Reconcile` of `key` can do to the present state. -/
inductive OperatorStep (srt : SliceSort) (now : Time)
    (key : NamespacedName) (w : Timeline Cluster) : Cluster → Prop where
  | kept : OperatorStep srt now key w w.now
  | held (cache : DistributedCache) (hkey : cache.key = key)
      (hstored : w.now.objects .distributedCache key = some ⟨cache, hkey⟩)
      (hlive : cache.metadata.deleting = false) :
      OperatorStep srt now key w (w.now.put (w.now.stamp (addFinalizer cache)))
  | released (cache : DistributedCache) (hkey : cache.key = key)
      (hstored : w.now.objects .distributedCache key = some ⟨cache, hkey⟩)
      (hdel : cache.metadata.deleting = true) :
      OperatorStep srt now key w
        (w.now.put (w.now.stamp (removeFinalizer cache)))
  | gone (cache : DistributedCache) (hkey : cache.key = key)
      (hstored : w.now.objects .distributedCache key = some ⟨cache, hkey⟩)
      (hdel : cache.metadata.deleting = true)
      (hlast : ∀ f ∈ cache.metadata.finalizers, f = drainFinalizer) :
      OperatorStep srt now key w (w.now.remove .distributedCache key)
  | reported (cache c : DistributedCache) (hkey : cache.key = key)
      (hstored : w.now.objects .distributedCache key = some ⟨cache, hkey⟩)
      (hc : ReportOf now cache (RingSeen srt w cache) c) :
      OperatorStep srt now key w
        (w.now.put (w.now.stamp (withStatus cache c.body.status)))
  | created (cache : DistributedCache) {k : Kind} {key' : NamespacedName}
      {mutate : Object k → Except GoError (Object k)} (o : Object k)
      (honce : StoredOnce w key cache)
      (hheld : drainFinalizer ∈ cache.metadata.finalizers)
      (hshape : Shapes cache (RingSeen srt w cache) k key' mutate)
      (hkey : o.key = key')
      (hnone : w.now.objects k key' = none)
      (ho : mutate (fresh k key') = .ok o) :
      OperatorStep srt now key w (w.now.put (w.now.stamp o))
  | updated (cache : DistributedCache) {k : Kind} {key' : NamespacedName}
      {mutate : Object k → Except GoError (Object k)} (o : Object k)
      (old : {o : Object k // o.key = key'})
      (honce : StoredOnce w key cache)
      (hheld : drainFinalizer ∈ cache.metadata.finalizers)
      (hshape : Shapes cache (RingSeen srt w cache) k key' mutate)
      (hkey : o.key = key')
      (hold : w.now.objects k key' = some old)
      (ho : mutate old.1 = .ok o) :
      OperatorStep srt now key w (w.now.put (w.now.stamp o))
  | annotated (cache : DistributedCache) (p : Pod)
      (honce : StoredOnce w key cache)
      (hheld : drainFinalizer ∈ cache.metadata.finalizers)
      (hp : p ∈ w.now.pods.items)
      (hns : p.metadata.ns = targetNamespace cache)
      (hlabels : matchesLabels (podLabels cache) p = true)
      (hstart : drainStart p = none) :
      OperatorStep srt now key w (w.now.putPod (annotate now p))
  | torn (cache : DistributedCache)
      (old : {o : Object .ns // o.key = ⟨"", targetNamespace cache⟩})
      (honce : StoredOnce w key cache)
      (hheld : drainFinalizer ∈ cache.metadata.finalizers)
      (hdel : cache.metadata.deleting = true)
      (hcross : isCrossNamespaceChild cache = true)
      (hold : w.now.objects .ns ⟨"", targetNamespace cache⟩ = some old) :
      OperatorStep srt now key w (w.now.put (w.now.stamp
        { old.1 with metadata := { old.1.metadata with deleting := true } }))

section

variable {srt : SliceSort} {now : Time} {key : NamespacedName}
  {w : Timeline Cluster} {Φ : Cluster → Prop} {g : List (Answer Api)}
  {cache : DistributedCache}

theorem ActsFor.once (h : ActsFor key cache g)
    (hg : ∀ a ∈ g, w.Tells api a) : StoredOnce w key cache := by
  obtain ⟨s, hs, hkey, hobj⟩ := stored_of_given hg h.read
  exact ⟨s, hs, hkey, hobj⟩

theorem Shapes.keeps {R : Ring → Prop} {k : Kind} {key' : NamespacedName}
    {mutate : Object k → Except GoError (Object k)}
    (h : Shapes cache R k key' mutate) : Keeps mutate := by
  cases h with
  | cell h => exact keeps_mutateCellNamespace
  | _ => exact keeps_mutateOwned

theorem admitted_of_ne {k : Kind} (hk : k ≠ .distributedCache)
    (old o : Object k) : admitted k old o = o := by
  cases k with
  | distributedCache => exact absurd rfl hk
  | _ => rfl

theorem removeFinalizer_eq_nil
    (h : (removeFinalizer cache).metadata.finalizers.isEmpty = true) :
    ∀ f ∈ cache.metadata.finalizers, f = drainFinalizer := by
  intro f hf
  by_contra hne
  have hmem : f ∈ (removeFinalizer cache).metadata.finalizers :=
    List.mem_filter.mpr ⟨hf, by simpa using hne⟩
  rw [List.isEmpty_iff.mp h] at hmem
  cases hmem

/-- What a read of the ring ConfigMap has told is how it was at some
moment. -/
theorem RingRead.seen {cm : Option (Object .configMap)}
    (h : RingRead cache g cm) (hg : ∀ a ∈ g, w.Tells api a) :
    ∃ s ∈ w.moments, cm = ringConfigMap cache s := by
  cases h with
  | missing e he h =>
      rcases hg _ h with hrefused | ⟨s, hs, hresp, -⟩
      · injection hrefused with hrefused
        rw [hrefused] at he
        cases he
      · refine ⟨s, hs, ?_⟩
        unfold ringConfigMap
        cases hobj : s.objects .configMap (ringKey cache) with
        | none => rfl
        | some o =>
            rw [show (api.serve (.get .configMap (ringKey cache)) s).1
              = .ok o from congrArg Prod.fst (serve_get_some hobj)]
              at hresp
            cases hresp
  | found cm h =>
      obtain ⟨s, hs, hkey, hobj⟩ := stored_of_given hg h
      refine ⟨s, hs, ?_⟩
      unfold ringConfigMap
      rw [hobj]
      rfl

theorem RingOf.seen {ring : Ring} (h : RingOf srt cache g ring)
    (hg : ∀ a ∈ g, w.Tells api a) : RingSeen srt w cache ring := by
  obtain ⟨pods, cm, hpods, hcm, hring⟩ := h
  obtain ⟨s', hs', rfl⟩ := hcm.seen hg
  rcases hg _ hpods with hrefused | ⟨s, hs, hresp, -⟩
  · cases hrefused
  · injection hresp with hresp
    exact ⟨s, hs, s', hs', by rw [hring, hresp]; rfl⟩

/-- A call that the answers justify does one of the listed things. -/
theorem justified_step (hw : Proper Φ w) (hg : ∀ a ∈ g, w.Tells api a)
    {r : Request} (hr : Justified srt now key g r) :
    OperatorStep srt now key w (api.serve r w.now).2 := by
  have heffect := serve_effect r w.now
  generalize (api.serve r w.now).2 = s' at heffect
  cases hr with
  | get k key' => cases heffect; exact .kept
  | listPods ns labels => cases heffect; exact .kept
  | event cache reason text h ha => cases heffect; exact .kept
  | hold cache hread hlive =>
      obtain ⟨hkey, hmem⟩ := id hread
      subst hkey
      cases heffect with
      | kept => exact .kept
      | removed o old hold hrv hfin =>
          unfold finalized at hfin
          rw [show (addFinalizer cache).metadata.deleting
            = cache.metadata.deleting from rfl, hlive] at hfin
          cases hfin
      | updated o old hold hrv hfin =>
          rw [given_eq_stored hw hg hread hold hrv]
          exact .held _ rfl (given_stored hw hg hread hold hrv rfl) hlive
  | release cache h hdel =>
      obtain ⟨hkey, hmem⟩ := id h.read
      subst hkey
      cases heffect with
      | kept => exact .kept
      | removed o old hold hrv hfin =>
          unfold finalized at hfin
          rw [Bool.and_eq_true] at hfin
          exact .gone _ rfl (given_stored hw hg h.read hold hrv rfl) hdel
            (removeFinalizer_eq_nil hfin.2)
      | updated o old hold hrv hfin =>
          rw [given_eq_stored hw hg h.read hold hrv]
          exact .released _ rfl (given_stored hw hg h.read hold hrv rfl)
            hdel
  | report cache c h hlive hc =>
      obtain ⟨hkey, hmem⟩ := id h.read
      subst hkey
      have hmeta : c.metadata = cache.metadata := by
        cases hc with
        | degraded reason e => rfl
        | observed ring hr => exact observed_metadata now ring cache
      have hck : c.key = cache.key := congrArg ObjectMeta.key hmeta
      cases heffect with
      | kept => exact .kept
      | reported c old hold hrv =>
          obtain ⟨old', hold', hsame⟩ :
              ∃ old', w.now.objects .distributedCache cache.key = some old'
                ∧ old'.1 = old.1 := by
            rw [← hck]
            exact ⟨old, hold, rfl⟩
          rw [hmeta, ← hsame] at hrv
          rw [← hsame, given_eq_stored hw hg h.read hold' hrv]
          exact .reported _ c rfl (given_stored hw hg h.read hold' hrv rfl)
            (hc.imp fun _ hr => hr.seen hg)
  | create cache o h hshape hdel hkey ho =>
      subst hkey
      cases heffect with
      | kept => exact .kept
      | created o hnone =>
          exact .created cache o (h.once hg) h.held
            (hshape.imp fun _ hr => hr.seen hg) rfl hnone ho
  | update cache old o h hshape hdel hkey hold ho =>
      subst hkey
      obtain ⟨-, hrv', hfin'⟩ := hshape.keeps _ _ ho
      cases heffect with
      | kept => exact .kept
      | removed o stored hstored hrv hfin =>
          have heq := given_eq_stored hw hg hold hstored
            (hrv'.symm.trans hrv)
          unfold finalized at hfin
          rw [Bool.and_eq_true, Bool.and_eq_true] at hfin
          obtain ⟨⟨-, hsome⟩, hnone⟩ := hfin
          rw [hfin'] at hnone
          rw [heq, hnone] at hsome
          cases hsome
      | updated o stored hstored hrv hfin =>
          have heq := given_eq_stored hw hg hold hstored
            (hrv'.symm.trans hrv)
          rw [admitted_of_ne hshape.owned.ne_cache]
          refine .updated cache o stored (h.once hg) h.held
            (hshape.imp fun _ hr => hr.seen hg) rfl hstored ?_
          rw [heq]
          exact ho
  | annotate cache p h hlisted hstart =>
      cases heffect with
      | kept => exact .kept
      | podUpdated p' old hold hrv =>
          obtain ⟨s, hs, hp, hns, hlabels⟩ := pod_of_listed hg hlisted
          have heq := pod_eq_stored hw hs hp hold hrv
          subst heq
          exact .annotated cache old (h.once hg) h.held
            (List.mem_of_find?_eq_some hold) hns hlabels hstart
  | delete cache h hdel hcross =>
      cases heffect with
      | kept => exact .kept
      | marked name old hold =>
          exact .torn cache old (h.once hg) h.held hdel hcross hold

end

-- ============================================================ the runs

/-- The Reconciles, none of which has begun. -/
def operatorCrew (srt : SliceSort) (nows : Nat → Time)
    (keys : Nat → NamespacedName) (s : Cluster) :
    Crew Api (Timeline Cluster) GoError ReconcileResult :=
  ⟨fun i => ⟨reconcile srt (nows i) (keys i), []⟩, ⟨s, []⟩⟩

/-- One turn of one of them. -/
abbrev operatorTurn (c : Crew Api (Timeline Cluster) GoError
    ReconcileResult) (i : Nat) (x : Recall) :
    Crew Api (Timeline Cluster) GoError ReconcileResult :=
  c.step (Timeline.dispatch api Request.reads) (.call i x)

/-- Turns of the Reconciles, and what else happens in between. -/
abbrev OperatorRun (env : Cluster → Cluster → Prop) :
    Crew Api (Timeline Cluster) GoError ReconcileResult →
      Crew Api (Timeline Cluster) GoError ReconcileResult → Prop :=
  Run (Crew.step (Timeline.dispatch api Request.reads))
    (Crew.Allows (Timeline.dispatch api Request.reads)
      (fun _ _ _ => True) (Timeline.Elsewhere env))

section

variable {srt : SliceSort} {nows : Nat → Time}
  {keys : Nat → NamespacedName} {s : Cluster} {Φ : Cluster → Prop}
  {env : Cluster → Cluster → Prop}
  {c : Crew Api (Timeline Cluster) GoError ReconcileResult}

/-- One of them may take all the turns. -/
theorem operatorRun_served (env : Cluster → Cluster → Prop)
    (c : Crew Api (Timeline Cluster) GoError ReconcileResult)
    (i n : Nat) : OperatorRun env c
      ((List.replicate n (Turn.call i Recall.served)).foldl
        (Crew.step (Timeline.dispatch api Request.reads)) c) := by
  apply Run.extend .nil
  induction n generalizing c with
  | zero => trivial
  | succ n ih => exact ⟨Crew.allows_call, ih _⟩

/-- At every point of every run the Reconciles make justified calls
after true answers; what each listed step keeps, and what else happens
keeps, holds at every moment. -/
theorem operator_informed
    (hstep : ∀ i w s', Proper Φ w →
      OperatorStep srt (nows i) (keys i) w s' → Φ s')
    (henv : ∀ s s', s.Stamped → Φ s → env s s' → Φ s' ∧ s.Moves s')
    (hs : s.Stamped) (hΦ : Φ s)
    (hrun : OperatorRun env (operatorCrew srt nows keys s) c) :
    c.Informed (fun i => Justified srt (nows i) (keys i))
      (fun a w => w.Tells api a) (Proper Φ) := by
  refine Timeline.informed_of_run serve_reads
    (fun _ _ _ h h' => h.trans h') (fun s _ => .refl s) ?_ ?_ ⟨hs, hΦ⟩
    (fun i => reconcile_informed srt (nows i) (keys i)) hrun
  · intro i g r w hw hr hg
    have hmoves := serve_moves r w.now
    exact ⟨⟨hw.present.1.moves hmoves,
      hstep i w _ hw (justified_step hw hg hr)⟩, hmoves⟩
  · intro s s' hs he
    obtain ⟨hΦ', hmoves⟩ := henv s s' hs.1 hs.2 he
    exact ⟨⟨hs.1.moves hmoves, hΦ'⟩, hmoves⟩

/-- A turn leaves the present as it is, or does one of the listed
things to it. -/
theorem turn_step
    (h : c.Informed (fun i => Justified srt (nows i) (keys i))
      (fun a w => w.Tells api a) (Proper Φ)) (i : Nat) (x : Recall) :
    OperatorStep srt (nows i) (keys i) c.state
      (operatorTurn c i x).state.now := by
  by_cases hend : ∀ r k, (c.procs i).rest ≠ .call r k
  · rw [operatorTurn, Crew.step_ended hend]
    exact .kept
  · obtain ⟨r, k, hp⟩ : ∃ r k, (c.procs i).rest = .call r k := by
      simpa using hend
    have hstep := justified_step h.state (h.given i) (h.call hp)
    rw [operatorTurn, (Crew.step_call hp).2]
    rcases Timeline.dispatch_state x r c.state with hst | hst
    · rw [hst]
      exact .kept
    · rw [hst]
      exact hstep

/-- A turn takes nothing back. -/
theorem turn_state (c : Crew Api (Timeline Cluster) GoError
    ReconcileResult) (i : Nat) (x : Recall) :
    (operatorTurn c i x).state = c.state
      ∨ (operatorTurn c i x).state
        = c.state.moved (operatorTurn c i x).state.now := by
  by_cases hend : ∀ r k, (c.procs i).rest ≠ .call r k
  · rw [operatorTurn, Crew.step_ended hend]
    exact Or.inl rfl
  · obtain ⟨r, k, hp⟩ : ∃ r k, (c.procs i).rest = .call r k := by
      simpa using hend
    rw [operatorTurn, (Crew.step_call hp).2]
    rcases Timeline.dispatch_state x r c.state with hst | hst
    · exact Or.inl hst
    · right
      rw [hst]
      rfl

/-- Every turn of every run does one of the listed things. -/
theorem operator_turn (hs : s.Stamped)
    (hrun : OperatorRun Cluster.Moves (operatorCrew srt nows keys s) c)
    (i : Nat) (x : Recall) :
    OperatorStep srt (nows i) (keys i) c.state
      (operatorTurn c i x).state.now :=
  turn_step (operator_informed (Φ := fun _ => True)
    (fun _ _ _ _ _ => trivial) (fun _ _ _ _ h => ⟨trivial, h⟩) hs trivial
    hrun) i x

end

end CacheOperator
