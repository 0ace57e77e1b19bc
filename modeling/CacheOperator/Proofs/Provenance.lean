/-
Where a client's routes come from.

Between a pod and the client that calls it stand a list of pods that may
be old, a ring that is computed from it, a ConfigMap that several
Reconciles write, and a client that polls it now and then. In every
interleaving a ring is still one snapshot: all its members were
`Eligible` at one and the same moment, never some at one and some at
another (`stored_seen`). The client keeps what it loads
or goes on with what it had, so the pod it picks for a key was a running,
ready and undrained pod of the cache then.
-/
import CacheOperator.Proofs.Lookup
import CacheOperator.Proofs.Members
import CacheOperator.Proofs.Ownership
import CacheOperator.Proofs.Versions

namespace CacheOperator

open Lib

/-- The ring names exactly the pods of the cache that were for the ring
at one moment. -/
def Snapshot (srt : SliceSort) (w : Timeline Cluster)
    (cache : DistributedCache) (ring : Ring) : Prop :=
  ∃ s ∈ w.moments, ring.members = computeMembers srt (cachePods cache s)

/-- Every ring that has been stored for the cache is a snapshot. -/
def AllSnapshots (srt : SliceSort) (cache : DistributedCache)
    (w : Timeline Cluster) : Prop :=
  ∀ s ∈ w.moments, ∀ ring, storedRing cache s = some ring →
    Snapshot srt w cache ring

/-- Nobody else publishes a ring for the cache; the ConfigMap may be
deleted or spoilt. -/
def PublishesNothing (cache : DistributedCache) (s s' : Cluster) : Prop :=
  ∀ ring, storedRing cache s' = some ring → storedRing cache s = some ring

/-- A client of the cache that has polled at moments of the timeline, any
of them in any order and with any failures. -/
inductive PolledAt (srt : SliceSort) (hashString : String → UInt32)
    (cache : DistributedCache) (w : Timeline Cluster) : Client → Prop where
  | new (serviceFQDN : String) :
      PolledAt srt hashString cache w ⟨ringKey cache, serviceFQDN, none⟩
  | poll {c c' : Client} {e : Option GoError}
      (h : PolledAt srt hashString cache w c) (s : Cluster)
      (hs : s ∈ w.moments) (fs : List Fault)
      (hpoll : ((pollOnce srt hashString c).exec api fs s).result
        = .ok (c', e)) : PolledAt srt hashString cache w c'

section

variable {srt srt' : SliceSort} {hashString : String → UInt32}
  {now : Time} {key : NamespacedName} {w : Timeline Cluster}
  {s' : Cluster} {cache cache' : DistributedCache} {ring : Ring}

-- ============================================================ the rings

theorem Snapshot.moved (h : Snapshot srt w cache ring) :
    Snapshot srt (w.moved s') cache ring := by
  obtain ⟨s, hs, hmembers⟩ := h
  exact ⟨s, List.mem_cons_of_mem _ hs, hmembers⟩

theorem RingSeen.snapshot (h : RingSeen srt w cache ring) :
    Snapshot srt w cache ring := by
  obtain ⟨s, hs, s₂, -, rfl⟩ := h
  exact ⟨s, hs, desiredRing_members _ _⟩

/-- Two caches with one ring ConfigMap have the same pods. -/
theorem cachePods_of_ringKey (h : ringKey cache' = ringKey cache)
    (s : Cluster) : cachePods cache' s = cachePods cache s := by
  obtain ⟨hns, hname⟩ := NamespacedName.mk.inj h
  have hl := congrArg String.toList hname
  unfold ringConfigMapName at hl
  rw [String.toList_append, String.toList_append] at hl
  have hname' := String.toList_inj.mp (List.append_cancel_right hl)
  unfold cachePods podLabels
  rw [hns, hname']

/-- A turn stores no ring for the cache, or one that is a snapshot. -/
theorem OperatorStep.publishes (h : OperatorStep srt now key w s')
    (hring : storedRing cache s' = some ring) :
    storedRing cache w.now = some ring ∨ Snapshot srt w cache ring := by
  -- what is no write of the ConfigMap leaves the ring alone
  have hput : ∀ {k : Kind} (o : Object k), s' = w.now.put o →
      Target.object k o.key ≠ .object .configMap (ringKey cache) →
      storedRing cache w.now = some ring := by
    intro k o hs' hne
    subst hs'
    rw [← storedRing_congr (Cluster.put_objects_of_ne hne)]
    exact hring
  -- and a write of it stores the ring it was made from
  have hwrite : ∀ {k : Kind} {key' : NamespacedName}
      {cache₀ : DistributedCache}
      {mutate : Object k → Except GoError (Object k)} {o o' : Object k},
      Shapes cache₀ (RingSeen srt w cache₀) k key' mutate →
      o'.key = key' → mutate o = .ok o' →
      s' = w.now.put (w.now.stamp o') →
      storedRing cache w.now = some ring ∨ Snapshot srt w cache ring := by
    intro k key' cache₀ mutate o o' hshape hkey ho hs'
    by_cases hne : Target.object k (w.now.stamp o').key
        = .object .configMap (ringKey cache)
    · right
      injection hne with hk hkey'
      subst hk
      cases hshape with
      | ring desired hseen =>
          have hsame : ringKey cache₀ = ringKey cache := by
            rw [← hkey, ← hkey']
            rfl
          have hpayload : storedRing cache s' = some desired := by
            unfold storedRing ringConfigMap
            rw [hs', Cluster.put_objects_key _ hkey']
            show payload o'.body.data = _
            exact payload_mutateRing cache₀ ho
          rw [hpayload] at hring
          cases hring
          obtain ⟨s, hs, hmembers⟩ := hseen.snapshot
          exact ⟨s, hs, by rw [hmembers, cachePods_of_ringKey hsame]⟩
    · exact Or.inl (hput _ hs' hne)
  cases h with
  | kept => exact Or.inl hring
  | held cache₀ hkey hstored hlive => exact Or.inl (hput _ rfl (by simp))
  | released cache₀ hkey hstored hdel =>
      exact Or.inl (hput _ rfl (by simp))
  | gone cache₀ hkey hstored hdel hlast =>
      have hsame := Cluster.remove_objects_of_ne (s := w.now)
        (show Target.object .distributedCache key
          ≠ .object .configMap (ringKey cache) by simp)
      rw [storedRing_congr hsame] at hring
      exact Or.inl hring
  | reported cache₀ c hkey hstored hc =>
      exact Or.inl (hput _ rfl (by simp))
  | created cache₀ o honce hheld hshape hkey hnone ho =>
      exact hwrite hshape hkey ho rfl
  | updated cache₀ o old honce hheld hshape hkey hold ho =>
      exact hwrite hshape hkey ho rfl
  | annotated cache₀ p honce hheld hp hns hlabels hstart =>
      exact Or.inl hring
  | torn cache₀ old honce hheld hdel hcross hold =>
      exact Or.inl (hput _ rfl (by simp))

/-- One more moment, with a ring that was there or is a snapshot. -/
theorem AllSnapshots.moved (h : AllSnapshots srt cache w)
    (hnew : ∀ ring, storedRing cache s' = some ring →
      storedRing cache w.now = some ring ∨ Snapshot srt w cache ring) :
    AllSnapshots srt cache (w.moved s') := by
  intro s hs ring hring
  rcases List.mem_cons.mp hs with rfl | hs
  · rcases hnew ring hring with hold | hsnap
    · exact (h w.now Timeline.now_mem ring hold).moved
    · exact hsnap.moved
  · exact (h s hs ring hring).moved

theorem stored_seen {nows : Nat → Time} {keys : Nat → NamespacedName}
    {s : Cluster} (hs : s.Stamped) (hnone : storedRing cache s = none)
    {c : Crew Api (Timeline Cluster) GoError ReconcileResult}
    (hrun : OperatorRun (fun s s' => s.Moves s'
      ∧ PublishesNothing cache s s') (operatorCrew srt nows keys s) c) :
    AllSnapshots srt cache c.state := by
  induction hrun with
  | nil =>
      intro s' hs' ring hring
      obtain rfl : s' = s := List.mem_singleton.mp hs'
      rw [hnone] at hring
      cases hring
  | @snoc c h e he ih =>
      cases e with
      | other w' =>
          show AllSnapshots srt cache w'
          obtain ⟨henv, hmoved⟩ := he
          rw [hmoved]
          exact ih.moved fun ring hring => Or.inl (henv.2 ring hring)
      | call i x =>
          have hinformed := operator_informed (Φ := fun _ => True)
            (fun _ _ _ _ _ => trivial) (fun _ _ _ _ h => ⟨trivial, h.1⟩)
            hs trivial h
          have hstep := turn_step hinformed i x
          rcases turn_state c i x with hst | hst
          · rw [hst]
            exact ih
          · rw [hst]
            exact ih.moved fun ring hring => hstep.publishes hring

-- ========================================================== the clients

theorem PolledAt.ringConfigMap {c : Client}
    (h : PolledAt srt hashString cache w c) :
    c.ringConfigMap = ringKey cache := by
  induction h with
  | new serviceFQDN => rfl
  | @poll c c' e h s hs fs hpoll ih =>
      have hpolled := pollOnce_polled srt hashString s ih fs
      cases e with
      | some e => rw [hpolled.kept c' e hpoll, ih]
      | none =>
          obtain ⟨r, -, rfl⟩ := hpolled.loaded c' hpoll
          rw [Client.load_key, ih]

/-- What a client has loaded is a ring that was stored. -/
theorem PolledAt.loaded {c : Client}
    (h : PolledAt srt hashString cache w c) {built : HashRing}
    (hbuilt : c.ring = some built) :
    ∃ s ∈ w.moments, ∃ ring, storedRing cache s = some ring
      ∧ built = buildRing srt hashString ring := by
  induction h with
  | new serviceFQDN => cases hbuilt
  | @poll c c' e h s hs fs hpoll ih =>
      have hpolled := pollOnce_polled srt hashString s h.ringConfigMap fs
      cases e with
      | some e =>
          rw [hpolled.kept c' e hpoll] at hbuilt
          exact ih hbuilt
      | none =>
          obtain ⟨r, hr, rfl⟩ := hpolled.loaded c' hpoll
          unfold Client.load at hbuilt
          split at hbuilt
          · next current hcurrent =>
            split at hbuilt
            · exact ih hbuilt
            · cases hbuilt
              exact ⟨s, hs, r, hr, rfl⟩
          · cases hbuilt
            exact ⟨s, hs, r, hr, rfl⟩

/-- A route of a client that has loaded a ring leads to a member. -/
theorem mem_of_lookup {c : Client} {k fqdn : String}
    (hring : c.ring = some (buildRing srt hashString ring))
    (h : c.lookup hashString k = some (.ok fqdn)) :
    ∃ m ∈ ring.members, fqdn = m ++ "." ++ c.serviceFQDN := by
  unfold Client.lookup at h
  rw [hring] at h
  dsimp only at h
  split at h
  · cases h
  · obtain ⟨m, hm, heq⟩ := Option.map_eq_some_iff.mp h
    injection heq with heq
    refine ⟨m, ?_, heq.symm⟩
    exact mem_positions_buildRing.mp (List.mem_of_getElem? hm)

end

/-- In every interleaving of Reconciles, with reads of any age, a client
that has polled at any moments of it has no ring, or one whose members
are exactly those of one moment, and every key it looks up goes to a pod
of the cache that was running, ready, not being deleted and not draining
at that moment. -/
theorem clients_route_by_snapshots (srt : SliceSort) (nows : Nat → Time)
    (keys : Nat → NamespacedName) {s : Cluster} (hs : s.Stamped)
    {cache : DistributedCache} (hnone : storedRing cache s = none)
    {c : Crew Api (Timeline Cluster) GoError ReconcileResult}
    (hrun : OperatorRun (fun s s' => s.Moves s'
      ∧ PublishesNothing cache s s') (operatorCrew srt nows keys s) c)
    (srt' : SliceSort) (hashString : String → UInt32) {client : Client}
    (hclient : PolledAt srt' hashString cache c.state client) :
    client.ring = none ∨ ∃ s ∈ c.state.moments, ∃ ring,
      client.ring = some (buildRing srt' hashString ring)
      ∧ ring.members = computeMembers srt (cachePods cache s)
      ∧ ∀ k fqdn, client.lookup hashString k = some (.ok fqdn) →
        ∃ p ∈ cachePods cache s, Eligible p
          ∧ fqdn = p.name ++ "." ++ client.serviceFQDN := by
  cases hloaded : client.ring with
  | none => exact Or.inl rfl
  | some built =>
      right
      obtain ⟨s₁, hs₁, ring, hring, rfl⟩ := hclient.loaded hloaded
      obtain ⟨s₂, hs₂, hmembers⟩ :=
        stored_seen hs hnone hrun s₁ hs₁ ring hring
      refine ⟨s₂, hs₂, ring, rfl, hmembers, fun k fqdn hlookup => ?_⟩
      obtain ⟨m, hm, rfl⟩ := mem_of_lookup hloaded hlookup
      rw [hmembers] at hm
      obtain ⟨p, hp, ord, hentry⟩ := mem_computeMembers.mp hm
      obtain ⟨heligible, -, rfl⟩ := ringEntry_iff.mp hentry
      exact ⟨p, hp, heligible, rfl⟩

/-- A held cache and one pod of it that is up. -/
def readyCluster : Cluster :=
  let cache := addFinalizer (shopCache "tiny-cache:1")
  { Cluster.empty.put (Cluster.empty.stamp cache) with
    pods := ⟨[{ metadata := { ns := "shop", name := "orders-0",
                              labels := podLabels cache }
                phase := .running
                conditions := [⟨.ready, .yes⟩] }],
      List.nodup_singleton _⟩ }

theorem readyCluster_stamped : readyCluster.Stamped := by
  have hcache : (Cluster.empty.put (Cluster.empty.stamp
      (addFinalizer (shopCache "tiny-cache:1")))).Stamped :=
    Cluster.empty_stamped.moves (Cluster.moves_put _)
  refine ⟨hcache.objects, ?_⟩
  intro p hp
  rw [List.mem_singleton.mp hp]
  exact Nat.zero_lt_two

/-- A `Reconcile` that has published the ring. -/
def readyCrew : Crew Api (Timeline Cluster) GoError ReconcileResult :=
  (List.replicate 12 (Turn.call 0 Recall.served)).foldl
    (Crew.step (Timeline.dispatch api Request.reads))
    (operatorCrew .insertionSort (fun _ => Time.ofUnix 100)
      (fun _ => ⟨"shop", "orders"⟩) readyCluster)

/-- A client that has polled then. -/
def readyClient : Client :=
  Client.load .insertionSort (fun _ => 0)
    ⟨ringKey (shopCache "tiny-cache:1"), "orders.shop", none⟩
    ⟨1, ["orders-0"]⟩

theorem clients_route_by_snapshots_ready :
    ∃ s ∈ readyCrew.state.moments, ∃ ring,
      readyClient.ring = some (buildRing .insertionSort (fun _ => 0) ring)
      ∧ ring.members = computeMembers .insertionSort
        (cachePods (shopCache "tiny-cache:1") s)
      ∧ ∀ k fqdn, readyClient.lookup (fun _ => 0) k = some (.ok fqdn) →
        ∃ p ∈ cachePods (shopCache "tiny-cache:1") s, Eligible p
          ∧ fqdn = p.name ++ "." ++ readyClient.serviceFQDN := by
  have hstored : storedRing (shopCache "tiny-cache:1") readyCrew.state.now
      = some ⟨1, ["orders-0"]⟩ := by
    decide +kernel
  have hclient : PolledAt .insertionSort (fun _ => 0)
      (shopCache "tiny-cache:1") readyCrew.state readyClient :=
    .poll (.new "orders.shop") _ Timeline.now_mem []
      (pollOnce_exec _ _ rfl hstored)
  exact (clients_route_by_snapshots .insertionSort
    (fun _ => Time.ofUnix 100) (fun _ => ⟨"shop", "orders"⟩)
    readyCluster_stamped (by decide +kernel) (operatorRun_served _ _ 0 12)
    .insertionSort (fun _ => 0) hclient).resolve_left (by
      simp [readyClient, Client.load])

end CacheOperator
