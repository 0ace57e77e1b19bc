/-
The ring version protocol, over whole runs.

A client never compares members: it takes an equal version for an
unchanged ring. That is right as long as a version determines its
members, which is a fact about the history of the ConfigMap, not about
one call. The system here is the ConfigMap, the calls of `reconcileRing`
that write it one at a time, and any number of clients that poll it;
calls and polls may fail at any point. Two fields of the state are only
bookkeeping: the rings published since the ConfigMap was last lost, and
the clients that have polled since then.

The invariant (`RingInv`) says that the published rings are a `History`,
that the stored ring is its newest entry, and that a client which has
polled holds some ring of the history. Losing the ConfigMap starts a new
history at version 0; a client that slept through the loss may then find
its old version again on another ring.
-/
import CacheOperator.Lib.Run
import CacheOperator.Lib.Versioned
import CacheOperator.Proofs.Published

namespace CacheOperator

open Lib

/-- The ConfigMap's cluster and the clients that poll it. -/
structure RingWorld where
  cluster : Cluster
  clients : Nat → Client
  /-- The rings published since the ConfigMap was last lost, newest
  first. -/
  published : List Ring
  /-- The clients that have polled successfully since then. -/
  synced : Nat → Bool

inductive RingEvent where
  /-- Pods come and go, and anything else but the ring ConfigMap. -/
  | churn (s : Cluster)
  /-- The ring ConfigMap is deleted, or its payload made unreadable. -/
  | lose (s : Cluster)
  /-- One call of `reconcileRing`. -/
  | publish (fs : List Fault)
  /-- Client `i` polls. -/
  | poll (i : Nat) (fs : List Fault)

section

variable (srt : SliceSort) (hashString : String → UInt32)
  (cache : DistributedCache)

/-- The history after a call that took the cluster from `s` to `s'`. -/
def recordRing (s s' : Cluster) (published : List Ring) : List Ring :=
  if s'.objects .configMap (ringKey cache)
      = s.objects .configMap (ringKey cache) then published
  else (storedRing cache s').toList ++ published

/-- Client `i` has polled and is `c` now. -/
def RingWorld.polled (w : RingWorld) (i : Nat) (c : Client) : RingWorld :=
  { w with
    clients := Function.update w.clients i c
    synced := Function.update w.synced i true }

/-- The world after one event. -/
def RingWorld.step (w : RingWorld) : RingEvent → RingWorld
  | .churn s => { w with cluster := s }
  | .lose s =>
      { w with cluster := s, published := [], synced := fun _ => false }
  | .publish fs =>
      let s' := ((reconcileRing srt cache).exec api fs w.cluster).state
      { w with
        cluster := s'
        published := recordRing cache w.cluster s' w.published }
  | .poll i fs =>
      match ((pollOnce srt hashString (w.clients i)).exec api fs
          w.cluster).result with
      | .ok (c, none) => w.polled i c
      | .ok (c, some _) =>
          { w with clients := Function.update w.clients i c }
      | .error _ => w
      | .crashed => w

/-- What each event is: churn leaves the ConfigMap alone, and a loss
leaves no ring behind. -/
def RingEvent.Possible (w : RingWorld) : RingEvent → Prop
  | .churn s => s.objects .configMap (ringKey cache)
      = w.cluster.objects .configMap (ringKey cache)
  | .lose s => storedRing cache s = none
  | .publish _ => True
  | .poll _ _ => True

/-- Nobody but the operator touches the ConfigMap. -/
def RingEvent.Undisturbed (w : RingWorld) : RingEvent → Prop
  | .lose _ => False
  | e => e.Possible cache w

/-- A client that has not polled since the ConfigMap was last lost does
not find its old version there. -/
def Recognises (w : RingWorld) (i : Nat) : Prop :=
  ∀ hr r, (w.clients i).ring = some hr →
    storedRing cache w.cluster = some r → hr.version = r.version →
    w.synced i = true

/-- An event of a run in which every client recognises a new history, and
no history is long enough for its versions to wrap. -/
def RingEvent.Recognised (w : RingWorld) (e : RingEvent) : Prop :=
  e.Possible cache w ∧ w.published.length < 2 ^ 63
    ∧ ∀ i fs, e = .poll i fs → Recognises cache w i

/-- No ring ConfigMap yet, and no client has loaded a ring. -/
structure RingWorld.Fresh (w : RingWorld) : Prop where
  absent : w.cluster.objects .configMap (ringKey cache) = none
  published : w.published = []
  synced : ∀ i, w.synced i = false
  key : ∀ i, (w.clients i).ringConfigMap = ringKey cache
  unloaded : ∀ i, (w.clients i).ring = none

/-- What holds in every run. -/
structure RingInv (w : RingWorld) : Prop where
  history : History Ring.version Ring.members ⟨0, []⟩ w.published
  stored : storedRing cache w.cluster = w.published.head?
  key : ∀ i, (w.clients i).ringConfigMap = ringKey cache
  loaded : ∀ i, w.synced i = true → ∃ r ∈ w.published,
    (w.clients i).ring = some (buildRing srt hashString r)

end

section

variable {srt : SliceSort} {hashString : String → UInt32}
  {cache : DistributedCache} {w w' : RingWorld} {s s' : Cluster}

-- ======================================================== publishing

@[simp] theorem RingWorld.publish_cluster (fs : List Fault) :
    (w.step srt hashString cache (.publish fs)).cluster
      = ((reconcileRing srt cache).exec api fs w.cluster).state := rfl

@[simp] theorem RingWorld.publish_clients (fs : List Fault) :
    (w.step srt hashString cache (.publish fs)).clients
      = w.clients := rfl

@[simp] theorem RingWorld.lose_cluster :
    (w.step srt hashString cache (.lose s)).cluster = s := rfl

@[simp] theorem RingWorld.lose_clients :
    (w.step srt hashString cache (.lose s)).clients = w.clients := rfl

@[simp] theorem RingWorld.polled_clients (i : Nat) (c : Client) :
    (w.polled i c).clients i = c := by
  unfold RingWorld.polled
  dsimp only
  rw [Function.update_self]

/-- The ring to publish goes on from the stored one. -/
theorem desiredRing_follows (members : List String)
    (cache : DistributedCache) (s : Cluster) :
    Follows Ring.version Ring.members
      (desiredRing members (currentRing (ringConfigMap cache s)))
      ((storedRing cache s).getD ⟨0, []⟩) := by
  rw [currentRing_eq]
  constructor
  · intro h
    rw [desiredRing_members] at h
    rw [desiredRing_version, if_pos h]
  · intro h
    rw [desiredRing_members] at h
    rw [desiredRing_version, if_neg h]

/-- The ConfigMap is as it was, or it holds this ring. -/
def RingKept (cache : DistributedCache) (s s' : Cluster) (r : Ring) :
    Prop :=
  s'.objects .configMap (ringKey cache) = s.objects .configMap (ringKey cache)
    ∨ storedRing cache s' = some r

/-- A call of `reconcileRing`, however it ends, leaves the ConfigMap or
stores the next ring. -/
theorem reconcileRing_kept (srt : SliceSort) (cache : DistributedCache)
    (s : Cluster) (fs : List Fault) :
    RingKept cache s ((reconcileRing srt cache).exec api fs s).state
      (nextRing srt cache s) := by
  have hsat : (reconcileRing srt cache).Sat api s (RingCall srt cache s)
    (EndsRing srt cache s) := reconcileRing_sat
  have hkept : ∀ {s'}, RingWritten srt cache s s' →
      RingKept cache s s' (nextRing srt cache s) := by
    intro s' hw
    rcases hw.configMap with rfl | ⟨hstored, -⟩
    · exact Or.inl rfl
    · exact Or.inr hstored
  have hend := (hsat fs).2
  cases hres : ((reconcileRing srt cache).exec api fs s).result with
  | ok ring =>
      rw [hres] at hend
      exact hkept hend.toRingWritten
  | error e =>
      rw [hres] at hend
      exact hkept hend
  | crashed =>
      rw [hres] at hend
      exact hkept hend

/-- The history grows by the ring that was stored, or not at all. -/
theorem recordRing_cases (published : List Ring) {r : Ring}
    (h : RingKept cache s s' r) :
    (recordRing cache s s' published = published
        ∧ storedRing cache s' = storedRing cache s)
      ∨ (recordRing cache s s' published = r :: published
        ∧ storedRing cache s' = some r) := by
  unfold recordRing
  by_cases hsame : s'.objects .configMap (ringKey cache)
      = s.objects .configMap (ringKey cache)
  · rw [if_pos hsame]
    exact Or.inl ⟨rfl, storedRing_congr hsame⟩
  · rw [if_neg hsame]
    rcases h with h | hstored
    · exact absurd h hsame
    · right
      rw [hstored]
      exact ⟨rfl, rfl⟩

/-- A ring that was not stored before is a publication. -/
theorem recordRing_of_ne (published : List Ring) {r : Ring}
    (hr : storedRing cache s' = some r)
    (hne : storedRing cache s ≠ some r) :
    recordRing cache s s' published = r :: published := by
  have hchanged : s'.objects .configMap (ringKey cache)
      ≠ s.objects .configMap (ringKey cache) := by
    intro hsame
    exact hne ((storedRing_congr hsame).symm.trans hr)
  unfold recordRing
  rw [if_neg hchanged, hr]
  rfl

theorem recordRing_length_le (s s' : Cluster) (published : List Ring) :
    published.length ≤ (recordRing cache s s' published).length := by
  unfold recordRing
  split
  · exact Nat.le_refl _
  · rw [List.length_append]
    omega

theorem recordRing_length_le_succ (s s' : Cluster)
    (published : List Ring) :
    (recordRing cache s s' published).length ≤ published.length + 1 := by
  unfold recordRing
  split
  · omega
  · rw [List.length_append]
    cases storedRing cache s' with
    | none => simp
    | some r => simp [Nat.add_comm]

/-- Anything that stores no ring but one that follows keeps the
invariant. -/
theorem RingInv.record (hinv : RingInv srt hashString cache w)
    {members : List String}
    (h : RingKept cache w.cluster s'
      (desiredRing members (currentRing (ringConfigMap cache w.cluster)))) :
    RingInv srt hashString cache
      { w with
        cluster := s'
        published := recordRing cache w.cluster s' w.published } := by
  obtain ⟨hhist, hstored, hkey, hloaded⟩ := hinv
  rcases recordRing_cases w.published h with ⟨hrec, hst⟩ | ⟨hrec, hst⟩
  · rw [hrec]
    exact ⟨hhist, hst.trans hstored, hkey, hloaded⟩
  · rw [hrec]
    refine ⟨.cons ?_ hhist, hst, hkey, fun i hi => ?_⟩
    · have hf := desiredRing_follows members cache w.cluster
      rw [hstored, ← List.headD_eq_head?_getD] at hf
      exact hf
    · obtain ⟨r, hr, hring⟩ := hloaded i hi
      exact ⟨r, List.mem_cons_of_mem _ hr, hring⟩

/-- Whatever leaves the ConfigMap alone keeps the invariant. -/
theorem RingInv.churn (hinv : RingInv srt hashString cache w)
    (h : s'.objects .configMap (ringKey cache)
      = w.cluster.objects .configMap (ringKey cache)) :
    RingInv srt hashString cache { w with cluster := s' } :=
  ⟨hinv.history, (storedRing_congr h).trans hinv.stored, hinv.key,
    hinv.loaded⟩

-- =========================================================== polling

/-- What a poll returns, under any failure. -/
structure Polled (srt : SliceSort) (hashString : String → UInt32)
    (stored : Option Ring) (c : Client)
    (res : Result GoError (Client × Option GoError)) : Prop where
  loaded : ∀ c', res = .ok (c', none) →
    ∃ r, stored = some r ∧ c' = c.load srt hashString r
  kept : ∀ c' e, res = .ok (c', some e) → c' = c

theorem Polled.error {stored : Option Ring} {c : Client} (e : GoError) :
    Polled srt hashString stored c (.ok (c, some e)) where
  loaded := by
    intro c' h
    cases h
  kept := by
    intro c' e' h
    cases h
    rfl

theorem pollOnce_sat {c : Client} (hc : c.ringConfigMap = ringKey cache) :
    (pollOnce srt hashString c).Sat api s (fun _ => True) fun res s' =>
      s' = s ∧ Polled srt hashString (storedRing cache s) c res := by
  obtain ⟨key, serviceFQDN, ring⟩ := c
  subst hc
  unfold pollOnce
  simp only [bind, pure, Prog.bind, request]
  refine Prog.Sat.read rfl ⟨rfl, by simp, by simp⟩ (fun _ _ => trivial)
    ?_
    (.ret ⟨rfl, .error _⟩)
  unfold storedRing ringConfigMap payload ringConfigMapKey
  cases hcm : s.objects .configMap (ringKey cache) with
  | none =>
      rw [serve_get_none hcm]
      exact .ret ⟨rfl, .error _⟩
  | some cm =>
      rw [serve_get_some hcm]
      dsimp only [Option.map_some, Option.bind_some]
      cases hraw : cm.1.body.data.get "ring.json" with
      | none => exact .ret ⟨rfl, .error _⟩
      | some raw =>
          dsimp only [Option.bind_some]
          cases hring : unmarshalRing raw with
          | none => exact .ret ⟨rfl, .error _⟩
          | some r =>
              refine .ret ⟨rfl, ⟨fun c' h => ?_, fun c' e h => ?_⟩⟩
              · cases h
                exact ⟨r, rfl, rfl⟩
              · cases h

theorem pollOnce_polled (srt : SliceSort) (hashString : String → UInt32)
    (s : Cluster) {c : Client} (hc : c.ringConfigMap = ringKey cache)
    (fs : List Fault) :
    Polled srt hashString (storedRing cache s) c
      ((pollOnce srt hashString c).exec api fs s).result :=
  (pollOnce_sat hc fs).2.2

/-- An undisturbed poll loads the stored ring. -/
theorem pollOnce_exec (srt : SliceSort) (hashString : String → UInt32)
    {c : Client} {r : Ring}
    (hc : c.ringConfigMap = ringKey cache)
    (hr : storedRing cache s = some r) :
    ((pollOnce srt hashString c).exec api [] s).result
      = .ok (c.load srt hashString r, none) := by
  have hres := (Prog.exec_nil api (pollOnce srt hashString c) s).2.2
  rw [(pollOnce_run hc).1 r hr] at hres
  exact hres

/-- Loading gives the ring that was read, if an equal version was a sign
of the same ring. -/
theorem Client.load_ring {c : Client} {r : Ring}
    (h : ∀ hr, c.ring = some hr → hr.version = r.version →
      hr = buildRing srt hashString r) :
    (c.load srt hashString r).ring
      = some (buildRing srt hashString r) := by
  unfold Client.load
  cases hc : c.ring with
  | none => rfl
  | some current =>
      by_cases hv : current.version = r.version
      · dsimp only
        rw [if_pos hv, hc, h current hc hv]
      · dsimp only
        rw [if_neg hv]

/-- An equal version is taken for an unchanged ring. -/
theorem Client.load_same {c : Client} {r : Ring} {hr : HashRing}
    (hring : c.ring = some hr) (hv : hr.version = r.version) :
    c.load srt hashString r = c := by
  unfold Client.load
  rw [hring]
  dsimp only
  rw [if_pos hv]

theorem Client.load_key {c : Client} {r : Ring} :
    (c.load srt hashString r).ringConfigMap = c.ringConfigMap := by
  unfold Client.load
  cases hc : c.ring with
  | none => rfl
  | some current =>
      dsimp only
      split
      · rfl
      · rfl

/-- Two rings of one history with the same version are one ring. -/
theorem RingInv.version_determines (hinv : RingInv srt hashString cache w)
    (hlen : w.published.length ≤ 2 ^ 64) {r r' : Ring}
    (hr : r ∈ w.published) (hr' : r' ∈ w.published)
    (hv : r.version = r'.version) : r = r' :=
  Ring.ext hv (hinv.history.determines hlen hr hr' hv)

/-- A client that recognises new histories holds the stored ring after a
successful poll. -/
theorem RingInv.poll_exact (hinv : RingInv srt hashString cache w)
    (hlen : w.published.length ≤ 2 ^ 64) {i : Nat}
    (hrec : Recognises cache w i) {r : Ring}
    (hr : storedRing cache w.cluster = some r) :
    ((w.clients i).load srt hashString r).ring
      = some (buildRing srt hashString r) := by
  refine Client.load_ring fun hr' hring hv => ?_
  obtain ⟨r', hr', hbuilt⟩ := hinv.loaded i (hrec hr' r hring hr hv)
  have hmem : r ∈ w.published :=
    List.mem_of_mem_head? (hinv.stored ▸ hr)
  rw [hring] at hbuilt
  cases hbuilt
  rw [hinv.version_determines hlen hr' hmem hv]

/-- The poll returned no error. -/
def Succeeds : Result GoError (Client × Option GoError) → Bool
  | .ok (_, none) => true
  | _ => false

/-- A poll that succeeds loads the stored ring; any other changes
nothing. -/
theorem RingWorld.poll_cases {i : Nat} (fs : List Fault)
    (hkey : (w.clients i).ringConfigMap = ringKey cache) :
    Succeeds ((pollOnce srt hashString (w.clients i)).exec api fs
          w.cluster).result = false
        ∧ w.step srt hashString cache (.poll i fs) = w
      ∨ Succeeds ((pollOnce srt hashString (w.clients i)).exec api fs
          w.cluster).result = true
        ∧ ∃ r, storedRing cache w.cluster = some r
          ∧ w.step srt hashString cache (.poll i fs)
            = w.polled i ((w.clients i).load srt hashString r) := by
  have hpolled := pollOnce_polled srt hashString w.cluster hkey fs
  unfold RingWorld.step
  dsimp only
  split
  · next c hres =>
    obtain ⟨r, hr, rfl⟩ := hpolled.loaded c hres
    rw [hres]
    exact Or.inr ⟨rfl, r, hr, rfl⟩
  · next c e hres =>
    obtain rfl := hpolled.kept c e hres
    rw [hres, Function.update_eq_self]
    exact Or.inl ⟨rfl, rfl⟩
  · next e hres =>
    rw [hres]
    exact Or.inl ⟨rfl, rfl⟩
  · next hres =>
    rw [hres]
    exact Or.inl ⟨rfl, rfl⟩

theorem RingWorld.step_poll {i : Nat} {r : Ring}
    (hkey : (w.clients i).ringConfigMap = ringKey cache)
    (hr : storedRing cache w.cluster = some r) :
    w.step srt hashString cache (.poll i [])
      = w.polled i ((w.clients i).load srt hashString r) := by
  unfold RingWorld.step
  dsimp only
  rw [pollOnce_exec srt hashString hkey hr]

/-- A poll, however it ends, keeps the invariant. -/
theorem RingInv.poll (hinv : RingInv srt hashString cache w)
    (hlen : w.published.length ≤ 2 ^ 64) {i : Nat}
    (hrec : Recognises cache w i) (fs : List Fault) :
    RingInv srt hashString cache
      (w.step srt hashString cache (.poll i fs)) := by
  rcases RingWorld.poll_cases fs (hinv.key i) with
    ⟨-, hw⟩ | ⟨-, r, hr, hw⟩
  · rw [hw]
    exact hinv
  · rw [hw]
    unfold RingWorld.polled
    refine ⟨hinv.history, hinv.stored, fun j => ?_, fun j hj => ?_⟩
    · dsimp only
      by_cases hji : j = i
      · rw [hji, Function.update_self, Client.load_key]
        exact hinv.key i
      · rw [Function.update_of_ne hji]
        exact hinv.key j
    · dsimp only at hj ⊢
      by_cases hji : j = i
      · rw [hji, Function.update_self]
        exact ⟨r, List.mem_of_mem_head? (hinv.stored ▸ hr),
          hinv.poll_exact hlen hrec hr⟩
      · rw [Function.update_of_ne hji] at hj ⊢
        exact hinv.loaded j hj

-- ============================================================== runs

/-- One event keeps the invariant. -/
theorem RingInv.step {e : RingEvent} (hinv : RingInv srt hashString cache w)
    (he : e.Recognised cache w) :
    RingInv srt hashString cache (w.step srt hashString cache e) := by
  obtain ⟨hpossible, hlen, hrec⟩ := he
  cases e with
  | churn s => exact hinv.churn hpossible
  | lose s => exact ⟨.nil, hpossible, hinv.key, nofun⟩
  | publish fs =>
      exact hinv.record (reconcileRing_kept srt cache w.cluster fs)
  | poll i fs => exact hinv.poll (by omega) (hrec i fs rfl) fs

theorem RingWorld.Fresh.inv (h : w.Fresh cache) :
    RingInv srt hashString cache w := by
  refine ⟨?_, ?_, h.key, fun i hi => ?_⟩
  · rw [h.published]
    exact .nil
  · unfold storedRing ringConfigMap
    rw [h.absent, h.published]
    rfl
  · rw [h.synced i] at hi
    cases hi

/-- The invariant holds along every run in which every client recognises
new histories. -/
theorem ringInv_of_run (hfresh : w.Fresh cache)
    (hrun : Run (RingWorld.step srt hashString cache)
      (fun w e => e.Recognised cache w) w w') :
    RingInv srt hashString cache w' :=
  hrun.invariant (fun _ _ hinv he => hinv.step he) hfresh.inv

/-- Every client that has loaded a ring has polled since the ConfigMap
was last lost. -/
def AllSynced (w : RingWorld) : Prop :=
  ∀ i hr, (w.clients i).ring = some hr → w.synced i = true

theorem AllSynced.recognises (h : AllSynced w) (i : Nat) :
    Recognises cache w i :=
  fun hr _ hring _ _ => h i hr hring

theorem AllSynced.step {e : RingEvent} (h : AllSynced w)
    (hkey : ∀ i, (w.clients i).ringConfigMap = ringKey cache)
    (he : e.Undisturbed cache w) :
    AllSynced (w.step srt hashString cache e) := by
  cases e with
  | churn s => exact h
  | lose s => exact absurd he id
  | publish fs => exact h
  | poll i fs =>
      rcases RingWorld.poll_cases fs (hkey i) with
        ⟨-, hw⟩ | ⟨-, r, -, hw⟩
      · rw [hw]
        exact h
      · rw [hw]
        unfold RingWorld.polled
        intro j hr hj
        dsimp only at hj ⊢
        by_cases hji : j = i
        · rw [hji, Function.update_self]
        · rw [Function.update_of_ne hji] at hj ⊢
          exact h j hr hj

/-- Publications are only ever added while nobody disturbs the
ConfigMap. -/
theorem published_length_le {e : RingEvent} (he : e.Undisturbed cache w) :
    w.published.length
      ≤ (w.step srt hashString cache e).published.length := by
  cases e with
  | churn s => exact Nat.le_refl _
  | lose s => exact absurd he id
  | publish fs => exact recordRing_length_le _ _ _
  | poll i fs =>
      unfold RingWorld.step
      dsimp only
      split
      · exact Nat.le_refl _
      · exact Nat.le_refl _
      · exact Nat.le_refl _
      · exact Nat.le_refl _

/-- Undisturbed, a client has always polled the present history. -/
theorem undisturbed_inv (hfresh : w.Fresh cache)
    (hrun : Run (RingWorld.step srt hashString cache)
      (fun w e => e.Undisturbed cache w) w w')
    (hlen : w'.published.length < 2 ^ 63) :
    RingInv srt hashString cache w' ∧ AllSynced w' := by
  refine hrun.invariant (I := fun w => w.published.length < 2 ^ 63 →
    RingInv srt hashString cache w ∧ AllSynced w) ?_ ?_ hlen
  · intro w e ih he hlen'
    have hlen := Nat.lt_of_le_of_lt (published_length_le he) hlen'
    obtain ⟨hinv, hsync⟩ := ih hlen
    refine ⟨hinv.step ⟨?_, hlen, fun i _ _ => hsync.recognises i⟩,
      hsync.step hinv.key he⟩
    cases e with
    | churn s => exact he
    | lose s => exact absurd he id
    | publish fs => trivial
    | poll i fs => trivial
  · intro _
    refine ⟨hfresh.inv, fun i hr hring => ?_⟩
    rw [hfresh.unloaded i] at hring
    cases hring

/-- A client's answers depend on its ring and its suffix only. -/
theorem Client.lookup_congr {c c' : Client} (hring : c.ring = c'.ring)
    (hfqdn : c.serviceFQDN = c'.serviceFQDN) (key : String) :
    c.lookup hashString key = c'.lookup hashString key := by
  unfold Client.lookup
  rw [hring, hfqdn]

end

/-- The version protocol, while nobody but the operator writes the
ConfigMap. The newest published ring is the stored one, each publication
follows the one before (the first one the empty ring at version 0), and a
version determines its members. So a client that has polled holds the
ring stored at that moment, a failed poll changes nothing, and clients at
one version answer alike. -/
theorem version_protocol (srt : SliceSort) (hashString : String → UInt32)
    (cache : DistributedCache) (w₀ w : RingWorld)
    (hfresh : w₀.Fresh cache)
    (hrun : Run (RingWorld.step srt hashString cache)
      (fun w e => e.Undisturbed cache w) w₀ w)
    (hlen : w.published.length < 2 ^ 63) :
    (storedRing cache w.cluster = w.published.head?
      ∧ (w.published ++ [(⟨0, []⟩ : Ring)]).IsChain
        (Follows Ring.version Ring.members)
      ∧ (w.published.Pairwise fun newer older =>
        older.version ≤ newer.version
          ∧ (older.version = newer.version →
            older.members = newer.members))
      ∧ ∀ r ∈ w.published, r.version = 0 → r.members = [])
    ∧ (∀ i fs,
      (∀ c, ((pollOnce srt hashString (w.clients i)).exec api fs
            w.cluster).result = .ok (c, none) →
          ∃ r, storedRing cache w.cluster = some r
            ∧ c.ring = some (buildRing srt hashString r))
        ∧ ∀ c e, ((pollOnce srt hashString (w.clients i)).exec api fs
            w.cluster).result = .ok (c, some e) →
          c.ring = (w.clients i).ring)
    ∧ ∀ i j, (w.clients i).ring.isSome → (w.clients j).ring.isSome →
      (w.clients i).ringVersion = (w.clients j).ringVersion →
      (w.clients i).serviceFQDN = (w.clients j).serviceFQDN →
      ∀ key, (w.clients i).lookup hashString key
        = (w.clients j).lookup hashString key := by
  obtain ⟨hinv, hsync⟩ := undisturbed_inv hfresh hrun hlen
  have hround : w.published.length ≤ 2 ^ 64 := by omega
  refine ⟨⟨hinv.stored, hinv.history.chain, hinv.history.pairwise rfl hlen,
    fun r hr hv => hinv.history.value_at_zero rfl hlen hr hv⟩, ?_, ?_⟩
  · intro i fs
    have hpolled := pollOnce_polled srt hashString w.cluster (hinv.key i) fs
    constructor
    · intro c hres
      obtain ⟨r, hr, rfl⟩ := hpolled.loaded c hres
      exact ⟨r, hr, hinv.poll_exact hround (hsync.recognises i) hr⟩
    · intro c e hres
      rw [hpolled.kept c e hres]
  · intro i j hi hj hv hfqdn key
    obtain ⟨hri, hi⟩ := Option.isSome_iff_exists.mp hi
    obtain ⟨hrj, hj⟩ := Option.isSome_iff_exists.mp hj
    obtain ⟨r, hr, hri⟩ := hinv.loaded i (hsync i hri hi)
    obtain ⟨r', hr', hrj⟩ := hinv.loaded j (hsync j hrj hj)
    unfold Client.ringVersion at hv
    rw [hri, hrj] at hv
    refine Client.lookup_congr ?_ hfqdn key
    rw [hri, hrj, hinv.version_determines hround hr hr' hv]

/-- The small cluster before the first publication, with clients that
have loaded nothing. -/
def ordersFresh : RingWorld where
  cluster := ordersCluster 2 2 (ordersPods (true, none) (true, none))
  clients := fun _ =>
    { ringConfigMap := ringKey (ordersCache 2)
      serviceFQDN := "orders-cache.default.svc.cluster.local"
      ring := none }
  published := []
  synced := fun _ => false

theorem ordersFresh_fresh : ordersFresh.Fresh (ordersCache 2) :=
  ⟨rfl, rfl, fun _ => rfl, fun _ => rfl, fun _ => rfl⟩

/-- The world after the first publication, of both pods. -/
def ordersPublished : RingWorld :=
  ordersFresh.step .insertionSort (fun _ => 0) (ordersCache 2) (.publish [])

theorem ordersPublished_run {P : RingWorld → RingEvent → Prop}
    (h : P ordersFresh (.publish [])) :
    Run (RingWorld.step .insertionSort (fun _ => 0) (ordersCache 2)) P
      ordersFresh ordersPublished := by
  unfold ordersPublished
  refine Run.snoc ?_ _ h
  exact .nil

theorem ordersPublished_stored :
    storedRing (ordersCache 2) ordersPublished.cluster
      = some ⟨1, ["orders-cache-0", "orders-cache-1"]⟩ := by
  decide +kernel

/-- Both pods are published, and a client that polls then holds both. -/
theorem version_protocol_orders :
    ordersPublished.published
        = [⟨1, ["orders-cache-0", "orders-cache-1"]⟩]
      ∧ ∀ fs c, ((pollOnce .insertionSort (fun _ => 0)
          (ordersPublished.clients 0)).exec api fs
          ordersPublished.cluster).result = .ok (c, none) →
        ∃ r, storedRing (ordersCache 2) ordersPublished.cluster = some r
          ∧ c.ring = some (buildRing .insertionSort (fun _ => 0) r) := by
  have hpub : ordersPublished.published
      = [⟨1, ["orders-cache-0", "orders-cache-1"]⟩] := by
    decide +kernel
  refine ⟨hpub, fun fs => ?_⟩
  refine ((version_protocol .insertionSort (fun _ => 0) (ordersCache 2)
    ordersFresh ordersPublished ordersFresh_fresh ?_ ?_).2.1 0 fs).1
  · exact ordersPublished_run trivial
  · rw [hpub]
    decide

/-- A client whose versions are not reused after a loss of the ConfigMap
holds exactly the stored members after every successful poll. -/
theorem poll_exact_unless_version_reused (srt : SliceSort)
    (hashString : String → UInt32) (cache : DistributedCache)
    (w₀ w : RingWorld) (hfresh : w₀.Fresh cache)
    (hrun : Run (RingWorld.step srt hashString cache)
      (fun w e => e.Recognised cache w) w₀ w)
    (i : Nat) (fs : List Fault)
    (hnext : (RingEvent.poll i fs).Recognised cache w) (c : Client)
    (hres : ((pollOnce srt hashString (w.clients i)).exec api fs
      w.cluster).result = .ok (c, none)) :
    ∃ r hr, storedRing cache w.cluster = some r ∧ c.ring = some hr
      ∧ ∀ m, m ∈ hr.positions ↔ m ∈ r.members := by
  have hinv := ringInv_of_run hfresh hrun
  obtain ⟨-, hlen, hrec⟩ := hnext
  obtain ⟨r, hr, rfl⟩ :=
    (pollOnce_polled srt hashString w.cluster (hinv.key i) fs).loaded c hres
  exact ⟨r, buildRing srt hashString r, hr,
    hinv.poll_exact (by omega) (hrec i fs rfl) hr,
    fun m => mem_positions_buildRing⟩

/-- A loss and a publication, then churn and another one. -/
def RingWorld.rebuilt (srt : SliceSort) (hashString : String → UInt32)
    (cache : DistributedCache) (w : RingWorld) (lost churned : Cluster) :
    RingWorld :=
  [.lose lost, .publish [], .churn churned, .publish []].foldl
    (RingWorld.step srt hashString cache) w

section

variable {srt : SliceSort} {hashString : String → UInt32}
  {cache : DistributedCache} {w₀ w : RingWorld} {lost churned : Cluster}

theorem RingWorld.rebuilt_clients :
    (w.rebuilt srt hashString cache lost churned).clients = w.clients := rfl

theorem RingWorld.rebuilt_synced (i : Nat) :
    (w.rebuilt srt hashString cache lost churned).synced i = false := rfl

theorem RingWorld.rebuilt_cluster :
    (w.rebuilt srt hashString cache lost churned).cluster
      = ((reconcileRing srt cache).exec api [] churned).state := rfl

/-- A publication makes the history longer by one at most. -/
theorem recordRing_length {s s' : Cluster} {published : List Ring} {n : Nat}
    (h : published.length ≤ n) :
    (recordRing cache s s' published).length ≤ n + 1 := by
  unfold recordRing
  split
  · omega
  · rw [List.length_append]
    cases storedRing cache s' with
    | none => exact (Nat.zero_add _).trans_le (Nat.le_succ_of_le h)
    | some r => exact (Nat.add_comm 1 _).trans_le (Nat.succ_le_succ h)

theorem RingWorld.rebuilt_published :
    (w.rebuilt srt hashString cache lost churned).published.length ≤ 2 :=
  recordRing_length (recordRing_length (Nat.le_refl 0))

/-- No client polls meanwhile, so there is nothing to recognise. -/
theorem RingWorld.rebuilt_run
    (hrun : Run (RingWorld.step srt hashString cache)
      (fun w e => e.Recognised cache w) w₀ w)
    (hshort : w.published.length < 2 ^ 63)
    (hlost : storedRing cache lost = none)
    (hchurned : churned.objects .configMap (ringKey cache)
      = ((reconcileRing srt cache).exec api [] lost).state.objects .configMap
        (ringKey cache)) :
    Run (RingWorld.step srt hashString cache)
      (fun w e => e.Recognised cache w) w₀
      (w.rebuilt srt hashString cache lost churned) := by
  have hone : (recordRing cache lost
      ((reconcileRing srt cache).exec api [] lost).state []).length
        < 2 ^ 63 :=
    (recordRing_length (Nat.le_refl 0)).trans_lt (by omega)
  apply Run.extend hrun
  exact ⟨⟨hlost, hshort, nofun⟩, ⟨trivial, Nat.two_pow_pos 63, nofun⟩,
    ⟨hchurned, hone, nofun⟩, ⟨trivial, hone, nofun⟩, trivial⟩

end

/-- The client after its poll, with both pods loaded at version 1. -/
def ordersLoadedClient : Client :=
  { ordersPublished.clients 0 with
    ring := some (buildRing .insertionSort (fun _ => 0)
      ⟨1, ["orders-cache-0", "orders-cache-1"]⟩) }

theorem ordersLoaded_run {P : RingWorld → RingEvent → Prop}
    (h : P ordersFresh (.publish [])) (h' : P ordersPublished (.poll 0 [])) :
    Run (RingWorld.step .insertionSort (fun _ => 0) (ordersCache 2)) P
      ordersFresh (ordersPublished.polled 0 ordersLoadedClient) := by
  have hpoll : ordersPublished.step .insertionSort (fun _ => 0)
      (ordersCache 2) (.poll 0 [])
        = ordersPublished.polled 0 ordersLoadedClient :=
    RingWorld.step_poll rfl ordersPublished_stored
  have hrun := (ordersPublished_run h).snoc (.poll 0 []) h'
  rw [hpoll] at hrun
  exact hrun

/-- The ConfigMap is gone, and the second pod is not ready. -/
def ordersLost : Cluster :=
  ordersCluster 2 2 (ordersPods (true, none) (false, none))

theorem ordersLost_lost : storedRing (ordersCache 2) ordersLost = none := by
  decide +kernel

/-- The ring as it is rebuilt then, with one pod. -/
def ordersRebuiltRing : Object .configMap :=
  { metadata :=
      { ns := "default", name := "orders-cache-ring", resourceVersion := 3
        created := true, labels := ownedLabels (ordersCache 2) "ring" .empty
        controller := some ⟨cacheKind, "orders-cache", "1"⟩ }
    body :=
      { data := Dict.empty.set "ring.json"
          (marshalRing ⟨1, ["orders-cache-0"]⟩) } }

/-- And the second pod is ready again. -/
def ordersRejoined : Cluster :=
  (ordersCluster 2 2 (ordersPods (true, none) (true, none))).put
    ordersRebuiltRing

theorem ordersRejoined_rebuilt :
    ordersRejoined.objects .configMap (ringKey (ordersCache 2))
      = ((reconcileRing .insertionSort (ordersCache 2)).exec api []
        ordersLost).state.objects .configMap (ringKey (ordersCache 2)) := by
  decide +kernel

/-- The client has slept through the loss; the ring of both pods has
version 2 now. -/
def ordersAwake : RingWorld :=
  (ordersPublished.polled 0 ordersLoadedClient).rebuilt .insertionSort
    (fun _ => 0) (ordersCache 2) ordersLost ordersRejoined

theorem ordersAwake_client : ordersAwake.clients 0 = ordersLoadedClient := by
  unfold ordersAwake
  rw [RingWorld.rebuilt_clients, RingWorld.polled_clients]

theorem ordersAwake_stored :
    storedRing (ordersCache 2) ordersAwake.cluster
      = some ⟨2, ["orders-cache-0", "orders-cache-1"]⟩ := by
  unfold ordersAwake
  rw [RingWorld.rebuilt_cluster]
  decide +kernel

theorem poll_exact_unless_version_reused_orders :
    ordersAwake.synced 0 = false
      ∧ ∃ c r hr, ((pollOnce .insertionSort (fun _ => 0)
          (ordersAwake.clients 0)).exec api [] ordersAwake.cluster).result
            = .ok (c, none)
        ∧ storedRing (ordersCache 2) ordersAwake.cluster = some r
        ∧ c.ring = some hr ∧ ∀ m, m ∈ hr.positions ↔ m ∈ r.members := by
  have hkey : (ordersAwake.clients 0).ringConfigMap
      = ringKey (ordersCache 2) := by
    rw [ordersAwake_client]
    rfl
  have hres := pollOnce_exec .insertionSort (fun _ => 0) hkey
    ordersAwake_stored
  have hshort : ordersPublished.published.length < 2 ^ 63 := by
    decide +kernel
  have hloaded := ordersLoaded_run
    (P := fun w e => e.Recognised (ordersCache 2) w)
    ⟨trivial, Nat.two_pow_pos 63, nofun⟩
    ⟨trivial, hshort, fun i fs _ hr r hring => by cases hring⟩
  have hrun := RingWorld.rebuilt_run hloaded hshort ordersLost_lost
    ordersRejoined_rebuilt
  have hrecognised : ∀ i fs, RingEvent.poll 0 [] = .poll i fs →
      Recognises (ordersCache 2) ordersAwake i := by
    intro i fs hpoll hr r hring hstored hversion
    cases hpoll
    rw [ordersAwake_client] at hring
    cases hring
    cases ordersAwake_stored.symm.trans hstored
    exact absurd hversion (by decide)
  refine ⟨RingWorld.rebuilt_synced 0, ?_⟩
  obtain ⟨r, hr, hstored, hring, hmembers⟩ :=
    poll_exact_unless_version_reused .insertionSort (fun _ => 0)
      (ordersCache 2) ordersFresh ordersAwake ordersFresh_fresh hrun 0 []
      ⟨trivial, RingWorld.rebuilt_published.trans_lt (by omega),
        hrecognised⟩ _ hres
  exact ⟨_, r, hr, hres, hstored, hring, hmembers⟩

/-- The client loads both pods at version 1; the ConfigMap is deleted and
the second pod stops being ready; the ring is rebuilt with one pod, at
version 1 again. The next poll succeeds and leaves both pods loaded. -/
theorem reused_version_is_stale :
    ∃ w c r hr,
      Run (RingWorld.step .insertionSort (fun _ => 0) (ordersCache 2))
        (fun w e => e.Possible (ordersCache 2) w) ordersFresh w
      ∧ ((pollOnce .insertionSort (fun _ => 0) (w.clients 0)).exec api []
        w.cluster).result = .ok (c, none)
      ∧ storedRing (ordersCache 2) w.cluster = some r
      ∧ c.ring = some hr
      ∧ "orders-cache-1" ∈ hr.positions ∧ "orders-cache-1" ∉ r.members := by
  have hloaded := ordersLoaded_run
    (P := fun w e => e.Possible (ordersCache 2) w) trivial trivial
  have hrun := (hloaded.snoc (.lose ordersLost) ordersLost_lost).snoc
    (.publish []) trivial
  have hstored : storedRing (ordersCache 2)
      ((reconcileRing .insertionSort (ordersCache 2)).exec api []
        ordersLost).state = some ⟨1, ["orders-cache-0"]⟩ := by
    decide +kernel
  have hkey : ordersLoadedClient.ringConfigMap
      = ringKey (ordersCache 2) := rfl
  have hres := pollOnce_exec .insertionSort (fun _ => 0) hkey hstored
  rw [Client.load_same rfl rfl] at hres
  refine ⟨_, ordersLoadedClient, ⟨1, ["orders-cache-0"]⟩, _, hrun, ?_, ?_,
    rfl, mem_positions_buildRing.mpr (by decide), by decide⟩
  · rw [RingWorld.publish_clients, RingWorld.lose_clients,
      RingWorld.polled_clients, RingWorld.publish_cluster,
      RingWorld.lose_cluster]
    exact hres
  · rw [RingWorld.publish_cluster, RingWorld.lose_cluster]
    exact hstored

end CacheOperator
