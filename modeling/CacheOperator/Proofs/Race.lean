/-
Several `reconcileRing` executions at once.

`reconcileRing` derives the ring to publish from its first read of the
ConfigMap, and `CreateOrUpdate` compares and swaps against a second one.
An execution that loses a race between its two reads is not told: it
writes the ring derived from the old payload over the new one, at a
version that has been used or left behind.

The executions are programs side by side (`Lib/Interleave.lean`) at a
server that may answer a read of the ConfigMap with any earlier state
of it. As long as the ring derived from the first read is the one that
the second read gives (`Rederives`), every write follows the payload it
replaces, because the resource version tells the states of the ConfigMap
apart (`Race.Inv`).
-/
import CacheOperator.Lib.Interleave
import CacheOperator.Proofs.Published

namespace CacheOperator

open Lib

-- ========================================================= the server

/-- The cluster, and the states its ring ConfigMap has been in, newest
first. -/
structure Race (key : NamespacedName) where
  cluster : Cluster
  states : List (Option {o : Object .configMap // o.key = key})

variable {key : NamespacedName}

/-- The cluster moves on; a new state of the ConfigMap is recorded. -/
def Race.moved (w : Race key) (s : Cluster) : Race key :=
  ⟨s, if s.objects .configMap key = w.cluster.objects .configMap key
    then w.states else s.objects .configMap key :: w.states⟩

/-- The rings the ConfigMap has held, newest first. -/
def Race.payloads (w : Race key) : List Ring :=
  w.states.filterMap fun cm => cm.bind fun o => payload o.1.body.data

/-- What befalls a call. -/
inductive RaceChoice where
  | served
  | refused
  | lost
  /-- A read of the ConfigMap is answered with the state that is `n`
  writes old. -/
  | stale (n : Nat)

/-- The answer from the state that is `n` writes old. -/
def Race.oldReply (w : Race key) (n : Nat) {key' : NamespacedName}
    (h : key = key') : Reply (.get .configMap key') :=
  match w.states[n]? with
  | some (some o) => .ok ⟨o.1, o.2.trans h⟩
  | some none => .error errNotFound
  | none => (api.serve (.get .configMap key') w.cluster).1

def raceDispatch : Dispatch Api (Race key) RaceChoice
  | .served, r, w =>
      ((api.serve r w.cluster).1, w.moved (api.serve r w.cluster).2)
  | .refused, r, w => (api.refuse r, w)
  | .lost, r, w => (api.refuse r, w.moved (api.serve r w.cluster).2)
  | .stale n, .get .configMap key', w =>
      if h : key = key' then (w.oldReply n h, w)
      else ((api.serve (.get .configMap key') w.cluster).1, w)
  | .stale _, r, w =>
      ((api.serve r w.cluster).1, w.moved (api.serve r w.cluster).2)

/-- What else happens: anything that leaves the ConfigMap alone. -/
def Race.Elsewhere (w w' : Race key) : Prop :=
  w'.states = w.states
    ∧ w'.cluster.objects .configMap key = w.cluster.objects .configMap key
    ∧ w.cluster.nextVersion ≤ w'.cluster.nextVersion

instance (w w' : Race key) : Decidable (w.Elsewhere w') :=
  inferInstanceAs (Decidable (_ ∧ _ ∧ _))

-- ====================================================== the condition

/-- The ConfigMap that a read found, or that there is none. -/
def found {key : NamespacedName} :
    Except GoError {o : Object .configMap // o.key = key} →
      Option (Option (Object .configMap))
  | .ok o => some (some o.1)
  | .error e => if e.isNotFound then some none else none

/-- What an execution has been told by its second read of the
ConfigMap. -/
structure TwoReads where
  pods : List Pod
  first : Option (Object .configMap)
  second : Option (Object .configMap)

/-- The reply is the one to the second read of an execution that has
listed the pods and made its first. -/
def twoReads : List (Answer Api) → (r : Request) → Reply r →
    Option TwoReads
  | [⟨.get .configMap _, first⟩, ⟨.listPods _ _, .ok pods⟩],
      .get .configMap _, second => do
      let cm₁ ← found first
      let cm₂ ← found second
      pure ⟨pods, cm₁, cm₂⟩
  | _, _, _ => none

/-- The ring that an execution would derive from its second read is the
one it has derived from the first, at a version that does not
overflow. -/
def Rederives (srt : SliceSort) (given : List (Answer Api)) (r : Request)
    (x : Reply r) : Prop :=
  ∀ t ∈ twoReads given r x,
    desiredRing (computeMembers srt t.pods) (currentRing t.first)
        = desiredRing (computeMembers srt t.pods) (currentRing t.second)
      ∧ (currentRing t.second).version
        ≤ (desiredRing (computeMembers srt t.pods)
          (currentRing t.second)).version

instance (srt : SliceSort) (given : List (Answer Api)) (r : Request)
    (x : Reply r) : Decidable (Rederives srt given r x) :=
  inferInstanceAs (Decidable (∀ t ∈ twoReads given r x, _ ∧ _))

/-- The newer ring has no lower version, and the same one only with the
same members. -/
def RingAfter (newer older : Ring) : Prop :=
  older.version ≤ newer.version
    ∧ (newer.version = older.version → newer.members = older.members)

theorem RingAfter.trans {a b c : Ring} (h : RingAfter a b)
    (h' : RingAfter b c) : RingAfter a c := by
  refine ⟨Int64.le_trans h'.1 h.1, fun hac => ?_⟩
  have hcb : c.version = b.version := by
    refine Int64.le_antisymm h'.1 ?_
    rw [← hac]
    exact h.1
  exact (h.2 (hac.trans hcb)).trans (h'.2 hcb.symm)

/-- The next ring comes after the current one, unless its version
overflows. -/
theorem ringAfter_desired {members : List String} {current : Ring}
    (h : current.version ≤ (desiredRing members current).version) :
    RingAfter (desiredRing members current) current := by
  refine ⟨h, fun heq => ?_⟩
  rw [desiredRing_members]
  by_contra hne
  rw [desiredRing_version, if_neg hne] at heq
  grind

-- ====================================================== the invariant

/-- The states of the ConfigMap are told apart by their resource
versions, and the rings they hold are in order. -/
structure Race.Inv (w : Race key) : Prop where
  current : w.states.head? = some (w.cluster.objects .configMap key)
  older : ∀ o, some o ∈ w.states →
    o.1.metadata.resourceVersion < w.cluster.nextVersion
  unique : ∀ o o', some o ∈ w.states → some o' ∈ w.states →
    o.1.metadata.resourceVersion = o'.1.metadata.resourceVersion → o = o'
  newest : w.payloads.head? = (w.cluster.objects .configMap key).bind
    fun o => payload o.1.body.data
  ordered : w.payloads.Pairwise RingAfter

/-- What the others may do to the state: keep the invariant, and add
states. -/
def Race.Grows (w w' : Race key) : Prop :=
  w'.Inv ∧ w.states <:+ w'.states

section

variable {w w' : Race key} {s : Cluster}

theorem Race.Grows.refl (h : w.Inv) : w.Grows w :=
  ⟨h, List.suffix_refl _⟩

theorem Race.Grows.trans {w₁ w₂ w₃ : Race key} (h : w₁.Grows w₂)
    (h' : w₂.Grows w₃) : w₁.Grows w₃ :=
  ⟨h'.1, h.2.trans h'.2⟩

theorem Race.moved_self : w.moved w.cluster = w := by
  unfold Race.moved
  rw [if_pos rfl]

/-- A state with the same ConfigMap. -/
theorem Race.Inv.elsewhere (h : w.Inv) (he : w.Elsewhere w') :
    w.Grows w' := by
  obtain ⟨hstates, hcm, hnext⟩ := he
  have hpay : w'.payloads = w.payloads := by
    unfold Race.payloads
    rw [hstates]
  refine ⟨⟨?_, ?_, ?_, ?_, ?_⟩, by rw [hstates]⟩
  · rw [hstates, hcm]
    exact h.current
  · intro o ho
    rw [hstates] at ho
    exact (h.older o ho).trans_le hnext
  · rw [hstates]
    exact h.unique
  · rw [hpay, hcm]
    exact h.newest
  · rw [hpay]
    exact h.ordered

theorem Cluster.nextVersion_put {k : Kind} (o : Object k) :
    s.nextVersion ≤ (s.put o).nextVersion := Nat.le_succ _

theorem Cluster.nextVersion_write {k : Kind} (old o : Object k) :
    s.nextVersion ≤ (s.write old o).2.nextVersion := by
  unfold Cluster.write
  split
  · exact Nat.le_refl _
  · exact Cluster.nextVersion_put _

/-- No call goes back in resource versions. -/
theorem nextVersion_serve (r : Request) (s : Cluster) :
    s.nextVersion ≤ (api.serve r s).2.nextVersion := by
  cases r with
  | get k key => exact Nat.le_refl _
  | create k o =>
      show _ ≤ (s.serveCreate o).2.nextVersion
      unfold Cluster.serveCreate
      split
      · exact Nat.le_refl _
      · exact Cluster.nextVersion_put _
  | update k o =>
      show _ ≤ (s.serveUpdate o).2.nextVersion
      unfold Cluster.serveUpdate
      split
      · exact Nat.le_refl _
      split
      · exact Nat.le_refl _
      split
      · exact Nat.le_refl _
      · exact Cluster.nextVersion_write _ _
  | updateStatus cache =>
      show _ ≤ (s.serveUpdateStatus cache).2.nextVersion
      unfold Cluster.serveUpdateStatus
      split
      · exact Nat.le_refl _
      split
      · exact Nat.le_refl _
      · exact Cluster.nextVersion_write _ _
  | deleteNamespace name =>
      show _ ≤ (s.serveDeleteNamespace name).2.nextVersion
      unfold Cluster.serveDeleteNamespace
      split
      · exact Nat.le_refl _
      · exact Cluster.nextVersion_write _ _
  | listPods ns labels => exact Nat.le_refl _
  | updatePod p =>
      show _ ≤ (s.serveUpdatePod p).2.nextVersion
      unfold Cluster.serveUpdatePod
      split
      · exact Nat.le_refl _
      split
      · exact Nat.le_refl _
      split
      · exact Nat.le_refl _
      · exact Nat.le_succ _
  | event ns reason message => exact Nat.le_refl _

/-- What comes after the current ring comes after all of them. -/
theorem Race.Inv.after_all (h : w.Inv) {ring : Ring}
    (hafter : ∀ cm, w.cluster.objects .configMap key = some cm →
      ∀ r, payload cm.1.body.data = some r → RingAfter ring r) :
    ∀ r ∈ w.payloads, RingAfter ring r := by
  have hnewest := h.newest
  have hordered := h.ordered
  cases hpay : w.payloads with
  | nil => simp
  | cons p rest =>
      rw [hpay] at hnewest hordered
      obtain ⟨cm, hcm, hp⟩ := Option.bind_eq_some_iff.mp hnewest.symm
      have hfirst : RingAfter ring p := hafter cm hcm p hp
      refine List.forall_mem_cons.mpr ⟨hfirst, fun r hr => ?_⟩
      exact hfirst.trans ((List.pairwise_cons.mp hordered).1 r hr)

/-- A ring that comes after the current one is written. -/
theorem Race.Inv.written (h : w.Inv) {o : Object .configMap}
    (hkey : o.key = key) {ring : Ring}
    (hring : payload o.body.data = some ring)
    (hafter : ∀ cm, w.cluster.objects .configMap key = some cm →
      ∀ r, payload cm.1.body.data = some r → RingAfter ring r) :
    w.Grows (w.moved (w.cluster.put (w.cluster.stamp o))) := by
  subst hkey
  have hobj : (w.cluster.put (w.cluster.stamp o)).objects .configMap o.key
      = some ⟨w.cluster.stamp o, rfl⟩ := Cluster.put_objects_self _
  have hcur : w.cluster.objects .configMap o.key ∈ w.states :=
    List.mem_of_mem_head? (h.current ▸ rfl)
  -- the version is a new one, so the state is
  have hnew : ∀ o', some o' ∈ w.states → o'.1.metadata.resourceVersion
      < (w.cluster.stamp o).metadata.resourceVersion := h.older
  have hstates : (w.moved (w.cluster.put (w.cluster.stamp o))).states
      = some ⟨w.cluster.stamp o, rfl⟩ :: w.states := by
    unfold Race.moved
    rw [hobj, if_neg]
    intro heq
    rw [← heq] at hcur
    exact Nat.lt_irrefl _ (hnew _ hcur)
  have hpay : (w.moved (w.cluster.put (w.cluster.stamp o))).payloads
      = ring :: w.payloads := by
    unfold Race.payloads
    rw [hstates, List.filterMap_cons_some]
    exact hring
  refine ⟨⟨?_, ?_, ?_, ?_, ?_⟩, ?_⟩
  · rw [hstates]
    exact congrArg some hobj.symm
  · intro o' ho'
    rw [hstates] at ho'
    rcases List.mem_cons.mp ho' with heq | hmem
    · cases heq
      exact Nat.lt_succ_self _
    · exact (h.older o' hmem).trans (Nat.lt_succ_self _)
  · intro o₁ o₂ h₁ h₂ hrv
    rw [hstates] at h₁ h₂
    rcases List.mem_cons.mp h₁ with h₁ | h₁
    · rcases List.mem_cons.mp h₂ with h₂ | h₂
      · cases h₁
        cases h₂
        rfl
      · cases h₁
        exact absurd hrv.symm (hnew o₂ h₂).ne
    · rcases List.mem_cons.mp h₂ with h₂ | h₂
      · cases h₂
        exact absurd hrv (hnew o₁ h₁).ne
      · exact h.unique o₁ o₂ h₁ h₂ hrv
  · rw [hpay]
    show some ring = ((w.cluster.put (w.cluster.stamp o)).objects
      .configMap o.key).bind _
    rw [hobj]
    exact hring.symm
  · rw [hpay]
    exact List.pairwise_cons.mpr ⟨h.after_all hafter, h.ordered⟩
  · rw [hstates]
    exact List.suffix_cons _ _

-- ===================================================== one execution

/-- A read of the ConfigMap answers with one of its states. -/
theorem read_race (h : w.Inv) (x : RaceChoice) :
    (raceDispatch x (.get .configMap key) w).2 = w
      ∧ ∀ o, (raceDispatch x (.get .configMap key) w).1 = .ok o →
        some o ∈ w.states := by
  have hserved : ∀ o, (api.serve (.get .configMap key) w.cluster).1 = .ok o →
      some o ∈ w.states := by
    intro o ho
    cases hcm : w.cluster.objects .configMap key with
    | none =>
        rw [serve_get_none hcm] at ho
        cases ho
    | some cm =>
        rw [serve_get_some hcm] at ho
        cases ho
        exact List.mem_of_mem_head? (by rw [h.current, hcm]; rfl)
  cases x with
  | served => exact ⟨Race.moved_self, hserved⟩
  | refused => exact ⟨rfl, nofun⟩
  | lost => exact ⟨Race.moved_self, nofun⟩
  | stale n =>
      show (if h : key = key then (w.oldReply n h, w) else _).2 = w
        ∧ ∀ o, (if h : key = key then (w.oldReply n h, w) else _).1
          = .ok o → some o ∈ w.states
      rw [dif_pos rfl]
      refine ⟨rfl, fun o ho => ?_⟩
      unfold Race.oldReply at ho
      split at ho
      · next o' ho' =>
        cases ho
        exact List.mem_of_getElem? ho'
      · cases ho
      · exact hserved o ho

/-- Every other call is served, or leaves everything alone. -/
theorem dispatch_state {r : Request}
    (hr : ∀ key', r ≠ .get .configMap key') (x : RaceChoice) :
    (raceDispatch x r w).2 = w
      ∨ (raceDispatch x r w).2 = w.moved (api.serve r w.cluster).2 := by
  cases x with
  | served => exact Or.inr rfl
  | refused => exact Or.inl rfl
  | lost => exact Or.inr rfl
  | stale n =>
      refine Or.inr ?_
      cases r with
      | get k key' =>
          cases k with
          | configMap => exact absurd rfl (hr key')
          | _ => rfl
      | _ => rfl

/-- A call that writes no ConfigMap. -/
theorem spared_race {r : Request} (h : w.Inv)
    (hr : ∀ key', r ≠ .get .configMap key')
    (ht : r.target ≠ some (.object .configMap key)) (x : RaceChoice) :
    w.Grows (raceDispatch x r w).2 := by
  rcases dispatch_state hr x with heq | heq
  · rw [heq]
    exact .refl h
  · rw [heq]
    have hcm : (api.serve r w.cluster).2.objects .configMap key
        = w.cluster.objects .configMap key := serve_objects ht
    refine h.elsewhere ⟨?_, hcm, nextVersion_serve r w.cluster⟩
    unfold Race.moved
    rw [if_pos hcm]

/-- The create of a ConfigMap goes through only where there is none. -/
theorem create_race (h : w.Inv) {o : Object .configMap}
    (hkey : o.key = key) {ring : Ring}
    (hring : payload o.body.data = some ring) (x : RaceChoice) :
    w.Grows (raceDispatch x (.create .configMap o) w).2 := by
  rcases dispatch_state (r := .create .configMap o) (fun _ => nofun) x with heq | heq
  · rw [heq]
    exact .refl h
  · rw [heq]
    cases hcm : w.cluster.objects .configMap key with
    | none =>
        rw [serve_create_missing hcm hkey]
        refine h.written hkey hring fun cm hcm' => ?_
        rw [hcm] at hcm'
        cases hcm'
    | some cm =>
        have hsame : (api.serve (.create .configMap o) w.cluster).2
            = w.cluster := by
          subst hkey
          show (w.cluster.serveCreate o).2 = _
          unfold Cluster.serveCreate
          rw [hcm]
        rw [hsame, Race.moved_self]
        exact .refl h

/-- The update of a ConfigMap that was read goes through only where it is
still the stored one. -/
theorem update_race (h : w.Inv)
    {old : {o : Object .configMap // o.key = key}}
    (hold : some old ∈ w.states) {o : Object .configMap}
    (hkey : o.key = old.1.key)
    (hrv : o.metadata.resourceVersion = old.1.metadata.resourceVersion)
    (hfin : o.metadata.finalizers = old.1.metadata.finalizers)
    (hne : o ≠ old.1) {ring : Ring}
    (hring : payload o.body.data = some ring)
    (hafter : ∀ r, payload old.1.body.data = some r → RingAfter ring r)
    (x : RaceChoice) :
    w.Grows (raceDispatch x (.update .configMap o) w).2 := by
  have hkey' : o.key = key := hkey.trans old.2
  rcases dispatch_state (r := .update .configMap o) (fun _ => nofun) x with heq | heq
  · rw [heq]
    exact .refl h
  rw [heq]
  cases hcm : w.cluster.objects .configMap key with
  | none =>
      have hsame : (api.serve (.update .configMap o) w.cluster).2
          = w.cluster := by
        subst hkey'
        show (w.cluster.serveUpdate o).2 = _
        unfold Cluster.serveUpdate
        rw [hcm]
      rw [hsame, Race.moved_self]
      exact .refl h
  | some cm =>
      by_cases hrv' : o.metadata.resourceVersion
          = cm.1.metadata.resourceVersion
      · -- the resource version identifies what was read
        have hcm' : cm = old := by
          refine h.unique cm old ?_ hold (hrv'.symm.trans hrv)
          exact List.mem_of_mem_head? (by rw [h.current, hcm]; rfl)
        subst hcm'
        rw [serve_update_read (by simp) hcm hkey' hrv hfin hne]
        refine h.written hkey' hring fun cm' hcm' r hr => ?_
        rw [hcm] at hcm'
        cases hcm'
        exact hafter r hr
      · have hsame : (api.serve (.update .configMap o) w.cluster).2
            = w.cluster := by
          subst hkey'
          show (w.cluster.serveUpdate o).2 = _
          unfold Cluster.serveUpdate
          rw [hcm]
          dsimp only
          rw [if_pos hrv']
        rw [hsame, Race.moved_self]
        exact .refl h

/-- `createOrUpdate` among others: what it writes comes after what its
read, the second one of the execution, has found. -/
theorem createOrUpdate_among {srt : SliceSort}
    {mutate : Object .configMap → Except GoError (Object .configMap)}
    {ring : Ring} (hm : Keeps mutate)
    (hring : ∀ o o', mutate o = .ok o' → payload o'.body.data = some ring)
    {g : List (Answer Api)}
    (hafter : ∀ second : Reply (.get .configMap key),
      Rederives srt g (.get .configMap key) second →
      ∀ o, second = .ok o → ∀ r, payload o.1.body.data = some r →
        RingAfter ring r) :
    (createOrUpdate .configMap key mutate).Among raceDispatch
      (Rederives srt) Race.Grows (fun _ => Race.Grows)
      (fun _ _ _ => True) g w := by
  unfold createOrUpdate
  simp only [bind, pure, Prog.bind, request]
  intro w₁ hw₁ x hx
  obtain ⟨hstate, hmem⟩ := read_race hw₁.1 x
  rw [hstate]
  refine ⟨.refl hw₁.1, ?_⟩
  cases hreply : (raceDispatch x (.get .configMap key) w₁).1 with
  | error e =>
      dsimp only
      split
      · split
        · trivial
        · next o ho =>
          intro w₂ hw₂ y _
          refine ⟨create_race hw₂.1 (callMutate_ok ho).2
            (hring _ _ (callMutate_ok ho).1) y, ?_⟩
          dsimp only
          split <;> trivial
      · trivial
  | ok old =>
      rw [hreply] at hx
      dsimp only
      split
      · trivial
      · next o ho =>
        by_cases heq : o = old.1
        · rw [if_pos heq]
          trivial
        · rw [if_neg heq]
          intro w₂ hw₂ y _
          have hmut := (callMutate_ok ho).1
          obtain ⟨hkey, hrv, hfin⟩ := hm _ _ hmut
          refine ⟨update_race hw₂.1 (hw₂.2.subset (hmem old hreply)) hkey
            hrv hfin heq (hring _ _ hmut) (hafter _ hx old rfl) y, ?_⟩
          dsimp only
          split <;> trivial

end

section

variable (srt : SliceSort) (cache : DistributedCache)

theorem payload_mutateRing {ring : Ring} {o o' : Object .configMap}
    (h : mutateRingConfigMap cache ring o = .ok o') :
    payload o'.body.data = some ring := by
  obtain ⟨hbody, -⟩ := mutateOwned_ok h
  unfold payload
  rw [hbody]
  simp only [Dict.get_set_self, Option.bind_some,
    unmarshalRing_marshalRing]

/-- The write of a ring among others. -/
theorem publishRing_among {ring : Ring} {g : List (Answer Api)}
    {w : Race (ringKey cache)}
    (hafter : ∀ second : Reply (.get .configMap (ringKey cache)),
      Rederives srt g (.get .configMap (ringKey cache)) second →
      ∀ o, second = .ok o → ∀ r, payload o.1.body.data = some r →
        RingAfter ring r) :
    (publishRing cache ring).Among raceDispatch (Rederives srt)
      Race.Grows (fun _ => Race.Grows) (fun _ _ _ => True) g w := by
  have hevent : ∀ text g (w : Race (ringKey cache)),
      (request (.event cache.ns "RingPublished" text)).Among raceDispatch
        (Rederives srt) Race.Grows (fun _ => Race.Grows)
        (fun _ _ _ => True) g w := by
    intro text g w w₁ hw₁ x _
    refine ⟨spared_race hw₁.1 (fun _ h => ?_) (fun h => ?_) x, trivial⟩
    · cases h
    · cases h
  refine Prog.Among.bind (R := fun _ _ _ => True)
    ((createOrUpdate_among keeps_mutateOwned
      (fun _ _ => payload_mutateRing cache) hafter).attempt
      fun _ _ _ _ => trivial) ?_ fun _ _ _ _ => trivial
  intro g' x w' _
  cases x with
  | error e => trivial
  | ok op =>
      cases op with
      | none => trivial
      | created => exact hevent _ _ _
      | updated => exact hevent _ _ _

/-- The listing among others: it is told the pods, and no more. -/
theorem listPods_among {what : String} {w : Race (ringKey cache)} :
    (listPods cache what).Among raceDispatch (Rederives srt) Race.Grows
      (fun _ => Race.Grows) (fun g res _ => ∀ pods, res = .ok pods →
        ∃ ns labels, g = [⟨.listPods ns labels, .ok pods⟩]) [] w := by
  unfold listPods
  simp only [bind, pure, Prog.bind, request]
  intro w₁ hw₁ x _
  refine ⟨spared_race hw₁.1 (fun _ h => ?_) (fun h => ?_) x, ?_⟩
  · cases h
  · cases h
  cases (raceDispatch x (.listPods (targetNamespace cache)
    (podLabels cache)) w₁).1 with
  | error e =>
      intro pods h
      cases h
  | ok ps =>
      intro pods h
      cases h
      exact ⟨_, _, rfl⟩

/-- The first read among others: what it returns is what it was told. -/
theorem getRingConfigMap_among {g : List (Answer Api)}
    {w : Race (ringKey cache)} :
    (getRingConfigMap cache).Among raceDispatch (Rederives srt) Race.Grows
      (fun _ => Race.Grows) (fun g' res _ => ∀ cm, res = .ok cm →
        ∃ first : Reply (.get .configMap (ringKey cache)),
          found first = some cm
            ∧ g' = ⟨.get .configMap (ringKey cache), first⟩ :: g) g w := by
  unfold getRingConfigMap
  simp only [bind, pure, Prog.bind, request]
  intro w₁ hw₁ x _
  rw [(read_race hw₁.1 x).1]
  refine ⟨.refl hw₁.1, ?_⟩
  cases (raceDispatch x (.get .configMap (ringKey cache)) w₁).1 with
  | error e =>
      dsimp only
      by_cases he : e.isNotFound = true
      · rw [if_pos he]
        intro cm h
        cases h
        exact ⟨.error e, if_pos he, rfl⟩
      · rw [if_neg he]
        intro cm h
        cases h
  | ok o =>
      intro cm h
      cases h
      exact ⟨.ok o, rfl, rfl⟩

/-- `reconcileRing` among others: whenever the second read confirms the
ring it has derived, the payloads stay in order. -/
theorem reconcileRing_among (w : Race (ringKey cache)) :
    (reconcileRing srt cache).Among raceDispatch (Rederives srt)
      Race.Grows (fun _ => Race.Grows) (fun _ _ _ => True) [] w := by
  unfold reconcileRing
  refine Prog.Among.bind (listPods_among srt cache) ?_
    fun _ _ _ _ => trivial
  intro g pods w₁ hg
  obtain ⟨ns, labels, rfl⟩ := hg pods rfl
  refine Prog.Among.bind (getRingConfigMap_among srt cache) ?_
    fun _ _ _ _ => trivial
  intro g cm w₂ hg
  obtain ⟨first, hfirst, rfl⟩ := hg cm rfl
  dsimp only
  split
  · trivial
  refine Prog.Among.bind (publishRing_among srt cache ?_)
    (fun _ _ _ _ => trivial) fun _ _ _ _ => trivial
  intro second hred o hsecond r hr
  obtain ⟨heq, hle⟩ := hred ⟨pods, cm, some o.1⟩ (by
    show (do
      let cm₁ ← found first
      let cm₂ ← found second
      pure (⟨pods, cm₁, cm₂⟩ : TwoReads)) = _
    rw [hfirst, hsecond]
    rfl)
  dsimp only at heq hle
  have hcur : currentRing (some o.1) = r := by
    unfold currentRing dataOf
    dsimp only
    rw [hr]
    rfl
  rw [heq]
  rw [hcur] at hle ⊢
  exact ringAfter_desired hle

end

-- ========================================================= every race

/-- Executions of `reconcileRing` that have not started yet. -/
def ringCrew (srt : SliceSort) (key : NamespacedName)
    (caches : Nat → DistributedCache) (s : Cluster) :
    Crew Api (Race key) GoError Ring :=
  ⟨fun i => ⟨reconcileRing srt (caches i), []⟩,
    ⟨s, [s.objects .configMap key]⟩⟩

theorem Race.Inv.start {s : Cluster}
    (h : ∀ cm, s.objects .configMap key = some cm →
      cm.1.metadata.resourceVersion < s.nextVersion) :
    (⟨s, [s.objects .configMap key]⟩ : Race key).Inv where
  current := rfl
  older := by
    intro o ho
    exact h o (List.mem_singleton.mp ho).symm
  unique := by
    intro o o' ho ho' _
    rw [List.mem_singleton] at ho ho'
    rw [← ho'] at ho
    exact Option.some.inj ho
  newest := by
    unfold Race.payloads
    cases s.objects .configMap key with
    | none => rfl
    | some cm =>
        rw [List.filterMap_cons]
        cases hp : payload cm.1.body.data with
        | none => simp [hp]
        | some r => simp [hp]
  ordered := by
    unfold Race.payloads
    rw [List.filterMap_cons]
    split <;> simp

/-- Whatever the interleaving of any number of `reconcileRing`
executions, as long as the second read of each confirms what it derived
from the first, the stored versions never decrease and tell the members
apart. -/
theorem ring_versions_in_order (srt : SliceSort) (key : NamespacedName)
    (caches : Nat → DistributedCache)
    (hkey : ∀ i, ringKey (caches i) = key) (s : Cluster)
    (hrv : ∀ cm, s.objects .configMap key = some cm →
      cm.1.metadata.resourceVersion < s.nextVersion)
    (c : Crew Api (Race key) GoError Ring)
    (hrun : Run (Crew.step raceDispatch)
      (Crew.Allows raceDispatch (Rederives srt) Race.Elsewhere)
      (ringCrew srt key caches s) c) :
    c.state.payloads.Pairwise RingAfter := by
  have hstart : (ringCrew srt key caches s).state.Inv := .start hrv
  have hamong : (ringCrew srt key caches s).AllAmong raceDispatch
      (Rederives srt) Race.Grows fun _ _ => Race.Grows := by
    intro i
    have hi := hkey i
    subst hi
    exact reconcileRing_among srt (caches i) _
  obtain ⟨-, hgrows⟩ := Crew.among_of_run
    (fun _ _ h => Race.Grows.refl h.1)
    (fun _ _ _ h h' => Race.Grows.trans h h') (fun _ _ _ _ h => h)
    (fun _ _ h he => Race.Inv.elsewhere h.1 he) (Race.Grows.refl hstart)
    hamong hrun
  exact hgrows.1.ordered

-- ==================================================== a small cluster

/-- Version 1 of the ring has both pods; only one of them is ready
now. -/
def ordersHalf (ready : Bool) : Cluster :=
  (ordersCluster 2 2 (ordersPods (ready, none) (!ready, none))).put
    (ordersConfigMap (Dict.empty.set "ring.json"
      (marshalRing ⟨1, ["orders-cache-0", "orders-cache-1"]⟩)))

/-- Executions of `reconcileRing` while the first pod is ready. -/
def ordersCrew :
    Crew Api (Race (ringKey (ordersCache 2))) GoError Ring :=
  ringCrew .insertionSort (ringKey (ordersCache 2))
    (fun _ => ordersCache 2) (ordersHalf true)

/-- The crew after some turns. -/
def ordersTurns
    (turns : List (Turn (Race (ringKey (ordersCache 2))) RaceChoice)) :
    Crew Api (Race (ringKey (ordersCache 2))) GoError Ring :=
  turns.foldl (Crew.step raceDispatch) ordersCrew

/-- Two executions take turns: both have read version 1 when the first one
publishes version 2, and the second one finds that at its second read. -/
def takingTurns : List (Turn (Race (ringKey (ordersCache 2))) RaceChoice) :=
  [.call 0 .served, .call 1 .served, .call 0 .served, .call 1 .served,
    .call 0 .served, .call 0 .served, .call 1 .served, .call 1 .served]

theorem ring_versions_in_order_orders :
    (ordersTurns takingTurns).state.payloads
        = [⟨2, ["orders-cache-0"]⟩, ⟨1, ["orders-cache-0", "orders-cache-1"]⟩]
      ∧ (ordersTurns takingTurns).state.payloads.Pairwise RingAfter := by
  have hmeets : Meets (Crew.step raceDispatch)
      (Crew.Allows raceDispatch (Rederives .insertionSort) Race.Elsewhere)
      ordersCrew takingTurns := by
    decide +kernel
  exact ⟨by decide +kernel, ring_versions_in_order .insertionSort
    (ringKey (ordersCache 2)) (fun _ => ordersCache 2) (fun _ => rfl)
    (ordersHalf true) (by decide +kernel) _ (Run.extend .nil hmeets)⟩

/-- One execution lists the pods and makes its first read; the other pod
gets ready and another execution publishes it as version 2; the first
execution goes on to its second read and its write. -/
def ordersRace : List (Turn (Race (ringKey (ordersCache 2))) RaceChoice) :=
  [.call 0 .served, .call 0 .served,
    .other ⟨ordersHalf false,
      [(ordersHalf false).objects .configMap (ringKey (ordersCache 2))]⟩,
    .call 1 .served, .call 1 .served, .call 1 .served, .call 1 .served,
    .call 0 .served, .call 0 .served]

/-- The loser of the race does not derive its version again: version 2 is
stored twice, with different members. -/
theorem raced_version_is_reused :
    Run (Crew.step raceDispatch)
        (Crew.Allows raceDispatch (fun _ _ _ => True) Race.Elsewhere)
        ordersCrew (ordersTurns ordersRace)
      ∧ (ordersTurns ordersRace).state.payloads
        = [⟨2, ["orders-cache-0"]⟩, ⟨2, ["orders-cache-1"]⟩,
          ⟨1, ["orders-cache-0", "orders-cache-1"]⟩]
      ∧ ¬(ordersTurns ordersRace).state.payloads.Pairwise RingAfter := by
  have hmeets : Meets (Crew.step raceDispatch)
      (Crew.Allows raceDispatch (fun _ _ _ => True) Race.Elsewhere)
      ordersCrew ordersRace := by
    decide +kernel
  have hpay : (ordersTurns ordersRace).state.payloads
      = [⟨2, ["orders-cache-0"]⟩, ⟨2, ["orders-cache-1"]⟩,
        ⟨1, ["orders-cache-0", "orders-cache-1"]⟩] := by
    decide +kernel
  refine ⟨Run.extend .nil hmeets, hpay, ?_⟩
  rw [hpay]
  intro h
  have hafter := (List.pairwise_cons.mp h).1 _ List.mem_cons_self
  exact absurd (hafter.2 rfl) (by decide)

end CacheOperator
