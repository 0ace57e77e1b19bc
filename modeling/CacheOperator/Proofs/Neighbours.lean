/-
Two isolated caches side by side.

Every call of a Reconcile of an isolated cache writes in the cell named
after the cache, or in the namespace the cache itself is in
(`Request.Within`). A cell is named after the cache's name alone, and
nothing reads the label that says whose it is: two caches of one name in
two namespaces have the same cell, and the deletion of one of them tears
down the namespace that the other one is using.

The Reconciles are programs side by side (`Lib/Interleave.lean`), any
number of them for each cache, that take turns call by call; in between
anything may happen to the cluster that leaves both caches isolated.
-/
import CacheOperator.Lib.Interleave
import CacheOperator.Proofs.Cells
import CacheOperator.Proofs.Object

namespace CacheOperator

open Lib

-- ================================================= what is in a namespace

/-- The namespace a stored thing is in; a namespace is in itself. -/
def Target.home : Target → String
  | .object .ns key => key.name
  | .object _ key => key.ns
  | .pod key => key.ns

/-- The namespace a call writes in. An event is an object as well. -/
def Request.home : Request → Option String
  | .event ns _ _ => some ns
  | r => r.target.map Target.home

/-- Nothing in the namespace, nor itself, has changed. -/
structure Cluster.SameIn (ns : String) (s s' : Cluster) : Prop where
  objects : ∀ k key, (Target.object k key).home = ns →
    s'.objects k key = s.objects k key
  pods : ∀ key : NamespacedName, key.ns = ns →
    s'.pods.find? key = s.pods.find? key

theorem PodSet.find?_replace_of_ne {ps : PodSet} {p : Pod}
    {key : NamespacedName} (h : p.key ≠ key) :
    (ps.replace p).find? key = ps.find? key := by
  unfold PodSet.find? PodSet.replace
  dsimp only
  induction ps.items with
  | nil => rfl
  | cons q qs ih =>
    rw [List.map_cons, List.find?_cons, List.find?_cons, ih]
    by_cases hq : q.key = p.key
    · rw [if_pos hq, hq]
      simp [h]
    · rw [if_neg hq]

/-- A call changes nothing in another namespace. -/
theorem serve_sameIn {ns : String} {r : Request} (s : Cluster)
    (h : r.home ≠ some ns) : s.SameIn ns (api.serve r s).2 where
  objects := by
    intro k key hhome
    apply serve_objects
    intro htarget
    apply h
    cases r with
    | event n reason text => cases htarget
    | _ => simp only [Request.home, htarget, Option.map_some, hhome]
  pods := by
    intro key hns
    cases r with
    | updatePod p =>
      have hne : p.key ≠ key := by
        intro hkey
        apply h
        rw [← hns, ← hkey]
        rfl
      show (s.serveUpdatePod p).2.pods.find? key = _
      unfold Cluster.serveUpdatePod
      split
      · rfl
      split
      · rfl
      split
      · rfl
      · exact PodSet.find?_replace_of_ne hne
    | _ => rw [serve_pods (by simp [Request.target])]

theorem Cluster.SameIn.refl {ns : String} (s : Cluster) : s.SameIn ns s :=
  ⟨fun _ _ _ => rfl, fun _ _ => rfl⟩

-- ======================================================== the two caches

/-- Both caches, where they are there, are isolated. -/
def BothIsolated (a b : NamespacedName) (s : Cluster) : Prop :=
  ∀ key ∈ [a, b], ∀ o ∈ s.objects .distributedCache key,
    isolated o.1 = true

instance (a b : NamespacedName) (s : Cluster) :
    Decidable (BothIsolated a b s) :=
  inferInstanceAs (Decidable (∀ key ∈ [a, b], ∀ o ∈ _, _))

/-- The calls of a Reconcile of an isolated cache. -/
def Request.Within (key : NamespacedName) : Request → Prop
  | .get _ _ => True
  | .listPods _ _ => True
  | .create k o => k ≠ .distributedCache
      ∧ (Target.object k o.key).home = cellNamespace key
  | .update .distributedCache o => o.key = key ∧ isolated o = true
  | .update k o => (Target.object k o.key).home = cellNamespace key
  | .updateStatus c => c.key = key
  | .deleteNamespace name => name = cellNamespace key
  | .updatePod p => p.metadata.ns = cellNamespace key
  | .event ns _ _ => ns = key.ns

/-- Where such a call writes. -/
theorem Request.Within.home {key : NamespacedName} {r : Request}
    {ns : String} (h : r.Within key) (hns : r.home = some ns) :
    ns = cellNamespace key ∨ ns = key.ns := by
  cases r with
  | get k key' => cases hns
  | listPods n labels => cases hns
  | create k o => exact Or.inl ((Option.some.inj hns).symm.trans h.2)
  | update k o =>
    cases k with
    | distributedCache =>
      right
      rw [← Option.some.inj hns, ← h.1]
      rfl
    | _ => exact Or.inl ((Option.some.inj hns).symm.trans h)
  | updateStatus c =>
    right
    rw [← Option.some.inj hns, ← h]
    rfl
  | deleteNamespace name => exact Or.inl ((Option.some.inj hns).symm.trans h)
  | updatePod p => exact Or.inl ((Option.some.inj hns).symm.trans h)
  | event n reason text => exact Or.inr ((Option.some.inj hns).symm.trans h)

/-- Such a call leaves both caches isolated. -/
theorem BothIsolated.serve {a b key : NamespacedName} {s : Cluster}
    {r : Request} (hs : BothIsolated a b s) (h : r.Within key) :
    BothIsolated a b (api.serve r s).2 := by
  intro key' hkey' o ho
  by_cases hsame : (api.serve r s).2.objects .distributedCache key'
      = s.objects .distributedCache key'
  · rw [hsame] at ho
    exact hs key' hkey' o ho
  -- the call writes a cache: its status, or its finalizers
  · cases r with
    | updateStatus c =>
      obtain hsm | ⟨old, new, hold, hnew, hcase⟩ :=
        serve_updateStatus s c key'
      · exact absurd hsm hsame
      · have hspec : o.1.body.spec = old.1.body.spec := by
          rw [hnew] at ho
          cases ho
          obtain hcase | hcase := hcase
          · rw [hcase]
            rfl
          · rw [hcase]
            rfl
        rw [isolated_congr hspec]
        exact hs key' hkey' old hold
    | update k c =>
      cases k with
      | distributedCache =>
        obtain hsm | ⟨hnone, -⟩ | ⟨new, hnew, -, hspec⟩ :=
          serve_update_cache s key' c
        · exact absurd hsm hsame
        · rw [hnone] at ho
          cases ho
        · rw [hnew] at ho
          cases ho
          rw [isolated_congr hspec]
          exact h.2
      | _ => exact absurd (serve_objects (by simp [Request.target])) hsame
    | create k c =>
      refine absurd (serve_objects fun ht => ?_) hsame
      injection ht with ht
      injection ht with hk
      exact h.1 hk
    | _ => exact absurd (serve_objects (by simp [Request.target])) hsame

-- ===================================================== taking turns

/-- What befalls a call. A Reconcile that crashes takes no more turns. -/
inductive Fate where
  | served
  | refused
  | lost
deriving DecidableEq

def fateDispatch : Dispatch Api Cluster Fate
  | .served, r, s => api.serve r s
  | .refused, r, s => (api.refuse r, s)
  | .lost, r, s => (api.refuse r, (api.serve r s).2)

theorem fateDispatch_state (x : Fate) (r : Request) (s : Cluster) :
    (fateDispatch x r s).2 = s
      ∨ (fateDispatch x r s).2 = (api.serve r s).2 := by
  cases x with
  | served => exact Or.inr rfl
  | refused => exact Or.inl rfl
  | lost => exact Or.inr rfl

section

variable {a b key : NamespacedName} {srt : SliceSort} {now : Time}
  {cache : DistributedCache} {guar : Request → Cluster → Cluster → Prop}
  {g : List (Answer Api)} {s : Cluster}

/-- What a piece of a Reconcile guarantees beside the others, which leave
both caches isolated. -/
abbrev Beside {α : Type} (a b : NamespacedName)
    (guar : Request → Cluster → Cluster → Prop)
    (Q : List (Answer Api) → Except GoError α → Cluster → Prop)
    (p : Op α) (g : List (Answer Api)) (s : Cluster) : Prop :=
  p.Among fateDispatch (fun _ _ _ => True) (fun _ s' => BothIsolated a b s')
    guar Q g s

/-- The guarantee covers the calls of a cache. -/
def Covered (a b key : NamespacedName)
    (guar : Request → Cluster → Cluster → Prop) : Prop :=
  ∀ r s x, r.Within key → BothIsolated a b s →
    guar r s (fateDispatch x r s).2

theorem Covered.of_uses {α : Type} {p : Op α} (h : Covered a b key guar)
    (hp : p.Uses (Request.Within key)) :
    Beside a b guar (fun _ _ _ => True) p g s :=
  Prog.Among.of_uses hp fun r _ s₁ x hr hs₁ => h r s₁ x hr hs₁

theorem targetNamespace_of_isolated (hkey : cache.key = key)
    (hiso : isolated cache = true) :
    targetNamespace cache = cellNamespace key := by
  unfold targetNamespace cellNamespace
  rw [if_pos hiso, ← hkey]
  rfl

theorem Request.OfObject.within {k : Kind} {key' : NamespacedName}
    {r : Request} (h : r.OfObject cache k key') (hkey : cache.key = key)
    (hk : k ≠ .distributedCache)
    (hhome : (Target.object k key').home = cellNamespace key) :
    r.Within key := by
  cases h with
  | get => trivial
  | create o ho =>
    rw [← ho] at hhome
    exact ⟨hk, hhome⟩
  | update o ho =>
    rw [← ho] at hhome
    cases k with
    | distributedCache => exact absurd rfl hk
    | _ => exact hhome
  | event reason text => exact congrArg NamespacedName.ns hkey

theorem Owned.home {k : Kind} {key' : NamespacedName}
    (h : Owned cache k key') :
    (Target.object k key').home = targetNamespace cache := by
  cases h <;> rfl

theorem Owned.within {k : Kind} {key' : NamespacedName} {r : Request}
    (hkey : cache.key = key) (hiso : isolated cache = true)
    (howned : Owned cache k key') (h : r.OfObject cache k key') :
    r.Within key :=
  h.within hkey howned.ne_cache
    (howned.home.trans (targetNamespace_of_isolated hkey hiso))

-- ======================================================== the phases

theorem listPods_beside {what : String} (hguar : Covered a b key guar) :
    Beside a b guar (fun _ res _ => ∀ pods, res = .ok pods →
      ∀ p ∈ pods, p.metadata.ns = targetNamespace cache)
      (listPods cache what) g s := by
  unfold listPods
  simp only [bind, pure, Prog.bind, request]
  intro s₁ hs₁ x _
  refine ⟨hguar _ s₁ x trivial hs₁, ?_⟩
  cases hx : (fateDispatch x (.listPods (targetNamespace cache)
      (podLabels cache)) s₁).1 with
  | error e =>
    intro pods h
    cases h
  | ok ps =>
    intro pods h p hp
    cases h
    cases x with
    | served =>
      have hps : s₁.podsIn (targetNamespace cache) (podLabels cache) = ps :=
        Except.ok.inj hx
      rw [← hps] at hp
      have hmem := (List.mem_filter.mp hp).2
      simp only [Bool.and_eq_true, beq_iff_eq] at hmem
      exact hmem.1
    | refused => cases hx
    | lost => cases hx

theorem drainScaleDown_beside (hguar : Covered a b key guar)
    (hkey : cache.key = key) (hiso : isolated cache = true) :
    Beside a b guar (fun _ _ _ => True) (drainScaleDown now cache) g s := by
  unfold drainScaleDown
  simp only [bind, pure, Prog.bind, request]
  intro s₁ hs₁ x _
  refine ⟨hguar _ s₁ x trivial hs₁, ?_⟩
  cases (fateDispatch x (.get .statefulSet (statefulSetKey cache)) s₁).1 with
  | error e =>
    dsimp only
    split <;> trivial
  | ok sts =>
    dsimp only
    split
    · trivial
    · refine Prog.Among.bind (listPods_beside hguar)
        (fun _ ps _ hps => ?_) fun _ _ _ _ => trivial
      refine hguar.of_uses (drainScaleDownLoop_uses ps true ?_ ?_)
      · intro p hp
        show p.metadata.ns = cellNamespace key
        rw [← targetNamespace_of_isolated hkey hiso]
        exact hps ps rfl p hp
      · intro reason text
        exact congrArg NamespacedName.ns hkey

theorem orDegrade_beside {α : Type} {p : Op α} {reason : Reason}
    {text : String} (hguar : Covered a b key guar) (hkey : cache.key = key)
    (hp : Beside a b guar (fun _ _ _ => True) p g s) :
    Beside a b guar (fun _ _ _ => True)
      (orDegrade now cache reason text p) g s := by
  refine Prog.Among.bind (Prog.Among.attempt hp fun _ _ _ _ => trivial)
    (R := fun _ _ _ => True) (fun _ x _ _ => ?_) fun _ _ _ _ => trivial
  cases x with
  | ok a => trivial
  | error e => exact hguar.of_uses ⟨hkey, fun _ => trivial⟩

theorem reconcileLive_beside (hguar : Covered a b key guar)
    (hkey : cache.key = key) (hiso : isolated cache = true) :
    Beside a b guar (fun _ _ _ => True) (reconcileLive srt now cache) g s := by
  have hobj : ∀ k key' (r : Request), Owned cache k key' →
      r.OfObject cache k key' → r.Within key :=
    fun _ _ _ h => h.within hkey hiso
  -- a phase, and what comes after it whatever it returned
  have hphase : ∀ {α β : Type} {p : Op α} {f : α → Op β} {reason text g s},
      (∀ g s, Beside a b guar (fun _ _ _ => True) p g s) →
      (∀ x g s, Beside a b guar (fun _ _ _ => True) (f x) g s) →
      Beside a b guar (fun _ _ _ => True)
        (orDegrade now cache reason text p >>= f) g s := by
    intro α β p f reason text g s hp hf
    exact Prog.Among.bind (orDegrade_beside hguar hkey (hp g s))
      (fun _ x _ _ => hf x _ _) fun _ _ _ _ => trivial
  refine Prog.Among.bind (R := fun _ _ _ => True) ?_ (fun _ _ _ _ => ?_)
    fun _ _ _ _ => trivial
  · refine hphase (fun _ _ => hguar.of_uses (reconcileCell_uses
      fun k key' r h _ _ => hobj k key' r h)) fun _ _ _ => ?_
    refine hphase (fun _ _ => hguar.of_uses (reconcileServiceTwice_uses
      (hobj _ _ · .service))) fun _ _ _ => ?_
    refine hphase (fun _ _ => drainScaleDown_beside hguar hkey hiso)
      fun _ _ _ => ?_
    refine hphase (fun _ _ => hguar.of_uses (reconcileObject_uses
      (hobj _ _ · .statefulSet))) fun _ _ _ => ?_
    exact hphase (fun _ _ => hguar.of_uses (reconcileRing_uses trivial
      (hobj _ _ · .ring))) fun _ _ _ => trivial
  · exact hguar.of_uses (finish_uses fun c hc => hc.trans hkey)

theorem reconcileDeletion_beside (hguar : Covered a b key guar)
    (hkey : cache.key = key) (hiso : isolated cache = true) :
    Beside a b guar (fun _ _ _ => True)
      (reconcileDeletion srt now cache) g s := by
  have htarget := targetNamespace_of_isolated hkey hiso
  have hevent : ∀ reason text,
      (Request.event cache.ns reason text).Within key :=
    fun _ _ => congrArg NamespacedName.ns hkey
  have htear : (tearDown cache).Uses (Request.Within key) :=
    tearDown_uses trivial (fun _ => htarget) ⟨hkey, hiso⟩ hevent
  unfold reconcileDeletion
  split
  · trivial
  · refine Prog.Among.bind (listPods_beside hguar) (fun _ ps _ hps => ?_)
      fun _ _ _ _ => trivial
    refine hguar.of_uses (Prog.Uses.bind
      (reconcileDeletionLoop_uses ps true fun p hp _ => ?_) fun b => ?_)
    · show p.metadata.ns = cellNamespace key
      rw [← htarget]
      exact hps ps rfl p hp
    · refine Prog.Uses.bind (reconcileRing_uses trivial
        fun r h => Owned.within hkey hiso .ring h).attempt fun _ => ?_
      split
      · trivial
      · exact htear

/-- Whatever happens in between, a Reconcile of an isolated cache makes no
other calls. -/
theorem reconcile_beside (hguar : Covered a b key guar)
    (hkey : key ∈ [a, b]) :
    Beside a b guar (fun _ _ _ => True) (reconcile srt now key) g s := by
  unfold reconcile
  simp only [bind, pure, Prog.bind, request]
  intro s₁ hs₁ x _
  refine ⟨hguar _ s₁ x trivial hs₁, ?_⟩
  cases hx : (fateDispatch x (.get .distributedCache key) s₁).1 with
  | error e =>
    dsimp only
    split <;> trivial
  | ok stored =>
    have hiso : isolated stored.1 = true := by
      cases x with
      | served =>
        refine hs₁ key hkey stored ?_
        replace hx : s₁.serveGet .distributedCache key = .ok stored := hx
        unfold Cluster.serveGet at hx
        split at hx
        · cases hx
        · next o ho =>
          rw [ho, Except.ok.inj hx]
          rfl
      | refused => cases hx
      | lost => cases hx
    dsimp only
    split
    · exact reconcileDeletion_beside hguar stored.2 hiso
    split
    · exact hguar.of_uses (holdCache_uses ⟨stored.2, hiso⟩)
    · exact reconcileLive_beside hguar stored.2 hiso

end

-- ======================================================= side by side

/-- Reconciles of caches that have not started yet. -/
def tenantCrew (srt : SliceSort) (nows : Nat → Time)
    (keys : Nat → NamespacedName) (s : Cluster) :
    Crew Api Cluster GoError ReconcileResult :=
  ⟨fun i => ⟨reconcile srt (nows i) (keys i), []⟩, s⟩

/-- Turns of the Reconciles, and changes that leave both caches
isolated. -/
abbrev TenantRun (a b : NamespacedName) :
    Crew Api Cluster GoError ReconcileResult →
      Crew Api Cluster GoError ReconcileResult → Prop :=
  Run (Crew.step fateDispatch)
    (Crew.Allows fateDispatch (fun _ _ _ => True)
      fun _ s' => BothIsolated a b s')

/-- No Reconcile of `a`, however it takes turns with those of `b`, writes
in the cell of `b`. -/
def KeepsOut (srt : SliceSort) (a b : NamespacedName) : Prop :=
  ∀ nows keys s c, (∀ i, keys i ∈ [a, b]) → BothIsolated a b s →
    TenantRun a b (tenantCrew srt nows keys s) c →
    ∀ i r k, keys i = a → (c.procs i).rest = .call r k →
      r.home ≠ some (cellNamespace b)
        ∧ ∀ x, c.state.SameIn (cellNamespace b)
          (fateDispatch x r c.state).2

section

variable {a b : NamespacedName} {srt : SliceSort}

theorem cellNamespace_injective (h : cellNamespace a = cellNamespace b) :
    a.name = b.name := by
  have hl := congrArg String.toList h
  unfold cellNamespace at hl
  rw [String.toList_append, String.toList_append] at hl
  exact String.toList_inj.mp (List.append_cancel_left hl)

theorem keepsOut_of_apart (hname : a.name ≠ b.name)
    (hns : a.ns ≠ cellNamespace b) : KeepsOut srt a b := by
  intro nows keys s c hkeys hs hrun
  let guar : Nat → Request → Cluster → Cluster → Prop := fun i r s s' =>
    BothIsolated a b s' ∧ (keys i = a → r.home ≠ some (cellNamespace b)
      ∧ s.SameIn (cellNamespace b) s')
  have hcovered : ∀ i, Covered a b (keys i) (guar i) := by
    intro i r s₁ x hr hs₁
    have hhome : keys i = a → r.home ≠ some (cellNamespace b) := by
      intro hi hr'
      obtain hcell | hown := hr.home hr'
      · rw [hi] at hcell
        exact hname (cellNamespace_injective hcell.symm)
      · rw [hi] at hown
        exact hns hown.symm
    obtain hstate | hstate := fateDispatch_state x r s₁
    · rw [hstate]
      exact ⟨hs₁, fun hi => ⟨hhome hi, .refl s₁⟩⟩
    · rw [hstate]
      exact ⟨hs₁.serve hr, fun hi => ⟨hhome hi, serve_sameIn s₁ (hhome hi)⟩⟩
  have hamong : (tenantCrew srt nows keys s).AllAmong fateDispatch
      (fun _ _ _ => True) (fun _ s' => BothIsolated a b s') guar :=
    fun i => reconcile_beside (hcovered i) (hkeys i)
  obtain ⟨hall, hboth⟩ := Crew.among_of_run (fun _ _ h => h)
    (fun _ _ _ _ h => h) (fun _ _ _ _ h => h.1) (fun _ _ _ h => h) hs hamong
    hrun
  intro i r k hi hrest
  have hcall := hall i
  rw [hrest] at hcall
  refine ⟨((hcall _ hboth .served trivial).1.2 hi).1, fun x => ?_⟩
  exact ((hcall _ hboth x trivial).1.2 hi).2

-- =================================================== one cell for two

/-- An isolated cache under that key. -/
def tenantOf (key : NamespacedName) (deleting : Bool)
    (finalizers : List String) : DistributedCache :=
  { metadata := { ns := key.ns, name := key.name, deleting, finalizers }
    body :=
      { spec := ⟨some 1, "tiny-cache", ⟨64⟩, ⟨30⟩, some ⟨true⟩⟩
        status := Kind.distributedCache.zero.status } }

/-- A pod of that cache. -/
def tenantPod (key : NamespacedName) : Pod :=
  { metadata :=
      { ns := cellNamespace key, name := key.name ++ "-0"
        labels := podLabels (tenantOf key true []) }
    phase := .running
    conditions := [] }

/-- The cache and its pod. -/
def tenantCluster (cache : DistributedCache) : Cluster :=
  { Cluster.empty.put cache with
    pods := ⟨[tenantPod cache.key], List.nodup_singleton _⟩ }

theorem tenantCluster_stored (cache : DistributedCache) :
    (tenantCluster cache).objects .distributedCache cache.key
      = some ⟨cache, rfl⟩ :=
  Cluster.put_objects_self cache

theorem tenantPod_matches (key : NamespacedName) (deleting : Bool)
    (finalizers : List String) :
    matchesLabels (podLabels (tenantOf key deleting finalizers))
      (tenantPod key) = true := by
  have hentries : (podLabels (tenantOf key deleting finalizers)).entries
      = [(labelName, appName), (labelInstance, key.name)] := by
    simp [podLabels, Dict.set, Dict.empty, Dict.setEntries, labelName,
      labelInstance]
    rfl
  unfold matchesLabels
  rw [hentries]
  have hlabels : (tenantPod key).metadata.labels
      = (Dict.empty.set labelName appName).set labelInstance key.name :=
    rfl
  rw [hlabels, List.all_cons, List.all_cons, Dict.get_set_self,
    Dict.get_set_of_ne _ _ (by decide), Dict.get_set_self]
  simp

theorem tenantCluster_podsIn (key : NamespacedName) (deleting : Bool)
    (finalizers : List String) :
    (tenantCluster (tenantOf key deleting finalizers)).podsIn
        (cellNamespace key)
        (podLabels (tenantOf key deleting finalizers))
      = [tenantPod key] := by
  refine List.filter_eq_self.mpr fun p hp => ?_
  rw [List.mem_singleton.mp hp, Bool.and_eq_true]
  exact ⟨beq_self_eq_true _, tenantPod_matches key deleting finalizers⟩

theorem tenantCluster_isolated {cache : DistributedCache}
    (h : isolated cache = true) :
    BothIsolated a b (tenantCluster cache) := by
  intro key _ o ho
  have hput : (Cluster.empty.put cache).objects .distributedCache key
      = some o := ho
  by_cases hkey : key = cache.key
  · subst hkey
    rw [Cluster.put_objects_self] at hput
    rw [← Option.some.inj hput]
    exact h
  · rw [Cluster.put_objects_of_ne] at hput
    · cases hput
    · intro heq
      injection heq with _ heq
      exact hkey heq.symm

/-- A Reconcile alone that has read its cache. -/
theorem tenantRun_read (srt : SliceSort) (b : NamespacedName)
    {cache : DistributedCache} (hkey : cache.key = a) :
    ∃ c, TenantRun a b (tenantCrew srt (fun _ => Time.ofUnix 0)
        (fun _ => a) (tenantCluster cache)) c
      ∧ c.state = tenantCluster cache
      ∧ (c.procs 0).rest = (if cache.metadata.deleting then
          reconcileDeletion srt (Time.ofUnix 0) cache
        else if drainFinalizer ∉ cache.metadata.finalizers then
          holdCache cache
        else reconcileLive srt (Time.ofUnix 0) cache) := by
  subst hkey
  let c₀ := tenantCrew srt (fun _ => Time.ofUnix 0) (fun _ => cache.key)
    (tenantCluster cache)
  obtain ⟨hrest, hstate⟩ := Crew.step_call (D := fateDispatch)
    (c := c₀) (i := 0) (x := .served) rfl
  refine ⟨c₀.step fateDispatch (.call 0 .served), ?_, hstate, ?_⟩
  · exact Run.nil.snoc _ Crew.allows_call
  · have hget : (fateDispatch .served (.get .distributedCache cache.key)
        c₀.state).1 = .ok ⟨cache, rfl⟩ :=
      congrArg Prod.fst (serve_get_some (tenantCluster_stored cache))
    dsimp only at hrest
    rw [hrest, hget]
    rfl

/-- A Reconcile that deletes one of two caches with one name starts to
drain the pods of the other. -/
theorem not_keepsOut_of_name (h : a.name = b.name) : ¬KeepsOut srt a b := by
  intro hout
  let cache := tenantOf a true [drainFinalizer]
  have hcell : cellNamespace a = cellNamespace b := by
    unfold cellNamespace
    rw [h]
  obtain ⟨c, hrun, hstate, hrest⟩ :=
    tenantRun_read (a := a) srt b (show cache.key = a from rfl)
  have hdel : (c.procs 0).rest
      = reconcileDeletion srt (Time.ofUnix 0) cache := hrest
  unfold reconcileDeletion at hdel
  rw [if_neg (by simp [cache, tenantOf])] at hdel
  obtain ⟨hrest', hstate'⟩ := Crew.step_call (D := fateDispatch)
    (x := .served) hdel
  have hlist : (fateDispatch .served (.listPods (targetNamespace cache)
      (podLabels cache)) c.state).1 = .ok [tenantPod a] := by
    rw [hstate]
    exact congrArg Except.ok (tenantCluster_podsIn a true _)
  have hpod := (hout _ _ _ _ (fun _ => List.mem_cons_self)
    (tenantCluster_isolated rfl)
    (hrun.snoc (.call 0 .served) Crew.allows_call) 0
    (.updatePod (annotate (Time.ofUnix 0) (tenantPod a))) _ rfl (by
      rw [hrest', hlist]
      rfl)).1
  exact hpod (congrArg some hcell)

/-- A cache in the other's cell has its own finalizer and status
there. -/
theorem not_keepsOut_of_ns (h : a.ns = cellNamespace b) :
    ¬KeepsOut srt a b := by
  intro hout
  obtain ⟨c, hrun, hstate, hrest⟩ := tenantRun_read (a := a) srt b
    (show (tenantOf a false []).key = a from rfl)
  have hhold := (hout _ _ _ _ (fun _ => List.mem_cons_self)
    (tenantCluster_isolated rfl) hrun 0
    (.update .distributedCache (addFinalizer (tenantOf a false []))) _ rfl
    hrest).1
  exact hhold (congrArg some h)

/-- Reconciles of an isolated cache keep out of the cell of another one,
whatever the interleaving, if and only if the two have different names
and the first one is not in the cell of the other. -/
theorem cells_apart_iff (srt : SliceSort) (a b : NamespacedName) :
    KeepsOut srt a b ↔ a.name ≠ b.name ∧ a.ns ≠ cellNamespace b := by
  constructor
  · intro hout
    refine ⟨fun h => ?_, fun h => ?_⟩
    · exact not_keepsOut_of_name h hout
    · exact not_keepsOut_of_ns h hout
  · intro ⟨hname, hns⟩
    exact keepsOut_of_apart hname hns

end

-- ==================================================== a small cluster

/-- A cache of the same name in another namespace. -/
def labTenant : DistributedCache :=
  { ordersTenant 1 with metadata :=
      { (ordersTenant 1).metadata with ns := "lab", uid := "2" } }

def labKey : NamespacedName := ⟨"lab", "orders-cache"⟩

/-- Both caches, and nothing else. -/
def twoTenants : Cluster :=
  (Cluster.empty.put (ordersTenant 1)).put labTenant

/-- Reconciles of the two: those with an even number are of the cache in
the other namespace. -/
def twoTenantsCrew : Crew Api Cluster GoError ReconcileResult :=
  tenantCrew .insertionSort (fun _ => Time.ofUnix 100)
    (fun i => if i % 2 = 0 then labKey else ordersKey) twoTenants

/-- A first Reconcile of the other cache, to its end. -/
def firstTurns : List (Turn Cluster Fate) := .replicate 23 (.call 0 .served)

/-- The user deletes the first cache. -/
def ordersDeletion : Turn Cluster Fate :=
  .other ((firstTurns.foldl (Crew.step fateDispatch)
    twoTenantsCrew).state.put (ordersDeleted (some ⟨true⟩)))

/-- A Reconcile of the first cache makes five calls. -/
def tearDownTurns : List (Turn Cluster Fate) :=
  firstTurns ++ ordersDeletion :: .replicate 5 (.call 1 .served)

def tearDownCrew : Crew Api Cluster GoError ReconcileResult :=
  tearDownTurns.foldl (Crew.step fateDispatch) twoTenantsCrew

/-- The namespace whose deletion a Reconcile is about to issue. -/
def pendingDelete (p : Proc Api GoError ReconcileResult) : Option String :=
  match p.rest with
  | .call (.deleteNamespace name) _ => some name
  | _ => none

/-- Is the namespace there, and is it being deleted? -/
def namespaceDeleting (name : String) (s : Cluster) : Option Bool :=
  (s.objects .ns ⟨"", name⟩).map fun o => o.1.metadata.deleting

/-- The deletion of one cache tears down the namespace that another one,
which nobody deletes, has as its cell. -/
theorem deletion_takes_other_cell :
    BothIsolated ordersKey labKey twoTenants
      ∧ TenantRun ordersKey labKey twoTenantsCrew tearDownCrew
      ∧ pendingDelete (tearDownCrew.procs 1) = some "cache-orders-cache"
      ∧ (tearDownCrew.state.objects .distributedCache labKey).map
          (fun o => (o.1.metadata.deleting, targetNamespace o.1))
        = some (false, "cache-orders-cache")
      ∧ namespaceDeleting "cache-orders-cache" tearDownCrew.state
        = some false
      ∧ namespaceDeleting "cache-orders-cache"
          (tearDownCrew.step fateDispatch (.call 1 .served)).state
        = some true := by
  have hmeets : Meets (Crew.step fateDispatch)
      (Crew.Allows fateDispatch (fun _ _ _ => True)
        fun _ s' => BothIsolated ordersKey labKey s')
      twoTenantsCrew tearDownTurns := by
    decide +kernel
  refine ⟨by decide +kernel, Run.extend .nil hmeets, ?_⟩
  decide +kernel

end CacheOperator
