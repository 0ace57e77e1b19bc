/-
Every call of a `Reconcile`, with what it has been told.

`Proofs/Calls.lean` says which calls a phase can make. This file says on
which answers: `Justified` has one constructor for each place in the
source that talks to the API server, and each names the object or the
pod that the call is made from, which is one the `Reconcile` has been
given before. Nothing here is about a server or a state, so the result
(`reconcile_informed`) serves every interleaving, with reads as old as
they may be.

Events come directly after the write they report (`Announced`).
-/
import CacheOperator.Lib.Informed
import CacheOperator.Proofs.Calls

namespace CacheOperator

open Lib

-- ========================================================= the answers

/-- A read of an object has been answered with `o`. -/
def Given (k : Kind) (key : NamespacedName) (o : Object k)
    (g : List (Answer Api)) : Prop :=
  ∃ h : o.key = key,
    Answer.mk (S := Api) (.get k key) (.ok ⟨o, h⟩) ∈ g

/-- The pod is in a list of the cache's pods that has been given. -/
def Listed (cache : DistributedCache) (p : Pod)
    (g : List (Answer Api)) : Prop :=
  ∃ pods, p ∈ pods ∧ Answer.mk (S := Api)
    (.listPods (targetNamespace cache) (podLabels cache)) (.ok pods) ∈ g

/-- The start of a pod's drain, if its annotation can be read. -/
def drainStart (p : Pod) : Option Int64 :=
  (p.metadata.annotations.get drainAnnotation).bind fun raw =>
    Decimal.parseInt64 raw.toList

/-- The ring ConfigMap as a read of it has told: the object, or that
there is none. -/
inductive RingRead (cache : DistributedCache) (g : List (Answer Api)) :
    Option (Object .configMap) → Prop where
  | missing (e : GoError) (he : e.isNotFound = true)
      (h : Answer.mk (S := Api) (.get .configMap (ringKey cache))
        (.error e) ∈ g) : RingRead cache g none
  | found (cm : Object .configMap)
      (h : Given .configMap (ringKey cache) cm g) :
      RingRead cache g (some cm)

/-- The ring follows from a list of the cache's pods and a read of its
ConfigMap that have been given. -/
def RingOf (srt : SliceSort) (cache : DistributedCache)
    (g : List (Answer Api)) (ring : Ring) : Prop :=
  ∃ pods cm, Answer.mk (S := Api)
      (.listPods (targetNamespace cache) (podLabels cache)) (.ok pods) ∈ g
    ∧ RingRead cache g cm
    ∧ ring = desiredRing (computeMembers srt pods) (currentRing cm)

/-- The callbacks, with the object each of them is for; `R` is what is
known of the ring. -/
inductive Shapes (cache : DistributedCache) (R : Ring → Prop) :
    (k : Kind) → NamespacedName → (Object k → Except GoError (Object k)) →
      Prop where
  | cell (h : isolated cache = true) :
      Shapes cache R .ns ⟨"", targetNamespace cache⟩
        (mutateCellNamespace cache)
  | quota (h : isolated cache = true) :
      Shapes cache R .resourceQuota ⟨targetNamespace cache, "cell-quota"⟩
        (mutateResourceQuota cache)
  | policy (h : isolated cache = true) :
      Shapes cache R .networkPolicy ⟨targetNamespace cache, "cell-isolation"⟩
        (mutateNetworkPolicy cache)
  | service :
      Shapes cache R .service ⟨targetNamespace cache, cache.name⟩
        (mutateService cache)
  | statefulSet (canScaleDown : Bool) :
      Shapes cache R .statefulSet (statefulSetKey cache)
        (mutateStatefulSet cache canScaleDown)
  | ring (desired : Ring) (h : R desired) :
      Shapes cache R .configMap (ringKey cache)
        (mutateRingConfigMap cache desired)

/-- The status reports of a `Reconcile`. -/
inductive ReportOf (now : Time) (cache : DistributedCache)
    (R : Ring → Prop) : DistributedCache → Prop where
  | degraded (reason : Reason) (e : GoError) :
      ReportOf now cache R (markDegraded now cache reason e)
  | observed (ring : Ring) (h : R ring) :
      ReportOf now cache R (observed now ring cache)

/-- The reason of the event after a write of an owned object. -/
def Kind.eventReason : Kind → String
  | .distributedCache => "DrainComplete"
  | .ns => "CellNamespaceReconciled"
  | .resourceQuota => "QuotaReconciled"
  | .networkPolicy => "NetworkPolicyReconciled"
  | .service => "ServiceReconciled"
  | .statefulSet => "StatefulSetReconciled"
  | .configMap => "RingPublished"

/-- The last answer is that the write which the event reports has been
accepted. -/
inductive Announced (now : Time) (cache : DistributedCache) :
    String → List (Answer Api) → Prop where
  | created {k : Kind} {o x : Object k} {g : List (Answer Api)}
      (h : Owned cache k o.key) :
      Announced now cache k.eventReason
        (Answer.mk (S := Api) (.create k o) (.ok x) :: g)
  | updated {k : Kind} {o x : Object k} {g : List (Answer Api)}
      (h : Owned cache k o.key) :
      Announced now cache k.eventReason
        (Answer.mk (S := Api) (.update k o) (.ok x) :: g)
  | draining {p x : Pod} {g : List (Answer Api)} :
      Announced now cache "DrainStarted"
        (Answer.mk (S := Api) (.updatePod (annotate now p)) (.ok x) :: g)
  | tearing {x : Unit} {g : List (Answer Api)} :
      Announced now cache "CellTearingDown"
        (Answer.mk (S := Api) (.deleteNamespace (targetNamespace cache))
          (.ok x) :: g)
  | released {x : DistributedCache} {g : List (Answer Api)} :
      Announced now cache Kind.distributedCache.eventReason
        (Answer.mk (S := Api)
          (.update .distributedCache (removeFinalizer cache)) (.ok x) :: g)

-- =========================================================== the calls

/-- The `Reconcile` of `key` acts for the object it has read, which held
the drain finalizer. -/
structure ActsFor (key : NamespacedName) (cache : DistributedCache)
    (g : List (Answer Api)) : Prop where
  read : Given .distributedCache key cache g
  held : drainFinalizer ∈ cache.metadata.finalizers

/-- The calls that a `Reconcile` of `key` at `now` may make after the
answers `g`. -/
inductive Justified (srt : SliceSort) (now : Time)
    (key : NamespacedName) (g : List (Answer Api)) : Request → Prop where
  | get (k : Kind) (key' : NamespacedName) :
      Justified srt now key g (.get k key')
  | listPods (ns : String) (labels : Dict String String) :
      Justified srt now key g (.listPods ns labels)
  | hold (cache : DistributedCache)
      (hread : Given .distributedCache key cache g)
      (hlive : cache.metadata.deleting = false) :
      Justified srt now key g (.update .distributedCache (addFinalizer cache))
  | release (cache : DistributedCache) (h : ActsFor key cache g)
      (hdel : cache.metadata.deleting = true) :
      Justified srt now key g
        (.update .distributedCache (removeFinalizer cache))
  | report (cache c : DistributedCache) (h : ActsFor key cache g)
      (hlive : cache.metadata.deleting = false)
      (hc : ReportOf now cache (RingOf srt cache g) c) :
      Justified srt now key g (.updateStatus c)
  | create (cache : DistributedCache) {k : Kind} {key' : NamespacedName}
      {mutate : Object k → Except GoError (Object k)} (o : Object k)
      (h : ActsFor key cache g)
      (hshape : Shapes cache (RingOf srt cache g) k key' mutate)
      (hdel : cache.metadata.deleting = true → k = .configMap)
      (hkey : o.key = key') (ho : mutate (fresh k key') = .ok o) :
      Justified srt now key g (.create k o)
  | update (cache : DistributedCache) {k : Kind} {key' : NamespacedName}
      {mutate : Object k → Except GoError (Object k)} (old o : Object k)
      (h : ActsFor key cache g)
      (hshape : Shapes cache (RingOf srt cache g) k key' mutate)
      (hdel : cache.metadata.deleting = true → k = .configMap)
      (hkey : o.key = key') (hold : Given k key' old g)
      (ho : mutate old = .ok o) : Justified srt now key g (.update k o)
  | annotate (cache : DistributedCache) (p : Pod) (h : ActsFor key cache g)
      (hlisted : Listed cache p g) (hstart : drainStart p = none) :
      Justified srt now key g (.updatePod (annotate now p))
  | delete (cache : DistributedCache) (h : ActsFor key cache g)
      (hdel : cache.metadata.deleting = true)
      (hcross : isCrossNamespaceChild cache = true) :
      Justified srt now key g (.deleteNamespace (targetNamespace cache))
  | event (cache : DistributedCache) (reason text : String)
      (h : ActsFor key cache g) (ha : Announced now cache reason g) :
      Justified srt now key g (.event cache.ns reason text)

/-- The program makes justified calls only. -/
abbrev Explains (srt : SliceSort) (now : Time) (key : NamespacedName)
    {α : Type}
    (Q : List (Answer Api) → Except GoError α → Prop) (p : Op α)
    (g : List (Answer Api)) : Prop :=
  p.Informed (Justified srt now key) Q g

section

variable {now : Time} {key : NamespacedName} {cache : DistributedCache}
  {g g' : List (Answer Api)} {srt : SliceSort}

theorem Given.mono {k : Kind} {key' : NamespacedName} {o : Object k}
    (h : Given k key' o g) (hg : g <:+ g') : Given k key' o g' := by
  obtain ⟨hkey, hmem⟩ := h
  exact ⟨hkey, hg.subset hmem⟩

theorem ActsFor.mono (h : ActsFor key cache g) (hg : g <:+ g') :
    ActsFor key cache g' :=
  ⟨h.read.mono hg, h.held⟩

theorem Listed.mono {p : Pod} (h : Listed cache p g) (hg : g <:+ g') :
    Listed cache p g' := by
  obtain ⟨pods, hp, hmem⟩ := h
  exact ⟨pods, hp, hg.subset hmem⟩

theorem RingOf.mono {ring : Ring} (h : RingOf srt cache g ring)
    (hg : g <:+ g') : RingOf srt cache g' ring := by
  obtain ⟨pods, cm, hpods, hcm, hring⟩ := h
  refine ⟨pods, cm, hg.subset hpods, ?_, hring⟩
  cases hcm with
  | missing e he h => exact .missing e he (hg.subset h)
  | found cm h => exact .found cm (h.mono hg)

theorem Shapes.imp {R R' : Ring → Prop} {k : Kind} {key' : NamespacedName}
    {mutate : Object k → Except GoError (Object k)}
    (h : Shapes cache R k key' mutate) (hR : ∀ ring, R ring → R' ring) :
    Shapes cache R' k key' mutate := by
  cases h with
  | cell h => exact .cell h
  | quota h => exact .quota h
  | policy h => exact .policy h
  | service => exact .service
  | statefulSet b => exact .statefulSet b
  | ring r hr => exact .ring r (hR r hr)

theorem ReportOf.imp {R R' : Ring → Prop} {c : DistributedCache}
    (h : ReportOf now cache R c) (hR : ∀ ring, R ring → R' ring) :
    ReportOf now cache R' c := by
  cases h with
  | degraded reason e => exact .degraded reason e
  | observed ring hr => exact .observed ring (hR ring hr)

/-- A callback is for an owned object. -/
theorem Shapes.owned {R : Ring → Prop} {k : Kind} {key' : NamespacedName}
    {mutate : Object k → Except GoError (Object k)}
    (h : Shapes cache R k key' mutate) : Owned cache k key' := by
  cases h with
  | cell h => exact .cell
  | quota h => exact .quota
  | policy h => exact .policy
  | service => exact .service
  | statefulSet b => exact .statefulSet
  | ring r hr => exact .ring

theorem drainStart_of_none {p : Pod}
    (h : p.metadata.annotations.get drainAnnotation = none) :
    drainStart p = none := by
  unfold drainStart
  rw [h]
  rfl

theorem drainStart_of_some {p : Pod} {raw : String}
    (h : p.metadata.annotations.get drainAnnotation = some raw) :
    drainStart p = Decimal.parseInt64 raw.toList := by
  unfold drainStart
  rw [h]
  rfl

-- ==================================================== the owned objects

/-- What `createOrUpdate` has been told when it reports a write. -/
def Told (k : Kind) (key' : NamespacedName) (op : OperationResult)
    (g : List (Answer Api)) : Prop :=
  op ≠ .none → ∃ o x : Object k, ∃ g', o.key = key'
    ∧ (g = Answer.mk (S := Api) (.create k o) (.ok x) :: g'
      ∨ g = Answer.mk (S := Api) (.update k o) (.ok x) :: g')

theorem createOrUpdate_explains {k : Kind} {key' : NamespacedName}
    {mutate : Object k → Except GoError (Object k)}
    (h : ActsFor key cache g) (hshape : Shapes cache (RingOf srt cache g) k key' mutate)
    (hdel : cache.metadata.deleting = true → k = .configMap) :
    Explains srt now key (fun g' res => ∀ op, res = .ok op → Told k key' op g')
      (createOrUpdate k key' mutate) g := by
  unfold createOrUpdate
  simp only [bind, pure, Prog.bind, request]
  refine ⟨.get k key', fun x => ?_⟩
  have hsuffix := List.suffix_cons
    (Answer.mk (S := Api) (.get k key') x) g
  have hg := h.mono hsuffix
  have hshape := hshape.imp fun _ hr => hr.mono hsuffix
  cases x with
  | error e =>
      dsimp only
      split
      · split
        · intro op hop; cases hop
        · next o ho =>
          obtain ⟨hm, hkey⟩ := callMutate_ok ho
          refine ⟨.create cache o hg hshape hdel hkey hm, fun y => ?_⟩
          cases y with
          | error e => intro op hop; cases hop
          | ok x =>
              intro op hop _
              exact ⟨o, x, _, hkey, Or.inl rfl⟩
      · intro op hop; cases hop
  | ok old =>
      dsimp only
      split
      · intro op hop; cases hop
      · next o ho =>
        obtain ⟨hm, hkey⟩ := callMutate_ok ho
        split
        · intro op hop hne
          cases hop
          exact absurd rfl hne
        · refine ⟨.update cache old.1 o hg hshape hdel hkey
            ⟨old.2, List.mem_cons_self⟩ hm, fun y => ?_⟩
          cases y with
          | error e => intro op hop; cases hop
          | ok x =>
              intro op hop _
              exact ⟨o, x, _, hkey, Or.inr rfl⟩

/-- A sub-reconciler: the event comes right after the write. -/
theorem reconcileObject_explains {k : Kind} {key' : NamespacedName}
    {mutate : Object k → Except GoError (Object k)} {what reason : String}
    {message : OperationResult → String}
    (h : ActsFor key cache g) (hshape : Shapes cache (RingOf srt cache g) k key' mutate)
    (hdel : cache.metadata.deleting = true → k = .configMap)
    (hreason : reason = k.eventReason) :
    Explains srt now key (fun _ _ => True)
      (reconcileObject k key' what mutate cache reason message) g := by
  subst hreason
  unfold reconcileObject
  refine Prog.Informed.bind ((createOrUpdate_explains h hshape hdel).attempt
    (Q := fun g' res => ∀ op, res = .ok (.ok op) → Told k key' op g') ?_)
    ?_ (fun _ _ _ _ => trivial)
  · intro g' res _ hres op hop
    injection hop with hop
    exact hres op hop
  · intro g' x hg hx
    cases x with
    | error e => trivial
    | ok op =>
        -- the event of a write that was made
        have hevent : op ≠ .none → Justified srt now key g'
            (.event cache.ns k.eventReason (message op)) := by
          intro hne
          obtain ⟨o, x, rest, hkey, hwrite⟩ := hx op rfl hne
          have howned : Owned cache k o.key := hkey ▸ hshape.owned
          refine .event cache _ _ (h.mono hg) ?_
          rcases hwrite with rfl | rfl
          · exact .created howned
          · exact .updated howned
        cases op with
        | none => trivial
        | created => exact ⟨hevent (by simp), fun _ => trivial⟩
        | updated => exact ⟨hevent (by simp), fun _ => trivial⟩

theorem wrapping_explains {α : Type} {text : String} {p : Op α}
    (hp : Explains srt now key (fun _ _ => True) p g) :
    Explains srt now key (fun _ _ => True) (wrapping text p) g := by
  refine Prog.Informed.bind (Prog.Informed.attempt hp
    (Q := fun _ _ => True) fun _ _ _ _ => trivial) ?_ fun _ _ _ _ => trivial
  intro g' x _ _
  cases x <;> trivial

theorem reconcileCell_explains (h : ActsFor key cache g)
    (hlive : cache.metadata.deleting = false) :
    Explains srt now key (fun _ _ => True) (reconcileCell cache) g := by
  have hdel : ∀ {k : Kind}, cache.metadata.deleting = true →
      k = .configMap := by
    intro k hdel
    rw [hlive] at hdel
    cases hdel
  unfold reconcileCell
  split
  · trivial
  · next hiso =>
    have hiso' : isolated cache = true := by simpa using hiso
    refine Prog.Informed.bind (R := fun _ _ => True) (wrapping_explains
      (reconcileObject_explains h (.cell hiso') hdel rfl)) ?_
      fun _ _ _ _ => trivial
    intro g₁ _ hg₁ _
    refine Prog.Informed.bind (R := fun _ _ => True) (wrapping_explains
      (reconcileObject_explains (h.mono hg₁) (.quota hiso') hdel rfl)) ?_
      fun _ _ _ _ => trivial
    intro g₂ _ hg₂ _
    exact wrapping_explains (reconcileObject_explains
      ((h.mono hg₁).mono hg₂) (.policy hiso') hdel rfl)

theorem reconcileServiceTwice_explains (h : ActsFor key cache g)
    (hlive : cache.metadata.deleting = false) :
    Explains srt now key (fun _ _ => True) (reconcileServiceTwice cache) g := by
  have hsvc : ∀ g', ActsFor key cache g' →
      Explains srt now key (fun _ _ => True) (reconcileService cache) g' := by
    intro g' h'
    refine reconcileObject_explains h' .service (fun hdel => ?_) rfl
    rw [hlive] at hdel
    cases hdel
  refine Prog.Informed.bind (Prog.Informed.attempt (hsvc g h)
    (Q := fun _ _ => True) fun _ _ _ _ => trivial) ?_ fun _ _ _ _ => trivial
  intro g' x hg _
  cases x with
  | ok a => trivial
  | error e => exact hsvc g' (h.mono hg)

-- ======================================================= the two drains

theorem listPods_explains {what : String} :
    Explains srt now key (fun g' res => ∀ pods, res = .ok pods →
      ∀ p ∈ pods, Listed cache p g') (listPods cache what) g := by
  refine ⟨.listPods _ _, fun x => ?_⟩
  cases x with
  | error e => exact nofun
  | ok pods =>
      intro pods' heq p hp
      cases heq
      exact ⟨pods, hp, List.mem_cons_self⟩

/-- A pod is annotated when its drain has not been started. -/
theorem drainScaleDownLoop_explains {doomed : List String} (ps : List Pod)
    (b : Bool) (h : ActsFor key cache g)
    (hps : ∀ p ∈ ps, Listed cache p g) :
    Explains srt now key (fun _ _ => True)
      (drainScaleDownLoop now cache doomed ps b) g := by
  induction ps generalizing b g with
  | nil => trivial
  | cons p ps ih =>
      have hp := hps p List.mem_cons_self
      have ih : ∀ b g', g <:+ g' → Explains srt now key (fun _ _ => True)
          (drainScaleDownLoop now cache doomed ps b) g' := by
        intro b g' hg
        refine ih b (h.mono hg) fun q hq => ?_
        exact (hps q (List.mem_cons_of_mem p hq)).mono hg
      unfold drainScaleDownLoop
      split
      · exact ih b g (List.suffix_refl g)
      · split
        · next hnone =>
          refine ⟨.annotate cache p h hp (drainStart_of_none hnone),
            fun x => ?_⟩
          cases x with
          | error e => trivial
          | ok q =>
              refine ⟨.event cache _ _ (h.mono (List.suffix_cons _ _))
                .draining, fun _ => ih false _ ?_⟩
              exact (List.suffix_cons _ _).trans (List.suffix_cons _ _)
        · next raw hraw =>
          split
          · next hparse =>
            refine ⟨.annotate cache p h hp
              ((drainStart_of_some hraw).trans hparse), fun x => ?_⟩
            cases x with
            | error e => trivial
            | ok q => exact ih false _ (List.suffix_cons _ _)
          · exact ih _ g (List.suffix_refl g)

theorem drainScaleDown_explains (h : ActsFor key cache g) :
    Explains srt now key (fun _ _ => True) (drainScaleDown now cache) g := by
  refine ⟨.get _ _, fun x => ?_⟩
  cases x with
  | error e =>
      show Prog.Informed _ _ (if _ then _ else _) _
      split <;> trivial
  | ok sts =>
      show Prog.Informed _ _ (if _ then _ else _) _
      split
      · trivial
      · refine Prog.Informed.bind listPods_explains ?_
          fun _ _ _ _ => trivial
        intro g' ps hg hps
        exact drainScaleDownLoop_explains ps true
          ((h.mono (List.suffix_cons _ _)).mono hg) (hps ps rfl)

theorem reconcileDeletionLoop_explains (ps : List Pod) (b : Bool)
    (h : ActsFor key cache g) (hps : ∀ p ∈ ps, Listed cache p g) :
    Explains srt now key (fun _ _ => True)
      (reconcileDeletionLoop now cache ps b) g := by
  induction ps generalizing b g with
  | nil => trivial
  | cons p ps ih =>
      have hp := hps p List.mem_cons_self
      have ih : ∀ b g', g <:+ g' → Explains srt now key (fun _ _ => True)
          (reconcileDeletionLoop now cache ps b) g' := by
        intro b g' hg
        refine ih b (h.mono hg) fun q hq => ?_
        exact (hps q (List.mem_cons_of_mem p hq)).mono hg
      unfold reconcileDeletionLoop
      split
      · next hnone =>
        refine ⟨.annotate cache p h hp (drainStart_of_none hnone),
          fun x => ?_⟩
        cases x with
        | error e => trivial
        | ok q => exact ih false _ (List.suffix_cons _ _)
      · split
        · exact ih false g (List.suffix_refl g)
        · exact ih _ g (List.suffix_refl g)

-- ============================================================= the ring

theorem reconcileRing_explains (h : ActsFor key cache g) :
    Explains srt now key (fun g' res => ∀ ring, res = .ok ring →
      RingOf srt cache g' ring) (reconcileRing srt cache) g := by
  refine Prog.Informed.bind (R := fun g' res => ∀ pods, res = .ok pods →
    Answer.mk (S := Api) (.listPods (targetNamespace cache)
      (podLabels cache)) (.ok pods) ∈ g') ⟨.listPods _ _, fun x => ?_⟩ ?_
    fun _ _ _ _ _ heq => by cases heq
  · cases x with
    | error e => intro pods heq; cases heq
    | ok pods =>
        intro pods' heq
        cases heq
        exact List.mem_cons_self
  intro g₁ pods hg₁ hpods
  refine Prog.Informed.bind (R := fun g' res => ∀ cm, res = .ok cm →
    RingRead cache g' cm) ⟨.get _ _, fun x => ?_⟩ ?_
    fun _ _ _ _ _ heq => by cases heq
  · cases x with
    | error e =>
        show Prog.Informed _ _ (if _ then _ else _) _
        split
        · next he =>
          intro cm heq
          cases heq
          exact .missing e he List.mem_cons_self
        · intro cm heq
          cases heq
    | ok cm =>
        intro cm' heq
        cases heq
        exact .found _ ⟨cm.2, List.mem_cons_self⟩
  intro g₂ cm hg₂ hcm
  have hring : RingOf srt cache g₂ (desiredRing (computeMembers srt pods)
      (currentRing cm)) :=
    ⟨pods, cm, hg₂.subset (hpods pods rfl), hcm cm rfl, rfl⟩
  dsimp only
  split
  · intro ring heq
    cases heq
    exact hring
  · refine Prog.Informed.bind (R := fun _ _ => True)
      (reconcileObject_explains ((h.mono hg₁).mono hg₂) (.ring _ hring)
        (fun _ => rfl) rfl) ?_ fun _ _ _ _ _ heq => by cases heq
    intro g₃ _ hg₃ _ ring heq
    cases heq
    exact hring.mono hg₃

-- ====================================================== a live object

theorem orDegrade_explains {α : Type} {reason : Reason} {text : String}
    {Q : List (Answer Api) → α → Prop} {p : Op α} (h : ActsFor key cache g)
    (hlive : cache.metadata.deleting = false)
    (hp : Explains srt now key
      (fun g' res => ∀ a, res = .ok a → Q g' a) p g) :
    Explains srt now key (fun g' res => ∀ a, res = .ok a → Q g' a)
      (orDegrade now cache reason text p) g := by
  refine Prog.Informed.bind (Prog.Informed.attempt hp
    (Q := fun g' res => ∀ a, res = .ok (.ok a) → Q g' a) ?_) ?_
    fun _ _ _ _ _ heq => by cases heq
  · intro g' res _ hres a heq
    injection heq with heq
    exact hres a heq
  · intro g' x hg hx
    cases x with
    | ok a =>
        intro a' heq
        cases heq
        exact hx a rfl
    | error e =>
        refine ⟨.report cache _ (h.mono hg) hlive (.degraded reason e),
          fun _ a heq => ?_⟩
        cases heq

theorem finish_explains {b : Bool} {ring : Ring} (h : ActsFor key cache g)
    (hlive : cache.metadata.deleting = false)
    (hring : RingOf srt cache g ring) :
    Explains srt now key (fun _ _ => True) (finish now cache b ring) g := by
  refine ⟨.report cache _ h hlive (.observed ring hring), fun x => ?_⟩
  cases x with
  | error e => trivial
  | ok c =>
      show Prog.Informed _ _ (if _ then _ else _) _
      split
      · trivial
      split
      · trivial
      · trivial

theorem reconcileLive_explains (h : ActsFor key cache g)
    (hlive : cache.metadata.deleting = false) :
    Explains srt now key (fun _ _ => True)
      (reconcileLive srt now cache) g := by
  -- one phase after the other, each with the answers of those before it
  have hphase : ∀ {α β : Type} {reason : Reason} {text : String}
      {Q : List (Answer Api) → α → Prop}
      {Q' : List (Answer Api) → β → Prop}
      {p : Op α} {f : α → Op β} {g₀ : List (Answer Api)},
      ActsFor key cache g₀ →
      Explains srt now key (fun g' res => ∀ a, res = .ok a → Q g' a) p g₀ →
      (∀ g₁ a, ActsFor key cache g₁ → Q g₁ a → Explains srt now key
        (fun g' res => ∀ b, res = .ok b → Q' g' b) (f a) g₁) →
      Explains srt now key (fun g' res => ∀ b, res = .ok b → Q' g' b)
        (orDegrade now cache reason text p >>= f) g₀ := by
    intro α β reason text Q Q' p f g₀ h₀ hp hf
    refine Prog.Informed.bind (orDegrade_explains h₀ hlive hp) ?_
      fun _ _ _ _ _ heq => by cases heq
    exact fun g₁ a hg ha => hf g₁ a (h₀.mono hg) (ha a rfl)
  have hany : ∀ {α : Type} {p : Op α} {g₀ : List (Answer Api)},
      Explains srt now key (fun _ _ => True) p g₀ →
      Explains srt now key (fun _ res => ∀ a, res = .ok a → True) p g₀ :=
    fun hp => hp.imp (fun _ _ _ h => h) fun _ _ _ _ _ _ => trivial
  have hdel : ∀ {k : Kind}, cache.metadata.deleting = true →
      k = .configMap := by
    intro k hdel
    rw [hlive] at hdel
    cases hdel
  unfold reconcileLive reconcileOwned
  refine Prog.Informed.bind (R := fun g' res => ∀ x, res = .ok x →
    RingOf srt cache g' x.2) ?_ ?_ fun _ _ _ _ => trivial
  · refine hphase h (hany (reconcileCell_explains h hlive)) ?_
    intro g₁ _ h₁ _
    refine hphase h₁ (hany (reconcileServiceTwice_explains h₁ hlive)) ?_
    intro g₂ _ h₂ _
    refine hphase h₂ (hany (drainScaleDown_explains h₂)) ?_
    intro g₃ b h₃ _
    refine hphase h₃ (hany (reconcileObject_explains h₃ (.statefulSet b)
      hdel rfl)) ?_
    intro g₄ _ h₄ _
    refine hphase h₄ (reconcileRing_explains h₄) ?_
    intro g₅ ring h₅ hring x heq
    cases heq
    exact hring
  · intro g' x hg hx
    exact finish_explains (h.mono hg) hlive (hx x rfl)

-- ========================================================= the deletion

theorem releaseCache_explains (h : ActsFor key cache g)
    (hdel : cache.metadata.deleting = true) :
    Explains srt now key (fun _ _ => True) (releaseCache cache) g := by
  refine ⟨.release cache h hdel, fun x => ?_⟩
  cases x with
  | error e => trivial
  | ok c =>
      exact ⟨.event cache _ _ (h.mono (List.suffix_cons _ _)) .released,
        fun _ => trivial⟩

theorem tearDown_explains (h : ActsFor key cache g)
    (hdel : cache.metadata.deleting = true) :
    Explains srt now key (fun _ _ => True) (tearDown cache) g := by
  unfold tearDown
  split
  · next hcross =>
    refine Prog.Informed.bind (R := fun _ _ => True) (wrapping_explains
      ⟨.get _ _, fun x => ?_⟩) ?_ fun _ _ _ _ => trivial
    · cases x with
      | error e =>
          show Prog.Informed _ _ (if _ then _ else _) _
          split <;> trivial
      | ok ns =>
          show Prog.Informed _ _ (if _ then _ else _) _
          split
          · trivial
          · have h₁ := h.mono (List.suffix_cons (Answer.mk (S := Api)
              (.get .ns ⟨"", targetNamespace cache⟩) (.ok ns)) g)
            refine ⟨.delete cache h₁ hdel hcross, fun y => ?_⟩
            cases y with
            | error e =>
                show Prog.Informed _ _ (if _ then _ else _) _
                split <;> trivial
            | ok u =>
                exact ⟨.event cache _ _ (h₁.mono (List.suffix_cons _ _))
                  .tearing, fun _ => trivial⟩
    · intro g' done hg _
      split
      · trivial
      · exact releaseCache_explains (h.mono hg) hdel
  · exact releaseCache_explains h hdel

theorem reconcileDeletion_explains
    (hread : Given .distributedCache key cache g)
    (hdel : cache.metadata.deleting = true) :
    Explains srt now key (fun _ _ => True)
      (reconcileDeletion srt now cache) g := by
  unfold reconcileDeletion
  split
  · trivial
  · next hfin =>
    have h : ActsFor key cache g := ⟨hread, not_not.mp hfin⟩
    refine Prog.Informed.bind listPods_explains ?_ fun _ _ _ _ => trivial
    intro g₁ ps hg₁ hps
    refine Prog.Informed.bind (R := fun _ _ => True)
      (reconcileDeletionLoop_explains ps true (h.mono hg₁) (hps ps rfl))
      ?_ fun _ _ _ _ => trivial
    intro g₂ b hg₂ _
    have h₂ := (h.mono hg₁).mono hg₂
    refine Prog.Informed.bind (Prog.Informed.attempt
      (reconcileRing_explains h₂) (Q := fun _ _ => True)
      fun _ _ _ _ => trivial) ?_ fun _ _ _ _ => trivial
    intro g₃ x hg₃ _
    split
    · trivial
    · exact tearDown_explains (h₂.mono hg₃) hdel

/-- Every call of a `Reconcile` is justified by the answers before
it. -/
theorem reconcile_informed (srt : SliceSort) (now : Time)
    (key : NamespacedName) :
    (reconcile srt now key).Informed (Justified srt now key)
      (fun _ _ => True) [] := by
  unfold reconcile
  simp only [bind, pure, Prog.bind, request]
  refine ⟨.get _ _, fun x => ?_⟩
  cases x with
  | error e =>
      dsimp only
      split <;> trivial
  | ok stored =>
      have hread : Given .distributedCache key stored.1
          [Answer.mk (S := Api) (.get .distributedCache key)
            (.ok stored)] :=
        ⟨stored.2, List.mem_cons_self⟩
      dsimp only
      split
      · next hdel => exact reconcileDeletion_explains hread hdel
      · next hdel =>
        have hlive := Bool.eq_false_iff.mpr hdel
        split
        · refine ⟨.hold _ hread hlive, fun x => ?_⟩
          cases x <;> trivial
        · next hfin =>
          exact reconcileLive_explains ⟨hread, not_not.mp hfin⟩ hlive

end

end CacheOperator
