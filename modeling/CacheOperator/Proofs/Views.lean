/-
Two views of the StatefulSet in one `Reconcile`.

`drainScaleDown` reads the StatefulSet and answers with a bare boolean;
`CreateOrUpdate` reads it again and lowers the replicas on the strength
of that answer. `twoViews` is the API server with another StatefulSet in
place after the first read, be it another replica count or an object
where there was none. It also remembers which pods it has listed, so
that at every later call it can be said what the drain has found drained
(`FoundDrained`): a listed pod, of a name that the first view dooms, with
an annotation that is old enough.

The drain has looked at the pods that its own view dooms. Those between
the two views it has not looked at, drained or not, and the replicas are
lowered over their heads.
-/
import CacheOperator.Proofs.Ordinals
import CacheOperator.Proofs.Release

namespace CacheOperator

open Lib

-- ============================================= a server of two views

/-- The cluster, the StatefulSet that takes the place of the present one
as soon as that has been read, and the pods that were listed last. -/
structure Views (key : NamespacedName) where
  cluster : Cluster
  later : Option (Option {o : Object .statefulSet // o.key = key})
  listed : List Pod

/-- The cluster with another StatefulSet, or none. -/
def Cluster.withStatefulSet (s : Cluster) (key : NamespacedName)
    (sts : Option {o : Object .statefulSet // o.key = key}) : Cluster :=
  { s with
    objects := Function.update s.objects .statefulSet
      (Function.update (s.objects .statefulSet) key sts) }

/-- The call reads the StatefulSet. -/
def Request.readsStatefulSet (key : NamespacedName) : Request → Bool
  | .get .statefulSet key' => key' = key
  | _ => false

/-- The pods a call lists, or those of the list before it. -/
def Views.lists {key : NamespacedName} (v : Views key) :
    Request → List Pod
  | .listPods ns labels => v.cluster.podsIn ns labels
  | _ => v.listed

/-- The state after a call: the first read of the StatefulSet is the last
one to see it. -/
def Views.after {key : NamespacedName} (v : Views key) (r : Request) :
    Views key :=
  match v.later with
  | none => ⟨(api.serve r v.cluster).2, none, v.lists r⟩
  | some sts =>
      if r.readsStatefulSet key then
        ⟨v.cluster.withStatefulSet key sts, none, v.listed⟩
      else ⟨(api.serve r v.cluster).2, some sts, v.lists r⟩

def twoViews (key : NamespacedName) : Server Api (Views key) where
  serve r v := ((api.serve r v.cluster).1, v.after r)
  refuse := api.refuse

/-- A write of the StatefulSet that lowers its replicas. -/
def WritesLower {key : NamespacedName} (cache : DistributedCache)
    (e : Entry Api (Views key)) (c d : Int32) : Prop :=
  e.req.target = some (.object .statefulSet (statefulSetKey cache))
    ∧ Lowers cache (e.map Views.cluster) c d

instance {key : NamespacedName} (cache : DistributedCache)
    (e : Entry Api (Views key)) (c d : Int32) :
    Decidable (WritesLower cache e c d) :=
  inferInstanceAs (Decidable (_ ∧ _))

-- ============================================= what the drain has found

/-- The pods at which the loop of `drainScaleDown` goes on without taking
the permission back. -/
def foundDrained (now : Time) (cache : DistributedCache)
    (doomed : List String) : List Pod → List Pod
  | [] => []
  | p :: ps =>
      if p.name ∉ doomed then foundDrained now cache doomed ps
      else
        match p.metadata.annotations.get drainAnnotation with
        | none => foundDrained now cache doomed ps
        | some raw =>
            match Decimal.parseInt64 raw.toList with
            | none => foundDrained now cache doomed ps
            | some ts =>
                if now.sub (Time.ofUnix ts) < grace cache then
                  foundDrained now cache doomed ps
                else p :: foundDrained now cache doomed ps

section

variable {now : Time} {cache : DistributedCache} {doomed : List String}
  {p q : Pod} {ps : List Pod}

theorem foundDrained_cons_of_drained (hdoomed : q.name ∈ doomed)
    (h : Drained now (grace cache) q) :
    foundDrained now cache doomed (q :: ps)
      = q :: foundDrained now cache doomed ps := by
  obtain ⟨raw, ts, hraw, hts, hage⟩ := h
  rw [foundDrained, if_neg (not_not.mpr hdoomed), hraw]
  dsimp only
  rw [hts]
  dsimp only
  rw [if_neg (not_lt.mpr hage)]

/-- A pod that is passed over is not drained, or not looked at. -/
theorem foundDrained_cons_of_not
    (h : ¬(q.name ∈ doomed ∧ Drained now (grace cache) q)) :
    foundDrained now cache doomed (q :: ps)
      = foundDrained now cache doomed ps := by
  rw [foundDrained]
  split
  · rfl
  next hdoomed =>
  split
  · rfl
  next raw hraw =>
  split
  · rfl
  next ts hts =>
  split
  · rfl
  next hage =>
  exact absurd ⟨not_not.mp hdoomed, raw, ts, hraw, hts, not_lt.mp hage⟩ h

theorem mem_foundDrained :
    p ∈ foundDrained now cache doomed ps
      ↔ p ∈ ps ∧ p.name ∈ doomed ∧ Drained now (grace cache) p := by
  induction ps with
  | nil => simp [foundDrained]
  | cons q ps ih =>
      by_cases hq : q.name ∈ doomed ∧ Drained now (grace cache) q
      · rw [foundDrained_cons_of_drained hq.1 hq.2, List.mem_cons,
          List.mem_cons, ih]
        constructor
        · rintro (rfl | h)
          · exact ⟨Or.inl rfl, hq⟩
          · exact ⟨Or.inr h.1, h.2⟩
        · rintro ⟨rfl | h, hp⟩
          · exact Or.inl rfl
          · exact Or.inr ⟨h, hp⟩
      · rw [foundDrained_cons_of_not hq, List.mem_cons, ih]
        constructor
        · exact fun h => ⟨Or.inr h.1, h.2⟩
        · rintro ⟨rfl | h, hp⟩
          · exact absurd hp hq
          · exact ⟨h, hp⟩

end

/-- The drain has found the pod drained: with the StatefulSet of its own
view, in the list of pods it was given. With no StatefulSet in that view
it looks at no pod, and with no list either. -/
def FoundDrained {key : NamespacedName} (now : Time)
    (cache : DistributedCache) (first : Cluster) (v : Views key)
    (p : Pod) : Prop :=
  ∃ sts, first.objects .statefulSet (statefulSetKey cache) = some sts
    ∧ p ∈ foundDrained now cache (doomedNames cache
        (desiredReplicas cache) (sts.1.body.replicas.getD 0)) v.listed

theorem foundDrained_iff {key : NamespacedName} {now : Time}
    {cache : DistributedCache} {first : Cluster} {v : Views key}
    {p : Pod} :
    FoundDrained now cache first v p
      ↔ p ∈ v.listed ∧ Doomed cache first p
        ∧ Drained now (grace cache) p := by
  unfold FoundDrained Doomed
  simp only [mem_foundDrained]
  constructor
  · rintro ⟨sts, hsts, hp, hdoomed, hdrained⟩
    exact ⟨hp, ⟨sts, hsts, hdoomed⟩, hdrained⟩
  · rintro ⟨hp, ⟨sts, hsts, hdoomed⟩, hdrained⟩
    exact ⟨sts, hsts, hp, hdoomed, hdrained⟩

/-- Of the pods that the first view dooms the drain has found each one
drained. -/
def FoundAll {key : NamespacedName} (now : Time)
    (cache : DistributedCache) (s : Cluster) (v : Views key) : Prop :=
  ∀ p ∈ cachePods cache s, Doomed cache s p → FoundDrained now cache s v p

section

variable {srt : SliceSort} {now : Time} {cache : DistributedCache}
  {s : Cluster} {key : NamespacedName} {v : Views key} {r : Request}
  {later : Option {o : Object .statefulSet // o.key = key}}
  {listed : List Pod}

theorem Views.after_read :
    (Views.mk s (some later) listed).after (.get .statefulSet key)
      = ⟨s.withStatefulSet key later, none, listed⟩ := by
  unfold Views.after
  dsimp only
  rw [if_pos (by simp [Request.readsStatefulSet])]

theorem Views.after_other (h : r.readsStatefulSet key = false) :
    v.after r = ⟨(api.serve r v.cluster).2, v.later, v.lists r⟩ := by
  unfold Views.after
  cases v.later with
  | none => rfl
  | some sts => rw [h]; rfl

/-- A call that lists no pods. -/
def Request.Unlisting (r : Request) : Prop :=
  ∀ ns labels, r ≠ .listPods ns labels

theorem Views.after_listed (h : r.Unlisting) :
    (v.after r).listed = v.listed := by
  have hlists : v.lists r = v.listed := by
    unfold Views.lists
    split
    · next ns labels => exact absurd rfl (h ns labels)
    · rfl
  unfold Views.after
  split
  · exact hlists
  · split
    · rfl
    · exact hlists

theorem Request.OfObject.unlisting {k : Kind} {key' : NamespacedName}
    (h : r.OfObject cache k key') : r.Unlisting := by
  intro ns labels hr
  subst hr
  cases h

theorem Request.Peripheral.not_reads (h : r.Peripheral) :
    r.readsStatefulSet key = false := by
  unfold Request.readsStatefulSet
  split
  · next key' => exact absurd rfl (h.1 key')
  · rfl

@[simp] theorem withStatefulSet_pods :
    (s.withStatefulSet key later).pods = s.pods := rfl

theorem withStatefulSet_objects :
    (s.withStatefulSet key later).objects .statefulSet key = later := by
  simp [Cluster.withStatefulSet]

/-- After the first read this is the plain API server. -/
theorem sat_settled {α : Type} {p : Op α} {E : Call → Prop}
    {Q : Result GoError α → Cluster → Prop} (hp : p.Sat api s E Q) :
    p.Sat (twoViews key) ⟨s, none, listed⟩
      (fun e => E (e.map Views.cluster))
      fun res v => v.later = none ∧ Q res v.cluster := by
  refine Prog.Sat.simulate (f := Views.cluster)
    (I := fun v => v.later = none) ?_ (fun _ => rfl) rfl hp
  intro r v hv
  obtain ⟨s, later, listed⟩ := v
  cases hv
  exact ⟨rfl, rfl, rfl⟩

end

-- ========================================================= the phases

/-- Behind a write that lowers the replicas: they become the desired
ones, from those of the second view, after the drain has found drained
what the first view dooms. -/
def ViewsCall (now : Time) (cache : DistributedCache) (s : Cluster)
    (later : Option {o : Object .statefulSet // o.key = statefulSetKey cache})
    (e : Entry Api (Views (statefulSetKey cache))) : Prop :=
  ∀ c d, WritesLower cache e c d → cache.body.spec.replicas = some d
    ∧ (∃ sts, later = some sts ∧ sts.1.body.replicas = some c)
    ∧ FoundAll now cache s e.before

section

variable {srt : SliceSort} {now : Time} {cache : DistributedCache}
  {s : Cluster} {v : Views (statefulSetKey cache)}
  {later : Option {o : Object .statefulSet // o.key = statefulSetKey cache}}

/-- Calls that write no StatefulSet. -/
theorem sat_spares {α : Type} {p : Op α}
    (hp : p.Uses Request.SparesStatefulSets) :
    p.Sat (twoViews (statefulSetKey cache)) v
      (ViewsCall now cache s later) fun res _ => ∀ a, res = .ok a → True :=
  (Prog.Sat.calls hp).imp (fun _ h _ _ hw => absurd hw.1 (h _))
    fun _ _ _ _ _ => trivial

theorem Request.Peripheral.spares {r : Request} (h : r.Peripheral) :
    r.SparesStatefulSets := by
  intro key ht
  obtain ⟨-, h⟩ := h
  rw [ht] at h
  exact h.1 rfl

/-- A phase with its status report, for what it returns. -/
theorem orDegrade_views {α : Type} {reason : Reason} {text : String}
    {p : Op α} {R : α → Views (statefulSetKey cache) → Prop}
    (hp : p.Sat (twoViews (statefulSetKey cache)) v
      (ViewsCall now cache s later) fun res v' => ∀ a, res = .ok a → R a v') :
    (orDegrade now cache reason text p).Sat (twoViews (statefulSetKey cache))
      v (ViewsCall now cache s later)
      fun res v' => ∀ a, res = .ok a → R a v' := by
  refine Prog.Sat.bind_returns (R := fun x v' => ∀ a, x = .ok a → R a v')
    (hp.attempt ?_ ?_ ?_) ?_
  · intro a v' h x hx b hb
    cases hx
    cases hb
    exact h a rfl
  · intro e v' h x hx b hb
    cases hx
    cases hb
  · intro v' h x hx
    cases hx
  · intro x v' h
    cases x with
    | ok a =>
        refine .ret fun b hb => ?_
        cases hb
        exact h a rfl
    | error e =>
        have hE : ∀ c x v₁ v₂ b, ViewsCall now cache s later
            ⟨.updateStatus c, x, v₁, v₂, b⟩ :=
          fun c _ _ _ _ _ _ hw =>
            absurd hw.1 ((peripheral_updateStatus c).spares _)
        simp only [bind, Prog.bind, request]
        exact Prog.Sat.call (by simp) ⟨hE _ _ _ _ _, .fail (by simp)⟩
          ⟨hE _ _ _ _ _, .fail (by simp)⟩ ⟨hE _ _ _ _ _, .fail (by simp)⟩

/-- The cell and the Service come before the first read. -/
theorem peripheral_views {α : Type} {reason : Reason} {text : String}
    {p : Op α} (hp : p.Uses Request.Peripheral)
    (hv : v.cluster.core cache = s.core cache ∧ v.later = some later) :
    (orDegrade now cache reason text p).Sat (twoViews (statefulSetKey cache))
      v (ViewsCall now cache s later) fun res v' => ∀ a, res = .ok a →
        v'.cluster.core cache = s.core cache ∧ v'.later = some later := by
  refine orDegrade_views ?_
  refine (Prog.Sat.of_uses (fun v : Views (statefulSetKey cache) =>
    (v.cluster.core cache, v.later)) ?_ hp).imp ?_ ?_
  · intro r v hr
    show ((v.after r).cluster.core cache, (v.after r).later) = _
    rw [Views.after_other hr.not_reads]
    dsimp only
    rw [core_serve cache r v.cluster hr]
  · intro e he c d hw
    exact absurd hw.1 (he.1.spares _)
  · intro res v' h a _
    injection h with h1 h2
    exact ⟨h1.trans hv.1, h2.trans hv.2⟩

theorem drainListed_spares {what : String} {doomed : List String} :
    (listPods cache what >>= fun ps =>
      drainScaleDownLoop now cache doomed ps true).Uses
      Request.SparesStatefulSets :=
  Prog.Uses.bind listPods_spares fun ps =>
    drainScaleDownLoop_uses ps true (fun _ _ _ => nofun) fun _ _ _ => nofun

/-- What the drain has listed when it answers are the cache's pods. -/
theorem drainListed_listed {what : String} {doomed : List String}
    {listed : List Pod} :
    (listPods cache what >>= fun ps =>
      drainScaleDownLoop now cache doomed ps true).Sat
      (twoViews (statefulSetKey cache)) ⟨s, none, listed⟩ (fun _ => True)
      fun res v' => ∀ b, res = .ok b → v'.listed = cachePods cache s := by
  refine Prog.Sat.bind_returns
    (R := fun _ v' => v'.listed = cachePods cache s) ?_ fun ps v' hv' => ?_
  · unfold listPods
    simp only [bind, pure, Prog.bind, request]
    exact Prog.Sat.call (by simp) ⟨trivial, .ret fun _ _ => rfl⟩
      ⟨trivial, .fail (by simp)⟩ ⟨trivial, .fail (by simp)⟩
  · refine (Prog.Sat.of_uses Views.listed (P := Request.Unlisting)
      (fun _ _ h => Views.after_listed h)
      (drainScaleDownLoop_uses ps true (fun _ _ _ _ => by simp)
        fun _ _ _ _ => by simp)).imp (fun _ _ => trivial) ?_
    exact fun _ _ h _ _ => h.trans hv'

/-- What the drain returns: the second view is in place by then, and the
permission is the first view's. -/
theorem drain_views {reason : Reason} {text : String}
    (hv : v.cluster.core cache = s.core cache ∧ v.later = some later) :
    (orDegrade now cache reason text (drainScaleDown now cache)).Sat
      (twoViews (statefulSetKey cache)) v (ViewsCall now cache s later)
      fun res v' => ∀ b, res = .ok b → v'.later = none
        ∧ v'.cluster.objects .statefulSet (statefulSetKey cache) = later
        ∧ (b = true → FoundAll now cache s v') := by
  obtain ⟨s₁, o, listed⟩ := v
  obtain ⟨hcore, rfl⟩ := hv
  refine orDegrade_views ?_
  rw [drainScaleDown_eq]
  have hE : ∀ x v₂ b, ViewsCall now cache s later
      ⟨.get .statefulSet (statefulSetKey cache), x,
        ⟨s₁, some later, listed⟩, v₂, b⟩ := by
    intro x v₂ b c d hw
    cases hw.1
  refine Prog.Sat.call (by simp) ⟨hE _ _ _, ?_⟩
    ⟨hE _ _ _, .fail (by simp)⟩ ⟨hE _ _ _, .fail (by simp)⟩
  -- the state is the one with the second view, the answer the first
  have hstate : ((twoViews (statefulSetKey cache)).serve
      (.get .statefulSet (statefulSetKey cache))
        ⟨s₁, some later, listed⟩).2
      = ⟨s₁.withStatefulSet (statefulSetKey cache) later, none, listed⟩ :=
    Views.after_read
  have hreply : ((twoViews (statefulSetKey cache)).serve
      (.get .statefulSet (statefulSetKey cache))
        ⟨s₁, some later, listed⟩).1
      = (api.serve (.get .statefulSet (statefulSetKey cache)) s₁).1 := rfl
  rw [hstate, hreply]
  rcases drainFound_cases now cache s₁ with ⟨hnone, heq⟩ | ⟨doomed, hd, heq⟩
  · rw [heq]
    refine .ret fun _ _ => ⟨rfl, withStatefulSet_objects, fun _ => ?_⟩
    exact fun p _ hp =>
      absurd ((doomed_congr (core_sts hcore) p).mpr hp) (hnone p)
  · rw [heq]
    refine (((sat_settled drainListed_sat).and
      (sat_spares drainListed_spares)).and drainListed_listed).imp
      (fun _ h => h.1.2) ?_
    intro res v' h b hres
    obtain ⟨⟨⟨hlater, hend⟩, -⟩, hlisted⟩ := h
    refine ⟨hlater, ?_, fun hb => ?_⟩
    · rw [hend.annotates.objects]
      exact withStatefulSet_objects
    · subst hb
      intro p hp hp'
      have hmem : p ∈ cachePods cache
          (s₁.withStatefulSet (statefulSetKey cache) later) := by
        rw [cachePods_congr withStatefulSet_pods,
          cachePods_congr (core_pods hcore)]
        exact hp
      refine foundDrained_iff.mpr ⟨?_, hp', ?_⟩
      · rw [hlisted true hres]
        exact hmem
      · exact (hend.drained hres).2.2 p hmem
          ((hd p).mp ((doomed_congr (core_sts hcore) p).mpr hp'))

/-- A call that only reports on the cache. -/
theorem spares_updateStatus (c : DistributedCache) :
    (Request.updateStatus c).SparesStatefulSets :=
  (peripheral_updateStatus c).spares

/-- The phase that lowers the replicas acts on the second view. -/
theorem sts_views {reason : Reason} {text : String} {b : Bool}
    (hv : v.later = none
      ∧ v.cluster.objects .statefulSet (statefulSetKey cache) = later
      ∧ (b = true → FoundAll now cache s v)) :
    (orDegrade now cache reason text (reconcileStatefulSet cache b)).Sat
      (twoViews (statefulSetKey cache)) v (ViewsCall now cache s later)
      fun res _ => ∀ a, res = .ok a → True := by
  obtain ⟨s₁, o, listed⟩ := v
  obtain ⟨rfl, hlater, hfound⟩ := hv
  -- the phase lists no pods, so the list is still the drain's
  have huses : (reconcileStatefulSet cache b).Uses Request.Unlisting :=
    reconcileObject_uses fun _ h => h.unlisting
  have hlisted := Prog.Sat.of_uses (V := twoViews (statefulSetKey cache))
    (s := ⟨s₁, none, listed⟩) Views.listed
    (fun _ _ h => Views.after_listed h) huses
  refine orDegrade_views (((sat_settled (reconcileObject_sat (by simp)
    keeps_mutateOwned)).and hlisted).imp ?_ fun _ _ _ _ _ => trivial)
  intro e he c d hw
  obtain ⟨he, -, hsame, -⟩ := he
  obtain ⟨hbefore, rfl, hd⟩ := writesAtMost_lowers he hw.2
  obtain ⟨sts, -, hsts, -, hc, -⟩ := hw.2
  rw [hbefore, hlater] at hsts
  refine ⟨hd, ⟨sts, hsts, hc⟩, ?_⟩
  unfold FoundAll FoundDrained
  rw [hsame]
  exact hfound rfl

/-- All phases of a live object. -/
theorem reconcileLive_views {listed : List Pod} :
    (reconcileLive srt now cache).Sat (twoViews (statefulSetKey cache))
      ⟨s, some later, listed⟩ (ViewsCall now cache s later)
      fun res _ => ∀ a, res = .ok a → True := by
  unfold reconcileLive reconcileOwned
  refine Prog.Sat.bind_returns (R := fun _ _ => True) ?_ fun x v' _ =>
    sat_spares (finish_uses fun c _ => spares_updateStatus c)
  refine Prog.Sat.bind_returns
    (peripheral_views reconcileCell_peripheral ⟨rfl, rfl⟩)
    fun _ v₁ h₁ => ?_
  refine Prog.Sat.bind_returns
    (peripheral_views reconcileServiceTwice_peripheral h₁)
    fun _ v₂ h₂ => ?_
  refine Prog.Sat.bind_returns (drain_views h₂) fun b v₃ h₃ => ?_
  refine Prog.Sat.bind_returns (sts_views h₃) fun _ v₄ _ => ?_
  refine sat_spares (Prog.Uses.bind ?_ fun _ => trivial)
  exact orDegrade_uses reconcileRing_spares fun c _ => spares_updateStatus c

/-- `Reconcile` with two views: the replicas are lowered on the strength
of the first. -/
theorem reconcile_views (srt : SliceSort) (now : Time)
    {key : NamespacedName} {stored : {o : DistributedCache // o.key = key}}
    (hstored : s.objects .distributedCache key = some stored)
    (later : Option {o : Object .statefulSet //
      o.key = statefulSetKey stored.1}) :
    (reconcile srt now key).Sat (twoViews (statefulSetKey stored.1))
      ⟨s, some later, []⟩ (ViewsCall now stored.1 s later)
      fun res _ => ∀ a, res = .ok a → True := by
  unfold reconcile
  simp only [bind, pure, Prog.bind, request]
  refine Prog.Sat.read rfl (by simp) (fun _ _ _ _ hw => by cases hw.1) ?_
    (.fail (by simp))
  have hreply : ((twoViews (statefulSetKey stored.1)).serve
      (.get .distributedCache key) ⟨s, some later, []⟩).1
      = (api.serve (.get .distributedCache key) s).1 := rfl
  rw [hreply, serve_get_some hstored]
  dsimp only
  split
  · exact sat_spares (reconcileDeletion_uses
      (fun r h => h.spares (by simp)) (fun _ h => by cases h)
      (fun _ _ h => by cases h) tearDown_spares)
  · split
    · exact sat_spares (holdCache_uses (spares_updateCache _))
    · exact reconcileLive_views

end

/-- Where `Reconcile` lowers the replicas from the `c` of the second view
to `d`, the drain before it has found every listed pod in that range
drained exactly if the first view dooms each of them: it has looked at no
others. -/
theorem released_range_iff (srt : SliceSort) (now : Time)
    (key : NamespacedName) (s : Cluster)
    (stored : {o : DistributedCache // o.key = key})
    (hstored : s.objects .distributedCache key = some stored)
    (later : Option {o : Object .statefulSet //
      o.key = statefulSetKey stored.1}) (fs : List Fault)
    (e : Entry Api (Views (statefulSetKey stored.1)))
    (he : e ∈ ((reconcile srt now key).exec
      (twoViews (statefulSetKey stored.1)) fs ⟨s, some later, []⟩).trace)
    (c d : Int32) (hw : WritesLower stored.1 e c d) :
    (∃ sts, later = some sts ∧ sts.1.body.replicas = some c)
      ∧ stored.1.body.spec.replicas = some d
      ∧ ((∀ p ∈ cachePods stored.1 s, ∀ i : Int, d.toInt ≤ i →
          i < c.toInt → p.name = podName stored.1 i →
          FoundDrained now stored.1 s e.before p)
        ↔ ∀ p ∈ cachePods stored.1 s, ∀ i : Int, d.toInt ≤ i →
          i < c.toInt → p.name = podName stored.1 i →
          ∃ first, s.objects .statefulSet (statefulSetKey stored.1)
              = some first
            ∧ i < (first.1.body.replicas.getD 0).toInt) := by
  obtain ⟨hd, hlater, hfound⟩ :=
    (reconcile_views srt now hstored later fs).1 e he c d hw
  have hdesired : desiredReplicas stored.1 = d := by
    unfold desiredReplicas
    rw [hd]
    rfl
  refine ⟨hlater, hd, fun h p hp i hlo hhi hname => ?_,
    fun h p hp i hlo hhi hname => ?_⟩
  · obtain ⟨-, ⟨first, hfirst, hmem⟩, -⟩ :=
      foundDrained_iff.mp (h p hp i hlo hhi hname)
    obtain ⟨j, -, hj, hjname⟩ := mem_doomedNames.mp hmem
    have hij : j = i := podName_injective (hjname.trans hname)
    rw [hij] at hj
    exact ⟨first, hfirst, hj⟩
  · obtain ⟨first, hfirst, hi⟩ := h p hp i hlo hhi hname
    refine hfound p hp ⟨first, hfirst, mem_doomedNames.mpr ?_⟩
    rw [hdesired]
    exact ⟨i, hlo, hi, hname.symm⟩

/-- The StatefulSet that turns up between the two reads, with two
replicas. -/
def ordersLater : Option {o : Object .statefulSet //
    o.key = statefulSetKey (ordersCache 1)} :=
  some ⟨ordersStatefulSet 2, rfl⟩

/-- `Reconcile` at second 130 of a cache with one replica, on a
StatefulSet with `c` replicas of which there are two by the second
read. -/
def ordersTwoViews (c : Int32) (since : Option Int64) :
    List (Entry Api (Views (statefulSetKey (ordersCache 1)))) :=
  ((reconcile .insertionSort (Time.ofUnix 130) ordersKey).exec
    (twoViews (statefulSetKey (ordersCache 1))) []
    ⟨ordersCluster 1 c (ordersPods (true, none) (true, since)),
      some ordersLater, []⟩).trace

/-- Both views show two replicas, and the drain finds the second pod
drained. -/
theorem released_range_iff_orders :
    ∃ e ∈ ordersTwoViews 2 (some 100), WritesLower (ordersCache 1) e 2 1
      ∧ ∀ p ∈ cachePods (ordersCache 1) (ordersCluster 1 2
          (ordersPods (true, none) (true, some 100))),
        ∀ i : Int, 1 ≤ i → i < 2 → p.name = podName (ordersCache 1) i →
          FoundDrained (Time.ofUnix 130) (ordersCache 1)
            (ordersCluster 1 2 (ordersPods (true, none) (true, some 100)))
            e.before p := by
  have hex : ∃ e ∈ ordersTwoViews 2 (some 100),
      WritesLower (ordersCache 1) e 2 1 := by
    decide +kernel
  obtain ⟨e, he, hw⟩ := hex
  refine ⟨e, he, hw, ?_⟩
  refine (released_range_iff .insertionSort (Time.ofUnix 130) ordersKey
    _ ⟨ordersCache 1, rfl⟩ rfl ordersLater [] e he 2 1 hw).2.2.mpr ?_
  intro p _ i _ hhi _
  exact ⟨⟨ordersStatefulSet 2, rfl⟩, rfl, hhi⟩

theorem not_foundDrained {key : NamespacedName} {now : Time}
    {cache : DistributedCache} {s : Cluster} {v : Views key} {p : Pod}
    (h : v.listed = []) : ¬FoundDrained now cache s v p := by
  intro hp
  have hmem := (foundDrained_iff.mp hp).1
  rw [h] at hmem
  cases hmem

/-- The second pod is let go, and the drain has not looked at it. -/
def ReleasedUnexamined (since : Option Int64) : Prop :=
  ∃ e ∈ ordersTwoViews 1 since, WritesLower (ordersCache 1) e 2 1
    ∧ ∃ p ∈ cachePods (ordersCache 1) (ordersCluster 1 1
        (ordersPods (true, none) (true, since))),
      p.name = podName (ordersCache 1) 1
        ∧ (since = none →
          ¬Drained (Time.ofUnix 130) (grace (ordersCache 1)) p)
        ∧ ¬FoundDrained (Time.ofUnix 130) (ordersCache 1)
          (ordersCluster 1 1 (ordersPods (true, none) (true, since)))
          e.before p

/-- It is so if no pods were listed when it was let go. -/
theorem releasedUnexamined_of_unlisted {since : Option Int64}
    (h : ∃ e ∈ ordersTwoViews 1 since, WritesLower (ordersCache 1) e 2 1
      ∧ e.before.listed = []
      ∧ ∃ p ∈ cachePods (ordersCache 1) (ordersCluster 1 1
          (ordersPods (true, none) (true, since))),
        p.name = podName (ordersCache 1) 1
          ∧ (since = none →
            ¬Drained (Time.ofUnix 130) (grace (ordersCache 1)) p)) :
    ReleasedUnexamined since := by
  obtain ⟨e, he, hw, hlisted, p, hp, hname, hdrained⟩ := h
  exact ⟨e, he, hw, p, hp, hname, hdrained, not_foundDrained hlisted⟩

/-- The first view shows one replica, so that the drain looks at no pod;
the second one shows two, and the second pod is let go unexamined, be it
without an annotation or with an old one. -/
theorem unexamined_pod_is_released :
    ReleasedUnexamined none ∧ ReleasedUnexamined (some 100) :=
  ⟨releasedUnexamined_of_unlisted (by decide +kernel),
    releasedUnexamined_of_unlisted (by decide +kernel)⟩

end CacheOperator
