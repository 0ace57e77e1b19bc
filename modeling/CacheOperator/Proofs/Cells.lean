/-
Whether a cell outlives its cache.

The only namespace a Reconcile of a cache ever creates is the one named
after it, and that is where a deletion looks for what to tear down, as
long as the spec asks for isolation. `made` records what the Reconciles of
a run have created; `CellCall` says what is known of the namespaces at the
call that removes the finalizer: with isolation the cell has just been
found gone, without it nobody has looked.
-/
import CacheOperator.Proofs.DrainRuns
import CacheOperator.Proofs.Settled
import CacheOperator.Proofs.Status

namespace CacheOperator

open Lib

/-- The name of the cell's namespace. -/
def cellNamespace (key : NamespacedName) : String :=
  cellNamespacePrefix ++ key.name

-- ======================================================= what is made

/-- A namespace that the call creates. -/
def madeBy (e : Call) : Option String :=
  match e.req with
  | .create .ns o =>
      if (e.before.objects .ns o.key).isNone
          && (e.after.objects .ns o.key).isSome then
        some o.name
      else none
  | _ => none

/-- The cluster, and the namespaces the Reconciles have created. -/
structure CellWorld where
  cluster : Cluster
  made : List String

/-- A Reconcile, or any change of the cluster from outside. -/
def cellStep (srt : SliceSort) (key : NamespacedName) (w : CellWorld) :
    ClusterEvent → CellWorld
  | .reconcile now fs =>
      { cluster := ((reconcile srt now key).exec api fs w.cluster).state
        made := w.made ++ ((reconcile srt now key).exec api fs
          w.cluster).trace.filterMap madeBy }
  | .change s => { w with cluster := s }

/-- The call creates no namespace but this one. -/
def Request.MakesOnly (name : String) : Request → Prop
  | .create .ns o => o.name = name
  | _ => True

section
variable {srt : SliceSort} {now : Time} {key : NamespacedName}
  {cache : DistributedCache} {s : Cluster}

theorem Request.OfObject.makesOnly {k : Kind} {key' : NamespacedName}
    {r : Request} {name : String} (h : r.OfObject cache k key')
    (hk : k = .ns → key'.name = name) : r.MakesOnly name := by
  cases h with
  | get => trivial
  | create o ho =>
    cases k with
    | ns =>
      have hname : o.name = key'.name := congrArg NamespacedName.name ho
      exact hname.trans (hk rfl)
    | _ => trivial
  | update o ho => trivial
  | event reason text => trivial

theorem reconcileCell_makesOnly :
    (reconcileCell cache).Uses
      (Request.MakesOnly (cellNamespacePrefix ++ cache.name)) := by
  by_cases hiso : isolated cache = true
  · have htarget : targetNamespace cache
        = cellNamespacePrefix ++ cache.name := by
      unfold targetNamespace
      rw [if_pos hiso]
    apply reconcileCell_uses
    intro k key' r howned _ _ h
    apply h.makesOnly
    intro hk
    cases howned with
    | cell => exact htarget
    | _ => cases hk
  · unfold reconcileCell
    rw [if_pos (by simpa using hiso)]
    trivial

theorem reconcileLive_makesOnly :
    (reconcileLive srt now cache).Uses
      (Request.MakesOnly (cellNamespacePrefix ++ cache.name)) :=
  reconcileLive_uses_of reconcileCell_makesOnly
    (drainScaleDown_uses trivial trivial (fun _ => trivial)
      fun _ _ => trivial)
    (fun _ _ _ _ hk h => h.makesOnly fun hns => absurd hns hk) trivial
    fun _ _ => trivial

/-- The only namespace a Reconcile creates is the cell's. -/
theorem reconcile_makesOnly :
    (reconcile srt now key).Uses
      (Request.MakesOnly (cellNamespace key)) := by
  refine ⟨trivial, fun x => ?_⟩
  cases x with
  | error e =>
    show Prog.Uses _ (if _ then _ else _)
    split <;> trivial
  | ok stored =>
    have hname : cellNamespacePrefix ++ stored.1.name
        = cellNamespace key := by
      have hkey := congrArg NamespacedName.name stored.2
      exact congrArg (cellNamespacePrefix ++ ·) hkey
    show Prog.Uses _ (if _ then _ else _)
    split
    · exact reconcileDeletion_uses
        (fun _ h => h.makesOnly fun hns => absurd hns (by simp)) trivial
        (fun _ => trivial)
        (tearDown_uses trivial (fun _ => trivial) trivial
          fun _ _ => trivial)
    · split
      · exact holdCache_uses trivial
      · rw [← hname]
        exact reconcileLive_makesOnly

theorem madeBy_of_makesOnly {e : Call} {name made : String}
    (h : e.req.MakesOnly name) (hmade : madeBy e = some made) :
    made = name := by
  unfold madeBy at hmade
  split at hmade
  · next o hreq =>
    rw [hreq] at h
    split at hmade
    · rw [← Option.some.inj hmade]
      exact h
    · cases hmade
  · cases hmade

/-- One event adds nothing but the cell. -/
theorem cellStep_made (w : CellWorld) (ev : ClusterEvent)
    (h : ∀ n ∈ w.made, n = cellNamespace key) :
    ∀ n ∈ (cellStep srt key w ev).made, n = cellNamespace key := by
  intro n hn
  cases ev with
  | change s' => exact h n hn
  | reconcile now fs =>
    rcases List.mem_append.mp hn with hn | hn
    · exact h n hn
    · obtain ⟨e, he, hmade⟩ := List.mem_filterMap.mp hn
      exact madeBy_of_makesOnly (reconcile_makesOnly.trace he) hmade

/-- What the Reconciles of a run have created is the cell. -/
theorem made_eq_cell {P : CellWorld → ClusterEvent → Prop}
    {s₀ : Cluster} {w : CellWorld}
    (hrun : Run (cellStep srt key) P ⟨s₀, []⟩ w) :
    ∀ n ∈ w.made, n = cellNamespace key :=
  hrun.invariant (fun w ev h _ => cellStep_made w ev h) (by simp)

end

-- ======================================================= the deletion

/-- The call is about no object of these kinds. -/
def Request.SparesKinds (ks : List Kind) (r : Request) : Prop :=
  ∀ k ∈ ks, ∀ key, r.target ≠ some (.object k key)

/-- At the removal of the finalizer the cell has been found gone, or the
namespaces are as they were at the start and there is none to look for. -/
def CellCall (cache : DistributedCache) (key : NamespacedName)
    (s : Cluster) (e : Call) : Prop :=
  RemovesFinalizer key e →
    e.after.objects .ns = e.before.objects .ns
      ∧ (isCrossNamespaceChild cache = true ∧
          e.before.objects .ns ⟨"", targetNamespace cache⟩ = none
        ∨ isCrossNamespaceChild cache = false
          ∧ e.before.objects .ns = s.objects .ns)

section
variable {srt : SliceSort} {now : Time} {key : NamespacedName}
  {cache : DistributedCache} {s s₁ : Cluster} {ks : List Kind}

theorem objects_of_sparesKinds {r : Request} (h : r.SparesKinds ks)
    {k : Kind} (hk : k ∈ ks) (s : Cluster) :
    (api.serve r s).2.objects k = s.objects k :=
  funext fun key => serve_objects (h k hk key)

/-- Programs that spare the cache objects remove no finalizer. -/
theorem cellCall_of_spares {α : Type} {p : Op α}
    (hp : p.Uses (Request.SparesKinds [.distributedCache])) :
    p.Sat api s₁ (CellCall cache key s) fun _ _ => True := by
  refine (Prog.Sat.of_uses (finalizersOf key) ?_ hp).imp ?_
    fun _ _ _ => trivial
  · intro r s h
    unfold finalizersOf
    rw [objects_of_sparesKinds h (by simp)]
  · intro e ⟨_, hb, ha⟩ hrem
    exact absurd hrem (not_removesFinalizer_of_same (ha.trans hb.symm))

/-- If they spare the namespaces as well, these stay. -/
theorem spares_sat {α : Type} {p : Op α}
    (hp : p.Uses (Request.SparesKinds [.distributedCache, .ns])) :
    p.Sat api s₁ (CellCall cache key s)
      fun _ s' => s'.objects .ns = s₁.objects .ns := by
  have hns : p.Sat api s₁ _ fun _ s' => s'.objects .ns = s₁.objects .ns :=
    .of_uses (fun s => s.objects .ns)
      (fun r s h => objects_of_sparesKinds h (by simp) s) hp
  refine ((cellCall_of_spares (hp.mono ?_)).and hns).imp (fun e he => he.1)
    fun _ _ h => h.2
  intro r h k hk
  exact h k (by simp_all)

theorem Request.OfObject.sparesKinds {k : Kind} {key' : NamespacedName}
    {r : Request} (h : r.OfObject cache k key') (hk : k ∉ ks) :
    r.SparesKinds ks := by
  intro k' hk' key heq
  cases h with
  | get => cases heq
  | create o ho =>
    injection heq with heq
    injection heq with heq
    exact hk (heq ▸ hk')
  | update o ho =>
    injection heq with heq
    injection heq with heq
    exact hk (heq ▸ hk')
  | event reason text => cases heq

/-- The release of the object touches no namespace. -/
theorem releaseCache_sat
    (h : isCrossNamespaceChild cache = true ∧
        s₁.objects .ns ⟨"", targetNamespace cache⟩ = none
      ∨ isCrossNamespaceChild cache = false
        ∧ s₁.objects .ns = s.objects .ns) :
    (releaseCache cache).Sat api s₁ (CellCall cache key s)
      fun _ _ => True := by
  have hserve : (api.serve (.update .distributedCache
      (removeFinalizer cache)) s₁).2.objects .ns = s₁.objects .ns :=
    funext fun key => serve_objects (by simp [Request.target])
  unfold releaseCache
  simp only [bind, pure, Prog.bind, request]
  refine Prog.Sat.call trivial ⟨fun _ => ⟨hserve, h⟩, ?_⟩
    ⟨fun _ => ⟨rfl, h⟩, .fail trivial⟩ ⟨fun _ => ⟨hserve, h⟩, .fail trivial⟩
  cases (api.serve (.update .distributedCache
      (removeFinalizer cache)) s₁).1 with
  | error e => exact .fail trivial
  | ok c =>
    exact cellCall_of_spares ⟨by simp [Request.SparesKinds, Request.target],
      fun _ => trivial⟩

/-- The answer that the cell is gone is the state's. -/
theorem deleteCellNamespace_returns :
    (deleteCellNamespace cache).Returns api s₁ fun done s' =>
      done = true → s'.objects .ns ⟨"", targetNamespace cache⟩ = none := by
  unfold deleteCellNamespace
  simp only [bind, pure, Prog.bind, request]
  refine Prog.Returns.read rfl ?_ .fail
  cases hns : s₁.objects .ns ⟨"", targetNamespace cache⟩ with
  | none =>
    rw [serve_get_none hns]
    exact .ret fun _ => hns
  | some ns =>
    rw [serve_get_some hns]
    dsimp only
    split
    · exact .ret (by simp)
    · refine .call ?_ fun _ => .fail
      have hok : (api.serve (.deleteNamespace (targetNamespace cache))
          s₁).1 = .ok () := by
        show (s₁.serveDeleteNamespace _).1 = _
        unfold Cluster.serveDeleteNamespace
        rw [hns]
      rw [hok]
      exact .read rfl (.ret (by simp)) (.ret (by simp))

theorem tearDown_sat (h : s₁.objects .ns = s.objects .ns) :
    (tearDown cache).Sat api s₁ (CellCall cache key s)
      fun _ _ => True := by
  unfold tearDown
  by_cases hcross : isCrossNamespaceChild cache = true
  · rw [if_pos hcross]
    have hreturns : (wrapping "delete cell namespace"
        (deleteCellNamespace cache)).Returns api s₁ fun done s' =>
          done = true →
            s'.objects .ns ⟨"", targetNamespace cache⟩ = none :=
      wrapping_returns deleteCellNamespace_returns
    have hcalls : (wrapping "delete cell namespace"
        (deleteCellNamespace cache)).Sat api s₁ (CellCall cache key s)
          fun _ _ => True :=
      cellCall_of_spares (wrapping_uses (deleteCellNamespace_uses
        (fun _ _ _ => nofun) (by simp [Request.SparesKinds, Request.target])
        fun _ _ _ _ _ => nofun))
    refine Prog.Sat.bind ((hcalls.and hreturns).imp (fun e he => he.1)
      fun _ _ h => h.2) ?_ (fun _ _ _ => trivial) fun _ _ => trivial
    intro done s' hdone
    cases done with
    | false => exact .ret trivial
    | true => exact releaseCache_sat (Or.inl ⟨hcross, hdone true rfl rfl⟩)
  · rw [if_neg hcross]
    exact releaseCache_sat (Or.inr ⟨Bool.eq_false_iff.mpr hcross, h⟩)

theorem reconcileDeletion_cellCall :
    (reconcileDeletion srt now cache).Sat api s (CellCall cache key s)
      fun _ _ => True := by
  -- up to the teardown neither a namespace nor the object is touched
  have hlist : (listPods cache "list pods for deletion drain").Uses
      (Request.SparesKinds [.distributedCache, .ns]) :=
    listPods_uses fun _ _ _ => nofun
  have hloop : ∀ ps b, (reconcileDeletionLoop now cache ps b).Uses
      (Request.SparesKinds [.distributedCache, .ns]) :=
    fun ps b => reconcileDeletionLoop_uses ps b
      fun _ _ _ _ _ _ => by simp [Request.target]
  have hring : (reconcileRing srt cache).attempt.Uses
      (Request.SparesKinds [.distributedCache, .ns]) :=
    (reconcileRing_uses (fun _ _ _ => nofun)
      fun _ h => h.sparesKinds (by simp)).attempt
  unfold reconcileDeletion
  split
  · exact .ret trivial
  · refine Prog.Sat.bind (spares_sat hlist) ?_ (fun _ _ _ => trivial)
      fun _ _ => trivial
    intro ps s1 h1
    refine Prog.Sat.bind (spares_sat (hloop ps true)) ?_
      (fun _ _ _ => trivial) fun _ _ => trivial
    intro allDrained s2 h2
    refine Prog.Sat.bind (spares_sat hring) ?_ (fun _ _ _ => trivial)
      fun _ _ => trivial
    intro x s3 h3
    split
    · exact .ret trivial
    · exact tearDown_sat ((h3.trans h2).trans h1)

/-- Whatever fails, the finalizer goes only with what `CellCall` says. -/
theorem reconcile_cellCall
    {stored : {o : DistributedCache // o.key = key}}
    (hstored : s.objects .distributedCache key = some stored)
    {fs : List Fault} {e : Call}
    (he : e ∈ ((reconcile srt now key).exec api fs s).trace) :
    CellCall stored.1 key s e := by
  by_cases hdel : stored.1.metadata.deleting = true
  · have hsat : (reconcile srt now key).Sat api s (CellCall stored.1 key s)
        fun _ _ => True := by
      unfold reconcile
      simp only [bind, pure, Prog.bind, request]
      refine Prog.Sat.read rfl trivial ?_ ?_ (.fail trivial)
      · intro x b hrem
        exact absurd hrem (not_removesFinalizer_of_same rfl)
      · rw [serve_get_some hstored]
        dsimp only
        rw [if_pos hdel]
        exact reconcileDeletion_cellCall
    exact (hsat fs).1 e he
  · intro hrem
    have hrelease := ((reconcile_sat srt now hstored) fs).1 e he
    exact absurd (hrelease.deletes (Or.inr hrem)).1 hdel

end

/-- Whatever happened to the cluster and whatever failed in earlier
Reconciles: when a Reconcile removes the finalizer, every namespace that
one of them created for the cache is gone, if and only if those that were
created are gone already where the spec no longer asks for isolation. -/
theorem cells_gone_iff (srt : SliceSort) (key : NamespacedName)
    (s₀ : Cluster) (w : CellWorld)
    (hrun : Run (cellStep srt key) (fun _ _ => True) ⟨s₀, []⟩ w)
    (now : Time) (fs : List Fault)
    (stored : {o : DistributedCache // o.key = key})
    (hstored : w.cluster.objects .distributedCache key = some stored)
    (e : Call)
    (he : e ∈ ((reconcile srt now key).exec api fs w.cluster).trace)
    (hrem : RemovesFinalizer key e) :
    (∀ n ∈ w.made, n ≠ key.ns → e.after.objects .ns ⟨"", n⟩ = none)
      ↔ (isolated stored.1 = false → ∀ n ∈ w.made, n ≠ key.ns →
        w.cluster.objects .ns ⟨"", n⟩ = none) := by
  have hmade := made_eq_cell hrun
  obtain ⟨hafter, hcase⟩ := reconcile_cellCall hstored he hrem
  have hns : stored.1.ns = key.ns := congrArg NamespacedName.ns stored.2
  have hname : stored.1.name = key.name :=
    congrArg NamespacedName.name stored.2
  rw [hafter]
  by_cases hiso : isolated stored.1 = true
  · -- the teardown looks where the cell was made
    have htarget : targetNamespace stored.1 = cellNamespace key := by
      unfold targetNamespace cellNamespace
      rw [if_pos hiso, hname]
    constructor
    · intro _ hno
      rw [hiso] at hno
      cases hno
    · intro _ n hn hne
      obtain rfl := hmade n hn
      rcases hcase with ⟨-, hgone⟩ | ⟨hsame, -⟩
      · rw [htarget] at hgone
        exact hgone
      · unfold isCrossNamespaceChild at hsame
        rw [htarget, hns] at hsame
        exact absurd (by simpa using hsame) hne
  · have hcross : isCrossNamespaceChild stored.1 = false := by
      unfold isCrossNamespaceChild targetNamespace
      rw [if_neg hiso]
      simp
    rcases hcase with ⟨htrue, -⟩ | ⟨-, hsame⟩
    · rw [hcross] at htrue
      cases htrue
    · rw [hsame]
      exact ⟨fun h _ => h, fun h => h (Bool.eq_false_iff.mpr hiso)⟩

-- ==================================================== a small cluster

theorem removesFinalizer_iff {key : NamespacedName} {e : Call} :
    RemovesFinalizer key e ↔
      (e.before.objects .distributedCache key).any (fun old =>
          old.1.metadata.deleting
            && decide (drainFinalizer ∈ old.1.metadata.finalizers)) = true
        ∧ (e.after.objects .distributedCache key).all (fun new =>
          decide (drainFinalizer ∉ new.1.metadata.finalizers)) = true := by
  unfold RemovesFinalizer
  rw [Option.any_eq_true, Option.all_eq_true]
  simp only [Bool.and_eq_true, decide_eq_true_eq]
  constructor
  · intro ⟨old, hold, hdel, hmem, hgone⟩
    exact ⟨⟨old, hold, hdel, hmem⟩, hgone⟩
  · intro ⟨⟨old, hold, hdel, hmem⟩, hgone⟩
    exact ⟨old, hold, hdel, hmem, hgone⟩

instance (key : NamespacedName) (e : Call) :
    Decidable (RemovesFinalizer key e) :=
  decidable_of_iff _ removesFinalizer_iff.symm

/-- The cache under deletion, with or without isolation. -/
def ordersDeleted (tenant : Option TenantSpec) : DistributedCache :=
  { metadata := { (ordersTenant 1).metadata with deleting := true }
    body := { (ordersTenant 1).body with spec :=
      { (ordersTenant 1).body.spec with tenant := tenant } } }

/-- The first Reconcile has made the cell. -/
theorem ordersCell_made :
    cellStep .insertionSort ordersKey ⟨ordersCell, []⟩
        (.reconcile (Time.ofUnix 100) [])
      = ⟨ordersCellReady, ["cache-orders-cache"]⟩ := by
  have hmade : ((reconcile .insertionSort (Time.ofUnix 100) ordersKey).exec
      api [] ordersCell).trace.filterMap madeBy
        = ["cache-orders-cache"] := by
    decide +kernel
  unfold cellStep
  dsimp only
  rw [hmade]
  rfl

theorem ordersCell_run (s : Cluster) :
    Run (cellStep .insertionSort ordersKey) (fun _ _ => True)
      ⟨ordersCell, []⟩ ⟨s, ["cache-orders-cache"]⟩ := by
  have hrun : Run (cellStep .insertionSort ordersKey) (fun _ _ => True)
      ⟨ordersCell, []⟩ ⟨ordersCellReady, ["cache-orders-cache"]⟩ := by
    rw [← ordersCell_made]
    exact .snoc .nil _ trivial
  exact .snoc hrun (.change s) trivial

/-- The user has deleted the cache; its pods and its namespace are
gone. -/
def ordersEmptied : Cluster :=
  { (ordersCellReady.put (ordersDeleted (some ⟨true⟩))).remove .ns
      ⟨"", "cache-orders-cache"⟩ with pods := .empty }

theorem cells_gone_iff_orders :
    ∃ e ∈ ((reconcile .insertionSort (Time.ofUnix 200) ordersKey).exec api
        [] ordersEmptied).trace,
      RemovesFinalizer ordersKey e
        ∧ ∀ n ∈ ["cache-orders-cache"], n ≠ ordersKey.ns →
          e.after.objects .ns ⟨"", n⟩ = none := by
  have hany : ∃ e ∈ ((reconcile .insertionSort (Time.ofUnix 200)
      ordersKey).exec api [] ordersEmptied).trace,
      RemovesFinalizer ordersKey e := by
    decide +kernel
  obtain ⟨e, he, hrem⟩ := hany
  refine ⟨e, he, hrem, ?_⟩
  exact (cells_gone_iff .insertionSort ordersKey ordersCell
    ⟨ordersEmptied, ["cache-orders-cache"]⟩ (ordersCell_run _)
    (Time.ofUnix 200) [] ⟨ordersDeleted (some ⟨true⟩), rfl⟩ rfl e he
    hrem).mpr nofun

/-- The user clears `tenant` and deletes the cache: the finalizer goes at
once, and the cell stays behind with all that is in it. -/
theorem cleared_tenant_leaks_cell :
    Run (cellStep .insertionSort ordersKey) (fun _ _ => True)
        ⟨ordersCell, []⟩
        ⟨ordersCellReady.put (ordersDeleted none), ["cache-orders-cache"]⟩
      ∧ ∃ e ∈ ((reconcile .insertionSort (Time.ofUnix 200) ordersKey).exec
          api [] (ordersCellReady.put (ordersDeleted none))).trace,
        RemovesFinalizer ordersKey e ∧ "cache-orders-cache" ≠ ordersKey.ns
          ∧ (e.after.objects .ns ⟨"", "cache-orders-cache"⟩).isSome
          ∧ ordersCellPod 0 ∈ e.after.pods.items :=
  ⟨ordersCell_run _, by decide +kernel⟩

end CacheOperator
