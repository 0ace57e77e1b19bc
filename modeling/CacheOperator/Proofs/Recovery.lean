/-
The control loop recovers.

Reconciles of one cache go on side by side, from reads of any age, their
calls refused or lost, and stop anywhere. Whatever they leave behind,
they do not take away what the loop needs: the object stays with its
spec, what they write is theirs, and the drains they begin do not lie
ahead of the clock (`Recoverable`, kept by every `OperatorStep`). So when
the disturbance is over, a few Reconciles bring everything to rest.
-/
import CacheOperator.Proofs.Converges
import CacheOperator.Proofs.DrainPhases
import CacheOperator.Proofs.Ownership

namespace CacheOperator

open Lib

section

variable {srt : SliceSort} {now t : Time} {key : NamespacedName}
  {spec : DistributedCacheSpec} {cache : DistributedCache}
  {s s' : Cluster} {w : Timeline Cluster} {k : Kind}

-- ======================================================== what is owned

/-- A write of an object that is the cache's own, or of one that is not
looked at. -/
theorem Unclaimed.put (h : Unclaimed cache s) (o : Object k)
    (ho : k ∈ [Kind.distributedCache, .ns] ∨ ¬Foreign cache o) :
    Unclaimed cache (s.put o) := by
  have hkept : ∀ (k' : Kind) (key' : NamespacedName),
      k' ∉ [Kind.distributedCache, .ns] →
      ¬Foreign cache (s.storedOr k' key') →
        ¬Foreign cache ((s.put o).storedOr k' key') := by
    intro k' key' hk' hold
    by_cases hsame : Target.object k o.key = .object k' key'
    · injection hsame with hkind hkey
      subst hkind
      rw [storedOr_of_some (Cluster.put_objects_key o hkey)]
      exact ho.resolve_left hk'
    · rw [storedOr_congr (Cluster.put_objects_of_ne hsame)]
      exact hold
  exact
    { quota := fun hiso => hkept _ _ (by decide) (h.quota hiso)
      policy := fun hiso => hkept _ _ (by decide) (h.policy hiso)
      service := hkept _ _ (by decide) h.service
      statefulSet := hkept _ _ (by decide) h.statefulSet
      ring := hkept _ _ (by decide) h.ring }

/-- What a callback makes is the cache's own. -/
theorem Shapes.made {R : Ring → Prop} {key' : NamespacedName}
    {mutate : Object k → Except GoError (Object k)} {o o' : Object k}
    (hshape : Shapes cache R k key' mutate) (h : mutate o = .ok o') :
    k ∈ [Kind.distributedCache, .ns] ∨ ¬Foreign cache o' := by
  cases hshape with
  | cell hiso => exact Or.inl (by decide)
  | _ => exact Or.inr (mutateOwned_ok h).2.2.2.2.1

-- ============================================================== a step

/-- A write beside the object and the pods. -/
theorem Recoverable.put (h : Recoverable key spec t s) {o : Object k}
    (hk : k ≠ .distributedCache)
    (ho : ∀ stored : {o : DistributedCache // o.key = key},
      stored.1.body.spec = spec →
        k ∈ [Kind.distributedCache, .ns] ∨ ¬Foreign stored.1 o) :
    Recoverable key spec t (s.put o) := by
  obtain ⟨stored, hstored, hlive, hspec, hun, hahead⟩ := h
  refine ⟨stored, ?_, hlive, hspec, hun.put o (ho stored hspec), hahead⟩
  rw [Cluster.put_objects_of_ne]
  · exact hstored
  · intro heq
    injection heq with heq
    exact hk heq

/-- A write of the object that leaves its spec. -/
theorem Recoverable.put_cache (h : Recoverable key spec t s)
    {old new : DistributedCache} {hkey : old.key = key}
    (hold : s.objects .distributedCache key = some ⟨old, hkey⟩)
    (hnew : new.key = key) (hspec : new.body.spec = old.body.spec)
    (hlive : new.metadata.deleting = old.metadata.deleting) :
    Recoverable key spec t (s.put (s.stamp new)) := by
  obtain ⟨stored, hstored, hlive', hspec', hun, hahead⟩ := h
  cases hstored.symm.trans hold
  let stored' : {o : DistributedCache // o.key = key} :=
    ⟨s.stamp new, hnew⟩
  have hcell : SameCell old stored'.1 := by
    refine ⟨hnew.trans hkey.symm, ?_⟩
    show new.body.spec.tenant = old.body.spec.tenant
    rw [hspec]
  refine ⟨stored', Cluster.put_objects_key (s.stamp new) hnew,
    hlive.trans hlive', hspec.trans hspec', ?_, ?_⟩
  · exact (hun.put (k := .distributedCache) _
      (Or.inl (by decide))).sameCell hcell
  · intro p hp
    rw [hcell.cachePods] at hp
    exact hahead p hp

/-- The object that a Reconcile once read is about the same cell, and was
not under deletion. -/
theorem StoredOnce.sameCell (honce : StoredOnce w key cache)
    (hw : Proper (Recoverable key spec t) w)
    {stored : {o : DistributedCache // o.key = key}}
    (hspec : stored.1.body.spec = spec) :
    SameCell cache stored.1 ∧ cache.metadata.deleting = false := by
  obtain ⟨s, hs, hkey, hstored⟩ := honce
  obtain ⟨stored', hstored', hlive, hspec', -, -⟩ := (hw.each s hs).2
  cases hstored'.symm.trans hstored
  refine ⟨⟨stored.2.trans hkey.symm, ?_⟩, hlive⟩
  rw [hspec, ← hspec']

/-- A pod that is told to drain is not told so ahead of the clock. -/
theorem Recoverable.told (h : Recoverable key spec t s)
    (hle : now ≤ t) {p : Pod} :
    Recoverable key spec t (s.putPod (annotate now p)) := by
  obtain ⟨stored, hstored, hlive, hspec, hun, hahead⟩ := h
  refine ⟨stored, hstored, hlive, hspec, ?_, fun q hq => ?_⟩
  · exact ⟨hun.quota, hun.policy, hun.service, hun.statefulSet, hun.ring⟩
  · have hmem := mem_cachePods hq
    rw [putPod_annotate_items, List.mem_map] at hmem
    obtain ⟨q₀, hq₀, heq⟩ := hmem
    by_cases hkey : q₀.key = p.key
    · rw [if_pos hkey] at heq
      rw [← heq]
      refine NotAhead.later (fresh_readable ?_).2 hle
      exact get_annotate
    · rw [if_neg hkey] at heq
      rw [heq] at hq₀
      exact hahead q (cachePods_of_mem hq hq₀)

/-- No turn of a Reconcile takes away what the loop needs. -/
theorem OperatorStep.recoverable (h : OperatorStep srt now key w s')
    (hw : Proper (Recoverable key spec t) w) (hle : now ≤ t) :
    Recoverable key spec t s' := by
  have hpresent := hw.present.2
  have hlive : ∀ {c : DistributedCache} {hc : c.key = key},
      w.now.objects .distributedCache key = some ⟨c, hc⟩ →
        c.metadata.deleting = false := by
    intro c hc hstored
    obtain ⟨stored, hstored', hlive, -⟩ := hpresent
    cases hstored'.symm.trans hstored
    exact hlive
  cases h with
  | kept => exact hpresent
  | held cache hkey hstored _ =>
      exact hpresent.put_cache hstored hkey rfl rfl
  | released cache hkey hstored hdel =>
      rw [hlive hstored] at hdel
      cases hdel
  | gone cache hkey hstored hdel _ =>
      rw [hlive hstored] at hdel
      cases hdel
  | reported cache c hkey hstored _ =>
      exact hpresent.put_cache hstored hkey rfl rfl
  | created cache o honce _ hshape hkey _ ho =>
      refine hpresent.put hshape.owned.ne_cache fun stored hspec => ?_
      obtain ⟨hcell, -⟩ := honce.sameCell hw hspec
      rw [hcell.foreign]
      exact (hshape.made ho).imp_right fun hnf => hnf
  | updated cache o old honce _ hshape hkey _ ho =>
      refine hpresent.put hshape.owned.ne_cache fun stored hspec => ?_
      obtain ⟨hcell, -⟩ := honce.sameCell hw hspec
      rw [hcell.foreign]
      exact (hshape.made ho).imp_right fun hnf => hnf
  | annotated cache p _ _ _ _ _ _ => exact hpresent.told hle
  | torn cache old honce _ hdel _ _ =>
      obtain ⟨stored, -, -, hspec, -⟩ := hpresent
      rw [(honce.sameCell hw hspec).2] at hdel
      cases hdel

theorem Recoverable.later (h : Recoverable key spec now s)
    (hle : now ≤ t) : Recoverable key spec t s := by
  obtain ⟨stored, hstored, hlive, hspec, hun, hahead⟩ := h
  exact ⟨stored, hstored, hlive, hspec, hun,
    fun p hp => (hahead p hp).later hle⟩

/-- A Reconcile whose calls fail now and then is a run of its own. -/
theorem operatorRun_of_exec {env : Cluster → Cluster → Prop}
    (fs : List Fault) :
    ∃ c, OperatorRun env
        (operatorCrew srt (fun _ => now) (fun _ => key) s) c
      ∧ c.state.now = ((reconcile srt now key).exec api fs s).state := by
  obtain ⟨ts, hmeets, hend⟩ : ∃ ts : List (Turn (Timeline Cluster) Recall),
      Meets (Crew.step (Timeline.dispatch api Request.reads))
        (Crew.Allows (Timeline.dispatch api Request.reads)
          (fun _ _ _ => True) (Timeline.Elsewhere env))
        (operatorCrew srt (fun _ => now) (fun _ => key) s) ts
      ∧ (ts.foldl (Crew.step (Timeline.dispatch api Request.reads))
          (operatorCrew srt (fun _ => now) (fun _ => key) s)).state.now
        = ((reconcile srt now key).exec api fs s).state :=
    Timeline.turns_of_exec 0 fs rfl
  exact ⟨_, Run.extend .nil hmeets, hend⟩

/-- No Reconcile takes it away, whatever fails. -/
theorem Recoverable.exec (h : Recoverable key spec t s)
    (hs : s.Stamped) (hle : now ≤ t) (fs : List Fault) :
    ((reconcile srt now key).exec api fs s).state.Stamped
      ∧ Recoverable key spec t
        ((reconcile srt now key).exec api fs s).state := by
  obtain ⟨c, hrun, hend⟩ : ∃ c, OperatorRun (fun _ _ => False)
        (operatorCrew srt (fun _ => now) (fun _ => key) s) c
      ∧ c.state.now = ((reconcile srt now key).exec api fs s).state :=
    operatorRun_of_exec fs
  have hinformed := operator_informed
    (fun _ _ _ hw hstep => hstep.recoverable hw hle)
    (fun _ _ _ _ hfalse => hfalse.elim) hs h hrun
  have hpresent := hinformed.state.present
  rw [hend] at hpresent
  exact hpresent

end

end CacheOperator
