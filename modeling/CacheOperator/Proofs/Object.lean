/-
The cache object through a `Reconcile`.

What a later `Reconcile` reads from the object is its spec and whether
it is being deleted (`Cluster.live`). The operator itself changes
neither: it writes the status and the finalizer only, so between two
reconciles the spec moves by the user's edits alone.
-/
import CacheOperator.Proofs.Release

namespace CacheOperator

open Lib

/-- The spec of an object that is there and not being deleted. -/
def Cluster.live (key : NamespacedName) (s : Cluster) :
    Option DistributedCacheSpec :=
  (s.objects .distributedCache key).bind fun o =>
    if o.1.metadata.deleting then none else some o.1.body.spec

/-- A call that can do no more than end the object's life. -/
def Request.Closing (cache : DistributedCache) (r : Request) : Prop :=
  r.Draining cache ∨ (∃ name, r = .deleteNamespace name)
    ∨ ∃ o : DistributedCache, r = .update .distributedCache o
      ∧ o.metadata.deleting = true

section

variable {srt : SliceSort} {now : Time} {cache : DistributedCache}
  {key : NamespacedName} {s s' : Cluster} {r : Request}
  {stored : {o : DistributedCache // o.key = key}}

theorem live_of_stored
    (hstored : s.objects .distributedCache key = some stored)
    (hlive : stored.1.metadata.deleting = false) :
    s.live key = some stored.1.body.spec := by
  unfold Cluster.live
  rw [hstored, Option.bind_some, if_neg (Bool.eq_false_iff.mp hlive)]

theorem live_eq_none
    (h : ∀ o, s.objects .distributedCache key = some o →
      o.1.metadata.deleting = true) : s.live key = none := by
  unfold Cluster.live
  cases ho : s.objects .distributedCache key with
  | none => rfl
  | some o =>
      rw [Option.bind_some, if_pos (h o ho)]

/-- A live object is stored and holds the spec. -/
theorem live_eq_some {spec : DistributedCacheSpec}
    (h : s.live key = some spec) :
    ∃ stored, s.objects .distributedCache key = some stored
      ∧ stored.1.metadata.deleting = false
      ∧ stored.1.body.spec = spec := by
  unfold Cluster.live at h
  obtain ⟨stored, hstored, h⟩ := Option.bind_eq_some_iff.mp h
  by_cases hdel : stored.1.metadata.deleting = true
  · rw [if_pos hdel] at h
    cases h
  · rw [if_neg hdel] at h
    cases h
    exact ⟨stored, hstored, Bool.eq_false_iff.mpr hdel, rfl⟩

theorem live_updateStatus (c : DistributedCache) :
    (api.serve (.updateStatus c) s).2.live key = s.live key := by
  unfold Cluster.live
  rcases serve_updateStatus s c key with h | ⟨old, new, hold, hnew, h⟩
  · rw [h]
  · rw [hold, hnew]
    rcases h with h | h
    · rw [Option.bind_some, h]
      rfl
    · rw [Option.bind_some, h]
      rfl

theorem live_serve (h : r.Draining cache) :
    (api.serve r s).2.live key = s.live key := by
  by_cases hstatus : ∃ c, r = .updateStatus c
  · obtain ⟨c, rfl⟩ := hstatus
    exact live_updateStatus c
  · unfold Cluster.live
    rw [cache_serve h fun c hc => hstatus ⟨c, hc⟩]

/-- What an update leaves of a cache object. -/
theorem serve_update_cache (s : Cluster) (key : NamespacedName)
    (o : DistributedCache) :
    (api.serve (.update .distributedCache o) s).2.objects
        .distributedCache key = s.objects .distributedCache key
      ∨ (api.serve (.update .distributedCache o) s).2.objects
        .distributedCache key = none ∧ o.metadata.deleting = true
      ∨ ∃ new, (api.serve (.update .distributedCache o) s).2.objects
          .distributedCache key = some new
        ∧ new.1.metadata.deleting = o.metadata.deleting
        ∧ new.1.body.spec = o.body.spec := by
  by_cases hk : key = o.key
  · subst hk
    show (s.serveUpdate o).2.objects _ _ = _
      ∨ (s.serveUpdate o).2.objects _ _ = _ ∧ _
      ∨ ∃ new, (s.serveUpdate o).2.objects _ _ = _ ∧ _
    unfold Cluster.serveUpdate
    split
    · exact Or.inl rfl
    · next old hkey hold =>
      split
      · exact Or.inl rfl
      split
      · next hfin =>
        refine Or.inr (Or.inl ⟨?_, ?_⟩)
        · unfold Cluster.remove
          simp
        · unfold finalized at hfin
          simp only [Bool.and_eq_true] at hfin
          exact hfin.1.1
      · obtain ⟨new, hnew, hcase⟩ := Cluster.write_objects_self
          (o := admitted .distributedCache old o) hold (admitted_key old o)
        refine Or.inr (Or.inr ⟨new, hnew, ?_⟩)
        rcases hcase with hcase | hcase
        · rw [hcase]
          exact ⟨rfl, rfl⟩
        · rw [hcase]
          exact ⟨rfl, rfl⟩
  · left
    refine serve_objects fun ht => ?_
    injection ht with ht
    injection ht with _ ht
    exact hk ht.symm

/-- Nothing that closes an object brings one to life. -/
theorem live_serve_closing (h : r.Closing cache) (hs : s.live key = none) :
    (api.serve r s).2.live key = none := by
  rcases h with h | ⟨name, rfl⟩ | ⟨o, rfl, hdel⟩
  · rw [live_serve h]
    exact hs
  · unfold Cluster.live at hs ⊢
    rw [serve_objects]
    · exact hs
    · intro ht
      injection ht with ht
      injection ht with ht
      cases ht
  · rcases serve_update_cache s key o with
      h | ⟨h, -⟩ | ⟨new, h, hnew, -⟩
    · unfold Cluster.live at hs ⊢
      rw [h]
      exact hs
    · refine live_eq_none fun o' ho' => ?_
      rw [h] at ho'
      cases ho'
    · refine live_eq_none fun o' ho' => ?_
      rw [h] at ho'
      cases ho'
      rw [hnew, hdel]

-- ==================================================== whole programs

theorem reconcileDeletion_closing (hdel : cache.metadata.deleting = true) :
    (reconcileDeletion srt now cache).Uses (Request.Closing cache) := by
  have hq : ∀ r : Request, r.Quiet cache → r.Closing cache :=
    fun _ h => Or.inl (Or.inl h)
  refine reconcileDeletion_uses (fun r h => hq r (h.quiet (by simp)))
    (hq _ ⟨rfl, rfl⟩) (fun p => Or.inl (Or.inr ⟨p, rfl⟩)) ?_
  exact tearDown_uses (hq _ trivial) (fun _ => Or.inr (Or.inl ⟨_, rfl⟩))
    (Or.inr (Or.inr ⟨_, rfl, hdel⟩)) fun _ _ => hq _ trivial

/-- Adding the finalizer leaves the spec, the StatefulSet, the ring and
the pods. -/
theorem holdCache_keeps
    (hstored : s.objects .distributedCache key = some stored)
    (hlive : stored.1.metadata.deleting = false) :
    (holdCache stored.1).Sat api s (fun _ => True) fun _ s' =>
      s'.live key = s.live key ∧ s'.core stored.1 = s.core stored.1 := by
  have hserve : (api.serve (.update .distributedCache
        (addFinalizer stored.1)) s).2.live key = s.live key
      ∧ (api.serve (.update .distributedCache
        (addFinalizer stored.1)) s).2.core stored.1 = s.core stored.1 := by
    refine ⟨?_, core_serve _ _ _
      ⟨fun _ => nofun, by simp, by simp⟩⟩
    rcases serve_update_cache s key (addFinalizer stored.1) with
      h | ⟨-, hdel⟩ | ⟨new, h, hdel, hspec⟩
    · unfold Cluster.live
      rw [h]
    · rw [show (addFinalizer stored.1).metadata.deleting
        = stored.1.metadata.deleting from rfl, hlive] at hdel
      cases hdel
    · rw [live_of_stored h (hdel.trans hlive),
        live_of_stored hstored hlive, hspec]
      rfl
  unfold holdCache
  simp only [bind, pure, Prog.bind, request]
  refine Prog.Sat.call ⟨rfl, rfl⟩ ⟨trivial, ?_⟩
    ⟨trivial, .fail ⟨rfl, rfl⟩⟩ ⟨trivial, .fail hserve⟩
  cases (api.serve (.update .distributedCache
    (addFinalizer stored.1)) s).1 with
  | error e => exact .fail hserve
  | ok c => exact .ret hserve

/-- A `Reconcile` neither edits the spec nor ends or begins the object's
life, as far as its own phases can tell. -/
theorem reconcile_live (srt : SliceSort) (now : Time)
    (key : NamespacedName) (s : Cluster) :
    (reconcile srt now key).Sat api s (fun _ => True) fun _ s' =>
      s'.live key = s.live key := by
  unfold reconcile
  simp only [bind, pure, Prog.bind, request]
  refine Prog.Sat.read rfl rfl (fun _ _ => trivial) ?_ (.fail rfl)
  cases hstored : s.objects .distributedCache key with
  | none =>
      rw [serve_get_none hstored]
      exact .ret rfl
  | some stored =>
      rw [serve_get_some hstored]
      dsimp only
      split
      · next hdel =>
        have hnone : s.live key = none := by
          refine live_eq_none fun o ho => ?_
          rw [hstored] at ho
          cases ho
          exact hdel
        rw [hnone]
        exact Prog.Sat.of_uses_keeping (fun r s h hs =>
          live_serve_closing h hs) (reconcileDeletion_closing hdel) hnone
      · next hdel =>
        split
        · exact (holdCache_keeps hstored
            (Bool.eq_false_iff.mpr hdel)).imp (fun _ h => h)
            fun _ _ h => h.1
        · exact (Prog.Sat.of_uses (Cluster.live key)
            (fun r s h => live_serve h) reconcileLive_draining).imp
            (fun _ _ => trivial) fun _ _ h => h

/-- Behind the read of the object and the finalizer stand the phases: a
`Reconcile` leaves the StatefulSet, the ring and the pods as they are, or
as the phases leave them. -/
theorem reconcile_core (srt : SliceSort) (now : Time)
    (hstored : s.objects .distributedCache key = some stored)
    (hlive : stored.1.metadata.deleting = false) (fs : List Fault) :
    ((reconcile srt now key).exec api fs s).state.core stored.1
        = s.core stored.1
      ∨ ((reconcile srt now key).exec api fs s).state.core stored.1
        = ((reconcileOwned srt now stored.1).exec api fs.tail
          s).state.core stored.1 := by
  unfold reconcile
  simp only [bind, pure, Prog.bind, request, Prog.exec]
  cases fs.headD .none with
  | crash => exact Or.inl rfl
  | refused => exact Or.inl rfl
  | lost => exact Or.inl rfl
  | none =>
      dsimp only
      rw [serve_get_some hstored]
      dsimp only
      rw [if_neg (Bool.eq_false_iff.mp hlive)]
      split
      · exact Or.inl (holdCache_keeps hstored hlive fs.tail).2.2
      · right
        unfold reconcileLive
        show ((reconcileOwned srt now stored.1 >>= _).exec api fs.tail
          s).state.core stored.1 = _
        rw [Prog.exec_bind]
        unfold Outcome.andThen
        cases hres : ((reconcileOwned srt now stored.1).exec api fs.tail
            s).result with
        | error e => rfl
        | crashed => rfl
        | ok x => exact (Prog.exec_frame (core_serve _) finish_peripheral
            _ _).1

theorem OwnedEnd.effect {res : Result GoError (Bool × Ring)}
    (h : OwnedEnd srt now cache s res s') :
    OwnedEffect srt now cache s s' := by
  cases res with
  | ok x => exact h.toOwnedEffect
  | error e => exact h
  | crashed => exact h

/-- What a `Reconcile` of a live object can have done. -/
theorem reconcile_effect (srt : SliceSort) (now : Time)
    (hstored : s.objects .distributedCache key = some stored)
    (hlive : stored.1.metadata.deleting = false) (fs : List Fault) :
    OwnedEffect srt now stored.1 s
      ((reconcile srt now key).exec api fs s).state := by
  rcases reconcile_core srt now hstored hlive fs with h | h
  · exact OwnedEffect.congr (.refl s) h
  · exact (OwnedEnd.effect (reconcileOwned_sat fs.tail).2).congr h

end

end CacheOperator
