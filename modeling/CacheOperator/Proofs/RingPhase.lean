/-
The ring phase: what `reconcileRing` leaves in the ring ConfigMap.

The stored ring (`storedRing`) is what a client would read. Whatever
fails, the ConfigMap is untouched afterwards or holds the next ring:
the members of the listed pods, at the version that follows the one
read (`nextRing`). A call that returns has stored that ring, except in
one case: it skips the write when the ConfigMap has data, none of it a
ring, and there is no member to publish.
-/
import CacheOperator.Proofs.Drain

namespace CacheOperator

open Lib

/-- The ring ConfigMap. -/
def ringConfigMap (cache : DistributedCache) (s : Cluster) :
    Option (Object .configMap) :=
  (s.objects .configMap (ringKey cache)).map Subtype.val

/-- The ring a client would read. -/
def storedRing (cache : DistributedCache) (s : Cluster) : Option Ring :=
  (ringConfigMap cache s).bind fun cm => payload cm.body.data

/-- The ring the operator would publish now. -/
def nextRing (srt : SliceSort) (cache : DistributedCache) (s : Cluster) :
    Ring :=
  desiredRing (computeMembers srt (cachePods cache s))
    (currentRing (ringConfigMap cache s))

section

variable {srt : SliceSort} {cache : DistributedCache} {s s' : Cluster}

@[simp] theorem desiredRing_members (members : List String)
    (current : Ring) : (desiredRing members current).members = members := by
  unfold desiredRing
  split
  · rfl
  · rfl

@[simp] theorem nextRing_members :
    (nextRing srt cache s).members
      = computeMembers srt (cachePods cache s) := by
  unfold nextRing
  exact desiredRing_members _ _

theorem currentRing_eq :
    currentRing (ringConfigMap cache s)
      = (storedRing cache s).getD ⟨0, []⟩ := by
  unfold currentRing storedRing dataOf
  cases ringConfigMap cache s with
  | none => rfl
  | some cm => rfl

/-- The version moves by one when the members change, and not at all
when they stay. -/
theorem desiredRing_version (members : List String) (current : Ring) :
    (desiredRing members current).version
      = if members = current.members then current.version
        else current.version + 1 := by
  unfold desiredRing
  by_cases h : members = current.members
  · rw [if_pos h, if_pos (Ring.membersEqual_iff.mpr h)]
  · rw [if_neg h, if_neg fun h' => h (Ring.membersEqual_iff.mp h')]

theorem ringConfigMap_congr
    (h : s'.objects .configMap (ringKey cache)
      = s.objects .configMap (ringKey cache)) :
    ringConfigMap cache s' = ringConfigMap cache s := by
  unfold ringConfigMap
  rw [h]

theorem cachePods_congr (h : s'.pods = s.pods) :
    cachePods cache s' = cachePods cache s := by
  unfold cachePods Cluster.podsIn
  rw [h]

/-- After the write the ConfigMap holds the ring. -/
theorem storedRing_of_settles {ring : Ring}
    (h : Settles (ringKey cache) (mutateRingConfigMap cache ring) s s') :
    storedRing cache s' = some ring := by
  obtain ⟨cm, hcm, -, hbody⟩ := settles_stored h
  unfold storedRing ringConfigMap payload
  rw [hcm]
  simp only [Option.map_some, Option.bind_some, hbody,
    Dict.get_set_self, unmarshalRing_marshalRing]

/-- The ring ConfigMap is untouched or holds the next ring; pods and the
other objects are as before. -/
structure RingWritten (srt : SliceSort) (cache : DistributedCache)
    (s s' : Cluster) : Prop where
  pods : s'.pods = s.pods
  others : ∀ k key, Target.object .configMap (ringKey cache)
      ≠ .object k key → s'.objects k key = s.objects k key
  configMap : s' = s ∨ (storedRing cache s' = some (nextRing srt cache s)
    ∧ ∃ cm, s'.objects .configMap (ringKey cache) = some cm
      ∧ ¬Foreign cache cm.1)

theorem RingWritten.refl : RingWritten srt cache s s :=
  ⟨rfl, fun _ _ _ => rfl, Or.inl rfl⟩

theorem RingWritten.of_writes
    (h : Writes (ringKey cache)
      (mutateRingConfigMap cache (nextRing srt cache s)) s s') :
    RingWritten srt cache s s' := by
  obtain ⟨hpods, hothers⟩ := writes_frame keeps_mutateOwned h
  obtain ⟨cm, hcm, hnf, -⟩ := writes_stored h
  exact ⟨hpods, hothers,
    Or.inr ⟨storedRing_of_settles (Or.inr h), cm, hcm, hnf⟩⟩

/-- What a returned ring says about the state it was returned in. -/
structure RingReturned (srt : SliceSort) (cache : DistributedCache)
    (s s' : Cluster) (ring : Ring) : Prop extends
    RingWritten srt cache s s' where
  eq : ring = nextRing srt cache s
  published : skipsWrite ring (ringConfigMap cache s) = false
      ∧ storedRing cache s' = some ring
    ∨ skipsWrite ring (ringConfigMap cache s) = true ∧ s' = s

theorem RingReturned.of_settles
    (hskip : skipsWrite (nextRing srt cache s) (ringConfigMap cache s)
      = false)
    (h : Settles (ringKey cache)
      (mutateRingConfigMap cache (nextRing srt cache s)) s s') :
    RingReturned srt cache s s' (nextRing srt cache s) where
  toRingWritten := by
    rcases h with ⟨rfl, -⟩ | h
    · exact .refl
    · exact .of_writes h
  eq := rfl
  published := Or.inl ⟨hskip, storedRing_of_settles h⟩

/-- How `reconcileRing` started in `s` ends. -/
def EndsRing (srt : SliceSort) (cache : DistributedCache) (s : Cluster) :
    Result GoError Ring → Cluster → Prop
  | .ok ring, s' => RingReturned srt cache s s' ring
  | .error _, s' => RingWritten srt cache s s'
  | .crashed, s' => RingWritten srt cache s s'

theorem getRingConfigMap_sat {E : Call → Prop}
    (hE : ∀ x b, E ⟨.get .configMap (ringKey cache), x, s, s, b⟩) :
    (getRingConfigMap cache).Sat api s E fun res s' =>
      s' = s ∧ ∀ cm, res = .ok cm → cm = ringConfigMap cache s := by
  unfold getRingConfigMap ringConfigMap
  simp only [bind, pure, Prog.bind, request]
  refine Prog.Sat.read rfl ⟨rfl, by simp⟩ hE ?_ (.fail ⟨rfl, by simp⟩)
  cases hcm : s.objects .configMap (ringKey cache) with
  | none =>
      rw [serve_get_none hcm]
      exact .ret ⟨rfl, fun cm h => by cases h; rfl⟩
  | some cm =>
      rw [serve_get_some hcm]
      exact .ret ⟨rfl, fun cm h => by cases h; rfl⟩

/-- A call of the ring phase that started in `s`. -/
def RingCall (srt : SliceSort) (cache : DistributedCache) (s : Cluster)
    (e : Call) : Prop :=
  RingWritten srt cache s e.before ∧ RingWritten srt cache s e.after

theorem reconcileRing_sat :
    (reconcileRing srt cache).Sat api s (RingCall srt cache s)
      (EndsRing srt cache s) := by
  unfold reconcileRing
  refine Prog.Sat.bind_only (listPods_sat fun _ _ => ⟨.refl, .refl⟩)
    .refl (fun _ => .refl) ?_
  refine Prog.Sat.bind_only (getRingConfigMap_sat fun _ _ => ⟨.refl, .refl⟩)
    .refl (fun _ => .refl) ?_
  show Prog.Sat api (if skipsWrite (nextRing srt cache s)
    (ringConfigMap cache s) = true then _ else _) _ _ _
  by_cases hskip : skipsWrite (nextRing srt cache s)
      (ringConfigMap cache s) = true
  · rw [if_pos hskip]
    exact .ret ⟨RingWritten.refl, rfl, Or.inr ⟨hskip, rfl⟩⟩
  · rw [if_neg hskip]
    refine Prog.Sat.bind ((reconcileObject_sat (by simp)
      keeps_mutateOwned).imp ?_ fun _ _ h => h) ?_ ?_ ?_
    · intro e he
      obtain ⟨hb, ha⟩ := he
      have hbw : RingWritten srt cache s e.before := by
        rcases hb with hb | hb
        · rw [hb]
          exact .refl
        · exact .of_writes hb
      refine ⟨hbw, ?_⟩
      rcases ha with ha | ⟨-, ha⟩
      · rw [ha]
        exact hbw
      · exact .of_writes ha
    · intro u s1 h
      exact .ret (RingReturned.of_settles
        (Bool.eq_false_iff.mpr hskip) h)
    · intro e s1 h
      rcases h with rfl | h
      · exact .refl
      · exact .of_writes h
    · intro s1 h
      rcases h with rfl | h
      · exact .refl
      · exact .of_writes h

end

end CacheOperator
