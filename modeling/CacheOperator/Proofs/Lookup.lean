/-
Which pod a key goes to.

`buildRing` sorts indices and reads both arrays through them, so the two
stay aligned: together they are the virtual nodes, in the order of their
hashes (`sortedNodes`). On those the binary search of `Lookup` finds the
next point of the circle and the first place that holds it
(`lookup_found`); which of the nodes at that point is in that place is up
to the sort, and any of them can be (`exists_lookup`).

The results are the reference rule, what changes when a member joins or
leaves, and that the order of the members matters exactly for keys whose
point is shared.
-/
import CacheOperator.Lib.Cyclic
import CacheOperator.Model.Client

namespace CacheOperator

open Lib

/-- The name of a member's virtual node. -/
def vnodeName (member : String) (i : Nat) : String :=
  member ++ "#" ++ String.ofList (Decimal.format i)

section

variable (hashString : String → UInt32) (members : List String)
  (key : String)

/-- The reference rule: the node `<m>#i` has the smallest hash of all
nodes from the key's hash on, or of all nodes if there is none there. -/
def ReferenceNode (m : String) (i : Nat) : Prop :=
  m ∈ members ∧ i < vnodeCount
    ∧ ((hashString key ≤ hashString (vnodeName m i)
        ∧ ∀ m' ∈ members, ∀ i' < vnodeCount,
          hashString key ≤ hashString (vnodeName m' i') →
            hashString (vnodeName m i) ≤ hashString (vnodeName m' i'))
      ∨ ((∀ m' ∈ members, ∀ i' < vnodeCount,
          hashString (vnodeName m' i') < hashString key)
        ∧ ∀ m' ∈ members, ∀ i' < vnodeCount,
          hashString (vnodeName m i) ≤ hashString (vnodeName m' i')))

/-- The virtual nodes on the circle of hashes. -/
def placement : Set (Nat × String) :=
  {v | ∃ m ∈ members, ∃ i < vnodeCount,
    v = ((hashString (vnodeName m i)).toNat, m)}

/-- The member has a node at the point the key goes to. -/
def OwnerOf (m : String) : Prop :=
  Owner (placement hashString members) (hashString key).toNat m

/-- All nodes at the point the key goes to are one member's. -/
def Undisputed : Prop :=
  ∀ m m', OwnerOf hashString members key m →
    OwnerOf hashString members key m' → m = m'

end

section

variable {srt srt' : SliceSort} {hashString : String → UInt32}
  {members members' : List String} {r : Ring} {c : Client}
  {key m : String} {i : Nat}

theorem node_mem_points (hm : m ∈ members) (hi : i < vnodeCount) :
    (hashString (vnodeName m i)).toNat
      ∈ points (placement hashString members) :=
  ⟨m, m, hm, i, hi, rfl⟩

theorem forall_points {P : Nat → Prop} :
    (∀ p ∈ points (placement hashString members), P p) ↔
      ∀ m ∈ members, ∀ i < vnodeCount,
        P (hashString (vnodeName m i)).toNat := by
  constructor
  · intro h m hm i hi
    exact h _ (node_mem_points hm hi)
  · rintro h p ⟨m, m', hm, i, hi, heq⟩
    obtain ⟨rfl, rfl⟩ := Prod.mk.inj heq
    exact h m hm i hi

/-- The members with a node at the key's point are those the reference
rule allows. -/
theorem ownerOf_iff_referenceNode :
    OwnerOf hashString members key m ↔
      ∃ i, ReferenceNode hashString members key m i := by
  have hnode : ∀ i, m ∈ members → i < vnodeCount →
      (IsNext (points (placement hashString members))
          (hashString key).toNat (hashString (vnodeName m i)).toNat ↔
        ReferenceNode hashString members key m i) := by
    intro i hm hi
    simp only [isNext_iff, node_mem_points hm hi, true_and, forall_points,
      ReferenceNode, hm, hi, UInt32.le_iff_toNat_le,
      UInt32.lt_iff_toNat_lt]
  constructor
  · rintro ⟨p, hnext, m, hm, i, hi, heq⟩
    cases heq
    exact ⟨i, (hnode i hm hi).mp hnext⟩
  · rintro ⟨i, href⟩
    exact ⟨_, (hnode i href.1 href.2.1).mpr href, m, href.1, i,
      href.2.1, rfl⟩

-- ===================================================== the sorted nodes

variable (srt hashString r)

/-- The virtual nodes in the order of the built ring. -/
def sortedNodes : List (UInt32 × String) :=
  let hashes := (vnodes hashString r).map Prod.fst
  (srt.sort (byKey fun j => (hashes.getD j 0).toNat)
    (List.range hashes.length)).map
      fun j => (vnodes hashString r).getD j (0, "")

theorem getD_map {α β : Type} (f : α → β) (l : List α) (j : Nat) (d : α) :
    (l.map f).getD j (f d) = f (l.getD j d) := by
  simp only [List.getD_eq_getElem?_getD, List.getElem?_map]
  cases l[j]? <;> rfl

/-- The two arrays are the two halves of one list of nodes. -/
theorem buildRing_hashes : (buildRing srt hashString r).hashes
    = (sortedNodes srt hashString r).map Prod.fst := by
  simp only [buildRing, sortedNodes, List.map_map]
  exact List.map_congr_left fun j _ => getD_map Prod.fst _ j (0, "")

theorem buildRing_positions : (buildRing srt hashString r).positions
    = (sortedNodes srt hashString r).map Prod.snd := by
  simp only [buildRing, sortedNodes, List.map_map]
  exact List.map_congr_left fun j _ => getD_map Prod.snd _ j (0, "")

theorem sortedNodes_perm :
    (sortedNodes srt hashString r).Perm (vnodes hashString r) := by
  refine map_getD_perm ((srt.perm _ _).trans ?_) _
  rw [List.length_map]

theorem sortedNodes_sorted :
    ((sortedNodes srt hashString r).map fun v => v.1.toNat).Pairwise
      (· ≤ ·) := by
  simp only [sortedNodes, List.map_map]
  rw [List.pairwise_map]
  refine (srt.sorted_byKey _ _).imp ?_
  intro a b hab
  simpa only [Function.comp_apply, getD_map Prod.fst _ _ ((0 : UInt32), "")]
    using hab

variable {srt hashString r}

theorem mem_vnodes {v : UInt32 × String} :
    v ∈ vnodes hashString r ↔ ∃ m ∈ r.members, ∃ i < vnodeCount,
      v = (hashString (vnodeName m i), m) := by
  simp only [vnodes, List.mem_flatMap, List.mem_map, List.mem_range,
    vnodeName, eq_comm (a := v)]

theorem mem_sortedNodes {v : UInt32 × String} :
    v ∈ sortedNodes srt hashString r ↔ ∃ m ∈ r.members, ∃ i < vnodeCount,
      v = (hashString (vnodeName m i), m) := by
  rw [(sortedNodes_perm srt hashString r).mem_iff, mem_vnodes]

variable (srt hashString) in
theorem sortedNodes_eq_nil :
    sortedNodes srt hashString r = [] ↔ r.members = [] := by
  rw [← List.length_eq_zero_iff, (sortedNodes_perm srt hashString r).length_eq,
    List.length_eq_zero_iff]
  simp only [List.eq_nil_iff_forall_not_mem, mem_vnodes]
  constructor
  · intro h m hm
    exact h _ ⟨m, hm, 0, by decide, rfl⟩
  · rintro h v ⟨m, hm, -⟩
    exact h m hm

variable (srt hashString r) in
/-- The points of the sorted nodes are the points of the placement. -/
theorem points_sortedNodes :
    {q | q ∈ (sortedNodes srt hashString r).map fun v => v.1.toNat}
      = points (placement hashString r.members) := by
  ext q
  simp only [Set.mem_ofPred_eq, List.mem_map, mem_sortedNodes, points,
    placement]
  constructor
  · rintro ⟨v, ⟨m, hm, i, hi, rfl⟩, rfl⟩
    exact ⟨m, m, hm, i, hi, rfl⟩
  · rintro ⟨m, m', hm, i, hi, heq⟩
    obtain ⟨rfl, rfl⟩ := Prod.mk.inj heq
    exact ⟨_, ⟨m, hm, i, hi, rfl⟩, rfl⟩

-- ========================================================= the lookup

variable (srt hashString r c key)

/-- `Lookup` of a client that has loaded the ring. -/
def lookupIn : Option (Except GoError String) :=
  Client.lookup hashString
    { c with ring := some (buildRing srt hashString r) } key

variable {r} in
theorem lookupIn_empty (h : r.members = []) :
    lookupIn srt hashString r c key = some (.error errRingEmpty) := by
  have hnil := (sortedNodes_eq_nil srt hashString).mpr h
  simp [lookupIn, Client.lookup, buildRing_hashes, hnil]

/-- The lookup is a search over the sorted nodes. -/
theorem lookupIn_search :
    ∃ f : Nat → Bool,
      (∀ i (hi : i < (sortedNodes srt hashString r).length),
        f i = true ↔
          hashString key ≤ (sortedNodes srt hashString r)[i].1)
      ∧ lookupIn srt hashString r c key
        = if (sortedNodes srt hashString r).length = 0 then
            some (.error errRingEmpty)
          else
            (sortedNodes srt hashString r)[wrapped
              (sortedNodes srt hashString r).length
              (search (sortedNodes srt hashString r).length f)]?.map
                fun v => .ok (v.2 ++ "." ++ c.serviceFQDN) := by
  simp only [lookupIn, Client.lookup, buildRing_hashes,
    buildRing_positions, List.length_map, List.getElem?_map,
    Option.map_map]
  refine ⟨_, ?_, rfl⟩
  intro i hi
  simp [hi]

variable {r}

/-- With members there is no error and no index out of range: the lookup
returns the node in the first place that holds the next point. -/
theorem lookupIn_found (hne : r.members ≠ []) :
    ∃ (i : Nat) (hi : i < (sortedNodes srt hashString r).length),
      lookupIn srt hashString r c key
        = some (.ok ((sortedNodes srt hashString r)[i].2 ++ "."
          ++ c.serviceFQDN))
      ∧ IsNext (points (placement hashString r.members))
        (hashString key).toNat
        (sortedNodes srt hashString r)[i].1.toNat
      ∧ ∀ j (hj : j < (sortedNodes srt hashString r).length),
        (sortedNodes srt hashString r)[j].1.toNat
          = (sortedNodes srt hashString r)[i].1.toNat → i ≤ j := by
  have hnodes : sortedNodes srt hashString r ≠ [] :=
    mt (sortedNodes_eq_nil srt hashString).mp hne
  have hpoints := points_sortedNodes srt hashString r
  have hsorted := sortedNodes_sorted srt hashString r
  obtain ⟨f, hf, hlookup⟩ := lookupIn_search srt hashString r c key
  rw [hlookup]
  generalize sortedNodes srt hashString r = vs at *
  have hlen : vs.length ≠ 0 := by simpa using hnodes
  rw [if_neg hlen]
  obtain ⟨hi, hnext, hfirst⟩ := isNext_wrapped
    (h := (hashString key).toNat) (f := f) hsorted (by simpa using hnodes)
    (by simpa [UInt32.le_iff_toNat_le] using hf)
  rw [hpoints] at hnext
  simp only [List.length_map] at hi hnext hfirst
  refine ⟨_, hi, ?_, by simpa using hnext, by simpa using hfirst⟩
  rw [List.getElem?_eq_getElem hi, Option.map_some]

/-- Some sort puts a given node before those with the same hash. -/
theorem exists_sort_preferring {t : Nat}
    (ht : t < (vnodes hashString r).length) :
    ∃ srt', ∀ i (hi : i < (sortedNodes srt' hashString r).length),
      (sortedNodes srt' hashString r)[i].1 = (vnodes hashString r)[t].1 →
      (∀ j (hj : j < (sortedNodes srt' hashString r).length),
        (sortedNodes srt' hashString r)[j].1 = (vnodes hashString r)[t].1 →
          i ≤ j) →
      (sortedNodes srt' hashString r)[i] = (vnodes hashString r)[t] := by
  let vs := vnodes hashString r
  let hash (j : Nat) : Nat := ((vs.map Prod.fst).getD j 0).toNat
  -- the order by hash, with the given place ahead of its equals
  let rank (j : Nat) : Nat := 2 * hash j + if j = t then 0 else 1
  let idx := List.range (vs.map Prod.fst).length
  let l := SliceSort.insertionSort.sort (byKey rank) idx
  have hperm : l.Perm idx := SliceSort.insertionSort.perm _ _
  have hrank : l.Pairwise fun a b => rank a ≤ rank b :=
    SliceSort.insertionSort.sorted_byKey rank _
  have hhash : l.Pairwise fun a b => byKey hash b a = false := by
    refine hrank.imp fun {a b} hab => ?_
    simp only [rank] at hab
    simp only [byKey, decide_eq_false_iff_not]
    split at hab <;> split at hab <;> omega
  obtain ⟨srt', hsrt'⟩ :=
    SliceSort.insertionSort.exists_sort hperm hhash
  have hnodes : sortedNodes srt' hashString r
      = l.map fun j => vs.getD j (0, "") :=
    congrArg (List.map fun j => vs.getD j (0, "")) hsrt'
  have hhash_eq : ∀ j, hash j = (vs.getD j (0, "")).1.toNat :=
    fun j => congrArg UInt32.toNat (getD_map Prod.fst vs j (0, ""))
  have hnode : vs.getD t (0, "") = vs[t] := by
    rw [List.getD_eq_getElem?_getD, List.getElem?_eq_getElem ht]
    rfl
  obtain ⟨u, hu, hut⟩ : ∃ (u : Nat) (hu : u < l.length), l[u] = t := by
    refine List.getElem_of_mem (hperm.mem_iff.mpr ?_)
    simpa [idx] using ht
  refine ⟨srt', ?_⟩
  rw [hnodes]
  intro i hi heq hfirst
  simp only [List.length_map, List.getElem_map] at hi heq hfirst ⊢
  have hiu : i ≤ u := hfirst u hu (by rw [hut, hnode])
  have hle : rank l[i] ≤ rank l[u] := by
    obtain rfl | hlt := Nat.eq_or_lt_of_le hiu
    · exact le_refl _
    · exact List.pairwise_iff_getElem.mp hrank i u hi hu hlt
  have hsame : hash l[i] = hash t := by
    rw [hhash_eq, hhash_eq, heq, hnode]
  have hit : l[i] = t := by
    by_contra hne
    simp only [rank, hut, hsame, if_neg hne, if_true] at hle
    omega
  rw [hit, hnode]

/-- Every owner is returned by the lookup for some sort. -/
theorem exists_lookupIn (hm : OwnerOf hashString r.members key m) :
    ∃ srt', lookupIn srt' hashString r c key
      = some (.ok (m ++ "." ++ c.serviceFQDN)) := by
  obtain ⟨p, hnext, m, hmem, k, hk, heq⟩ := hm
  obtain ⟨rfl, rfl⟩ := Prod.mk.inj heq
  obtain ⟨t, ht, hnode⟩ := List.getElem_of_mem
    (mem_vnodes.mpr ⟨m, hmem, k, hk, rfl⟩ :
      (hashString (vnodeName m k), m) ∈ vnodes hashString r)
  obtain ⟨srt', hprefer⟩ := exists_sort_preferring hashString ht
  refine ⟨srt', ?_⟩
  obtain ⟨i, hi, hlookup, hnext', hfirst⟩ :=
    lookupIn_found srt' hashString c key (List.ne_nil_of_mem hmem)
  have hpoint := UInt32.toNat_inj.mp (hnext'.unique hnext)
  rw [hnode] at hprefer
  have hget := hprefer i hi hpoint fun j hj hj' =>
    hfirst j hj (by rw [hj', hpoint])
  rw [hlookup, hget]

/-- The lookup returns an owner. -/
theorem lookupIn_owner (hne : r.members ≠ []) :
    ∃ m, OwnerOf hashString r.members key m
      ∧ lookupIn srt hashString r c key
        = some (.ok (m ++ "." ++ c.serviceFQDN)) := by
  obtain ⟨i, hi, hlookup, hnext, -⟩ := lookupIn_found srt hashString c key
    hne
  refine ⟨_, ⟨_, hnext, ?_⟩, hlookup⟩
  obtain ⟨m, hm, k, hk, heq⟩ := mem_sortedNodes.mp (List.getElem_mem hi)
  exact ⟨m, hm, k, hk, by rw [heq]⟩

-- ========================================================== the results

/-- `Lookup` refines the reference rule: there is no pod exactly when no
ring is loaded or the ring has no members; else the index is in range and
the pod is one the rule allows, for any hash and any sort. -/
theorem lookup_follows_reference (loaded : Option Ring) :
    (Client.lookup hashString
        { c with ring := loaded.map (buildRing srt hashString) } key
          = some (.error errRingEmpty) ↔
        ∀ r, loaded = some r → r.members = [])
      ∧ ∀ r, loaded = some r → r.members ≠ [] →
        ∃ m i, ReferenceNode hashString r.members key m i
          ∧ Client.lookup hashString
              { c with ring := loaded.map (buildRing srt hashString) } key
            = some (.ok (m ++ "." ++ c.serviceFQDN)) := by
  cases loaded with
  | none => simp [Client.lookup]
  | some r =>
      change (lookupIn srt hashString r c key = _ ↔ _) ∧ ∀ r', _ → _ →
        ∃ m i, _ ∧ lookupIn srt hashString r c key = _
      by_cases hne : r.members = []
      · rw [lookupIn_empty srt hashString c key hne]
        simp [hne]
      · obtain ⟨m, hm, hlookup⟩ :=
          lookupIn_owner srt hashString c key hne
        obtain ⟨i, hi⟩ := ownerOf_iff_referenceNode.mp hm
        rw [hlookup]
        refine ⟨by simp [hne], ?_⟩
        rintro r' ⟨⟩ -
        exact ⟨m, i, hi, rfl⟩

end

/-- A client of the cache `orders`. -/
def ordersClient : Client :=
  { ringConfigMap := ⟨"default", "orders-cache-ring"⟩
    serviceFQDN := "orders-cache.default.svc.cluster.local"
    ring := none }

/-- Everything lies at its first letter. -/
def hashByLetter (s : String) : UInt32 :=
  match s.toList with
  | [] => 0
  | c :: _ => c.val

/-- Three members, and a key after all their nodes: it goes round to the
first of them on the circle, which is not the first in the list. -/
theorem lookup_follows_reference_orders :
    Client.lookup hashByLetter
        { ordersClient with
          ring := some (buildRing .insertionSort hashByLetter
            ⟨1, ["m", "d", "t"]⟩) } "z"
      = some (.ok ("d" ++ "." ++ ordersClient.serviceFQDN)) := by
  obtain ⟨m, i, ⟨hmem, -, hcase⟩, hlookup⟩ :=
    (lookup_follows_reference .insertionSort hashByLetter ordersClient "z"
      (some ⟨1, ["m", "d", "t"]⟩)).2 _ rfl (by simp)
  have hz : hashByLetter "z" = 122 := by decide
  have hm : ∀ i, hashByLetter (vnodeName "m" i) = 109 := by
    simp [hashByLetter, vnodeName]
  have hd : ∀ i, hashByLetter (vnodeName "d" i) = 100 := by
    simp [hashByLetter, vnodeName]
  have ht : ∀ i, hashByLetter (vnodeName "t" i) = 116 := by
    simp [hashByLetter, vnodeName]
  have hfirst : m = "d" := by
    simp only [List.mem_cons, List.not_mem_nil, or_false] at hmem
    rcases hcase with ⟨hge, -⟩ | ⟨-, hleast⟩
    · -- no node lies from the key on
      rw [hz] at hge
      rcases hmem with rfl | rfl | rfl
      · rw [hm] at hge
        exact absurd hge (by decide)
      · rfl
      · rw [ht] at hge
        exact absurd hge (by decide)
    · have hle := hleast "d" (by simp) 0 (by decide)
      rw [hd] at hle
      rcases hmem with rfl | rfl | rfl
      · rw [hm] at hle
        exact absurd hle (by decide)
      · rfl
      · rw [ht] at hle
        exact absurd hle (by decide)
  rw [hfirst] at hlookup
  exact hlookup

section

variable (srt srt' : SliceSort) (hashString : String → UInt32)
  {members members' : List String} (c : Client) (key : String)

/-- When a member joins (anywhere in the list), a key whose point is one
member's goes to the joiner or stays where it was; read backwards, a
member that leaves takes away only the keys it owned. -/
theorem lookup_moves_only_to_joiner (version version' : Int64)
    (before after : List String) (joiner : String)
    (hsole : Undisputed hashString (before ++ joiner :: after) key) :
    lookupIn srt' hashString ⟨version', before ++ joiner :: after⟩ c key
        = some (.ok (joiner ++ "." ++ c.serviceFQDN))
      ∨ lookupIn srt' hashString ⟨version', before ++ joiner :: after⟩ c key
        = lookupIn srt hashString ⟨version, before ++ after⟩ c key := by
  obtain ⟨m', hm', hlookup'⟩ := lookupIn_owner srt' hashString
    (r := ⟨version', before ++ joiner :: after⟩) c key (by simp)
  rw [hlookup']
  by_cases hne : before ++ after = []
  · -- the joiner is the only member
    obtain ⟨rfl, rfl⟩ := List.append_eq_nil_iff.mp hne
    obtain ⟨i, hi⟩ := ownerOf_iff_referenceNode.mp hm'
    have heq : m' = joiner := List.mem_singleton.mp hi.1
    exact Or.inl (by rw [heq])
  obtain ⟨m, hm, hlookup⟩ := lookupIn_owner srt hashString
    (r := ⟨version, before ++ after⟩) c key hne
  rw [hlookup]
  have hsub : placement hashString (before ++ after)
      ⊆ placement hashString (before ++ joiner :: after) := by
    rintro v ⟨m, hm, hv⟩
    refine ⟨m, ?_, hv⟩
    simp only [List.mem_append, List.mem_cons] at hm ⊢
    tauto
  have hnew : ∀ v ∈ placement hashString (before ++ joiner :: after),
      v.2 ≠ joiner → v ∈ placement hashString (before ++ after) := by
    rintro v ⟨m, hm, i, hi, rfl⟩ hother
    refine ⟨m, ?_, i, hi, rfl⟩
    simp only [List.mem_append, List.mem_cons] at hm ⊢
    tauto
  obtain rfl | rfl := Owner.of_insert hsub hnew hsole hm' hm
  · exact Or.inl rfl
  · exact Or.inr rfl

end

/-- Nodes at two points: those of names with an `a` and the others. -/
def hashByFirstLetter (s : String) : UInt32 :=
  if s.toList.head? = some 'a' then 1 else 2

/-- The point of the key `k` is not shared. -/
theorem undisputed_byFirstLetter :
    Undisputed hashByFirstLetter ["a", "b"] "k" := by
  have ha : ∀ i, hashByFirstLetter (vnodeName "a" i) = 1 := by
    intro i
    simp [hashByFirstLetter, vnodeName]
  have hb : ∀ i, hashByFirstLetter (vnodeName "b" i) = 2 := by
    intro i
    simp [hashByFirstLetter, vnodeName]
  have hk : hashByFirstLetter "k" = 2 := by decide
  have howner : ∀ m, OwnerOf hashByFirstLetter ["a", "b"] "k" m →
      m = "b" := by
    intro m hm
    obtain ⟨i, hmem, hi, hcase⟩ := ownerOf_iff_referenceNode.mp hm
    obtain rfl | hm := List.mem_cons.mp hmem
    · obtain ⟨hge, -⟩ | ⟨hlow, -⟩ := hcase
      · rw [hk, ha i] at hge
        exact absurd hge (by decide)
      · have hlt := hlow "b" (by simp) i hi
        rw [hk, hb i] at hlt
        exact absurd hlt (by decide)
    · exact List.mem_singleton.mp hm
  intro m m' hm hm'
  rw [howner m hm, howner m' hm']

theorem lookup_moves_only_to_joiner_orders :
    lookupIn .insertionSort hashByFirstLetter ⟨2, ["a", "b"]⟩
        ordersClient "k"
        = some (.ok ("b" ++ "." ++ ordersClient.serviceFQDN))
      ∨ lookupIn .insertionSort hashByFirstLetter ⟨2, ["a", "b"]⟩
          ordersClient "k"
        = lookupIn .insertionSort hashByFirstLetter ⟨1, ["a"]⟩
          ordersClient "k" :=
  lookup_moves_only_to_joiner .insertionSort .insertionSort
    hashByFirstLetter ordersClient "k" 1 2 ["a"] [] "b"
    undisputed_byFirstLetter

section

variable (srt srt' : SliceSort) (hashString : String → UInt32)
  {members members' : List String} (c : Client) (key : String)

theorem placement_perm (hperm : members.Perm members') :
    placement hashString members = placement hashString members' := by
  ext v
  simp only [placement, Set.mem_ofPred_eq, hperm.mem_iff]

/-- The order of the members makes no difference to a key, whatever the
two sorts do with equal hashes, exactly when the key's point is one
member's. -/
theorem lookup_ignores_order_iff (r r' : Ring)
    (hperm : r.members.Perm r'.members) :
    (∀ srt srt', lookupIn srt hashString r c key
        = lookupIn srt' hashString r' c key) ↔
      Undisputed hashString r.members key := by
  have howner : ∀ m, OwnerOf hashString r'.members key m ↔
      OwnerOf hashString r.members key m := by
    intro m
    rw [OwnerOf, OwnerOf, placement_perm hashString hperm]
  constructor
  · intro hsame m m' hm hm'
    obtain ⟨srt, hlookup⟩ := exists_lookupIn hashString c key hm
    obtain ⟨srt', hlookup'⟩ := exists_lookupIn hashString c key
      ((howner m').mpr hm')
    have heq := hsame srt srt'
    rw [hlookup, hlookup'] at heq
    simpa using heq
  · intro hsole srt srt'
    by_cases hne : r.members = []
    · have hne' : r'.members = [] := (hne ▸ hperm).nil_eq.symm
      rw [lookupIn_empty srt hashString c key hne,
        lookupIn_empty srt' hashString c key hne']
    · have hne' : r'.members ≠ [] := fun h => hne (h ▸ hperm).eq_nil
      obtain ⟨m, hm, hlookup⟩ := lookupIn_owner srt hashString c key hne
      obtain ⟨m', hm', hlookup'⟩ :=
        lookupIn_owner srt' hashString c key hne'
      rw [hlookup, hlookup', hsole m m' hm ((howner m').mp hm')]

end

theorem lookup_ignores_order_iff_orders :
    (∀ srt srt', lookupIn srt hashByFirstLetter ⟨1, ["a", "b"]⟩
        ordersClient "k"
        = lookupIn srt' hashByFirstLetter ⟨1, ["b", "a"]⟩
          ordersClient "k") ↔
      Undisputed hashByFirstLetter ["a", "b"] "k" :=
  lookup_ignores_order_iff hashByFirstLetter ordersClient "k"
    ⟨1, ["a", "b"]⟩ ⟨1, ["b", "a"]⟩ (.swap "b" "a" [])

/-- Two nodes at one point: the same sort on the other order of the
members sends the key to the other pod. -/
theorem shared_point_depends_on_order :
    lookupIn .insertionSort (fun _ => 0)
        ⟨1, ["orders-cache-0", "orders-cache-1"]⟩ ordersClient "k"
        = some (.ok ("orders-cache-0" ++ "." ++ ordersClient.serviceFQDN))
      ∧ lookupIn .insertionSort (fun _ => 0)
        ⟨1, ["orders-cache-1", "orders-cache-0"]⟩ ordersClient "k"
        = some (.ok ("orders-cache-1" ++ "."
          ++ ordersClient.serviceFQDN)) := by
  decide +kernel

end CacheOperator
