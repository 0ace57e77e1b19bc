/-
From the control loop to the pods.

When the loop is at rest, the ring that is stored is the ring of the pods
as they are. A `cache-cli` that is told the namespace the pods live in
loads it with its first poll, and every key goes to a pod that is ready
(`routes`). What it puts there the next `cache-cli` gets, however often
the cache is reconciled in between: that changes nothing any more. What
happens to the stores meanwhile can lose the value, and not replace it.

The namespace of an isolated cache is its cell. With the namespace of the
object, `cache-cli` finds no ring (`isolated_cache_is_not_found`).
-/
import CacheOperator.Proofs.Cli
import CacheOperator.Proofs.Converges
import CacheOperator.Proofs.Lookup
import CacheOperator.Proofs.Members

namespace CacheOperator

open Lib

section

variable {srt : SliceSort} {key : NamespacedName} {ring : Ring}
  {stored : {o : DistributedCache // o.key = key}} {s : Cluster}

/-- At rest, the ring has the pods that belong there. -/
theorem AtRest.members (h : AtRest srt stored ring s) :
    ring.members = computeMembers srt (cachePods stored.1 s) := by
  rw [← h.ring.eq]
  exact desiredRing_members ..

/-- And if there is any, it is stored. -/
theorem AtRest.published (h : AtRest srt stored ring s)
    (hne : ring.members ≠ []) : storedRing stored.1 s = some ring := by
  obtain ⟨hcurrent, -⟩ := skipsWrite_iff.mp h.ring.skips
  rw [currentRing_eq] at hcurrent
  cases hstored : storedRing stored.1 s with
  | none =>
      rw [hstored] at hcurrent
      rw [hcurrent] at hne
      exact absurd rfl hne
  | some r =>
      rw [hstored] at hcurrent
      rw [hcurrent]
      rfl

end

/-- The name of a pod of the cache in the headless Service. -/
def podHost (cache : DistributedCache) (p : Pod) : String :=
  p.name ++ "." ++ (cache.name ++ "." ++ targetNamespace cache
    ++ ".svc.cluster.local")

section

variable {srt : SliceSort} (srt' : SliceSort)
  (hashString : String → UInt32) {key : NamespacedName} {ring : Ring}
  {stored : {o : DistributedCache // o.key = key}} {s : Cluster}
  {L : Library}

/-- When the control loop is at rest and some pod is ready, a `cache-cli`
for the namespace of the pods loads the ring with its first poll, and
looks every key up to a pod of the cache that is running, ready, not
terminating and not draining. -/
theorem AtRest.routes (h : AtRest srt stored ring s)
    (hready : ∃ p ∈ cachePods stored.1 s, (ringEntry p).isSome)
    (k : String) :
    ∃ p ∈ cachePods stored.1 s, Eligible p
      ∧ (polledAt srt' hashString (cliClient (targetNamespace stored.1)
          stored.1.name) s).lookup hashString k
        = some (.ok (podHost stored.1 p)) := by
  have hne : ring.members ≠ [] := by
    obtain ⟨p, hp, hentry⟩ := hready
    obtain ⟨⟨name, ord⟩, hentry⟩ := Option.isSome_iff_exists.mp hentry
    refine List.ne_nil_of_mem (a := name) ?_
    rw [h.members, mem_computeMembers]
    exact ⟨p, hp, ord, hentry⟩
  let c₀ := cliClient (targetNamespace stored.1) stored.1.name
  have hpoll : polledAt srt' hashString c₀ s
      = c₀.load srt' hashString ring := by
    unfold polledAt
    rw [(pollOnce_run rfl).1 ring (h.published hne)]
  obtain ⟨m, hm, hlookup⟩ := lookupIn_owner srt' hashString c₀ k hne
  obtain ⟨i, hmem, -⟩ := ownerOf_iff_referenceNode.mp hm
  rw [h.members, mem_computeMembers] at hmem
  obtain ⟨p, hp, ord, hentry⟩ := hmem
  obtain ⟨heligible, -, rfl⟩ := ringEntry_iff.mp hentry
  refine ⟨p, hp, heligible, ?_⟩
  rw [hpoll]
  exact hlookup

/-- `main` at the pod that the key is looked up to. -/
theorem cliMain_answered (redirects : RedirectStatus)
    {ns name k fqdn : String} (polls : List Cluster)
    (hL : L.Lossy) (pods : Bytes → TinyCache L) (pod : PodAddress)
    (hlookup : (polls.foldl (polledAt srt' hashString)
      (cliClient ns name)).lookup hashString k = some (.ok fqdn))
    (hhost : pod.host = utf8 fqdn) (hk : Storable (utf8 k)) (op : CliOp) :
    cliMain srt' hashString redirects (TinyCache.serveHTTP redirects) ns
        name pod.port polls pods op k
      = (.answered (kvURL pod (utf8 k))
          (outcome (pods pod.host) (utf8 k) op).1,
        Function.update pods pod.host
          (outcome (pods pod.host) (utf8 k) op).2) := by
  obtain ⟨host, port, hname⟩ := pod
  obtain rfl : host = utf8 fqdn := hhost
  have hrun := cliAt_outcome hL redirects ⟨utf8 fqdn, port, hname⟩
    (pods (utf8 fqdn)) op hk
  unfold cliAt at hrun
  unfold cliMain
  simp only [hlookup, hname, hrun, dif_pos]

theorem AtRest.foldl_reconcileAt (h : AtRest srt stored ring s)
    (ts : List Time) : ts.foldl (reconcileAt srt key) s = s := by
  induction ts with
  | nil => rfl
  | cons t ts ih =>
      have hstep : reconcileAt srt key s t = s := by
        unfold reconcileAt
        rw [h.quiet t]
      rw [List.foldl_cons, hstep]
      exact ih

end

/-- When the control loop is at rest and some pod is ready, what one
`cache-cli` puts the next one gets, with any number of Reconciles in
between and whatever happens to the stores of the pods meanwhile; unless
that lost the value, and then nothing is found. Both are answered by one
pod of the cache that is running, ready, not terminating and not
draining, and no other one is asked. -/
theorem cli_round_trip {L : Library} (hL : L.Lossy) (srt srt' : SliceSort)
    (hashString : String → UInt32) (redirects : RedirectStatus)
    {key : NamespacedName} {stored : {o : DistributedCache // o.key = key}}
    {ring : Ring} {s : Cluster} (h : AtRest srt stored ring s)
    (hready : ∃ p ∈ cachePods stored.1 s, (ringEntry p).isSome)
    (hnames : ∀ p ∈ cachePods stored.1 s,
      (utf8 (podHost stored.1 p)).all hostByte = true)
    (port : Nat) (pods : Bytes → TinyCache L) {k : String}
    (hk : Storable (utf8 k)) {value : Bytes} (hsize : value.length ≤ 2 ^ 20)
    (ts : List Time) (es : Bytes → List (Upheaval L)) :
    ∃ p ∈ cachePods stored.1 s, Eligible p
      ∧ ∃ host url resp pods₁ pods₂, host = utf8 (podHost stored.1 p)
      ∧ cliMain srt' hashString redirects (TinyCache.serveHTTP redirects)
          (targetNamespace stored.1) stored.1.name port [s] pods
          (.put value) k
        = (.answered url { status := 204 }, pods₁)
      ∧ cliMain srt' hashString redirects (TinyCache.serveHTTP redirects)
          (targetNamespace stored.1) stored.1.name port
          [ts.foldl (reconcileAt srt key) s]
          (fun host => (pods₁ host).suffers (es host)) .get k
        = (.answered url resp, pods₂)
      ∧ (resp.status = 200 ∧ resp.body = value
        ∨ resp.status = 404 ∧ L.find (pods₁ host).store (utf8 k) = some value
          ∧ L.find ((pods₁ host).suffers (es host)).store (utf8 k) = none)
      ∧ ∀ other, other ≠ host →
        pods₂ other = (pods other).suffers (es other) := by
  obtain ⟨p, hp, heligible, hlookup⟩ :=
    h.routes srt' hashString hready k
  let pod : PodAddress := ⟨utf8 (podHost stored.1 p), port, hnames p hp⟩
  have hfits : ¬maxValueBytes < value.length := by
    unfold maxValueBytes
    omega
  have hput := cliMain_answered srt' hashString redirects [s] hL pods pod
    hlookup rfl hk (.put value)
  rw [outcome_fits hfits] at hput
  let filled : TinyCache L :=
    { pods pod.host with
      store := (L.add (pods pod.host).store (utf8 k) value).2 }
  let pods₁ := Function.update pods pod.host filled
  have hfilled : pods₁ pod.host = filled := Function.update_self ..
  have hadded : L.find filled.store (utf8 k) = some value :=
    hL.add_find (pods pod.host).store (utf8 k) value
  have hget := cliMain_answered srt' hashString redirects
    [ts.foldl (reconcileAt srt key) s] hL
    (fun host => (pods₁ host).suffers (es host)) pod
    (by rw [h.foldl_reconcileAt ts]; exact hlookup) rfl hk .get
  refine ⟨p, hp, heligible, pod.host, kvURL pod (utf8 k), _, pods₁, _, rfl,
    hput, hget, ?_, ?_⟩
  · rw [hfilled]
    -- the value is found, or nothing is
    rcases (filled.suffers_loses hL (es pod.host)).find_eq (utf8 k) with
      hsame | hnone
    · left
      rw [hadded] at hsame
      simp only [outcome, hsame, Handler.valueOr404, and_self]
    · right
      refine ⟨?_, hadded, hnone⟩
      simp only [outcome, hnone, Handler.valueOr404, httpError]
  · intro other hother
    rw [Function.update_of_ne hother]
    show (Function.update pods pod.host filled other).suffers _ = _
    rw [Function.update_of_ne hother]

/-- The cache of the documentation with both its pods ready, after three
Reconciles. -/
def ordersSettled : Cluster :=
  [Time.ofUnix 100, Time.ofUnix 101, Time.ofUnix 200].foldl
    (reconcileAt .insertionSort ordersKey)
    (ordersCluster 2 2 (ordersPods (true, none) (true, none)))

theorem ordersSettled_rests :
    Rests .insertionSort ordersKey (ordersCache 2).body.spec
      ordersSettled := by
  have hle : Time.ofUnix 100 ≤ Time.ofUnix 101 := by decide
  exact (ordersCluster_recoverable 2 2 _).rests hle [] (by decide)

/-- Another entry expires in between. -/
def otherExpires (_ : Bytes) : List (Upheaval agingLibrary) :=
  [.store (.expire (ascii "j"))]

theorem cli_round_trip_orders :
    ∃ p ∈ cachePods (ordersCache 2) ordersSettled, Eligible p
      ∧ ∃ host url resp pods₁ pods₂,
        host = utf8 (podHost (ordersCache 2) p)
        ∧ cliMain .insertionSort (fun _ => 7) .movedPermanently
            (TinyCache.serveHTTP .movedPermanently) "default"
            "orders-cache" 8080 [ordersSettled] (fun _ => smallCache)
            (.put (ascii "v")) "k"
          = (.answered url { status := 204 }, pods₁)
        ∧ cliMain .insertionSort (fun _ => 7) .movedPermanently
            (TinyCache.serveHTTP .movedPermanently) "default"
            "orders-cache" 8080 [reconcileAt .insertionSort ordersKey
              ordersSettled (Time.ofUnix 300)]
            (fun host => (pods₁ host).suffers (otherExpires host)) .get "k"
          = (.answered url resp, pods₂)
        ∧ (resp.status = 200 ∧ resp.body = ascii "v"
          ∨ resp.status = 404
            ∧ agingLibrary.find (pods₁ host).store (utf8 "k")
              = some (ascii "v")
            ∧ agingLibrary.find ((pods₁ host).suffers
                (otherExpires host)).store (utf8 "k") = none)
        ∧ ∀ other, other ≠ host →
          pods₂ other = smallCache.suffers (otherExpires other) := by
  obtain ⟨stored, ring, hspec, hrest⟩ := ordersSettled_rests
  have hcell : SameCell (ordersCache 2) stored.1 :=
    ⟨stored.2, by rw [hspec]⟩
  have hready : ∃ p ∈ cachePods (ordersCache 2) ordersSettled,
      (ringEntry p).isSome := by
    decide +kernel
  have hnames : ∀ p ∈ cachePods (ordersCache 2) ordersSettled,
      (utf8 (podHost (ordersCache 2) p)).all hostByte = true := by
    decide +kernel
  have hhost : podHost stored.1 = podHost (ordersCache 2) := by
    funext p
    unfold podHost
    rw [hcell.targetNamespace, hcell.name]
  have hk : Storable (utf8 "k") :=
    ⟨by decide +kernel, ⟨by decide +kernel, by decide +kernel,
      by decide +kernel, by decide +kernel⟩, by decide +kernel⟩
  rw [← hcell.cachePods] at hready hnames ⊢
  rw [← hhost] at hnames ⊢
  have htrip := cli_round_trip (AgingStore.lossy Bytes Bytes)
    .insertionSort .insertionSort (fun _ => 7) .movedPermanently hrest
    hready hnames 8080 (fun _ => smallCache) hk
    (show (ascii "v").length ≤ 2 ^ 20 by decide) [Time.ofUnix 300]
    otherExpires
  rw [hcell.targetNamespace, hcell.name] at htrip
  exact htrip

/-- With the namespace of the object, `cache-cli` finds no ring of an
isolated cache: it is published, with one member, in the cell. -/
theorem isolated_cache_is_not_found :
    (storedRing (ordersTenant 1) ordersCellReady).map Ring.members
        = some ["orders-cache-0"]
      ∧ ((pollOnce .insertionSort (fun _ => 7)
          (cliClient "default" "orders-cache")).run api
            ordersCellReady).1
        = .ok (cliClient "default" "orders-cache",
          some (errNotFound.wrap "get ring ConfigMap")) := by
  have hnone : (ordersCellReady.objects .configMap
      (cliClient "default" "orders-cache").ringConfigMap).isNone := by
    decide +kernel
  refine ⟨by decide +kernel, ?_⟩
  unfold pollOnce
  simp only [bind, pure, Prog.bind, request, Prog.run_call]
  rw [serve_get_none (Option.isNone_iff_eq_none.mp hnone)]
  rfl

end CacheOperator
