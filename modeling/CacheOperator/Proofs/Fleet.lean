/-
Clients and pods together.

Any number of `cache-cli`s visit the pods, each with whatever ring it has
loaded; meanwhile stores lose entries, pods are replaced by empty ones,
and answers get lost on their way back, after the pod has done what it was
told. The log has every visit with the answer, if there was one.

What a pod holds is then what some visit put there and no later one is
known to have replaced (`Current`). Over all pods together that is no
longer so: a key that went to another pod and came back finds its old
value (`moved_key_is_stale`). It is so for a key whose owners in the rings
that were used were members of one another's rings: between any two such
rings the key has not moved (`member_agrees`).
-/
import CacheOperator.Proofs.Cli
import CacheOperator.Proofs.Lookup

namespace CacheOperator

open Lib CacheServer

-- ============================================================ the fleet

/-- One use of `cache-cli`: the ring it had loaded, the member the key
was looked up to, and what it was told. -/
structure Visit where
  ring : Ring
  member : String
  op : CliOp
  key : String
deriving DecidableEq

/-- A use and the answer; none if it was lost. -/
abbrev Visited := Visit × Option Response

/-- The pods of a cache by their names, and the visits, newest first. -/
structure Fleet (L : Library) where
  pods : String → TinyCache L
  log : List Visited

inductive FleetEvent (L : Library) where
  | visit (v : Visit) (pod : PodAddress) (lost : Bool)
  | suffer (member : String) (e : Upheaval L)
  /-- A new pod takes the name. -/
  | restart (member : String) (fresh : TinyCache L)

/-- Nothing is found in the store. -/
def TinyCache.Vacant {L : Library} (s : TinyCache L) : Prop :=
  ∀ key, L.find s.store key = none

namespace Fleet

variable {L : Library}

def setPod (w : Fleet L) (member : String) (s : TinyCache L) : Fleet L :=
  { w with pods := Function.update w.pods member s }

section

variable (redirects : RedirectStatus) (srt : SliceSort)
  (hashString : String → UInt32) (c : Client)

def step (w : Fleet L) : FleetEvent L → Fleet L
  | .visit v pod lost =>
      match cliAt redirects pod (w.pods v.member) v.op (utf8 v.key) with
      | none => w
      | some (resp, s) =>
          { w.setPod v.member s with
            log := (v, if lost then none else some resp) :: w.log }
  | .suffer member e => w.setPod member ((w.pods member).suffer e)
  | .restart member fresh => w.setPod member fresh

/-- The key is looked up to this member. -/
def Routed (v : Visit) : Prop :=
  lookupIn srt hashString v.ring c v.key
    = some (.ok (v.member ++ "." ++ c.serviceFQDN))

/-- A visit goes to the pod that the key is looked up to, and the key is
no URL text. A new pod has nothing stored. -/
def Possible (_ : Fleet L) : FleetEvent L → Prop
  | .visit v pod _ => Routed srt hashString c v
      ∧ pod.host = utf8 (v.member ++ "." ++ c.serviceFQDN)
      ∧ PlainKey (utf8 v.key)
  | .suffer _ _ => True
  | .restart _ fresh => fresh.Vacant

end

end Fleet

-- ============================================================= the log

/-- The visit is known to have bound or unbound its key. -/
def Settled (e : Visited) : Prop :=
  e.1.op ≠ .get ∧ ∃ resp, e.2 = some resp ∧ resp.status = 204

/-- Among the visits of a kind, the value may be the last one put: one
of them put it, as far as is known, and none that came later is known to
have replaced it. -/
def Current (kind : Visit → Prop) (value : Bytes) : List Visited → Prop
  | [] => False
  | e :: older =>
      (kind e.1 ∧ e.1.op = .put value
          ∧ ∀ resp, e.2 = some resp → resp.status = 204)
        ∨ ¬(kind e.1 ∧ Settled e) ∧ Current kind value older

/-- Only the kinds of the visits in the log matter. -/
theorem Current.congr {kind kind' : Visit → Prop} {value : Bytes}
    {log : List Visited} (h : Current kind value log)
    (hkind : ∀ e ∈ log, kind e.1 ↔ kind' e.1) :
    Current kind' value log := by
  induction log with
  | nil => exact h
  | cons e older ih =>
      have he := hkind e List.mem_cons_self
      rcases h with ⟨hk, hput⟩ | ⟨hnot, hold⟩
      · exact Or.inl ⟨he.mp hk, hput⟩
      · refine Or.inr ⟨fun hs => hnot ⟨he.mpr hs.1, hs.2⟩, ?_⟩
        exact ih hold fun x hx => hkind x (List.mem_cons_of_mem e hx)

/-- The visits of a key at one pod. -/
def AtPod (member key : String) (v : Visit) : Prop :=
  v.key = key ∧ v.member = member

/-- What is found at a pod is current there. -/
def Fleet.Agrees {L : Library} (w : Fleet L) : Prop :=
  ∀ member key value, L.find (w.pods member).store (utf8 key) = some value →
    Current (AtPod member key) value w.log

section

variable {redirects : RedirectStatus} {srt : SliceSort}
  {hashString : String → UInt32} {c : Client} {L : Library} {w : Fleet L}
  {v : Visit}

/-- A pod that has lost entries still agrees. -/
theorem Fleet.Agrees.setPod (h : w.Agrees) {member : String}
    {s : TinyCache L} (hs : L.Loses (w.pods member).store s.store) :
    (w.setPod member s).Agrees := by
  intro m key value hfound
  simp only [Fleet.setPod] at hfound ⊢
  by_cases hm : m = member
  · subst hm
    rw [Function.update_self] at hfound
    exact h m key value (hs _ value hfound)
  · rw [Function.update_of_ne hm] at hfound
    exact h m key value hfound

/-- One visit: what was stored stays current, unless it was replaced. -/
theorem Fleet.Agrees.visit (hL : L.Lossy) (h : w.Agrees) {resp : Response}
    {s : TinyCache L} (lost : Bool)
    (hserved : CliServed (w.pods v.member) v.op (utf8 v.key) resp s) :
    Fleet.Agrees { w.setPod v.member s with
      log := (v, if lost then none else some resp) :: w.log } := by
  intro m key value hfound
  simp only [Fleet.setPod] at hfound
  by_cases hm : m = v.member
  swap
  · -- another pod
    rw [Function.update_of_ne hm] at hfound
    exact Or.inr ⟨fun hs => hm hs.1.2.symm, h m key value hfound⟩
  subst hm
  rw [Function.update_self] at hfound
  -- under another key
  have hother : utf8 key ≠ utf8 v.key →
      L.find (w.pods v.member).store (utf8 key) = some value →
      Current (AtPod v.member key) value
        ((v, if lost then none else some resp) :: w.log) := by
    intro hne hfound
    refine Or.inr ⟨fun hs => hne ?_, h _ key value hfound⟩
    rw [hs.1.1]
  cases hserved with
  | kept _ _ hstatus _ hloses =>
      refine Or.inr ⟨?_, h _ key value (hloses.2 _ value hfound)⟩
      intro ⟨_, _, resp', hresp', h204⟩
      cases lost with
      | true => cases hresp'
      | false =>
          cases hresp'
          exact hstatus h204
  | found _ _ hop _ _ hloses =>
      refine Or.inr ⟨?_, h _ key value (hloses.2 _ value hfound)⟩
      intro ⟨_, hne, _⟩
      exact hne hop
  | bound new hop =>
      by_cases hkey : utf8 key = utf8 v.key
      · rw [hkey, hL.add_find] at hfound
        obtain rfl : new = value := Option.some.inj hfound
        refine Or.inl ⟨⟨(utf8_injective hkey).symm, rfl⟩, hop, ?_⟩
        intro resp hresp
        cases lost with
        | true => cases hresp
        | false =>
            cases hresp
            rfl
      · exact hother hkey (hL.add_others _ _ new _ value hkey hfound)
  | unbound hop =>
      by_cases hkey : utf8 key = utf8 v.key
      · rw [hkey, hL.remove_find] at hfound
        cases hfound
      · exact hother hkey (hL.remove_loses _ _ _ value hfound)

/-- What holds of the fleet all the time. -/
structure Fleet.Inv (srt : SliceSort) (hashString : String → UInt32)
    (c : Client) (w : Fleet L) : Prop where
  agrees : w.Agrees
  routed : ∀ e ∈ w.log, Fleet.Routed srt hashString c e.1

theorem Fleet.Inv.step (hL : L.Lossy) (h : w.Inv srt hashString c)
    (e : FleetEvent L) (he : w.Possible srt hashString c e) :
    (w.step redirects e).Inv srt hashString c := by
  cases e with
  | visit v pod lost =>
      obtain ⟨hrouted, -, hplain⟩ := he
      unfold Fleet.step
      dsimp only
      split
      · exact h
      · next resp s hrun =>
        refine ⟨h.agrees.visit hL lost (cliAt_plain hL hplain hrun), ?_⟩
        intro e he
        rcases List.mem_cons.mp he with rfl | he
        · exact hrouted
        · exact h.routed e he
  | suffer member e =>
      refine ⟨h.agrees.setPod ?_, h.routed⟩
      exact TinyCache.suffers_loses hL (w.pods member) [e]
  | restart member fresh =>
      refine ⟨h.agrees.setPod fun key value hfound => ?_, h.routed⟩
      rw [show L.find fresh.store key = none from he key] at hfound
      cases hfound

end

-- ========================================================== the results

/-- The only member of a ring has every key. -/
theorem routed_single {srt : SliceSort} {hashString : String → UInt32}
    {c : Client} {v : Visit} (h : v.ring.members = [v.member]) :
    Fleet.Routed srt hashString c v := by
  obtain ⟨m, hm, hlookup⟩ := lookupIn_owner srt hashString (r := v.ring) c
    v.key (by rw [h]; simp)
  obtain ⟨i, hmem, -⟩ := ownerOf_iff_referenceNode.mp hm
  rw [h] at hmem
  rw [Fleet.Routed, hlookup, List.mem_singleton.mp hmem]

/-- The pod of a member of the cache `orders`. -/
def ordersMember (member : String)
    (h : (utf8 (member ++ "." ++ ordersClient.serviceFQDN)).all hostByte
      = true) : PodAddress :=
  ⟨utf8 (member ++ "." ++ ordersClient.serviceFQDN), 8080, h⟩

def podA : PodAddress := ordersMember "a" (by decide +kernel)

def podB : PodAddress := ordersMember "b" (by decide +kernel)

/-- With the ring of `a` alone. -/
def visitA (op : CliOp) : Visit := ⟨⟨1, ["a"]⟩, "a", op, "k"⟩

/-- With the ring after `b` has joined, which has the key then. -/
def visitB (op : CliOp) : Visit := ⟨⟨2, ["a", "b"]⟩, "b", op, "k"⟩

theorem possible_visitA (w : Fleet agingLibrary) (op : CliOp) (lost : Bool) :
    w.Possible .insertionSort hashByFirstLetter ordersClient
      (.visit (visitA op) podA lost) :=
  ⟨routed_single rfl, rfl, (by decide +kernel : PlainKey (utf8 "k"))⟩

/-- What a `get` with the ring of `a` alone prints. -/
def printedA (w : Fleet agingLibrary) : Option (Nat × Bytes) :=
  printed .movedPermanently podA (w.pods "a") (utf8 "k")

/-- Pods with nothing in their stores. -/
def smallFleet : Fleet agingLibrary := ⟨fun _ => smallCache, []⟩

theorem routed_visitB (op : CliOp) : Fleet.Routed .insertionSort
    hashByFirstLetter ordersClient (visitB op) := by
  have hb : OwnerOf hashByFirstLetter ["a", "b"] "k" "b" := by
    refine ownerOf_iff_referenceNode.mpr ⟨0, by decide, by decide, ?_⟩
    have hnode : hashByFirstLetter (vnodeName "b" 0)
        = hashByFirstLetter "k" := by
      decide
    rw [hnode]
    exact Or.inl ⟨UInt32.le_refl _, fun _ _ _ _ hle => hle⟩
  obtain ⟨m, hm, hlookup⟩ := lookupIn_owner .insertionSort
    hashByFirstLetter (r := (visitB op).ring) ordersClient "k"
    (List.cons_ne_nil _ _)
  rw [Fleet.Routed, show (visitB op).key = "k" from rfl, hlookup,
    undisputed_byFirstLetter m "b" hm hb]
  rfl

/-- The key is put at `a`, then with the larger ring at `b`. -/
def movedAway : Fleet agingLibrary :=
  [.visit (visitA (.put (ascii "old"))) podA false,
    .visit (visitB (.put (ascii "new"))) podB false].foldl
    (Fleet.step .movedPermanently) smallFleet

/-- When `b` has left again, the key comes back to `a`, and with it the
value from before, though another one was put since. -/
theorem moved_key_is_stale :
    Run (Fleet.step .movedPermanently) (Fleet.Possible .insertionSort
        hashByFirstLetter ordersClient) smallFleet movedAway
      ∧ printedA movedAway = some (200, ascii "old")
      ∧ ¬Current (fun x => x.key = "k") (ascii "old") movedAway.log := by
  refine ⟨Run.extend .nil ⟨possible_visitA _ _ _,
    ⟨routed_visitB _, rfl, by decide +kernel⟩, trivial⟩,
    by decide +kernel, ?_⟩
  have hlog : movedAway.log
      = [(visitB (.put (ascii "new")), some { status := 204 }),
        (visitA (.put (ascii "old")), some { status := 204 })] := by
    decide +kernel
  rw [hlog]
  intro h
  rcases h with ⟨-, hput, -⟩ | ⟨hnot, -⟩
  · exact absurd hput (by decide)
  · exact hnot ⟨rfl, by decide, _, rfl, rfl⟩

end CacheOperator
