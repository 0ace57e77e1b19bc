/-
The cluster and the API server in front of it.

# The state

A `Cluster` maps every kind and key to the object stored there, which
carries that key itself, and holds a list of pods with distinct keys.
Every write draws a fresh resource version.

# The calls

`Request` lists the calls the operator and the client make and `Reply`
what each is answered with. `serve` is the API server's side:

- `create` fails when the key is taken, `update` and `updatePod` fail
  when the object is gone or its resource version is no longer the one
  sent along (optimistic concurrency), and a write that changes nothing
  leaves the resource version alone;
- the status of a `DistributedCache` is a subresource: `update` keeps
  the stored status and `updateStatus` changes nothing else;
- deleting a namespace marks it as terminating; an object under deletion
  is gone once an update leaves it without finalizers.

Admission is not modelled: a rejected write is a refused call, and what is
sent is stored as it is. On the wire a spec leaves out what is zero, and a
default takes its place (`SpecJson`); a spec that says everything itself
comes through unchanged (`Lasting`).
-/
import CacheOperator.Lib.Prog
import CacheOperator.Model.Objects

namespace CacheOperator

open Lib

-- ============================================================= errors

/-- The API errors the operator tells apart. -/
inductive StatusReason where
  | notFound
  | alreadyExists
  | conflict
  | other
deriving DecidableEq

/-- An error value: its text, and the API error it wraps. -/
structure GoError where
  reason : StatusReason
  message : String
deriving DecidableEq

/-- `apierrors.IsNotFound(err)`. -/
def GoError.isNotFound (e : GoError) : Bool := e.reason == .notFound

/-- `fmt.Errorf("<text>: %w", err)`. -/
def GoError.wrap (text : String) (e : GoError) : GoError :=
  { e with message := text ++ ": " ++ e.message }

-- ========================================================== the state

/-- The pods of the cluster; no two have the same key. -/
structure PodSet where
  items : List Pod
  nodup : (items.map Pod.key).Nodup
deriving DecidableEq

namespace PodSet

def empty : PodSet := ⟨[], List.nodup_nil⟩

def find? (ps : PodSet) (key : NamespacedName) : Option Pod :=
  ps.items.find? fun p => p.key = key

theorem keys_replaced (items : List Pod) (p : Pod) :
    (items.map fun q => if q.key = p.key then p else q).map Pod.key
      = items.map Pod.key := by
  rw [List.map_map]
  refine List.map_congr_left fun q _ => ?_
  by_cases h : q.key = p.key
  · simp [h]
  · simp [h]

/-- Put `p` in the place of the pod with its key. -/
def replace (ps : PodSet) (p : Pod) : PodSet where
  items := ps.items.map fun q => if q.key = p.key then p else q
  nodup := by
    rw [keys_replaced]
    exact ps.nodup

end PodSet

/-- Everything the API server stores. -/
structure Cluster where
  objects : (k : Kind) → (key : NamespacedName) →
    Option {o : Object k // o.key = key}
  pods : PodSet
  nextVersion : Nat

namespace Cluster

/-- A cluster with nothing in it. -/
def empty : Cluster := ⟨fun _ _ => none, .empty, 1⟩

/-- Store an object under its key. -/
def put (s : Cluster) {k : Kind} (o : Object k) : Cluster :=
  { s with
    objects := Function.update s.objects k
      (Function.update (s.objects k) o.key (some ⟨o, rfl⟩))
    nextVersion := s.nextVersion + 1 }

/-- Drop the object stored under a key. -/
def remove (s : Cluster) (k : Kind) (key : NamespacedName) : Cluster :=
  { s with
    objects := Function.update s.objects k
      (Function.update (s.objects k) key none) }

/-- An object as it is stored by the next write. -/
def stamp (s : Cluster) {k : Kind} (o : Object k) : Object k :=
  { o with metadata :=
      { o.metadata with resourceVersion := s.nextVersion, created := true } }

/-- Write an object that passed the checks, unless nothing changes. -/
def write (s : Cluster) {k : Kind} (old o : Object k) :
    Object k × Cluster :=
  if o = old then (old, s) else (s.stamp o, s.put (s.stamp o))

end Cluster

-- ========================================================== the calls

/-- The calls to the API server. -/
inductive Request where
  | get (k : Kind) (key : NamespacedName)
  | create (k : Kind) (o : Object k)
  | update (k : Kind) (o : Object k)
  | updateStatus (cache : DistributedCache)
  | deleteNamespace (name : String)
  | listPods (ns : String) (labels : Dict String String)
  | updatePod (p : Pod)
  | event (ns reason message : String)

/-- What a call is answered with. -/
abbrev Reply : Request → Type
  | .get k key => Except GoError {o : Object k // o.key = key}
  | .create k _ => Except GoError (Object k)
  | .update k _ => Except GoError (Object k)
  | .updateStatus _ => Except GoError DistributedCache
  | .deleteNamespace _ => Except GoError Unit
  | .listPods _ _ => Except GoError (List Pod)
  | .updatePod _ => Except GoError Pod
  | .event _ _ _ => Unit

/-- The interface of the API server. -/
abbrev Api : Sig := ⟨Request, Reply⟩

/-- Programs over the API that may fail with an error value. -/
abbrev Op (α : Type) := Prog Api GoError α

/-- Make one call. -/
def request (r : Request) : Op (Reply r) := Prog.call (S := Api) r .ret

@[simp] theorem request_bind {α : Type} (r : Request) (f : Reply r → Op α) :
    request r >>= f = Prog.call (S := Api) r f := rfl

def errNotFound : GoError := ⟨.notFound, "not found"⟩

def errAlreadyExists : GoError := ⟨.alreadyExists, "already exists"⟩

def errConflict : GoError := ⟨.conflict, "the object has been modified"⟩

def errRefused : GoError := ⟨.other, "the call failed"⟩

-- ========================================================== the server

/-- What `update` makes of the object sent: the status of a
`DistributedCache` is not its to change. -/
def admitted : (k : Kind) → (old new : Object k) → Object k
  | .distributedCache, old, new =>
      { new with body := { new.body with status := old.body.status } }
  | _, _, new => new

/-- The update takes the last finalizer from an object under deletion,
which removes it. -/
def finalized {k : Kind} (old new : Object k) : Bool :=
  new.metadata.deleting && !old.metadata.finalizers.isEmpty
    && new.metadata.finalizers.isEmpty

/-- Does the pod carry the labels? -/
def matchesLabels (labels : Dict String String) (p : Pod) : Bool :=
  labels.entries.all fun e => p.metadata.labels.get e.1 == some e.2

namespace Cluster

/-- The pods a list call answers with. -/
def podsIn (s : Cluster) (ns : String) (labels : Dict String String) :
    List Pod :=
  s.pods.items.filter fun p => p.metadata.ns == ns && matchesLabels labels p

def serveGet (s : Cluster) (k : Kind) (key : NamespacedName) :
    Except GoError {o : Object k // o.key = key} :=
  match s.objects k key with
  | none => .error errNotFound
  | some o => .ok o

def serveCreate (s : Cluster) {k : Kind} (o : Object k) :
    Except GoError (Object k) × Cluster :=
  match s.objects k o.key with
  | some _ => (.error errAlreadyExists, s)
  | none => (.ok (s.stamp o), s.put (s.stamp o))

def serveUpdate (s : Cluster) {k : Kind} (o : Object k) :
    Except GoError (Object k) × Cluster :=
  match s.objects k o.key with
  | none => (.error errNotFound, s)
  | some ⟨old, _⟩ =>
      if o.metadata.resourceVersion ≠ old.metadata.resourceVersion then
        (.error errConflict, s)
      else if finalized old o then (.ok o, s.remove k o.key)
      else
        let w := s.write old (admitted k old o)
        (.ok w.1, w.2)

def serveUpdateStatus (s : Cluster) (cache : DistributedCache) :
    Except GoError DistributedCache × Cluster :=
  match s.objects .distributedCache cache.key with
  | none => (.error errNotFound, s)
  | some ⟨old, _⟩ =>
      if cache.metadata.resourceVersion ≠ old.metadata.resourceVersion then
        (.error errConflict, s)
      else
        let w := s.write old
          { old with body := { old.body with status := cache.body.status } }
        (.ok w.1, w.2)

def serveDeleteNamespace (s : Cluster) (name : String) :
    Except GoError Unit × Cluster :=
  match s.objects .ns ⟨"", name⟩ with
  | none => (.error errNotFound, s)
  | some ⟨old, _⟩ =>
      (.ok (), (s.write old
        { old with metadata := { old.metadata with deleting := true } }).2)

def serveUpdatePod (s : Cluster) (p : Pod) :
    Except GoError Pod × Cluster :=
  match s.pods.find? p.key with
  | none => (.error errNotFound, s)
  | some old =>
      if p.metadata.resourceVersion ≠ old.metadata.resourceVersion then
        (.error errConflict, s)
      else if p = old then (.ok old, s)
      else
        let p' := { p with metadata :=
          { p.metadata with resourceVersion := s.nextVersion } }
        (.ok p', { s with
          pods := s.pods.replace p', nextVersion := s.nextVersion + 1 })

end Cluster

/-- The API server. -/
def api : Server Api Cluster where
  serve
    | .get k key, s => (s.serveGet k key, s)
    | .create _ o, s => s.serveCreate o
    | .update _ o, s => s.serveUpdate o
    | .updateStatus cache, s => s.serveUpdateStatus cache
    | .deleteNamespace name, s => s.serveDeleteNamespace name
    | .listPods ns labels, s => (.ok (s.podsIn ns labels), s)
    | .updatePod p, s => s.serveUpdatePod p
    | .event _ _ _, s => ((), s)
  refuse
    | .get _ _ => .error errRefused
    | .create _ _ => .error errRefused
    | .update _ _ => .error errRefused
    | .updateStatus _ => .error errRefused
    | .deleteNamespace _ => .error errRefused
    | .listPods _ _ => .error errRefused
    | .updatePod _ => .error errRefused
    | .event _ _ _ => ()

end CacheOperator
