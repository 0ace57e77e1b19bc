/-
The tiny-cache server of `internal/cache` as it runs: its store is a
library's, and its handlers run side by side.

`net/http` serves every request in a goroutine of its own. What these
share is the store and the flag `ready`; a handler is therefore a program
over the calls to them (`SharedCalls`), and whatever it does in between
(read the body, write the answer) happens while others make theirs.

# What is assumed of libraries

- The LRU is a parameter (`StoreOps`). It is locked, so a call is served
  at once. What it does about its capacity and its clock is its own
  affair; where anything is relied on, that is a hypothesis (`Lossy`).
- `atomic.Bool` is read and written at once.

`CacheServer` is the same server with a map that may drop an entry at any
time.
-/
import CacheOperator.Lib.Clock
import CacheOperator.Lib.Linearize
import CacheOperator.Lib.LossyStore
import CacheOperator.Model.TinyCache

namespace CacheOperator

open Lib

-- ========================================================= the server

/-- What `cache.Store` wraps: a library's store of byte strings. -/
abbrev Library := StoreOps Bytes Bytes

/-- The time to live that `NewStore` settles for. -/
def storeTTL (defaultTTL : Int) : Int :=
  if defaultTTL ≤ 0 then 60 * second else defaultTTL

/-- `NewStore`; no result is the panic. -/
def newStore (L : Library) (capacity defaultTTL : Int) : Option L.State :=
  if capacity ≤ 0 then none
  else some (L.new capacity.toNat (storeTTL defaultTTL))

/-- `server`. -/
structure TinyCache (L : Library) where
  store : L.State
  ready : Bool

/-- `Config`. -/
structure CacheConfig where
  listen : String
  /-- Is there one? -/
  logger : Bool
  capacity : Int
  defaultTTL : Int

/-- What `Run` does before it listens; no result is a panic. -/
def CacheConfig.run (L : Library) (cfg : CacheConfig) :
    Except String (Option (TinyCache L)) :=
  if !cfg.logger then .error "Config.Logger is required"
  else if cfg.listen = "" then .error "Config.Listen is required"
  else if cfg.capacity ≤ 0 then .error "Config.Capacity must be > 0"
  else
    .ok ((newStore L cfg.capacity cfg.defaultTTL).map
      fun store => ⟨store, true⟩)

variable {L : Library}

/-- What happens to the server beside the requests. -/
inductive Upheaval (L : Library) where
  /-- To the store: time passes, entries expire or are swept. -/
  | store (e : L.Event)
  | markNotReady

def TinyCache.suffer : Upheaval L → TinyCache L → TinyCache L
  | .store e, s => { s with store := L.happen e s.store }
  | .markNotReady, s => { s with ready := false }

-- =========================================================== the calls

/-- A call to what the handlers share. -/
inductive SharedCall where
  | get (key : Bytes)
  | put (key value : Bytes)
  | delete (key : Bytes)
  /-- `s.ready.Load()`. -/
  | loadReady
deriving DecidableEq

abbrev SharedCalls : Sig where
  Req := SharedCall
  Resp
    | .get _ => Option Bytes
    | .put _ _ => Bool
    | .delete _ => Bool
    | .loadReady => Bool

/-- The store and the flag. Memory turns no call down, so the refusals
are never used. -/
def shared : Server SharedCalls (TinyCache L) where
  serve
    | .get key, s =>
        ((L.get s.store key).1, { s with store := (L.get s.store key).2 })
    | .put key value, s =>
        ((L.add s.store key value).1,
          { s with store := (L.add s.store key value).2 })
    | .delete key, s =>
        ((L.remove s.store key).1,
          { s with store := (L.remove s.store key).2 })
    | .loadReady, s => (s.ready, s)
  refuse
    | .get _ => none
    | .put _ _ => false
    | .delete _ => false
    | .loadReady => false

-- ======================================================== the handlers

/-- A handler on its way to its answer. -/
abbrev Handler := Prog SharedCalls Empty Response

namespace Handler

def handleGet (key : Bytes) : Handler :=
  .call (.get key) fun
    | none => .ret (httpError (ascii "not found") 404)
    | some value =>
        .ret
          { status := 200
            headers := Dict.empty.set "Content-Type"
              (ascii "application/octet-stream")
            body := value }

def handlePut (r : HttpRequest) (key : Bytes) : Handler :=
  match r.body.readAllLimited (maxValueBytes + 1) with
  | (_, some err) => .ret (httpError (ascii "read body: " ++ err) 400)
  | (body, none) =>
      if maxValueBytes < body.length then
        .ret (httpError (ascii "value too large") 413)
      else .call (.put key body) fun _ => .ret { status := 204 }

def handleDelete (key : Bytes) : Handler :=
  .call (.delete key) fun existed =>
    if !existed then .ret (httpError (ascii "not found") 404)
    else .ret { status := 204 }

def kvHandler (r : HttpRequest) : Handler :=
  if !CacheServer.kvPrefix.isPrefixOf r.url.path then .ret httpNotFound
  else
    let key := r.url.path.drop CacheServer.kvPrefix.length
    if key = [] ∨ slash ∈ key then
      .ret (httpError (ascii "invalid key") 400)
    else if r.method = "GET" then handleGet key
    else if r.method = "PUT" then handlePut r key
    else if r.method = "DELETE" then handleDelete key
    else
      let resp := httpError (ascii "method not allowed") 405
      .ret
        { resp with
          headers := resp.headers.set "Allow" (ascii "GET, PUT, DELETE") }

def healthz : Handler := .ret { status := 200, body := ascii "ok\n" }

def readyz : Handler :=
  .call .loadReady fun ready =>
    if !ready then .ret { status := 503, body := ascii "not ready\n" }
    else .ret { status := 200, body := ascii "ready\n" }

/-- The handler that `routes` returns. -/
def serveHTTP (redirects : RedirectStatus) (r : HttpRequest) : Handler :=
  match findHandler r.method r.url with
  | .redirect u =>
      .ret
        { status := redirects.code
          headers := Dict.empty.set "Location" u.requestURI }
  | .handler .healthz => healthz
  | .handler .readyz => readyz
  | .handler .kv => kvHandler r
  | .notFound => .ret httpNotFound

/-- What a handler does when nobody else is there. -/
def alone (p : Handler) (s : TinyCache L) : Response × TinyCache L :=
  match p.run shared s with
  | (.ok resp, s') => (resp, s')
  | (.error e, _) => nomatch e

end Handler

/-- One request, with nobody else there. -/
def TinyCache.serveHTTP (redirects : RedirectStatus) (s : TinyCache L)
    (r : HttpRequest) : Response × TinyCache L :=
  (Handler.serveHTTP redirects r).alone s

end CacheOperator
