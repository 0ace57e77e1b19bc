/-
The data plane: the tiny-cache server of `internal/cache` and the part of
`cmd/cache-cli` that talks to it.

# What is assumed of libraries

- The LRU is a map: `Add` binds, `Remove` unbinds, `Get` reads. That it
  may drop an entry at any time is an event of its own (`Store.drop`), so
  whether `Add` evicted something is not part of a result.
- A request body is what its reader delivers: chunks, then the end or an
  error, which may come with the last bytes. `readAllLimited` is
  `io.ReadAll(io.LimitReader(body, n))`.
- `ServeMux` cleans the escaped path and redirects to the result; whether
  with 301 or with 307 depends on the Go release, so both are kept. The
  HTML text of a redirect is left out.
- `http.Client` follows redirects, ten requests at most: after a 301 a
  PUT goes on as a GET without a body, after a 307 as it was.
-/
import CacheOperator.Lib.Dict
import CacheOperator.Lib.Url

namespace CacheOperator

open Lib

-- ========================================================= the store

/-- `Store`: the keys that are bound, with their values. -/
structure Store where
  entries : Bytes → Option Bytes

namespace Store

/-- `NewStore`. -/
def empty : Store := ⟨fun _ => none⟩

def get (s : Store) (key : Bytes) : Option Bytes := s.entries key

def put (s : Store) (key value : Bytes) : Store :=
  ⟨Function.update s.entries key (some value)⟩

/-- `Delete`: was the key present? -/
def delete (s : Store) (key : Bytes) : Bool × Store :=
  ((s.get key).isSome, ⟨Function.update s.entries key none⟩)

/-- An entry is evicted or expires. -/
def drop (s : Store) (key : Bytes) : Store :=
  ⟨Function.update s.entries key none⟩

end Store

-- ========================================================== requests

/-- A request body as its reader delivers it; the error is the reader's
text, none is the end of the body. -/
inductive BodyReader where
  /-- No more bytes. -/
  | done (err : Option Bytes)
  /-- The last bytes come with the end. -/
  | last (chunk : Bytes) (err : Option Bytes)
  /-- Bytes, and more to read. -/
  | more (chunk : Bytes) (rest : BodyReader)
deriving DecidableEq

namespace BodyReader

/-- All the bytes. -/
def content : BodyReader → Bytes
  | .done _ => []
  | .last chunk _ => chunk
  | .more chunk rest => chunk ++ rest.content

/-- How reading ends. -/
def err : BodyReader → Option Bytes
  | .done err => err
  | .last _ err => err
  | .more _ rest => rest.err

/-- What `io.ReadAll` returns on a reader limited to `n` bytes. When the
limit is used up, the limited reader reports the end itself. -/
def readAllLimited : Nat → BodyReader → Bytes × Option Bytes
  | 0, _ => ([], none)
  | _ + 1, .done err => ([], err)
  | n + 1, .last chunk err =>
      if chunk.length ≤ n + 1 then (chunk, err)
      else (chunk.take (n + 1), none)
  | n + 1, .more chunk rest =>
      if chunk.length ≤ n + 1 then
        let (bytes, err) := readAllLimited (n + 1 - chunk.length) rest
        (chunk ++ bytes, err)
      else (chunk.take (n + 1), none)

end BodyReader

structure HttpRequest where
  method : String
  url : URL
  body : BodyReader
deriving DecidableEq

structure Response where
  status : Nat
  headers : Dict String Bytes := .empty
  body : Bytes := []
deriving DecidableEq

/-- `http.Error`. -/
def httpError (text : Bytes) (status : Nat) : Response :=
  { status
    headers :=
      (Dict.empty.set "Content-Type" (ascii "text/plain; charset=utf-8")).set
        "X-Content-Type-Options" (ascii "nosniff")
    body := text ++ ascii "\n" }

/-- `http.NotFound`. -/
def httpNotFound : Response := httpError (ascii "404 page not found") 404

-- ========================================================== handlers

/-- Maximum value size in bytes. -/
def maxValueBytes : Nat := 2 ^ 20

/-- `server`. -/
structure CacheServer where
  store : Store
  ready : Bool

/-- `newServer`. -/
def newServer : CacheServer := ⟨.empty, true⟩

namespace CacheServer

def markNotReady (s : CacheServer) : CacheServer := { s with ready := false }

def handleGet (s : CacheServer) (key : Bytes) : Response × CacheServer :=
  match s.store.get key with
  | none => (httpError (ascii "not found") 404, s)
  | some value =>
      ({ status := 200
         headers :=
           Dict.empty.set "Content-Type" (ascii "application/octet-stream")
         body := value }, s)

def handlePut (s : CacheServer) (r : HttpRequest) (key : Bytes) :
    Response × CacheServer :=
  match r.body.readAllLimited (maxValueBytes + 1) with
  | (_, some err) => (httpError (ascii "read body: " ++ err) 400, s)
  | (body, none) =>
      if maxValueBytes < body.length then
        (httpError (ascii "value too large") 413, s)
      else ({ status := 204 }, { s with store := s.store.put key body })

def handleDelete (s : CacheServer) (key : Bytes) : Response × CacheServer :=
  let (existed, store) := s.store.delete key
  if !existed then (httpError (ascii "not found") 404, { s with store })
  else ({ status := 204 }, { s with store })

def kvPrefix : Bytes := ascii "/kv/"

def kvHandler (s : CacheServer) (r : HttpRequest) :
    Response × CacheServer :=
  if !kvPrefix.isPrefixOf r.url.path then (httpNotFound, s)
  else
    let key := r.url.path.drop kvPrefix.length
    if key = [] ∨ slash ∈ key then (httpError (ascii "invalid key") 400, s)
    else if r.method = "GET" then s.handleGet key
    else if r.method = "PUT" then s.handlePut r key
    else if r.method = "DELETE" then s.handleDelete key
    else
      let resp := httpError (ascii "method not allowed") 405
      ({ resp with
         headers := resp.headers.set "Allow" (ascii "GET, PUT, DELETE") }, s)

def healthz (s : CacheServer) : Response × CacheServer :=
  ({ status := 200, body := ascii "ok\n" }, s)

def readyz (s : CacheServer) : Response × CacheServer :=
  if !s.ready then ({ status := 503, body := ascii "not ready\n" }, s)
  else ({ status := 200, body := ascii "ready\n" }, s)

end CacheServer

-- =========================================================== the mux

/-- The patterns `routes` registers. -/
inductive Pattern where
  | healthz
  | readyz
  | kv
deriving DecidableEq

/-- How many segments a pattern has; a slash at the end is one. -/
def Pattern.segments : Pattern → Nat
  | .healthz => 1
  | .readyz => 1
  | .kv => 2

/-- The first segment of a path, decoded if it can be, and the rest. -/
def firstSegment (path : Bytes) : Bytes × Bytes :=
  if path = [slash] then ([slash], [])
  else
    let p := path.tail
    let seg := p.takeWhile (· ≠ slash)
    ((unescape seg).getD seg, p.drop seg.length)

/-- The pattern that matches an escaped path. -/
def matchPattern (path : Bytes) : Option Pattern :=
  if firstSegment path = (ascii "healthz", []) then some .healthz
  else if firstSegment path = (ascii "readyz", []) then some .readyz
  else if (firstSegment path).1 = ascii "kv"
      ∧ (firstSegment path).2 ≠ [] then some .kv
  else none

/-- The pattern covers the whole path, the slash at its end included. -/
def exactMatch (p : Option Pattern) (path : Bytes) : Bool :=
  match p with
  | none => false
  | some p =>
      if path.getLast? ≠ some slash then true
      else p.segments = path.count slash

/-- Where a path without its last slash is sent, if somebody answers
there. -/
def slashRedirect (path : Bytes) (u : URL) : Option URL :=
  if !exactMatch (matchPattern path) path ∧ path.getLast? ≠ some slash
      ∧ exactMatch (matchPattern (path ++ [slash])) (path ++ [slash]) then
    some { path := cleanPath u.path ++ [slash], rawQuery := u.rawQuery }
  else none

/-- What `ServeMux` decides on. -/
inductive Found where
  | redirect (u : URL)
  | handler (p : Pattern)
  | notFound
deriving DecidableEq

/-- The path that is matched: cleaned, unless the method is CONNECT. -/
def muxPath (method : String) (u : URL) : Bytes :=
  if method = "CONNECT" then u.escapedPath else cleanPath u.escapedPath

/-- `findHandler`. -/
def findHandler (method : String) (u : URL) : Found :=
  match slashRedirect (muxPath method u) u with
  | some u => .redirect u
  | none =>
      if muxPath method u ≠ u.escapedPath then
        .redirect { path := muxPath method u, rawQuery := u.rawQuery }
      else
        match matchPattern u.escapedPath with
        | some p => .handler p
        | none => .notFound

/-- The status of the redirects of `ServeMux`. -/
inductive RedirectStatus where
  | movedPermanently
  | temporaryRedirect
deriving DecidableEq

def RedirectStatus.code : RedirectStatus → Nat
  | .movedPermanently => 301
  | .temporaryRedirect => 307

/-- The handler that `routes` returns. -/
def CacheServer.serveHTTP (redirects : RedirectStatus) (s : CacheServer)
    (r : HttpRequest) : Response × CacheServer :=
  match findHandler r.method r.url with
  | .redirect u =>
      ({ status := redirects.code
         headers := Dict.empty.set "Location" u.requestURI }, s)
  | .handler .healthz => s.healthz
  | .handler .readyz => s.readyz
  | .handler .kv => s.kvHandler r
  | .notFound => (httpNotFound, s)

-- ========================================================= cache-cli

/-- A byte of a DNS name. -/
def hostByte (c : UInt8) : Bool :=
  (0x61 ≤ c && c ≤ 0x7A) || (0x41 ≤ c && c ≤ 0x5A)
    || (0x30 ≤ c && c ≤ 0x39) || c = 0x2D || c = 0x2E

/-- The pod a key was looked up to, and the port. -/
structure PodAddress where
  host : Bytes
  port : Nat
  isName : host.all hostByte = true

/-- `fmt.Sprintf("http://%s:%d/kv/%s", pod, *port, key)`. -/
def kvURL (pod : PodAddress) (key : Bytes) : Bytes :=
  ascii "http://" ++ pod.host ++ ascii ":"
    ++ (Nat.toDigits 10 pod.port).map (fun c => UInt8.ofNat c.toNat)
    ++ ascii "/kv/" ++ key

/-- What the server reads from a request line, which is cut at its blanks:
with one in the target, what follows it is no HTTP version. -/
def readTarget (target : Bytes) : Option URL :=
  if (0x20 : UInt8) ∈ target then none else parseRequestURI target

/-- One request on the wire. -/
def roundTrip (redirects : RedirectStatus) (s : CacheServer)
    (r : HttpRequest) : Response × CacheServer :=
  match readTarget r.url.requestURI with
  | none => (httpError (ascii "400 Bad Request") 400, s)
  | some url => s.serveHTTP redirects { r with url }

/-- The request that follows a redirect. -/
def redirected (redirects : RedirectStatus) (r : HttpRequest) (u : URL) :
    HttpRequest :=
  match redirects with
  | .movedPermanently =>
      if r.method = "GET" then { r with url := u }
      else { method := "GET", url := u, body := .done none }
  | .temporaryRedirect => { r with url := u }

/-- `Client.Do`; no result is an error. -/
def clientDo (redirects : RedirectStatus) :
    Nat → CacheServer → HttpRequest → Option (Response × CacheServer)
  | 0, _, _ => none
  | n + 1, s, r =>
      let (resp, s') := roundTrip redirects s r
      if resp.status = redirects.code then
        match (resp.headers.get "Location").bind parseRequestURI with
        | none => none
        | some u => clientDo redirects n s' (redirected redirects r u)
      else some (resp, s')

/-- `cache-cli put <key> <value>`, once the key has been looked up; no
result is an error or, when the URL does not parse, a nil request. -/
def cliPut (redirects : RedirectStatus) (pod : PodAddress)
    (s : CacheServer) (key value : Bytes) :
    Option (Response × CacheServer) :=
  match parseURL (kvURL pod key) with
  | none => none
  | some (_, url) =>
      clientDo redirects 10 s
        { method := "PUT", url, body := .more value (.done none) }

end CacheOperator
