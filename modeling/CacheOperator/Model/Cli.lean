/-
`cmd/cache-cli`: which client it makes, and what it asks a pod for.

The key is looked up as a string and pasted into the URL as its bytes.
`PUT` was modelled with the server (`cliPut`), the other two operations
differ from it in the method and in the body only. `http.Get` and
`http.DefaultClient.Do` are here for any server (`doAt`): what they do
depends on the answers only.
-/
import CacheOperator.Model.Client
import CacheOperator.Model.TinyCache

namespace CacheOperator

open Lib

/-- The client `main` makes for `--ns` and `--name`. -/
def cliClient (ns name : String) : Client :=
  { ringConfigMap := ⟨ns, name ++ "-ring"⟩
    serviceFQDN := name ++ "." ++ ns ++ ".svc.cluster.local"
    ring := none }

/-- What is asked of a pod. -/
inductive CliOp where
  | get
  | put (value : Bytes)
  | delete
deriving DecidableEq

def CliOp.method : CliOp → String
  | .get => "GET"
  | .put _ => "PUT"
  | .delete => "DELETE"

def CliOp.body : CliOp → BodyReader
  | .get => .done none
  | .put value => .more value (.done none)
  | .delete => .done none

section

variable {σ : Type} (redirects : RedirectStatus)
  (serve : σ → HttpRequest → Response × σ)

/-- One request on the wire, as `roundTrip`. -/
def sendTo (s : σ) (r : HttpRequest) : Response × σ :=
  match readTarget r.url.requestURI with
  | none => (httpError (ascii "400 Bad Request") 400, s)
  | some url => serve s { r with url }

/-- `Client.Do`, as `clientDo`; no result is an error. -/
def doAt : Nat → σ → HttpRequest → Option (Response × σ)
  | 0, _, _ => none
  | n + 1, s, r =>
      let (resp, s') := sendTo serve s r
      if resp.status = redirects.code then
        match (resp.headers.get "Location").bind parseRequestURI with
        | none => none
        | some u => doAt n s' (redirected redirects r u)
      else some (resp, s')

/-- `cache-cli <op> <key>`, once the key has been looked up; no result is
an error or a nil request. -/
def cliRun (pod : PodAddress) (s : σ) (op : CliOp) (key : Bytes) :
    Option (Response × σ) :=
  match parseURL (kvURL pod key) with
  | none => none
  | some (_, url) =>
      doAt redirects serve 10 s { method := op.method, url, body := op.body }

end

theorem clientDo_eq (redirects : RedirectStatus) (n : Nat)
    (s : CacheServer) (r : HttpRequest) :
    clientDo redirects n s r
      = doAt redirects (CacheServer.serveHTTP redirects) n s r := by
  induction n generalizing s r with
  | zero => rfl
  | succ n ih =>
      unfold clientDo doAt
      simp only [ih]
      rfl

theorem cliRun_put (redirects : RedirectStatus) (pod : PodAddress)
    (s : CacheServer) (key value : Bytes) :
    cliRun redirects (CacheServer.serveHTTP redirects) pod s (.put value) key
      = cliPut redirects pod s key value := by
  unfold cliRun cliPut
  simp only [clientDo_eq]
  rfl

/-- The bytes of a string. -/
def utf8 (s : String) : Bytes := s.toList.flatMap String.utf8EncodeChar

theorem utf8_injective {s t : String} (h : utf8 s = utf8 t) : s = t := by
  have hbytes : ∀ s : String, s.toByteArray = (utf8 s).toByteArray := by
    intro s
    rw [← String.ofList_toList (s := s), String.toByteArray_ofList,
      String.ofList_toList]
    rfl
  rw [← String.toByteArray_inj, hbytes s, hbytes t, h]

-- ============================================================= main

/-- How `cache-cli` ends. The texts of library errors are left out. -/
inductive CliEnd where
  /-- `fatalf("lookup: %v", err)`. -/
  | lookupFailed (err : GoError)
  /-- There was no answer, or no request. -/
  | requestFailed
  /-- The URL and the answer are printed. -/
  | answered (url : Bytes) (resp : Response)

/-- The client after a poll, whether it failed or not. -/
def polledAt (srt : SliceSort) (hashString : String → UInt32) (c : Client)
    (s : Cluster) : Client :=
  match ((pollOnce srt hashString c).run api s).1 with
  | .ok (c, _) => c
  | .error _ => c

/-- `main` for `get`, `put` and `delete`: polls at some states of the
cluster until there is a ring or the time is up, looks the key up and
asks the server behind the name, which is a DNS name. -/
def cliMain (srt : SliceSort) (hashString : String → UInt32)
    {σ : Type} (redirects : RedirectStatus)
    (serve : σ → HttpRequest → Response × σ) (ns name : String)
    (port : Nat) (polls : List Cluster) (pods : Bytes → σ) (op : CliOp)
    (key : String) : CliEnd × (Bytes → σ) :=
  let c := polls.foldl (polledAt srt hashString) (cliClient ns name)
  match c.lookup hashString key with
  | none => (.requestFailed, pods)
  | some (.error err) => (.lookupFailed err, pods)
  | some (.ok fqdn) =>
      if h : (utf8 fqdn).all hostByte = true then
        let pod : PodAddress := ⟨utf8 fqdn, port, h⟩
        match cliRun redirects serve pod (pods pod.host) op (utf8 key) with
        | none => (.requestFailed, pods)
        | some (resp, s) =>
            (.answered (kvURL pod (utf8 key)) resp,
              Function.update pods pod.host s)
      else (.requestFailed, pods)

end CacheOperator
