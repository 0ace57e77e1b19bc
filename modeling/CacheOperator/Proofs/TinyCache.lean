/-
What the tiny-cache server serves.

`Served` says once what a request can do: nothing but an answer, bind one
key to the whole body of a PUT, or unbind one key. A world keeps, beside
the server, the log of all requests with their answers; entries may be
dropped between any two of them. Every value the store holds is then the
body of the last PUT of its key (`Agrees`), and the results follow.
-/
import CacheOperator.Lib.Run
import CacheOperator.Model.TinyCache

namespace CacheOperator

open Lib

-- ===================================================== reading a body

namespace BodyReader

variable (n : Nat) (b : BodyReader)

/-- The limit cuts the bytes off and changes none of them. -/
theorem readAllLimited_fst : (b.readAllLimited n).1 = b.content.take n := by
  fun_induction readAllLimited n b with
  | case1 b => simp
  | case2 n err => simp [content]
  | case3 n chunk err h => simp [content, List.take_of_length_le h]
  | case4 n chunk err h => rfl
  | case5 n chunk rest h bytes err hrec ih =>
      rw [hrec] at ih
      dsimp only at ih
      rw [content, List.take_append, List.take_of_length_le h, ih]
  | case6 n chunk rest h =>
      rw [content, List.take_append_of_le_length (by omega)]

/-- The end that is reported is the reader's or, at the limit, no
error. -/
theorem readAllLimited_snd :
    (b.readAllLimited n).2 = none ∨ (b.readAllLimited n).2 = b.err := by
  fun_induction readAllLimited n b with
  | case1 b => exact Or.inl rfl
  | case2 n err => exact Or.inr rfl
  | case3 n chunk err h => exact Or.inr rfl
  | case4 n chunk err h => exact Or.inl rfl
  | case5 n chunk rest h bytes err hrec ih =>
      rw [hrec] at ih
      exact ih
  | case6 n chunk rest h => exact Or.inl rfl

/-- A body below the limit is read to its own end. -/
theorem readAllLimited_snd_of_lt (h : b.content.length < n) :
    (b.readAllLimited n).2 = b.err := by
  fun_induction readAllLimited n b with
  | case1 b => omega
  | case2 n err => rfl
  | case3 n chunk err h' => rfl
  | case4 n chunk err h' => simp only [content] at h; omega
  | case5 n chunk rest h' bytes err hrec ih =>
      rw [hrec] at ih
      simp only [content, List.length_append] at h
      exact ih (by omega)
  | case6 n chunk rest h' =>
      simp only [content, List.length_append] at h
      omega

variable {n b} {bytes : Bytes} {err : Option Bytes}

/-- More is read than the limit allows exactly if there is more. -/
theorem lt_length_of_read (h : b.readAllLimited (n + 1) = (bytes, err)) :
    n < bytes.length ↔ n < b.content.length := by
  have hfst := readAllLimited_fst (n + 1) b
  rw [h] at hfst
  dsimp only at hfst
  rw [hfst, List.length_take]
  omega

/-- What was read short of the limit is all there is. -/
theorem read_whole (h : b.readAllLimited (n + 1) = (bytes, err))
    (hshort : ¬n < bytes.length) : bytes = b.content ∧ err = b.err := by
  have hlen := mt (lt_length_of_read h).mpr hshort
  have hfst := readAllLimited_fst (n + 1) b
  have hsnd := readAllLimited_snd_of_lt (n + 1) b (by omega)
  rw [h] at hfst hsnd
  dsimp only at hfst hsnd
  rw [List.take_of_length_le (by omega)] at hfst
  exact ⟨hfst, hsnd⟩

/-- A body that can be read is read. -/
theorem read_ends (h : b.err = none) :
    ∃ bytes, b.readAllLimited n = (bytes, none) := by
  have hsnd := readAllLimited_snd n b
  rw [h, or_self] at hsnd
  exact ⟨_, Prod.ext rfl hsnd⟩

end BodyReader

-- ================================================== what a request does

namespace CacheServer

/-- The path of a key. -/
def keyPath (key : Bytes) : Bytes := kvPrefix ++ key

/-- What a request can do to the server, with the answer it gets. -/
inductive Served (s : CacheServer) (r : HttpRequest) :
    Response → CacheServer → Prop where
  /-- Nothing is changed; a value that is returned is the stored one. -/
  | kept (resp : Response) (hstatus : resp.status ≠ 204)
      (hget : ∀ key, r.method = "GET" → r.url.path = keyPath key →
        resp.status = 200 → s.store.get key = some resp.body) :
      Served s r resp s
  /-- A PUT binds its key to its whole body. -/
  | bound (key : Bytes) (hmethod : r.method = "PUT")
      (hpath : r.url.path = keyPath key) (hkey : key ≠ [] ∧ slash ∉ key)
      (hwhole : r.body.err = none)
      (hsize : r.body.content.length ≤ maxValueBytes) :
      Served s r { status := 204 }
        { s with store := s.store.put key r.body.content }
  /-- A DELETE unbinds its key. -/
  | unbound (key : Bytes) (hmethod : r.method = "DELETE")
      (hpath : r.url.path = keyPath key) :
      Served s r { status := 204 } { s with store := s.store.drop key }

variable {s : CacheServer} {r : HttpRequest} {key : Bytes}

/-- An answer that is no success. -/
theorem Served.failure {resp : Response} (code : Nat)
    (hcode : resp.status = code) (h : code ≠ 204) (h' : code ≠ 200) :
    Served s r resp s :=
  .kept resp (hcode ▸ h) fun _ _ _ hok => absurd (hcode ▸ hok) h'

theorem keyPath_injective {key key' : Bytes}
    (h : keyPath key = keyPath key') : key = key' :=
  List.append_cancel_left h

theorem path_eq_keyPath {path : Bytes}
    (h : kvPrefix.isPrefixOf path = true) :
    path = keyPath (path.drop kvPrefix.length) := by
  obtain ⟨key, hkey⟩ := List.isPrefixOf_iff_prefix.mp h
  rw [← hkey, List.drop_left]
  rfl

theorem handleGet_served (hpath : r.url.path = keyPath key) :
    Served s r (s.handleGet key).1 (s.handleGet key).2 := by
  unfold handleGet
  cases hget : s.store.get key with
  | none => exact .failure 404 rfl (by decide) (by decide)
  | some value =>
      refine .kept _ (show 200 ≠ 204 by decide) ?_
      intro key' _ hpath' _
      rw [hpath] at hpath'
      rw [← keyPath_injective hpath', hget]

theorem handlePut_served (hmethod : r.method = "PUT")
    (hpath : r.url.path = keyPath key) (hkey : key ≠ [] ∧ slash ∉ key) :
    Served s r (s.handlePut r key).1 (s.handlePut r key).2 := by
  unfold handlePut
  split
  · exact .failure 400 rfl (by decide) (by decide)
  next body hread =>
  by_cases hlarge : maxValueBytes < body.length
  · rw [if_pos hlarge]
    exact .failure 413 rfl (by decide) (by decide)
  · rw [if_neg hlarge]
    obtain ⟨rfl, hwhole⟩ := BodyReader.read_whole hread hlarge
    exact .bound key hmethod hpath hkey hwhole.symm (not_lt.mp hlarge)

theorem handleDelete_served (hmethod : r.method = "DELETE")
    (hpath : r.url.path = keyPath key) :
    Served s r (s.handleDelete key).1 (s.handleDelete key).2 := by
  unfold handleDelete Store.delete
  cases hget : s.store.get key with
  | some value => exact .unbound key hmethod hpath
  | none =>
      have hsame : Function.update s.store.entries key none
          = s.store.entries := by
        rw [← hget]
        exact Function.update_eq_self key _
      simp only [Option.isSome_none, Bool.not_false, if_true, hsame]
      exact .failure 404 rfl (by decide) (by decide)

theorem kvHandler_served : Served s r (s.kvHandler r).1 (s.kvHandler r).2 := by
  unfold kvHandler
  split
  · exact .failure 404 rfl (by decide) (by decide)
  next hunderkv =>
  have hpath := path_eq_keyPath (by simpa using hunderkv)
  dsimp only
  split
  · exact .failure 400 rfl (by decide) (by decide)
  next hkey =>
  split
  · exact handleGet_served hpath
  split
  · next hmethod =>
    exact handlePut_served hmethod hpath (not_or.mp hkey)
  split
  · next hmethod => exact handleDelete_served hmethod hpath
  · exact .failure 405 rfl (by decide) (by decide)

/-- An escaped path that is one segment decodes to that segment. -/
theorem path_of_firstSegment {escaped path name : Bytes}
    (hroot : escaped.head? = some slash)
    (hpath : unescape escaped = some path) (hname : name ≠ [slash])
    (hseg : firstSegment escaped = (name, [])) : path = slash :: name := by
  cases escaped with
  | nil => cases hroot
  | cons c p =>
      obtain rfl : c = slash := Option.some.inj hroot
      rw [unescape_cons (by decide)] at hpath
      obtain ⟨t, ht, rfl⟩ := Option.map_eq_some_iff.mp hpath
      unfold firstSegment at hseg
      by_cases hp : slash :: p = [slash]
      · rw [if_pos hp, Prod.mk.injEq] at hseg
        exact absurd hseg.1.symm hname
      · rw [if_neg hp, Prod.mk.injEq] at hseg
        obtain ⟨hfst, hrest⟩ := hseg
        simp only [List.tail_cons] at hfst hrest
        -- nothing is left, so the segment is the whole path
        have hall : p.takeWhile (· ≠ slash) = p := by
          have hlen := List.drop_eq_nil_iff.mp hrest
          exact (List.takeWhile_prefix _).eq_of_length_le hlen
        rw [hall, ht] at hfst
        rw [← hfst]
        rfl

/-- The probes are not at a key's path. -/
theorem served_probe {resp : Response} (name : Bytes)
    (hstatus : resp.status ≠ 204) (hpath : r.method = "GET" →
      r.url.path = name) (hname : kvPrefix.isPrefixOf name = false) :
    Served s r resp s := by
  refine .kept resp hstatus ?_
  intro key hget hkey _
  rw [hpath hget] at hkey
  rw [hkey, keyPath,
    List.isPrefixOf_iff_prefix.mpr (List.prefix_append _ _)] at hname
  cases hname

/-- A request that is dispatched has a path that needs no cleaning. -/
theorem of_findHandler {p : Pattern} {method : String} {u : URL}
    (h : findHandler method u = .handler p) :
    matchPattern u.escapedPath = some p
      ∧ muxPath method u = u.escapedPath := by
  unfold findHandler at h
  split at h
  · cases h
  split at h
  · cases h
  next hclean =>
  split at h
  · next p' hp =>
    cases h
    exact ⟨hp, not_not.mp hclean⟩
  · cases h

/-- A GET that is dispatched to a probe asks for the probe's path. -/
theorem path_of_probe {p : Pattern} (name : Bytes)
    (hfound : findHandler r.method r.url = .handler p)
    (hname : name ≠ [slash])
    (hp : matchPattern r.url.escapedPath = some p →
      firstSegment r.url.escapedPath = (name, []))
    (hget : r.method = "GET") : r.url.path = slash :: name := by
  obtain ⟨hmatch, hclean⟩ := of_findHandler hfound
  have hroot : r.url.escapedPath.head? = some slash := by
    rw [← hclean, muxPath, if_neg (by rw [hget]; decide)]
    exact head_cleanPath _
  exact path_of_firstSegment hroot (URL.unescape_escapedPath r.url) hname
    (hp hmatch)

/-- One request, whatever its method, path and body. -/
theorem serveHTTP_served (redirects : RedirectStatus) :
    Served s r (s.serveHTTP redirects r).1 (s.serveHTTP redirects r).2 := by
  unfold serveHTTP
  split
  · cases redirects with
    | movedPermanently => exact .failure 301 rfl (by decide) (by decide)
    | temporaryRedirect => exact .failure 307 rfl (by decide) (by decide)
  · next hfound =>
    refine served_probe (ascii "/healthz")
      (show 200 ≠ 204 by decide) ?_ (by decide)
    refine path_of_probe (ascii "healthz") hfound (by decide) ?_
    intro hmatch
    unfold matchPattern at hmatch
    split at hmatch
    · assumption
    split at hmatch
    · cases hmatch
    split at hmatch <;> cases hmatch
  · next hfound =>
    unfold readyz
    split
    · exact .failure 503 rfl (by decide) (by decide)
    · refine served_probe (ascii "/readyz")
        (show 200 ≠ 204 by decide) ?_ (by decide)
      refine path_of_probe (ascii "readyz") hfound (by decide) ?_
      intro hmatch
      unfold matchPattern at hmatch
      split at hmatch
      · cases hmatch
      split at hmatch
      · assumption
      split at hmatch <;> cases hmatch
  · exact kvHandler_served
  · exact .failure 404 rfl (by decide) (by decide)

/-- The request is dispatched to `kvHandler` with a key that is accepted:
its path is clean, and what follows `/kv/` is one segment. -/
def IsKeyRequest (r : HttpRequest) (key : Bytes) : Prop :=
  findHandler r.method r.url = .handler .kv ∧ r.url.path = keyPath key
    ∧ key ≠ [] ∧ slash ∉ key

theorem serveHTTP_put (redirects : RedirectStatus)
    (hmethod : r.method = "PUT") (hkey : IsKeyRequest r key) :
    s.serveHTTP redirects r = s.handlePut r key := by
  obtain ⟨hfound, hpath, hne, hslash⟩ := hkey
  have hunderkv : kvPrefix.isPrefixOf r.url.path = true := by
    rw [hpath]
    exact List.isPrefixOf_iff_prefix.mpr (List.prefix_append _ _)
  have hdrop : r.url.path.drop kvPrefix.length = key := by
    rw [hpath, keyPath, List.drop_left]
  unfold serveHTTP
  rw [hfound]
  unfold kvHandler
  simp only [hunderkv, hdrop, hne, hslash, hmethod]
  rfl

/-- A body that can be read is turned down exactly when it is too
large. -/
theorem handlePut_tooLarge_iff (h : r.body.err = none) :
    (s.handlePut r key).1.status = 413
      ↔ maxValueBytes < r.body.content.length := by
  obtain ⟨body, hread⟩ := BodyReader.read_ends h
  unfold handlePut
  rw [hread, ← BodyReader.lt_length_of_read hread]
  dsimp only
  by_cases hlarge : maxValueBytes < body.length
  · simp [hlarge, httpError]
  · simp [hlarge]

end CacheServer

-- =============================================================== runs

open CacheServer

/-- The server with the log of its requests, newest first. -/
structure CacheWorld where
  server : CacheServer
  log : List (HttpRequest × Response)

inductive CacheEvent where
  | request (r : HttpRequest)
  /-- An entry is evicted or expires. -/
  | drop (key : Bytes)
  | markNotReady

namespace CacheWorld

def start : CacheWorld := ⟨newServer, []⟩

variable (redirects : RedirectStatus)

def answer (w : CacheWorld) (r : HttpRequest) : Response :=
  (w.server.serveHTTP redirects r).1

def step (w : CacheWorld) : CacheEvent → CacheWorld
  | .request r =>
      ⟨(w.server.serveHTTP redirects r).2, (r, w.answer redirects r) :: w.log⟩
  | .drop key =>
      { w with server :=
          { w.server with store := w.server.store.drop key } }
  | .markNotReady => { w with server := w.server.markNotReady }

end CacheWorld

/-- What the requests say about a key: the body of the last PUT of it
answered 204, unless a DELETE of it answered 204 came later. -/
def lastBinding (key : Bytes) :
    List (HttpRequest × Response) → Option Bytes
  | [] => none
  | (r, resp) :: older =>
      if resp.status = 204 ∧ r.url.path = keyPath key then
        if r.method = "PUT" then some r.body.content
        else if r.method = "DELETE" then none
        else lastBinding key older
      else lastBinding key older

/-- The value came whole from a PUT of the key in the log. -/
def WasPut (log : List (HttpRequest × Response)) (key value : Bytes) :
    Prop :=
  ∃ e ∈ log, e.1.method = "PUT" ∧ e.1.url.path = keyPath key
    ∧ e.2.status = 204 ∧ e.1.body.err = none ∧ e.1.body.content = value

/-- What is stored is what the log says was put there last. -/
def Agrees (w : CacheWorld) : Prop :=
  ∀ key value, w.server.store.get key = some value →
    lastBinding key w.log = some value ∧ WasPut w.log key value
      ∧ value.length ≤ maxValueBytes

section

variable {redirects : RedirectStatus} {w : CacheWorld}

theorem get_put (s : Store) (key key' value : Bytes) :
    (s.put key value).get key'
      = if key' = key then some value else s.get key' := by
  simp only [Store.put, Store.get, Function.update_apply]

theorem get_drop (s : Store) (key key' : Bytes) :
    (s.drop key).get key' = if key' = key then none else s.get key' := by
  simp only [Store.drop, Store.get, Function.update_apply]

theorem lastBinding_cons_of_ne {key : Bytes} {r : HttpRequest}
    {resp : Response} {log : List (HttpRequest × Response)}
    (h : ¬(resp.status = 204 ∧ r.url.path = keyPath key)) :
    lastBinding key ((r, resp) :: log) = lastBinding key log := by
  rw [lastBinding, if_neg h]

theorem WasPut.cons {log : List (HttpRequest × Response)}
    {key value : Bytes} (h : WasPut log key value)
    (e : HttpRequest × Response) : WasPut (e :: log) key value := by
  obtain ⟨e', he', hput⟩ := h
  exact ⟨e', List.mem_cons_of_mem _ he', hput⟩

theorem Agrees.request (h : Agrees w) (r : HttpRequest) :
    Agrees (w.step redirects (.request r)) := by
  intro key value hget
  have hserved := serveHTTP_served (s := w.server) (r := r) redirects
  simp only [CacheWorld.step, CacheWorld.answer] at hget ⊢
  generalize (w.server.serveHTTP redirects r).1 = resp at *
  generalize (w.server.serveHTTP redirects r).2 = s' at *
  cases hserved with
  | kept _ hstatus _ =>
      obtain ⟨hlast, hput, hsize⟩ := h key value hget
      exact ⟨by rw [lastBinding_cons_of_ne (by simp [hstatus]), hlast],
        hput.cons _, hsize⟩
  | bound key' hmethod hpath _ hwhole hsize' =>
      rw [get_put] at hget
      by_cases heq : key = key'
      · subst heq
        rw [if_pos rfl] at hget
        obtain rfl := Option.some.inj hget
        refine ⟨by simp [lastBinding, hpath, hmethod], ?_, hsize'⟩
        exact ⟨_, List.mem_cons_self, hmethod, hpath, rfl, hwhole, rfl⟩
      · rw [if_neg heq] at hget
        obtain ⟨hlast, hput, hsize⟩ := h key value hget
        refine ⟨?_, hput.cons _, hsize⟩
        rw [lastBinding_cons_of_ne, hlast]
        rintro ⟨-, hpath'⟩
        exact heq (keyPath_injective (hpath'.symm.trans hpath))
  | unbound key' hmethod hpath =>
      rw [get_drop] at hget
      by_cases heq : key = key'
      · rw [if_pos heq] at hget
        cases hget
      · rw [if_neg heq] at hget
        obtain ⟨hlast, hput, hsize⟩ := h key value hget
        refine ⟨?_, hput.cons _, hsize⟩
        rw [lastBinding_cons_of_ne, hlast]
        rintro ⟨-, hpath'⟩
        exact heq (keyPath_injective (hpath'.symm.trans hpath))

theorem Agrees.step (h : Agrees w) (e : CacheEvent) :
    Agrees (w.step redirects e) := by
  cases e with
  | request r => exact h.request r
  | markNotReady => exact h
  | drop key' =>
      intro key value hget
      simp only [CacheWorld.step, get_drop] at hget
      by_cases heq : key = key'
      · rw [if_pos heq] at hget
        cases hget
      · rw [if_neg heq] at hget
        exact h key value hget

end

/-- Everything that is asked of the server in one state. -/
structure ServesFaithfully (redirects : RedirectStatus) (w : CacheWorld) :
    Prop where
  /-- A value that is returned is the whole body of the last PUT. -/
  get_last_put : ∀ r key, r.method = "GET" → r.url.path = keyPath key →
    (w.answer redirects r).status = 200 →
      lastBinding key w.log = some (w.answer redirects r).body
  /-- A request that fails changes nothing in the store. -/
  failure_keeps : ∀ r, ¬(200 ≤ (w.answer redirects r).status
      ∧ (w.answer redirects r).status < 300) →
    (w.step redirects (.request r)).server.store = w.server.store
  /-- Exactly the bodies above one MiB are too large. -/
  tooLarge_iff : ∀ r key, r.method = "PUT" → IsKeyRequest r key →
    r.body.err = none →
      ((w.answer redirects r).status = 413
        ↔ 2 ^ 20 < r.body.content.length)
  /-- What is stored is small enough and came whole. -/
  stored_whole : ∀ key value, w.server.store.get key = some value →
    value.length ≤ 2 ^ 20 ∧ WasPut w.log key value

/-- In every run, with requests of any kind and entries dropped at any
time, the server serves no wrong value. -/
theorem tiny_cache_serves_faithfully (redirects : RedirectStatus)
    {w : CacheWorld}
    (hrun : Run (CacheWorld.step redirects) (fun _ _ => True) .start w) :
    ServesFaithfully redirects w := by
  have hagrees : Agrees w := by
    refine hrun.invariant (fun w e h _ => h.step e) ?_
    intro key value hget
    cases hget
  refine ⟨?_, ?_, ?_, ?_⟩
  · intro r key hmethod hpath hstatus
    have hserved := serveHTTP_served (s := w.server) (r := r) redirects
    simp only [CacheWorld.answer] at hstatus ⊢
    generalize (w.server.serveHTTP redirects r).1 = resp at *
    generalize (w.server.serveHTTP redirects r).2 = s' at *
    cases hserved with
    | kept _ _ hget => exact (hagrees key _ (hget key hmethod hpath hstatus)).1
    | bound => cases hstatus
    | unbound => cases hstatus
  · intro r hstatus
    have hserved := serveHTTP_served (s := w.server) (r := r) redirects
    simp only [CacheWorld.answer, CacheWorld.step] at hstatus ⊢
    generalize (w.server.serveHTTP redirects r).1 = resp at *
    generalize (w.server.serveHTTP redirects r).2 = s' at *
    cases hserved with
    | kept => rfl
    | bound => exact absurd (by decide) hstatus
    | unbound => exact absurd (by decide) hstatus
  · intro r key hmethod hkey hwhole
    rw [CacheWorld.answer, serveHTTP_put redirects hmethod hkey]
    exact handlePut_tooLarge_iff hwhole
  · intro key value hget
    obtain ⟨-, hput, hsize⟩ := hagrees key value hget
    exact ⟨hsize, hput⟩

/-- A PUT of the key `k` with the body `v`, and a GET of it. -/
def putThenGet : List CacheEvent :=
  [.request ⟨"PUT", { path := ascii "/kv/k" }, .more (ascii "v") (.done none)⟩,
    .drop (ascii "other"),
    .request ⟨"GET", { path := ascii "/kv/k" }, .done none⟩]

theorem tiny_cache_serves_faithfully_orders :
    ((putThenGet.foldl (CacheWorld.step .movedPermanently) .start).log.map
        fun e => e.2.status) = [200, 204]
      ∧ ServesFaithfully .movedPermanently
        (putThenGet.foldl (CacheWorld.step .movedPermanently) .start) := by
  refine ⟨by decide +kernel, ?_⟩
  apply tiny_cache_serves_faithfully
  apply Run.extend .nil
  exact ⟨trivial, trivial, trivial, trivial⟩

end CacheOperator
