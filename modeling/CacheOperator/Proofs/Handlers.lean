/-
One request at a time at the server as it runs, over any store library
that is `Lossy`.

`Handled` says once what a request can do to the store: a PUT binds its
key, a DELETE unbinds it, and everything else can only lose entries.

The second half goes back to the server whose store is a map that may
drop an entry at any time (`CacheServer`). The server as it runs is one
of its runs: whatever the library loses, the map drops (`loses_dropAll`).
One answer differs: an entry that is not found any more may still be
there to be deleted (`Alike`).
-/
import CacheOperator.Model.Handlers
import CacheOperator.Proofs.TinyCache

namespace CacheOperator

open Lib CacheServer

-- ================================================== what a request does

/-- Nothing is found in the second server that is not in the first. -/
def TinyCache.Loses {L : Library} (s s' : TinyCache L) : Prop :=
  s'.ready = s.ready ∧ L.Loses s.store s'.store

theorem TinyCache.Loses.refl {L : Library} (s : TinyCache L) : s.Loses s :=
  ⟨rfl, .refl s.store⟩

/-- What a request can do to the server, with the answer it gets. -/
inductive Handled {L : Library} (s : TinyCache L) (r : HttpRequest) :
    Response → TinyCache L → Prop where
  /-- Nothing is bound, and no value is returned. -/
  | kept (resp : Response) (s' : TinyCache L) (hstatus : resp.status ≠ 204)
      (hget : ∀ key, r.method = "GET" → r.url.path = keyPath key →
        resp.status ≠ 200) (hloses : s.Loses s') : Handled s r resp s'
  /-- A GET finds a value. -/
  | found (key : Bytes) (resp : Response) (s' : TinyCache L)
      (hmethod : r.method = "GET") (hpath : r.url.path = keyPath key)
      (hstatus : resp.status = 200)
      (hget : L.find s.store key = some resp.body) (hloses : s.Loses s') :
      Handled s r resp s'
  /-- A PUT binds its key to its whole body. -/
  | bound (key : Bytes) (hmethod : r.method = "PUT")
      (hpath : r.url.path = keyPath key) (hwhole : r.body.err = none)
      (hsize : r.body.content.length ≤ maxValueBytes) :
      Handled s r { status := 204 }
        { s with store := (L.add s.store key r.body.content).2 }
  /-- A DELETE unbinds its key. -/
  | unbound (key : Bytes) (hmethod : r.method = "DELETE")
      (hpath : r.url.path = keyPath key)
      (hfound : (L.remove s.store key).1 = true) :
      Handled s r { status := 204 }
        { s with store := (L.remove s.store key).2 }

namespace Handler

variable {L : Library} {s : TinyCache L} {r : HttpRequest} {key : Bytes}

theorem alone_ret (resp : Response) (s : TinyCache L) :
    alone (.ret resp) s = (resp, s) := rfl

theorem alone_call (c : SharedCall)
    (k : SharedCalls.Resp c → Handler) (s : TinyCache L) :
    alone (.call c k) s
      = (k (shared.serve c s).1).alone (shared.serve c s).2 := rfl

/-- An answer that is no success. -/
theorem handled_failure {resp : Response} {s' : TinyCache L} (code : Nat)
    (hcode : resp.status = code) (h : code ≠ 204) (h' : code ≠ 200)
    (hloses : s.Loses s') : Handled s r resp s' :=
  .kept resp s' (hcode ▸ h) (fun _ _ _ hok => h' (hcode.symm.trans hok))
    hloses

theorem handled_failure_at_once {resp : Response} (code : Nat)
    (hcode : resp.status = code) (h : code ≠ 204) (h' : code ≠ 200) :
    Handled s r resp s :=
  handled_failure code hcode h h' (.refl s)

/-- What `handleGet` answers. -/
def valueOr404 : Option Bytes → Response
  | none => httpError (ascii "not found") 404
  | some value =>
      { status := 200
        headers := Dict.empty.set "Content-Type"
          (ascii "application/octet-stream")
        body := value }

theorem handleGet_alone (key : Bytes) (s : TinyCache L) :
    (handleGet key).alone s
      = (valueOr404 (L.find s.store key),
        { s with store := (L.get s.store key).2 }) := by
  rw [handleGet, alone_call, StoreOps.find]
  cases hget : (L.get s.store key).1 <;>
    simp only [shared, hget, alone_ret, valueOr404]

/-- What `handleDelete` answers. -/
def gone (existed : Bool) : Response :=
  if existed then { status := 204 } else httpError (ascii "not found") 404

theorem handleDelete_alone (key : Bytes) (s : TinyCache L) :
    (handleDelete key).alone s
      = (gone (L.remove s.store key).1,
        { s with store := (L.remove s.store key).2 }) := by
  rw [handleDelete, alone_call]
  cases hfound : (L.remove s.store key).1 <;>
    simp [shared, hfound, alone_ret, gone]

theorem handleGet_handled (hL : L.Lossy) (hmethod : r.method = "GET")
    (hpath : r.url.path = keyPath key) :
    Handled s r ((handleGet key).alone s).1 ((handleGet key).alone s).2 := by
  rw [handleGet_alone]
  have hloses : s.Loses { s with store := (L.get s.store key).2 } :=
    ⟨rfl, hL.get_loses s.store key⟩
  cases hget : L.find s.store key with
  | none => exact handled_failure 404 rfl (by decide) (by decide) hloses
  | some value => exact .found key _ _ hmethod hpath rfl hget hloses

theorem handlePut_handled (hmethod : r.method = "PUT")
    (hpath : r.url.path = keyPath key) :
    Handled s r ((handlePut r key).alone s).1
      ((handlePut r key).alone s).2 := by
  unfold handlePut
  split
  · exact handled_failure_at_once 400 rfl (by decide) (by decide)
  next body hread =>
  by_cases hlarge : maxValueBytes < body.length
  · rw [if_pos hlarge]
    exact handled_failure_at_once 413 rfl (by decide) (by decide)
  · rw [if_neg hlarge]
    obtain ⟨rfl, hwhole⟩ := BodyReader.read_whole hread hlarge
    exact .bound key hmethod hpath hwhole.symm (not_lt.mp hlarge)

theorem handleDelete_handled (hL : L.Lossy) (hmethod : r.method = "DELETE")
    (hpath : r.url.path = keyPath key) :
    Handled s r ((handleDelete key).alone s).1
      ((handleDelete key).alone s).2 := by
  rw [handleDelete_alone]
  cases hfound : (L.remove s.store key).1 with
  | true => exact .unbound key hmethod hpath hfound
  | false =>
      exact handled_failure 404 rfl (by decide) (by decide)
        ⟨rfl, hL.remove_loses s.store key⟩

theorem kvHandler_handled (hL : L.Lossy) :
    Handled s r ((kvHandler r).alone s).1 ((kvHandler r).alone s).2 := by
  unfold kvHandler
  split
  · exact handled_failure_at_once 404 rfl (by decide) (by decide)
  next hunderkv =>
  have hpath := path_eq_keyPath (by simpa using hunderkv)
  dsimp only
  split
  · exact handled_failure_at_once 400 rfl (by decide) (by decide)
  split
  · next hmethod => exact handleGet_handled hL hmethod hpath
  split
  · next hmethod => exact handlePut_handled hmethod hpath
  split
  · next hmethod => exact handleDelete_handled hL hmethod hpath
  · exact handled_failure_at_once 405 rfl (by decide) (by decide)

/-- A probe is not at a key's path: it would find a value in an empty
store. -/
theorem probe_not_key {p : Pattern} (hp : p ≠ .kv)
    (hfound : findHandler r.method r.url = .handler p)
    (hmethod : r.method = "GET") : r.url.path ≠ keyPath key := by
  intro hpath
  have h200 : (newServer.serveHTTP .movedPermanently r).1.status = 200 := by
    unfold CacheServer.serveHTTP
    rw [hfound]
    cases p with
    | kv => exact absurd rfl hp
    | healthz => rfl
    | readyz => rfl
  have hserved :=
    serveHTTP_served (s := newServer) (r := r) .movedPermanently
  generalize (newServer.serveHTTP .movedPermanently r).1 = resp at *
  generalize (newServer.serveHTTP .movedPermanently r).2 = s' at *
  cases hserved with
  | kept _ _ hget => cases hget key hmethod hpath h200
  | bound => cases h200
  | unbound => cases h200

/-- A probe that says yes. -/
theorem handled_probe {p : Pattern} {resp : Response} (hp : p ≠ .kv)
    (hfound : findHandler r.method r.url = .handler p)
    (hstatus : resp.status = 200) : Handled s r resp s := by
  refine .kept resp s ?_ (fun key hmethod hpath => ?_) (.refl s)
  · rw [hstatus]
    decide
  · exact absurd hpath (probe_not_key hp hfound hmethod)

end Handler

namespace TinyCache

variable {L : Library} {s : TinyCache L} {r : HttpRequest}

/-- One request, whatever its method, path and body. -/
theorem serveHTTP_handled (hL : L.Lossy) (redirects : RedirectStatus) :
    Handled s r (s.serveHTTP redirects r).1
      (s.serveHTTP redirects r).2 := by
  unfold serveHTTP Handler.serveHTTP
  split
  · cases redirects with
    | movedPermanently =>
        exact Handler.handled_failure_at_once 301 rfl (by decide) (by decide)
    | temporaryRedirect =>
        exact Handler.handled_failure_at_once 307 rfl (by decide) (by decide)
  · next hfound => exact Handler.handled_probe (by decide) hfound rfl
  · next hfound =>
    rw [Handler.readyz, Handler.alone_call]
    cases hready : s.ready with
    | false =>
        simp only [shared, hready]
        exact Handler.handled_failure_at_once 503 rfl (by decide) (by decide)
    | true =>
        simp only [shared, hready]
        exact Handler.handled_probe (by decide) hfound rfl
  · exact Handler.kvHandler_handled hL
  · exact Handler.handled_failure_at_once 404 rfl (by decide) (by decide)

end TinyCache

-- ======================================================== the start

section

variable {L : Library}

theorem storeTTL_pos (defaultTTL : Int) : 0 < storeTTL defaultTTL := by
  unfold storeTTL second
  split <;> omega

/-- `NewStore` does not panic: the capacity has been checked. The server
that `Run` makes has a new store. -/
theorem run_started {cfg : CacheConfig} {s₀ : Option (TinyCache L)}
    (h : cfg.run L = .ok s₀) :
    0 < cfg.capacity ∧ s₀ = some
      ⟨L.new cfg.capacity.toNat (storeTTL cfg.defaultTTL), true⟩ := by
  unfold CacheConfig.run at h
  split at h
  · cases h
  split at h
  · cases h
  split at h
  · cases h
  next hcapacity =>
  rw [newStore, if_neg hcapacity, Option.map_some] at h
  cases h
  exact ⟨not_le.mp hcapacity, rfl⟩

end

-- ================================================== the simpler server

/-- The server with a map for its store: a key is bound to what would be
found. -/
def TinyCache.view {L : Library} (s : TinyCache L) : CacheServer :=
  ⟨⟨fun key => L.find s.store key⟩, s.ready⟩

/-- Some entries are dropped. -/
def CacheServer.dropAll (s : CacheServer) (keys : List Bytes) :
    CacheServer :=
  { s with store := ⟨fun key => if key ∈ keys then none
      else s.store.get key⟩ }

/-- What the server answers to a request in a state, and what the simpler
server answers: the same, unless the request deletes an entry that is not
found any more and is still there. -/
def Alike {L : Library} (s : TinyCache L) (r : HttpRequest)
    (resp resp' : Response) : Prop :=
  resp = resp' ∨ ∃ key, r.method = "DELETE" ∧ r.url.path = keyPath key
    ∧ L.find s.store key = none ∧ (L.remove s.store key).1 = true
    ∧ resp = { status := 204 }
    ∧ resp' = httpError (ascii "not found") 404

/-- The acts, newest first, lead from `s` to `s'`. -/
abbrev Serves {L : Library} (redirects : RedirectStatus) (s : TinyCache L)
    (acts : List (Act HttpRequest Response (Upheaval L)))
    (s' : TinyCache L) : Prop :=
  Carries (fun r s => s.serveHTTP redirects r) TinyCache.suffer s acts s'

/-- The acts lead from `s₀` to the last state, with the answers of the
log up to what `Alike` allows where each was given. -/
inductive Shadows {L : Library} (redirects : RedirectStatus)
    (s₀ : TinyCache L) : List (Act HttpRequest Response (Upheaval L)) →
    TinyCache L → List (HttpRequest × Response) → Prop where
  | start : Shadows redirects s₀ [] s₀ []
  | served {acts : List (Act HttpRequest Response (Upheaval L))}
      {s s' : TinyCache L} {log : List (HttpRequest × Response)}
      {r : HttpRequest} {resp resp' : Response} (i : Nat)
      (h : Shadows redirects s₀ acts s log)
      (hserved : s.serveHTTP redirects r = (resp, s'))
      (halike : Alike s r resp resp') :
      Shadows redirects s₀ (.served i r resp :: acts) s' ((r, resp') :: log)
  | other {acts : List (Act HttpRequest Response (Upheaval L))}
      {s : TinyCache L} {log : List (HttpRequest × Response)}
      (e : Upheaval L) (h : Shadows redirects s₀ acts s log) :
      Shadows redirects s₀ (.other e :: acts) (s.suffer e) log

section

variable {redirects : RedirectStatus} {L : Library} {s s' : TinyCache L}
  {r : HttpRequest} {key : Bytes} {a b : CacheServer}
  {acts : List (Act HttpRequest Response (Upheaval L))}

/-- What is bound in fewer places is left when the others are dropped. -/
theorem dropAll_of_le (hready : b.ready = a.ready)
    (hle : ∀ key value, b.store.get key = some value →
      a.store.get key = some value) (keys : List Bytes)
    (hkeys : ∀ key value, a.store.get key = some value → key ∈ keys) :
    ∃ keys, b = a.dropAll keys := by
  refine ⟨keys.filter fun key => (b.store.get key).isNone, ?_⟩
  obtain ⟨⟨entries⟩, ready⟩ := b
  obtain rfl : ready = a.ready := hready
  simp only [CacheServer.dropAll, CacheServer.mk.injEq, Store.mk.injEq,
    and_true]
  funext key
  have hb : (Store.mk entries).get key = entries key := rfl
  cases hget : entries key with
  | some value =>
      have ha := hle key value (hb.trans hget)
      simp [hb, hget, ha]
  | none =>
      cases ha : a.store.get key with
      | none => simp
      | some value => simp [hb, hget, hkeys key value ha]

theorem run_dropAll {log : List (HttpRequest × Response)}
    (h : Run (CacheWorld.step redirects) (fun _ _ => True) .start ⟨a, log⟩)
    (keys : List Bytes) :
    Run (CacheWorld.step redirects) (fun _ _ => True) .start
      ⟨a.dropAll keys, log⟩ := by
  induction keys with
  | nil =>
      have hnil : a.dropAll [] = a := by
        simp [CacheServer.dropAll, Store.get]
      rw [hnil]
      exact h
  | cons key keys ih =>
      have hcons : a.dropAll (key :: keys)
          = { a.dropAll keys with
              store := (a.dropAll keys).store.drop key } := by
        simp only [CacheServer.dropAll, Store.drop, CacheServer.mk.injEq,
          Store.mk.injEq, and_true]
        funext k
        by_cases hk : k = key <;> simp [hk]
      rw [hcons]
      exact ih.snoc (.drop key) trivial

theorem handleDelete_eq (s : CacheServer) (key : Bytes) :
    s.handleDelete key
      = (Handler.gone (s.store.get key).isSome,
        { s with store := s.store.drop key }) := by
  unfold CacheServer.handleDelete Store.delete Store.drop
  dsimp only
  cases s.store.get key <;> rfl

/-- The outcome in a state is that at the simpler server, which drops some
entries then. -/
def Mirrored (s : TinyCache L) (r : HttpRequest)
    (out : Response × TinyCache L) (abs : Response × CacheServer) : Prop :=
  Alike s r out.1 abs.1 ∧ ∃ keys, out.2.view = abs.2.dropAll keys

variable (L) in
/-- The handler does what `f` does at the simpler server. -/
def Handler.Mirrors (p : Handler) (r : HttpRequest)
    (f : CacheServer → Response × CacheServer) : Prop :=
  ∀ s : TinyCache L, Mirrored s r (p.alone s) (f s.view)

/-- What the library loses, the simpler server drops. -/
theorem loses_dropAll (hL : L.Lossy) (h : s.Loses s') :
    ∃ keys, s'.view = s.view.dropAll keys := by
  obtain ⟨keys, hkeys⟩ := hL.finite s.store
  exact dropAll_of_le h.1 h.2 keys hkeys

namespace Handler

theorem mirrors_ret (hL : L.Lossy) (resp : Response) :
    Mirrors L (.ret resp) r fun s => (resp, s) :=
  fun s => ⟨Or.inl rfl, loses_dropAll hL (.refl s)⟩

theorem Mirrors.ite {c : Prop} [Decidable c] {p q : Handler}
    {f g : CacheServer → Response × CacheServer}
    (hp : c → p.Mirrors L r f) (hq : ¬c → q.Mirrors L r g) :
    Mirrors L (if c then p else q) r
      fun s => if c then f s else g s := by
  by_cases hc : c
  · simp only [if_pos hc]
    exact hp hc
  · simp only [if_neg hc]
    exact hq hc

theorem handleGet_mirrors (hL : L.Lossy) :
    (handleGet key).Mirrors L r (·.handleGet key) := by
  intro s
  have hget : s.view.handleGet key
      = (valueOr404 (L.find s.store key), s.view) := by
    unfold CacheServer.handleGet
    rw [show s.view.store.get key = L.find s.store key from rfl]
    cases L.find s.store key <;> rfl
  rw [handleGet_alone]
  dsimp only
  rw [hget]
  exact ⟨Or.inl rfl, loses_dropAll hL ⟨rfl, hL.get_loses s.store key⟩⟩

theorem handlePut_mirrors (hL : L.Lossy) :
    (handlePut r key).Mirrors L r (·.handlePut r key) := by
  unfold handlePut CacheServer.handlePut
  rcases r.body.readAllLimited (maxValueBytes + 1) with ⟨body, err⟩
  cases err with
  | some err => exact mirrors_ret hL _
  | none =>
      refine .ite (fun _ => mirrors_ret hL _) fun _ s => ⟨Or.inl rfl, ?_⟩
      obtain ⟨keys, hkeys⟩ := hL.finite s.store
      refine dropAll_of_le rfl ?_ (key :: keys) ?_
      · intro key' value hget
        change L.find (L.add s.store key body).2 key' = some value at hget
        rw [get_put]
        by_cases heq : key' = key
        · rw [heq, hL.add_find] at hget
          rw [if_pos heq]
          exact hget
        · rw [if_neg heq]
          exact hL.add_others s.store key body key' value heq hget
      · intro key' value hget
        rw [get_put] at hget
        split at hget
        · next heq => exact heq ▸ List.mem_cons_self
        · exact List.mem_cons_of_mem _ (hkeys key' value hget)

theorem handleDelete_mirrors (hL : L.Lossy) (hmethod : r.method = "DELETE")
    (hpath : r.url.path = keyPath key) :
    (handleDelete key).Mirrors L r (·.handleDelete key) := by
  intro s
  dsimp only
  rw [handleDelete_alone, handleDelete_eq,
    show s.view.store.get key = L.find s.store key from rfl]
  obtain ⟨keys, hkeys⟩ := hL.finite s.store
  refine ⟨?_, dropAll_of_le rfl ?_ keys ?_⟩
  · cases hget : L.find s.store key with
    | some value =>
        left
        dsimp only
        rw [hL.remove_told s.store key value hget, Option.isSome_some]
    | none =>
        cases htold : (L.remove s.store key).1 with
        | true =>
            exact Or.inr ⟨key, hmethod, hpath, hget, htold, rfl, rfl⟩
        | false => exact Or.inl rfl
  · intro key' value hget
    change L.find (L.remove s.store key).2 key' = some value at hget
    rw [get_drop]
    by_cases heq : key' = key
    · rw [heq, hL.remove_find] at hget
      cases hget
    · rw [if_neg heq]
      exact hL.remove_loses s.store key key' value hget
  · intro key' value hget
    rw [get_drop] at hget
    split at hget
    · cases hget
    · exact hkeys key' value hget

theorem readyz_mirrors (hL : L.Lossy) :
    readyz.Mirrors L r CacheServer.readyz := by
  intro s
  have hready : s.view.ready = s.ready := rfl
  rw [readyz, alone_call, CacheServer.readyz, hready]
  cases h : s.ready <;> simp only [shared, h] <;> exact mirrors_ret hL _ s

theorem kvHandler_mirrors (hL : L.Lossy) :
    (kvHandler r).Mirrors L r (·.kvHandler r) := by
  refine .ite (fun _ => mirrors_ret hL _) fun hunderkv => ?_
  have hpath := path_eq_keyPath (by simpa using hunderkv)
  exact .ite (fun _ => mirrors_ret hL _) fun _ =>
    .ite (fun _ => handleGet_mirrors hL) fun _ =>
      .ite (fun _ => handlePut_mirrors hL) fun _ =>
        .ite (fun hmethod => handleDelete_mirrors hL hmethod hpath) fun _ =>
          mirrors_ret hL _

theorem serveHTTP_mirrors (hL : L.Lossy) (redirects : RedirectStatus) :
    (serveHTTP redirects r).Mirrors L r (·.serveHTTP redirects r) := by
  unfold serveHTTP CacheServer.serveHTTP
  cases findHandler r.method r.url with
  | redirect u => exact mirrors_ret hL _
  | notFound => exact mirrors_ret hL _
  | handler p =>
      cases p with
      | healthz => exact mirrors_ret hL _
      | readyz => exact readyz_mirrors hL
      | kv => exact kvHandler_mirrors hL

end Handler

theorem TinyCache.suffer_loses (hL : L.Lossy) (s : TinyCache L)
    (e : L.Event) : s.Loses (s.suffer (.store e)) :=
  ⟨rfl, hL.happen_loses e s.store⟩

theorem run_of_serves (hL : L.Lossy) {s₀ : TinyCache L}
    (hstart : s₀.view = newServer) (h : Serves redirects s₀ acts s) :
    ∃ log, Run (CacheWorld.step redirects) (fun _ _ => True) .start
        ⟨s.view, log⟩
      ∧ Shadows redirects s₀ acts s log := by
  induction acts generalizing s with
  | nil =>
      obtain rfl : s = s₀ := h
      rw [hstart]
      exact ⟨[], .nil, .start⟩
  | cons act acts ih =>
      cases act with
      | served i r resp =>
          obtain ⟨s₁, hserves, hserved⟩ := h
          obtain ⟨log, hrun, hlog⟩ := ih hserves
          obtain ⟨halike, keys, hkeys⟩ :=
            Handler.serveHTTP_mirrors (r := r) hL redirects s₁
          rw [show (Handler.serveHTTP redirects r).alone s₁ = _
            from hserved] at halike hkeys
          refine ⟨_, ?_, .served i hlog hserved halike⟩
          rw [hkeys]
          exact run_dropAll (hrun.snoc (.request r) trivial) keys
      | other e =>
          obtain ⟨s₁, hserves, rfl⟩ := h
          obtain ⟨log, hrun, hlog⟩ := ih hserves
          refine ⟨log, ?_, .other e hlog⟩
          cases e with
          | markNotReady => exact hrun.snoc .markNotReady trivial
          | store e =>
              obtain ⟨keys, hkeys⟩ :=
                loses_dropAll hL (s₁.suffer_loses hL e)
              rw [hkeys]
              exact run_dropAll hrun keys

end

/-- Whatever library the store is, as long as it is `Lossy`, every run of
the server is a run of the server that drops entries now and then: what
would be found is the same, and so are all answers but those to a DELETE
of an entry that is not found any more and is still there. -/
theorem tiny_cache_refines_map {L : Library} (hL : L.Lossy)
    (redirects : RedirectStatus) {cfg : CacheConfig} {s₀ : TinyCache L}
    (hstart : cfg.run L = .ok (some s₀))
    {acts : List (Act HttpRequest Response (Upheaval L))} {s : TinyCache L}
    (hserves : Serves redirects s₀ acts s) :
    ∃ log, Run (CacheWorld.step redirects) (fun _ _ => True) .start
        ⟨s.view, log⟩
      ∧ Shadows redirects s₀ acts s log := by
  obtain ⟨hpos, heq⟩ := run_started hstart
  cases heq
  refine run_of_serves hL ?_ hserves
  unfold TinyCache.view newServer Store.empty
  dsimp only
  congr
  funext key
  exact hL.new_find _ _ (by omega) (storeTTL_pos _) key

/-- A library whose entries expire one by one. -/
abbrev agingLibrary : Library := AgingStore.ops Bytes Bytes

/-- A server with room for two entries and the time to live that is taken
when none is given. -/
def smallConfig : CacheConfig := ⟨":8080", true, 2, 0⟩

def smallCache : TinyCache agingLibrary :=
  ⟨agingLibrary.new 2 (60 * second), true⟩

def putK : HttpRequest :=
  ⟨"PUT", { path := ascii "/kv/k" }, .more (ascii "v") (.done none)⟩

def getK : HttpRequest := ⟨"GET", { path := ascii "/kv/k" }, .done none⟩

def deleteK : HttpRequest :=
  ⟨"DELETE", { path := ascii "/kv/k" }, .done none⟩

/-- A value is put, and expires. -/
def expiredCache : TinyCache agingLibrary :=
  (smallCache.serveHTTP .movedPermanently putK).2.suffer
    (.store (.expire (ascii "k")))

/-- It is not found any more, and can still be deleted. -/
theorem tiny_cache_refines_map_expired :
    (expiredCache.serveHTTP .movedPermanently getK).1.status = 404
      ∧ ∃ log, Run (CacheWorld.step .movedPermanently) (fun _ _ => True)
          .start
          ⟨(expiredCache.serveHTTP .movedPermanently deleteK).2.view, log⟩
        ∧ Shadows .movedPermanently smallCache
          [.served 1 deleteK { status := 204 },
            .other (.store (.expire (ascii "k"))),
            .served 0 putK { status := 204 }]
          (expiredCache.serveHTTP .movedPermanently deleteK).2 log := by
  have hserves : Serves .movedPermanently smallCache
      [.served 1 deleteK { status := 204 },
        .other (.store (.expire (ascii "k"))),
        .served 0 putK { status := 204 }]
      (expiredCache.serveHTTP .movedPermanently deleteK).2 :=
    ⟨_, ⟨_, ⟨_, rfl, Prod.ext (by decide +kernel) rfl⟩, rfl⟩,
      Prod.ext (by decide +kernel) rfl⟩
  exact ⟨by decide +kernel, tiny_cache_refines_map
    (AgingStore.lossy Bytes Bytes) .movedPermanently
    (show smallConfig.run agingLibrary = .ok (some smallCache) from rfl)
    hserves⟩

end CacheOperator
