/-
What `cache-cli` does at a pod.

Where a request ends does not depend on the pod: whether it is redirected
is a matter of its URL (`target`), and for every server that dispatches as
ours does, `Client.Do` is the answer there (`doAt_eq`).

For a key that is no URL text (`PlainKey`) each operation is what its
name says (`CliServed`): it binds or unbinds this key or can only lose
entries, and a value that `get` prints is the one that is found under the
key. The keys `.` and `..` are redirected to `/kv/` and to the root, where
nothing is stored and nothing is found (`DeadEnd`); all other plain keys
are answered at once.

The last part is about the keys that can be stored (`Storable`): the URL
parses, the request is read, nothing is redirected, so every operation
comes back (`cliAt_storable`).
-/
import CacheOperator.Model.Cli
import CacheOperator.Proofs.Handlers
import CacheOperator.Proofs.Keys

namespace CacheOperator

open Lib CacheServer

variable {redirects : RedirectStatus} {pod : PodAddress} {L : Library}
  {s s' : TinyCache L} {r : HttpRequest} {resp : Response}
  {u u₂ : URL} {key : Bytes} {op : CliOp} {method : String}

-- ================================================ where a request ends

/-- The request that is answered in the end; none, if it cannot be read.
No result is an error. -/
def target (redirects : RedirectStatus) :
    Nat → HttpRequest → Option (Option HttpRequest)
  | 0, _ => none
  | n + 1, r =>
      match readTarget r.url.requestURI with
      | none => some none
      | some url =>
          match findHandler r.method url with
          | .redirect u =>
              match parseRequestURI u.requestURI with
              | none => none
              | some u => target redirects n (redirected redirects r u)
          | _ => some (some { r with url })

/-- What is answered there. -/
def answerTo {σ : Type} (serve : σ → HttpRequest → Response × σ) (s : σ) :
    Option HttpRequest → Response × σ
  | none => (httpError (ascii "400 Bad Request") 400, s)
  | some r => serve s r

/-- The server redirects what `findHandler` redirects, and nothing
else. -/
structure Dispatches {σ : Type} (redirects : RedirectStatus)
    (serve : σ → HttpRequest → Response × σ) : Prop where
  sends : ∀ s r u, findHandler r.method r.url = .redirect u →
    serve s r = ({ status := redirects.code
                   headers := Dict.empty.set "Location" u.requestURI }, s)
  answers : ∀ s r, (∀ u, findHandler r.method r.url ≠ .redirect u) →
    (serve s r).1.status ≠ redirects.code

theorem doAt_eq {σ : Type} {serve : σ → HttpRequest → Response × σ}
    (h : Dispatches redirects serve) (n : Nat) (s : σ) (r : HttpRequest) :
    doAt redirects serve n s r
      = (target redirects n r).map (answerTo serve s) := by
  induction n generalizing r with
  | zero => rfl
  | succ n ih =>
      unfold doAt target sendTo
      cases hparse : readTarget r.url.requestURI with
      | none => exact if_neg code_ne_400
      | some url =>
          dsimp only
          cases hfound : findHandler r.method url with
          | redirect u =>
              rw [h.sends s { r with url } u hfound]
              dsimp only
              rw [if_pos rfl, Dict.get_set_self, Option.bind_some]
              cases parseRequestURI u.requestURI with
              | none => rfl
              | some u => exact ih _
          | handler p =>
              have hcode := h.answers s { r with url } (by simp [hfound])
              rw [if_neg hcode]
              rfl
          | notFound =>
              have hcode := h.answers s { r with url } (by simp [hfound])
              rw [if_neg hcode]
              rfl

/-- The server as it runs does. -/
theorem tinyCache_dispatches (hL : L.Lossy) (redirects : RedirectStatus) :
    Dispatches redirects (TinyCache.serveHTTP (L := L) redirects) where
  sends s r u hfound := by
    unfold TinyCache.serveHTTP Handler.serveHTTP
    rw [hfound]
    rfl
  answers s r hfound hcode := by
    obtain ⟨halike, -⟩ := Handler.serveHTTP_mirrors (r := r) hL redirects s
    rcases halike with hsame | ⟨-, -, -, -, -, h204, -⟩
    · obtain ⟨u, hu, -⟩ :=
        redirect_of_status ((congrArg Response.status hsame).symm.trans hcode)
      exact hfound u hu
    · rw [show (s.serveHTTP redirects r).1 = { status := 204 } from h204]
        at hcode
      cases redirects <;> cases hcode

/-- `cache-cli` at a pod. -/
def cliAt (redirects : RedirectStatus) (pod : PodAddress) (s : TinyCache L)
    (op : CliOp) (key : Bytes) : Option (Response × TinyCache L) :=
  cliRun redirects (TinyCache.serveHTTP redirects) pod s op key

-- ======================================================= the dead ends

/-- The method matters for one method only. -/
theorem findHandler_congr (hmethod : method ≠ "CONNECT") :
    findHandler method u = findHandler "PUT" u := by
  have hmux : muxPath method u = muxPath "PUT" u := by
    simp [muxPath, hmethod]
  unfold findHandler
  rw [hmux]

theorem findHandler_root (hmethod : method ≠ "CONNECT")
    (hpath : u.escapedPath = [slash]) : findHandler method u = .notFound := by
  have hmux : muxPath method u = u.escapedPath := by
    rw [muxPath, if_neg hmethod, hpath]
    decide
  have hslash : slashRedirect (muxPath method u) u = none := by
    rw [hmux, hpath]
    exact if_neg (by decide)
  have hmatch : matchPattern u.escapedPath = none := by
    rw [hpath]
    decide
  unfold findHandler
  rw [hslash]
  simp only [hmux, ne_eq, not_true_eq_false, if_false, hmatch]

/-- A request for `/kv/` or for the root. -/
structure DeadEnd (r : HttpRequest) : Prop where
  method : r.method ≠ "CONNECT"
  escaped : r.url.escapedPath = escape r.url.path
  path : r.url.path = kvPrefix ∨ r.url.path = [slash]

theorem DeadEnd.found (h : DeadEnd r) :
    findHandler r.method r.url = .handler .kv ∧ r.url.path = kvPrefix
      ∨ findHandler r.method r.url = .notFound := by
  rcases h.path with hpath | hpath
  · have hkv : r.url.escapedPath = kvPrefix ++ [] := by
      rw [h.escaped, hpath]
      decide
    exact Or.inl ⟨findHandler_key h.method hkv (Or.inl rfl), hpath⟩
  · refine Or.inr (findHandler_root h.method ?_)
    rw [h.escaped, hpath]
    decide

/-- Nothing is there. -/
theorem DeadEnd.answer (h : DeadEnd r) (redirects : RedirectStatus)
    (s : TinyCache L) : ∃ resp, s.serveHTTP redirects r = (resp, s)
      ∧ resp.status ≠ 200 ∧ resp.status ≠ 204 := by
  unfold TinyCache.serveHTTP Handler.serveHTTP
  rcases h.found with ⟨hfound, hpath⟩ | hfound
  · refine ⟨httpError (ascii "invalid key") 400, ?_, by simp [httpError],
      by simp [httpError]⟩
    rw [hfound]
    unfold Handler.kvHandler
    rw [hpath]
    rfl
  · refine ⟨httpNotFound, ?_, by simp [httpNotFound, httpError],
      by simp [httpNotFound, httpError]⟩
    rw [hfound]
    rfl

/-- A request that is redirected to a dead end comes to it. -/
theorem target_deadEnd {n : Nat} {x : Option HttpRequest}
    (hmethod : r.method ≠ "CONNECT") (hr : Redirected r.url)
    (hpath : r.url.path = kvPrefix ∨ r.url.path = [slash])
    (h : target redirects n r = some x) : ∀ r', x = some r' → DeadEnd r' := by
  cases n with
  | zero => cases h
  | succ n =>
      unfold target at h
      have hroot : r.url.escapedPath.head? = some slash := by
        rw [hr.escaped]
        exact head_escape hr.rooted
      cases hparse : readTarget r.url.requestURI with
      | none =>
          rw [hparse] at h
          cases h
          exact fun r' hr' => by cases hr'
      | some url =>
          obtain ⟨hsame, hescaped⟩ :=
            URL.of_parseRequestURI hroot (parse_of_readTarget hparse)
          have hdead : DeadEnd { r with url } := by
            refine ⟨hmethod, ?_, ?_⟩
            · rw [hescaped, hr.escaped, hsame]
            · rw [hsame]
              exact hpath
          rw [hparse] at h
          dsimp only at h
          have hend : x = some { r with url } := by
            rcases hdead.found with ⟨hfound, -⟩ | hfound
            · rw [hfound] at h
              exact (Option.some.inj h).symm
            · rw [hfound] at h
              exact (Option.some.inj h).symm
          intro r' hr'
          rw [hend] at hr'
          cases hr'
          exact hdead

-- ========================================================= plain keys

theorem method_ne_connect (op : CliOp) : op.method ≠ "CONNECT" := by
  cases op <;> simp [CliOp.method]

/-- Where a plain key is redirected to, there is nothing. -/
theorem deadEnd_of_plain {seg : Bytes} (hmethod : method ≠ "CONNECT")
    (hpath : u.path = keyPath key)
    (hseg : u.escapedPath = kvPrefix ++ seg)
    (hun : unescape seg = some key) (hslash : slash ∉ seg)
    (hfound : findHandler method u = .redirect u₂) :
    u₂.path = kvPrefix ∨ u₂.path = [slash] := by
  by_cases hdots : seg = ascii "." ∨ seg = ascii ".."
  · have hkey : key = seg := by
      obtain rfl | rfl := hdots <;> exact (Option.some.inj hun).symm
    subst hkey
    rw [findHandler_congr hmethod] at hfound
    exact deadEnd_of_dots hdots hpath hseg hfound
  · rw [not_or] at hdots
    have hsegment : seg = [] ∨ IsSegment seg := by
      by_cases hnil : seg = []
      · exact Or.inl hnil
      · exact Or.inr ⟨hnil, hdots.1, hdots.2, hslash⟩
    rw [findHandler_key hmethod hseg hsegment] at hfound
    cases hfound

/-- A redirect changes the URL, and the method to GET at most. -/
theorem redirected_url : (redirected redirects r u).url = u := by
  unfold redirected
  cases redirects
  · dsimp only
    split <;> rfl
  · rfl

theorem redirected_method_ne (h : r.method ≠ "CONNECT") :
    (redirected redirects r u).method ≠ "CONNECT" := by
  unfold redirected
  cases redirects
  · dsimp only
    split
    · exact h
    · simp
  · exact h

/-- The URL of a plain key has it as the one segment below `/kv/`. -/
theorem parsed_plain {authority : Bytes} (hplain : PlainKey key)
    (hparse : parseURL (kvURL pod key) = some (authority, u)) :
    u.path = keyPath key ∧ u.escapedPath.head? = some slash
      ∧ ∃ seg, u.escapedPath = kvPrefix ++ seg
        ∧ unescape seg = some key ∧ slash ∉ seg := by
  obtain ⟨u₀, hu₀, hpath, hescaped⟩ := of_parse_kvURL hparse
  rw [cutKey_of_plain fun b hb => ⟨(hplain b hb).1, (hplain b hb).2.1⟩]
    at hu₀
  obtain ⟨hkey, seg, hseg, hun, hslash⟩ := escapedPath_of_plain hu₀ hplain
  rw [← hpath] at hkey
  rw [← hescaped] at hseg
  refine ⟨hkey, ?_, seg, hseg, hun, hslash⟩
  rw [hseg]
  rfl

/-- The request for a plain key ends as it is, or in a dead end. -/
theorem target_plain {n : Nat} {authority : Bytes} {x : Option HttpRequest}
    (hplain : PlainKey key)
    (hparse : parseURL (kvURL pod key) = some (authority, u))
    (h : target redirects n ⟨op.method, u, op.body⟩ = some x) :
    ∀ r', x = some r' → DeadEnd r' ∨ ∃ u', r' = ⟨op.method, u', op.body⟩
      ∧ u'.path = keyPath key := by
  obtain ⟨hkey, hroot, seg, hseg, hun, hslash⟩ :=
    parsed_plain hplain hparse
  intro r' hr'
  cases n with
  | zero => cases h
  | succ n =>
      unfold target at h
      dsimp only at h
      cases hparse' : readTarget u.requestURI with
      | none =>
          rw [hparse', hr'] at h
          cases h
      | some u₁ =>
          obtain ⟨hpath₁, hescaped₁⟩ :=
            URL.of_parseRequestURI hroot (parse_of_readTarget hparse')
          rw [hparse'] at h
          dsimp only at h
          cases hfound : findHandler op.method u₁ with
          | handler p =>
              rw [hfound, hr'] at h
              cases h
              exact Or.inr ⟨u₁, rfl, hpath₁.trans hkey⟩
          | notFound =>
              rw [hfound, hr'] at h
              cases h
              exact Or.inr ⟨u₁, rfl, hpath₁.trans hkey⟩
          | redirect u₂ =>
              have hend := deadEnd_of_plain (method_ne_connect op)
                (hpath₁.trans hkey) (hescaped₁.trans hseg) hun hslash hfound
              rw [hfound] at h
              dsimp only at h
              split at h
              · cases h
              next u₃ hlocation =>
              obtain ⟨hred, hsame⟩ := redirected_of_location
                (method_ne_connect op) hfound hlocation
              refine Or.inl (target_deadEnd ?_ ?_ ?_ h r' hr')
              · exact redirected_method_ne (method_ne_connect op)
              · rw [redirected_url]
                exact hred
              · rw [redirected_url, hsame]
                exact hend

/-- What an operation can do, with the answer it gets. -/
inductive CliServed (s : TinyCache L) (op : CliOp) (key : Bytes) :
    Response → TinyCache L → Prop where
  | kept (resp : Response) (s' : TinyCache L) (hstatus : resp.status ≠ 204)
      (hget : op = .get → resp.status ≠ 200) (hloses : s.Loses s') :
      CliServed s op key resp s'
  | found (resp : Response) (s' : TinyCache L) (hop : op = .get)
      (hget : L.find s.store key = some resp.body)
      (hstatus : resp.status = 200) (hloses : s.Loses s') :
      CliServed s op key resp s'
  | bound (value : Bytes) (hop : op = .put value) :
      CliServed s op key { status := 204 }
        { s with store := (L.add s.store key value).2 }
  | unbound (hop : op = .delete) :
      CliServed s op key { status := 204 }
        { s with store := (L.remove s.store key).2 }

/-- At the path of a key, a request does what its method says. -/
theorem cliServed_of_handled {u : URL} (hpath : u.path = keyPath key)
    (h : Handled s ⟨op.method, u, op.body⟩ resp s') :
    CliServed s op key resp s' := by
  cases h with
  | kept _ _ hstatus hget hloses =>
      refine .kept resp s' hstatus (fun hop => hget key ?_ hpath) hloses
      rw [hop]
      rfl
  | found key' _ _ hmethod hpath' hstatus hget hloses =>
      obtain rfl : key = key' := keyPath_injective (hpath.symm.trans hpath')
      cases op with
      | get => exact .found resp s' rfl hget hstatus hloses
      | put value => simp [CliOp.method] at hmethod
      | delete => simp [CliOp.method] at hmethod
  | bound key' hmethod hpath' _ _ =>
      obtain rfl : key = key' := keyPath_injective (hpath.symm.trans hpath')
      cases op with
      | get => simp [CliOp.method] at hmethod
      | delete => simp [CliOp.method] at hmethod
      | put value =>
          have hbody : (CliOp.put value).body.content = value :=
            List.append_nil value
          dsimp only
          rw [hbody]
          exact .bound value rfl
  | unbound key' hmethod hpath' _ =>
      obtain rfl : key = key' := keyPath_injective (hpath.symm.trans hpath')
      cases op with
      | get => simp [CliOp.method] at hmethod
      | put value => simp [CliOp.method] at hmethod
      | delete => exact .unbound rfl

/-- `cache-cli` does to a plain key what it is told. -/
theorem cliAt_plain (hL : L.Lossy) (hplain : PlainKey key)
    (h : cliAt redirects pod s op key = some (resp, s')) :
    CliServed s op key resp s' := by
  unfold cliAt cliRun at h
  split at h
  · cases h
  next authority u hparse =>
  rw [doAt_eq (tinyCache_dispatches hL redirects)] at h
  obtain ⟨x, hx, hanswer⟩ := Option.map_eq_some_iff.mp h
  cases x with
  | none =>
      cases hanswer
      exact .kept _ s (by simp [httpError]) (fun _ => by simp [httpError])
        (.refl s)
  | some r' =>
      change s.serveHTTP redirects r' = (resp, s') at hanswer
      rcases target_plain hplain hparse hx r' rfl with
        hdead | ⟨u', rfl, hpath⟩
      · obtain ⟨resp', hresp', h200, h204⟩ := hdead.answer redirects s
        rw [hresp'] at hanswer
        cases hanswer
        exact .kept _ s h204 (fun _ => h200) (.refl s)
      · have hhandled := TinyCache.serveHTTP_handled (s := s)
          (r := ⟨op.method, u', op.body⟩) hL redirects
        rw [hanswer] at hhandled
        exact cliServed_of_handled hpath hhandled

-- ====================================================== storable keys

/-- A plain key that is one segment of a path and has no control
bytes. -/
structure Storable (key : Bytes) : Prop where
  plain : PlainKey key
  segment : IsSegment key
  printable : containsCTLByte key = false

theorem hostByte_plainer (b : UInt8) : hostByte b = true →
    b ≠ percent ∧ (b < 0x20 || b = 0x7F) = false := by
  revert b
  apply forall_byte
  decide +kernel

theorem encodedByte_printable (b : UInt8) : encodedByte b = true →
    (b < 0x20 || b = 0x7F) = false ∧ b ≠ 0x20 := by
  revert b
  apply forall_byte
  decide +kernel

/-- A byte of the host and the port, or the colon between them. -/
theorem authority_byte {b : UInt8} (h : b ∈ pod.authority) :
    hostByte b = true ∨ b = 0x3A := by
  simp only [PodAddress.authority, List.mem_append, List.mem_map] at h
  obtain (h | h) | ⟨c, hc, rfl⟩ := h
  · exact Or.inl (List.all_eq_true.mp pod.isName b h)
  · exact Or.inr (List.mem_singleton.mp h)
  · exact Or.inl (hostByte_digit
      (Nat.isDigit_of_mem_toDigits (by omega) (by omega) hc))

/-- No byte of the URL of a storable key means anything but itself. -/
theorem kvURL_bytes (h : Storable key) {b : UInt8}
    (hb : b ∈ kvURL pod key) :
    b ≠ numberSign ∧ b ≠ questionMark ∧ b ≠ percent
      ∧ (b < 0x20 || b = 0x7F) = false := by
  have hurl : kvURL pod key
      = ascii "http://" ++ (pod.authority ++ (kvPrefix ++ key)) := by
    simp [kvURL, PodAddress.authority, kvPrefix]
  rw [hurl] at hb
  simp only [List.mem_append] at hb
  rcases hb with hb | hb | hb | hb
  · revert b
    decide +kernel
  · obtain ⟨-, hmark, hsign⟩ := authority_plain hb
    rcases authority_byte hb with hhost | rfl
    · exact ⟨hsign, hmark, hostByte_plainer b hhost⟩
    · decide
  · revert b
    decide +kernel
  · obtain ⟨hsign, hmark, hpercent, -⟩ := h.plain b hb
    refine ⟨hsign, hmark, hpercent, ?_⟩
    have hnone := h.printable
    rw [containsCTLByte, List.any_eq_false] at hnone
    simpa using hnone b hb

theorem parsePathAndQuery_plain (rest : Bytes)
    (h : ∀ b ∈ rest, b ≠ questionMark ∧ b ≠ percent) :
    ∃ u, parsePathAndQuery rest = some u ∧ u.rawQuery = []
      ∧ u.forceQuery = false := by
  have hlast : rest.getLast? ≠ some questionMark :=
    fun hlast => (h _ (List.mem_of_getLast? hlast)).1 rfl
  unfold parsePathAndQuery
  simp only [cut_eq_self fun hb => (h _ hb).1 rfl, URL.ofPath,
    unescape_plain fun hb => (h _ hb).2 rfl, Option.map_some]
  exact ⟨_, rfl, rfl, by simp [hlast]⟩

theorem parse_kvURL (h : Storable key) :
    ∃ authority u, parseURL (kvURL pod key) = some (authority, u)
      ∧ u.rawQuery = [] ∧ u.forceQuery = false := by
  have hbytes : ∀ b ∈ kvURL pod key, _ := fun b => kvURL_bytes h
  have hctl : containsCTLByte (kvURL pod key) = false := by
    rw [containsCTLByte, List.any_eq_false]
    intro b hb
    rw [(hbytes b hb).2.2.2]
    simp
  have hscheme : (ascii "http://").isPrefixOf (kvURL pod key) = true := by
    rw [List.isPrefixOf_iff_prefix]
    unfold kvURL
    simp only [List.append_assoc]
    exact List.prefix_append _ _
  unfold parseURL
  rw [cut_eq_self fun hb => (hbytes _ hb).1 rfl]
  simp only [hctl, hscheme, Bool.false_eq_true, if_false, if_true]
  obtain ⟨u, hu, hquery⟩ := parsePathAndQuery_plain
    (((kvURL pod key).drop (ascii "http://").length).drop _) fun b hb =>
      ⟨(hbytes b (List.mem_of_mem_drop (List.mem_of_mem_drop hb))).2.1,
        (hbytes b (List.mem_of_mem_drop (List.mem_of_mem_drop hb))).2.2.1⟩
  rw [hu]
  exact ⟨_, u, rfl, hquery⟩

/-- The server can read a request without a query. -/
theorem readTarget_path (hroot : u.escapedPath.head? = some slash)
    (hquery : u.rawQuery = []) (hforce : u.forceQuery = false) :
    ∃ u', readTarget u.requestURI = some u' := by
  have hne : u.escapedPath ≠ [] := by
    intro hnil
    rw [hnil] at hroot
    cases hroot
  have huri : u.requestURI = u.escapedPath := by
    simp [URL.requestURI, hne, hquery, hforce]
  have hctl : containsCTLByte u.escapedPath = false := by
    rw [containsCTLByte, List.any_eq_false]
    intro b hb
    rw [(encodedByte_printable b (URL.encodedByte_of_mem_escapedPath hb)).1]
    simp
  have hblank : (0x20 : UInt8) ∉ u.escapedPath := fun hb =>
    (encodedByte_printable _ (URL.encodedByte_of_mem_escapedPath hb)).2 rfl
  have hmark : questionMark ∉ u.escapedPath := fun hb =>
    absurd (URL.encodedByte_of_mem_escapedPath hb) (by decide)
  unfold readTarget parseRequestURI parsePathAndQuery
  rw [huri, if_neg hblank]
  simp only [hctl, hroot, cut_eq_self hmark, URL.ofPath,
    URL.unescape_escapedPath u, Option.map_some]
  exact ⟨_, rfl⟩

/-- Every operation on a storable key comes back from the handler. -/
theorem cliAt_storable (hL : L.Lossy) (redirects : RedirectStatus)
    (pod : PodAddress) (s : TinyCache L) (op : CliOp) (h : Storable key) :
    ∃ u, u.path = keyPath key
      ∧ cliAt redirects pod s op key
        = some ((Handler.kvHandler ⟨op.method, u, op.body⟩).alone s) := by
  obtain ⟨authority, u, hparse, hquery, hforce⟩ := parse_kvURL h
  obtain ⟨hkey, hroot, seg, hseg, hun, hslash⟩ :=
    parsed_plain h.plain hparse
  have hsegment : IsSegment seg := by
    refine ⟨?_, ?_, ?_, hslash⟩
    · rintro rfl
      exact h.segment.ne_nil (Option.some.inj hun).symm
    · rintro rfl
      exact h.segment.ne_dot (Option.some.inj hun).symm
    · rintro rfl
      exact h.segment.ne_dots (Option.some.inj hun).symm
  obtain ⟨u', hparse'⟩ := readTarget_path hroot hquery hforce
  obtain ⟨hpath', hescaped'⟩ :=
    URL.of_parseRequestURI hroot (parse_of_readTarget hparse')
  have hfound := findHandler_key (method_ne_connect op)
    (hescaped'.trans hseg) (Or.inr hsegment)
  have htarget : target redirects 10 ⟨op.method, u, op.body⟩
      = some (some ⟨op.method, u', op.body⟩) := by
    unfold target
    simp only [hparse', hfound]
  refine ⟨u', hpath'.trans hkey, ?_⟩
  unfold cliAt cliRun
  rw [hparse]
  dsimp only
  rw [doAt_eq (tinyCache_dispatches hL redirects), htarget]
  simp only [Option.map_some, answerTo, TinyCache.serveHTTP,
    Handler.serveHTTP, hfound]

/-- What each operation comes to. -/
def outcome (s : TinyCache L) (key : Bytes) :
    CliOp → Response × TinyCache L
  | .get =>
      (Handler.valueOr404 (L.find s.store key),
        { s with store := (L.get s.store key).2 })
  | .put value =>
      if maxValueBytes < value.length then
        (httpError (ascii "value too large") 413, s)
      else
        ({ status := 204 },
          { s with store := (L.add s.store key value).2 })
  | .delete =>
      (Handler.gone (L.remove s.store key).1,
        { s with store := (L.remove s.store key).2 })

theorem outcome_large {value : Bytes} (h : maxValueBytes < value.length) :
    outcome s key (.put value)
      = (httpError (ascii "value too large") 413, s) :=
  if_pos h

theorem outcome_fits {value : Bytes} (h : ¬maxValueBytes < value.length) :
    outcome s key (.put value)
      = ({ status := 204 },
        { s with store := (L.add s.store key value).2 }) :=
  if_neg h

/-- A body that comes in one piece. -/
theorem handlePut_value (s : TinyCache L) (u : URL) (key value : Bytes) :
    (Handler.handlePut ⟨"PUT", u, .more value (.done none)⟩ key).alone s
      = outcome s key (.put value) := by
  let body : BodyReader := .more value (.done none)
  have hcontent : body.content = value := List.append_nil value
  obtain ⟨bytes, hread⟩ : ∃ bytes,
      body.readAllLimited (maxValueBytes + 1) = (bytes, none) :=
    BodyReader.read_ends rfl
  have hlen := BodyReader.lt_length_of_read hread
  rw [hcontent] at hlen
  unfold Handler.handlePut
  rw [show BodyReader.readAllLimited _ _ = _ from hread]
  dsimp only
  by_cases hlarge : maxValueBytes < value.length
  · rw [if_pos (hlen.mpr hlarge), outcome_large hlarge]
    rfl
  · obtain ⟨rfl, -⟩ := BodyReader.read_whole hread (mt hlen.mp hlarge)
    rw [if_neg (mt hlen.mp hlarge), outcome_fits hlarge, hcontent]
    rfl

theorem cliAt_outcome (hL : L.Lossy) (redirects : RedirectStatus)
    (pod : PodAddress) (s : TinyCache L) (op : CliOp) (h : Storable key) :
    cliAt redirects pod s op key = some (outcome s key op) := by
  obtain ⟨u, hpath, hrun⟩ := cliAt_storable hL redirects pod s op h
  have hunderkv : kvPrefix.isPrefixOf u.path = true := by
    rw [hpath]
    exact List.isPrefixOf_iff_prefix.mpr (List.prefix_append _ _)
  have hdrop : u.path.drop kvPrefix.length = key := by
    rw [hpath, keyPath, List.drop_left]
  rw [hrun]
  unfold Handler.kvHandler
  simp only [hunderkv, hdrop, h.segment.ne_nil, h.segment.no_slash,
    Bool.not_true, Bool.false_eq_true, if_false, or_self]
  cases op with
  | get => exact congrArg some (Handler.handleGet_alone key s)
  | put value => exact congrArg some (handlePut_value s u key value)
  | delete => exact congrArg some (Handler.handleDelete_alone key s)

/-- What `cache-cli get` prints: the status and the body. -/
def printed (redirects : RedirectStatus) (pod : PodAddress)
    (s : TinyCache L) (key : Bytes) : Option (Nat × Bytes) :=
  (cliAt redirects pod s .get key).map fun p => (p.1.status, p.1.body)

/-- What it prints when nothing is found. -/
def notFound : Nat × Bytes := (404, ascii "not found\n")

/-- The same, by what is found. -/
def shown : Option Bytes → Nat × Bytes
  | some value => (200, value)
  | none => notFound

theorem printed_storable (hL : L.Lossy) (h : Storable key) :
    printed redirects pod s key = some (shown (L.find s.store key)) := by
  unfold printed
  rw [cliAt_outcome hL redirects pod s .get h]
  unfold outcome
  cases L.find s.store key <;> rfl

/-- One upheaval after the other. -/
def TinyCache.suffers (s : TinyCache L) (es : List (Upheaval L)) :
    TinyCache L :=
  es.foldl (fun s e => s.suffer e) s

/-- They can only lose entries. -/
theorem TinyCache.suffers_loses (hL : L.Lossy) (s : TinyCache L)
    (es : List (Upheaval L)) : L.Loses s.store (s.suffers es).store := by
  induction es generalizing s with
  | nil => exact .refl s.store
  | cons e es ih =>
      refine StoreOps.Loses.trans ?_ (ih (s.suffer e))
      cases e with
      | store e => exact hL.happen_loses e s.store
      | markNotReady => exact .refl s.store

/-- What `cache-cli` shows of one key of a pod. After an operation anything
may happen to the pod, which can only lose entries. -/
structure ActsAsCache (redirects : RedirectStatus) (pod : PodAddress)
    (s : TinyCache L) (key : Bytes) : Prop where
  /-- A value that is not too large is stored and found; later no other
  one is. -/
  put_get : ∀ value : Bytes, value.length ≤ 2 ^ 20 →
    ∃ resp s', cliAt redirects pod s (.put value) key = some (resp, s')
      ∧ resp.status = 204
      ∧ printed redirects pod s' key = some (200, value)
      ∧ ∀ es, printed redirects pod (s'.suffers es) key
            = some (200, value)
          ∨ printed redirects pod (s'.suffers es) key = some notFound
  /-- One that is too large is turned down. -/
  put_large : ∀ value : Bytes, 2 ^ 20 < value.length →
    ∃ resp, cliAt redirects pod s (.put value) key = some (resp, s)
      ∧ resp.status = 413
  /-- After a delete nothing is found; what was found is said to have been
  there. -/
  delete_get : ∃ resp s',
    cliAt redirects pod s .delete key = some (resp, s')
      ∧ ((∃ value, printed redirects pod s key = some (200, value)) →
        resp.status = 204)
      ∧ ∀ es, printed redirects pod (s'.suffers es) key = some notFound
  /-- What is found under another key, or under this one after a get, is
  what was found before, unless it was lost. -/
  others : ∀ op resp s' key' es, Storable key' →
    key' ≠ key ∨ op = .get →
    cliAt redirects pod s op key = some (resp, s') →
      printed redirects pod (s'.suffers es) key'
          = printed redirects pod s key'
        ∨ printed redirects pod (s'.suffers es) key' = some notFound

/-- An operation binds no other key, and a get binds none. -/
theorem outcome_others (hL : L.Lossy) {key' value : Bytes} {op : CliOp}
    (hother : key' ≠ key ∨ op = .get)
    (h : L.find (outcome s key op).2.store key' = some value) :
    L.find s.store key' = some value := by
  cases op with
  | get => exact hL.get_loses s.store key key' value h
  | delete => exact hL.remove_loses s.store key key' value h
  | put value' =>
      have hne : key' ≠ key := hother.resolve_right fun hop => by cases hop
      by_cases hlarge : maxValueBytes < value'.length
      · rw [outcome_large hlarge] at h
        exact h
      · rw [outcome_fits hlarge] at h
        exact hL.add_others s.store key value' key' value hne h

/-- Where nothing else is found, nothing else is printed. -/
theorem printed_of_loses (hL : L.Lossy) (h : Storable key)
    (hloses : ∀ value, L.find s'.store key = some value →
      L.find s.store key = some value) :
    printed redirects pod s' key = printed redirects pod s key
      ∨ printed redirects pod s' key = some notFound := by
  rw [printed_storable hL h, printed_storable hL h]
  cases hfound : L.find s'.store key with
  | none => exact Or.inr rfl
  | some value =>
      rw [hloses value hfound]
      exact Or.inl rfl

/-- For every key that can be stored, whatever a pod has in its store,
whichever library that is and whichever status its redirects have, all
operations of `cache-cli` come back, and by what they print the pod is a
cache. -/
theorem cli_sees_a_cache {L : Library} (hL : L.Lossy)
    (redirects : RedirectStatus) (pod : PodAddress) (s : TinyCache L)
    {key : Bytes} (h : Storable key) : ActsAsCache redirects pod s key := by
  refine ⟨fun value hsize => ?_, fun value hsize => ?_, ?_, ?_⟩
  · have hfits : ¬maxValueBytes < value.length := by
      unfold maxValueBytes
      omega
    have hput := cliAt_outcome hL redirects pod s (.put value) h
    rw [outcome_fits hfits] at hput
    have hprinted : printed redirects pod
        { s with store := (L.add s.store key value).2 } key
          = some (200, value) := by
      rw [printed_storable hL h]
      dsimp only
      rw [hL.add_find, shown]
    refine ⟨_, _, hput, rfl, hprinted, fun es => ?_⟩
    rw [← hprinted]
    exact printed_of_loses hL h (TinyCache.suffers_loses hL _ es key)
  · have hlarge : maxValueBytes < value.length := by
      unfold maxValueBytes
      omega
    refine ⟨httpError (ascii "value too large") 413, ?_, rfl⟩
    rw [cliAt_outcome hL redirects pod s (.put value) h,
      outcome_large hlarge]
  · refine ⟨_, _, cliAt_outcome hL redirects pod s .delete h, ?_, ?_⟩
    · intro ⟨value, hvalue⟩
      rw [printed_storable hL h] at hvalue
      cases hget : L.find s.store key with
      | none =>
          rw [hget] at hvalue
          cases hvalue
      | some found =>
          show (Handler.gone (L.remove s.store key).1).status = 204
          rw [hL.remove_told s.store key found hget]
          rfl
    · intro es
      have hgone : printed redirects pod (outcome s key .delete).2 key
          = some notFound := by
        rw [printed_storable hL h]
        show some (shown (L.find (L.remove s.store key).2 key)) = _
        rw [hL.remove_find]
        rfl
      rcases printed_of_loses hL h
        (TinyCache.suffers_loses hL (outcome s key .delete).2 es key) with
        hsame | hnone
      · exact hsame.trans hgone
      · exact hnone
  · intro op resp s' key' es h' hother hrun
    rw [cliAt_outcome hL redirects pod s op h] at hrun
    obtain rfl : (outcome s key op).2 = s' :=
      congrArg Prod.snd (Option.some.inj hrun)
    refine printed_of_loses hL h' fun value hfound => ?_
    exact outcome_others hL hother
      (TinyCache.suffers_loses hL _ es key' value hfound)

/-- At a pod with an entry that has expired. -/
theorem cli_sees_a_cache_user :
    ActsAsCache .temporaryRedirect ordersPodAddress expiredCache
      (ascii "user 1234") :=
  cli_sees_a_cache (AgingStore.lossy Bytes Bytes) _ _ _
    ⟨by decide +kernel, ⟨by decide, by decide, by decide, by decide⟩,
      by decide⟩

end CacheOperator
