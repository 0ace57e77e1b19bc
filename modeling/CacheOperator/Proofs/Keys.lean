/-
Which key a PUT of `cache-cli` ends up under.

The key is pasted into a URL, so it is read as URL text: a number sign
and a question mark end it, percent sequences are decoded, and slashes
and dot segments are up to `ServeMux`. On the way nothing else happens
(`of_parse_kvURL`, `of_parseRequestURI`): without a redirect the server
binds what the cut key decodes to. A redirect leads to a path made of
bytes that may stand in an encoded path (`Redirected`), and no key that
has to be redirected is made of such bytes and one segment only.
-/
import CacheOperator.Proofs.TinyCache
import Mathlib.Data.List.TakeWhile

namespace CacheOperator

open Lib CacheServer

variable {redirects : RedirectStatus} {pod : PodAddress}
  {s s' : CacheServer} {r : HttpRequest} {resp : Response}
  {u u' u₂ : URL} {key value seg : Bytes} {method : String}

-- ============================================================ the URL

/-- The key up to the fragment and the query. -/
def cutKey (key : Bytes) : Bytes :=
  (key.takeWhile (· ≠ numberSign)).takeWhile (· ≠ questionMark)

/-- Host and port as they stand in the URL. -/
def PodAddress.authority (pod : PodAddress) : Bytes :=
  pod.host ++ ascii ":"
    ++ (Nat.toDigits 10 pod.port).map fun c => UInt8.ofNat c.toNat

theorem hostByte_plain (b : UInt8) : hostByte b = true →
    b ≠ slash ∧ b ≠ questionMark ∧ b ≠ numberSign := by
  revert b
  apply forall_byte
  decide +kernel

theorem hostByte_digit {c : Char} (h : c.isDigit = true) :
    hostByte (UInt8.ofNat c.toNat) = true := by
  have hlo : 48 ≤ c.toNat := by
    simp only [Char.isDigit, Bool.and_eq_true, decide_eq_true_eq] at h
    exact h.1
  have hhi : c.toNat ≤ 57 := by
    simp only [Char.isDigit, Bool.and_eq_true, decide_eq_true_eq] at h
    exact h.2
  generalize c.toNat = n at *
  interval_cases n <;> decide

theorem authority_plain {b : UInt8} (h : b ∈ pod.authority) :
    b ≠ slash ∧ b ≠ questionMark ∧ b ≠ numberSign := by
  simp only [PodAddress.authority, List.mem_append, List.mem_map] at h
  obtain (h | h) | ⟨c, hc, rfl⟩ := h
  · exact hostByte_plain b (List.all_eq_true.mp pod.isName b h)
  · rw [List.mem_singleton.mp h]
    decide
  · exact hostByte_plain _ (hostByte_digit
      (Nat.isDigit_of_mem_toDigits (by omega) (by omega) hc))

/-- As a check that is run, for a text that is known. -/
theorem takeWhile_append_of_all {p : UInt8 → Bool} {xs ys : Bytes}
    (h : xs.all p = true) :
    (xs ++ ys).takeWhile p = xs ++ ys.takeWhile p :=
  List.takeWhile_append_of_pos (List.all_eq_true.mp h)

/-- The path of the URL is `/kv/` and the key, cut off. -/
theorem of_parse_kvURL {authority : Bytes}
    (h : parseURL (kvURL pod key) = some (authority, u)) :
    ∃ u₀, URL.ofPath (kvPrefix ++ cutKey key) = some u₀
      ∧ u.path = u₀.path ∧ u.escapedPath = u₀.escapedPath := by
  let key₁ := key.takeWhile (· ≠ numberSign)
  have hurl : kvURL pod key
      = ascii "http://" ++ (pod.authority ++ (kvPrefix ++ key)) := by
    simp [kvURL, PodAddress.authority, kvPrefix]
  have hfrag : (kvURL pod key).takeWhile (· ≠ numberSign)
      = ascii "http://" ++ (pod.authority ++ (kvPrefix ++ key₁)) := by
    rw [hurl, takeWhile_append_of_all (by decide),
      List.takeWhile_append_of_pos, takeWhile_append_of_all (by decide)]
    intro b hb
    exact decide_eq_true (authority_plain hb).2.2
  have hquery : (pod.authority ++ (kvPrefix ++ key₁)).takeWhile
      (· ≠ questionMark) = pod.authority ++ (kvPrefix ++ cutKey key) := by
    rw [List.takeWhile_append_of_pos,
      takeWhile_append_of_all (by decide)]
    · rfl
    · intro b hb
      exact decide_eq_true (authority_plain hb).2.1
  have hauthority : (pod.authority ++ (kvPrefix ++ cutKey key)).takeWhile
      (· ≠ slash) = pod.authority := by
    rw [List.takeWhile_append_of_pos]
    · simp [kvPrefix, ascii, slash]
    · intro b hb
      exact decide_eq_true (authority_plain hb).1
  unfold parseURL cut at h
  simp only [hfrag] at h
  split at h
  · cases h
  split at h
  swap
  · cases h
  rw [List.drop_left, hquery, hauthority, List.drop_left] at h
  split at h
  swap
  · cases h
  next u₁ _ hparse _ =>
  simp only [Option.some.injEq, Prod.mk.injEq] at h
  obtain ⟨-, rfl⟩ := h
  obtain ⟨u₀, hu₀, hpath, hescaped⟩ := URL.of_parsePathAndQuery hparse
  rw [takeWhile_append_of_all (by decide)] at hu₀
  exact ⟨u₀, hu₀, hpath, hescaped⟩

-- ============================================================ the mux

theorem isSegment_kv : IsSegment (ascii "kv") :=
  ⟨by decide, by decide, by decide, by decide⟩

theorem matchPattern_key (seg : Bytes) :
    matchPattern (kvPrefix ++ seg) = some .kv := by
  have hfirst : firstSegment (kvPrefix ++ seg)
      = (ascii "kv", slash :: seg) := by
    have hpath : kvPrefix ++ seg = slash :: (ascii "kv" ++ slash :: seg) :=
      rfl
    have hne : kvPrefix ++ seg ≠ [slash] := by
      rw [hpath]
      exact fun h => absurd (List.cons.inj h).2 (by simp [ascii])
    have htake : (ascii "kv" ++ slash :: seg).takeWhile (· ≠ slash)
        = ascii "kv" := by
      rw [takeWhile_append_of_all (by decide)]
      simp
    unfold firstSegment
    rw [if_neg hne]
    simp only [hpath, List.tail_cons, htake, List.drop_left]
    rfl
  unfold matchPattern
  rw [hfirst]
  simp [ascii]

/-- A path of one segment after `/kv/` goes to the handler; so does one
with nothing after it. -/
theorem findHandler_key (hmethod : method ≠ "CONNECT")
    (hpath : u.escapedPath = kvPrefix ++ seg)
    (hseg : seg = [] ∨ IsSegment seg) :
    findHandler method u = .handler .kv := by
  have hclean : muxPath method u = u.escapedPath := by
    rw [muxPath, if_neg hmethod, hpath]
    obtain rfl | hseg := hseg
    · decide
    · exact cleanPath_of_segments isSegment_kv hseg
  have hslash : slashRedirect (muxPath method u) u = none := by
    rw [hclean, hpath, slashRedirect, matchPattern_key]
    refine if_neg ?_
    rintro ⟨hexact, hlast, -⟩
    obtain rfl | hseg := hseg
    · exact hlast (by decide)
    · rw [exactMatch, if_pos (getLast_ne_slash hseg)] at hexact
      cases hexact
  unfold findHandler
  rw [hslash]
  simp only [hclean, ne_eq, not_true_eq_false, if_false]
  rw [hpath, matchPattern_key]

/-- Where a redirect leads. -/
theorem of_findHandler_redirect (h : findHandler method u = .redirect u₂) :
    u₂.rawPath = []
      ∧ (slashRedirect (muxPath method u) u = some u₂
          ∧ u₂.path = cleanPath u.path ++ [slash]
        ∨ slashRedirect (muxPath method u) u = none
          ∧ u₂.path = muxPath method u) := by
  unfold findHandler at h
  split at h
  · next u₁ hslash =>
    cases h
    rw [hslash]
    unfold slashRedirect at hslash
    split at hslash
    · cases hslash
      exact ⟨rfl, Or.inl ⟨rfl, rfl⟩⟩
    · cases hslash
  next hslash =>
  split at h
  · cases h
    exact ⟨rfl, Or.inr ⟨hslash, rfl⟩⟩
  · split at h <;> cases h

theorem kvHandler_status : (s.kvHandler r).1.status ≠ redirects.code := by
  have hcode : redirects.code = 301 ∨ redirects.code = 307 := by
    cases redirects
    · exact Or.inl rfl
    · exact Or.inr rfl
  unfold kvHandler handleGet handlePut handleDelete httpNotFound httpError
  dsimp only
  repeat' split
  all_goals (dsimp only; omega)

/-- An answer with the status of a redirect is one. -/
theorem redirect_of_status
    (h : (s.serveHTTP redirects r).1.status = redirects.code) :
    ∃ u, findHandler r.method r.url = .redirect u
      ∧ (s.serveHTTP redirects r).1.headers.get "Location"
        = some u.requestURI
      ∧ (s.serveHTTP redirects r).2 = s := by
  unfold serveHTTP at h ⊢
  split at h
  · next u hfound => exact ⟨u, hfound, rfl, rfl⟩
  · cases redirects <;> cases h
  · unfold readyz at h
    split at h <;> cases redirects <;> cases h
  · exact absurd h kvHandler_status
  · cases redirects <;> cases h

/-- A PUT that is answered 204 asked for a clean path. -/
theorem clean_of_served (redirects : RedirectStatus)
    (hmethod : r.method = "PUT")
    (h : (s.serveHTTP redirects r).1.status = 204) :
    cleanPath r.url.escapedPath = r.url.escapedPath := by
  unfold serveHTTP at h
  split at h
  · cases redirects <;> cases h
  · cases h
  · unfold readyz at h
    split at h <;> cases h
  · next hfound =>
    have hclean := (of_findHandler hfound).2
    rwa [muxPath, if_neg (by rw [hmethod]; decide)] at hclean
  · cases h

-- ======================================================= the redirects

/-- A URL as a redirect of a cleaned path leaves it: nothing in it but
bytes of an encoded path, or a slash at its end. -/
structure Redirected (u : URL) : Prop where
  rooted : u.path.head? = some slash
  escaped : u.escapedPath = escape u.path
  bytes : u.path.getLast? = some slash ∨ ∀ b ∈ u.path, encodedByte b = true

theorem head_escape {p : Bytes} (h : p.head? = some slash) :
    (escape p).head? = some slash := by
  cases p with
  | nil => cases h
  | cons c p =>
      obtain rfl : c = slash := Option.some.inj h
      rfl

theorem escapedPath_of_rawPath (hraw : u.rawPath = [])
    (hroot : u.path.head? = some slash) :
    u.escapedPath = escape u.path := by
  have hstar : u.path ≠ ascii "*" := by
    intro hpath
    rw [hpath] at hroot
    exact absurd hroot (by decide)
  simp [URL.escapedPath, hraw, hstar]

theorem redirected_of_location (hmethod : method ≠ "CONNECT")
    (hfound : findHandler method u = .redirect u₂)
    (hparse : parseRequestURI u₂.requestURI = some u') :
    Redirected u' ∧ u'.path = u₂.path := by
  obtain ⟨hraw, hpath⟩ := of_findHandler_redirect hfound
  have hroot : u₂.path.head? = some slash := by
    obtain ⟨-, hpath⟩ | ⟨-, hpath⟩ := hpath
    · rw [hpath, List.head?_append, head_cleanPath]
      rfl
    · rw [hpath, muxPath, if_neg hmethod, head_cleanPath]
  have hescaped := escapedPath_of_rawPath hraw hroot
  have hroot' : u₂.escapedPath.head? = some slash := by
    rw [hescaped]
    exact head_escape hroot
  obtain ⟨hsame, hescaped'⟩ := URL.of_parseRequestURI hroot' hparse
  refine ⟨⟨by rw [hsame, hroot], by rw [hescaped', hescaped, hsame], ?_⟩,
    hsame⟩
  rw [hsame]
  obtain ⟨-, hpath⟩ | ⟨-, hpath⟩ := hpath
  · left
    rw [hpath]
    simp
  · right
    intro b hb
    rw [hpath, muxPath, if_neg hmethod] at hb
    obtain rfl | hb := mem_cleanPath hb
    · decide
    · exact URL.encodedByte_of_mem_escapedPath hb

/-- How a request of the client goes on. -/
theorem of_clientDo {n : Nat}
    (h : clientDo redirects n s r = some (resp, s')) :
    (roundTrip redirects s r).1.status ≠ redirects.code
        ∧ roundTrip redirects s r = (resp, s')
      ∨ (roundTrip redirects s r).1.status = redirects.code
        ∧ ∃ m u, ((roundTrip redirects s r).1.headers.get "Location").bind
            parseRequestURI = some u
          ∧ n = m + 1
          ∧ clientDo redirects m (roundTrip redirects s r).2
            (redirected redirects r u) = some (resp, s') := by
  cases n with
  | zero => cases h
  | succ n =>
      unfold clientDo at h
      dsimp only at h
      split at h
      · next hcode =>
        split at h
        · cases h
        · next u hu => exact Or.inr ⟨hcode, n, u, hu, rfl, h⟩
      · next hcode => exact Or.inl ⟨hcode, Option.some.inj h⟩

theorem parse_of_readTarget {target : Bytes}
    (h : readTarget target = some u) : parseRequestURI target = some u := by
  unfold readTarget at h
  split at h
  · cases h
  · exact h

/-- What the server makes of a request on the wire, unless it cannot read
it. -/
theorem of_roundTrip (redirects : RedirectStatus) (s : CacheServer)
    (r : HttpRequest) :
    (roundTrip redirects s r).1.status = 400
      ∨ ∃ u, parseRequestURI r.url.requestURI = some u
        ∧ roundTrip redirects s r
          = s.serveHTTP redirects { r with url := u } := by
  unfold roundTrip
  split
  · exact Or.inl rfl
  · next u hu => exact Or.inr ⟨u, parse_of_readTarget hu, rfl⟩

theorem code_ne_400 : 400 ≠ redirects.code := by
  cases redirects <;> decide

/-- A GET is never answered 204, however often it is redirected. -/
theorem clientDo_get {n : Nat} (hmethod : r.method = "GET")
    (h : clientDo redirects n s r = some (resp, s')) :
    resp.status ≠ 204 := by
  induction n generalizing s r with
  | zero => cases h
  | succ n ih =>
      obtain ⟨-, hend⟩ | ⟨-, m, u, -, hm, hnext⟩ := of_clientDo h
      · obtain h400 | ⟨u, -, hserve⟩ := of_roundTrip redirects s r
        · rw [hend] at h400
          dsimp only at h400
          omega
        · have hserved := serveHTTP_served (s := s)
            (r := { r with url := u }) redirects
          rw [← hserve, hend] at hserved
          cases hserved with
          | kept _ hstatus _ => exact hstatus
          | bound _ hput _ _ _ _ =>
              exact absurd (hmethod.symm.trans hput) (by decide)
          | unbound _ hdelete _ =>
              exact absurd (hmethod.symm.trans hdelete) (by decide)
      · obtain rfl : n = m := by omega
        refine ih ?_ hnext
        cases redirects <;> simp [redirected, hmethod]

/-- The first answer to a PUT that ends with 204: the key was bound, or
there was a redirect and that led to the 204. -/
theorem clientDo_put {n : Nat} (hmethod : r.method = "PUT")
    (hroot : r.url.escapedPath.head? = some slash)
    (h : clientDo redirects n s r = some (resp, s'))
    (hstatus : resp.status = 204) :
    (∃ key, r.url.path = keyPath key ∧ key ≠ [] ∧ slash ∉ key
        ∧ cleanPath r.url.escapedPath = r.url.escapedPath
        ∧ s'.store = s.store.put key r.body.content)
      ∨ ∃ m u₁ u₂ u', n = m + 1 ∧ u₁.path = r.url.path
        ∧ u₁.escapedPath = r.url.escapedPath
        ∧ findHandler "PUT" u₁ = .redirect u₂
        ∧ parseRequestURI u₂.requestURI = some u'
        ∧ clientDo redirects m s (redirected redirects r u')
          = some (resp, s') := by
  obtain ⟨hcode, hend⟩ | ⟨hcode, m, u', hlocation, hm, hnext⟩ :=
    of_clientDo h
  · left
    obtain h400 | ⟨u, hparse, hserve⟩ := of_roundTrip redirects s r
    · rw [hend] at h400
      dsimp only at h400
      omega
    obtain ⟨hpath, hescaped⟩ := URL.of_parseRequestURI hroot hparse
    have hserved := serveHTTP_served (s := s)
      (r := { r with url := u }) redirects
    have hclean := clean_of_served (s := s) (r := { r with url := u })
      redirects hmethod (by rw [← hserve, hend]; exact hstatus)
    rw [← hserve, hend] at hserved
    cases hserved with
    | kept _ hne _ => exact absurd hstatus hne
    | bound key _ hkey hvalid _ _ =>
        refine ⟨key, hpath.symm.trans hkey, hvalid.1, hvalid.2, ?_, rfl⟩
        rw [← hescaped]
        exact hclean
    | unbound _ hdelete _ =>
        exact absurd (hmethod.symm.trans hdelete) (by decide)
  · right
    obtain h400 | ⟨u, hparse, hserve⟩ := of_roundTrip redirects s r
    · exact absurd (h400.symm.trans hcode) code_ne_400
    obtain ⟨hpath, hescaped⟩ := URL.of_parseRequestURI hroot hparse
    rw [hserve] at hcode hlocation hnext
    obtain ⟨u₂, hfound, hheader, hkept⟩ := redirect_of_status hcode
    rw [hheader, Option.bind_some] at hlocation
    rw [hkept] at hnext
    dsimp only at hfound
    rw [hmethod] at hfound
    exact ⟨m, u, u₂, u', hm, hpath, hescaped, hfound, hlocation, hnext⟩

/-- A key bound after a redirect is one segment of bytes that may stand
in an encoded path. -/
theorem clientDo_redirected {n : Nat} (hmethod : r.method = "PUT")
    (hr : Redirected r.url)
    (h : clientDo .temporaryRedirect n s r = some (resp, s'))
    (hstatus : resp.status = 204) :
    ∃ key, s'.store = s.store.put key r.body.content ∧ IsSegment key
      ∧ ∀ b ∈ key, encodedByte b = true := by
  induction n generalizing r with
  | zero => cases h
  | succ n ih =>
      have hroot : r.url.escapedPath.head? = some slash := by
        rw [hr.escaped]
        exact head_escape hr.rooted
      obtain ⟨key, hpath, hne, hslash, hclean, hstore⟩
        | ⟨m, u₁, u₂, u', hm, -, -, hfound, hparse, hnext⟩ :=
        clientDo_put hmethod hroot h hstatus
      · rw [hr.escaped, hpath] at hclean
        have hbytes := hr.bytes
        rw [hpath] at hbytes
        refine ⟨key, hstore, ⟨hne, ?_, ?_, hslash⟩, ?_⟩
        · rintro rfl
          revert hclean
          decide
        · rintro rfl
          revert hclean
          decide
        · obtain hlast | hbytes := hbytes
          · rw [keyPath, List.getLast?_append_of_ne_nil _ hne] at hlast
            exact absurd (List.mem_of_getLast? hlast) hslash
          · intro b hb
            exact hbytes b (List.mem_append_right _ hb)
      · obtain rfl : n = m := by omega
        exact ih (r := redirected .temporaryRedirect r u') hmethod
          (redirected_of_location (by decide) hfound hparse).1 hnext

/-- Nothing is bound at `/kv/` and at the root. -/
theorem clientDo_deadEnd {n : Nat} (hmethod : r.method = "PUT")
    (hr : Redirected r.url) (hpath : r.url.path = kvPrefix
      ∨ r.url.path = [slash])
    (h : clientDo redirects n s r = some (resp, s')) :
    resp.status ≠ 204 := by
  intro hstatus
  have hroot : r.url.escapedPath.head? = some slash := by
    rw [hr.escaped]
    exact head_escape hr.rooted
  obtain ⟨key, hkey, hne, -, -, -⟩
    | ⟨m, u₁, u₂, u', -, -, hescaped, hfound, -, -⟩ :=
    clientDo_put hmethod hroot h hstatus
  · obtain hpath | hpath := hpath
    · rw [hpath] at hkey
      exact hne (List.append_cancel_left
        (hkey.symm.trans (List.append_nil _).symm))
    · rw [hpath] at hkey
      exact absurd (congrArg List.length hkey)
        (by simp [keyPath, kvPrefix, ascii])
  · rw [hr.escaped] at hescaped
    obtain hpath | hpath := hpath
    · rw [hpath] at hescaped
      have hkv : u₁.escapedPath = kvPrefix ++ [] := hescaped
      rw [findHandler_key (by decide) hkv (Or.inl rfl)] at hfound
      cases hfound
    · rw [hpath] at hescaped
      have hmux : muxPath "PUT" u₁ = u₁.escapedPath := by
        rw [muxPath, if_neg (by decide), hescaped]
        decide
      have hslash : slashRedirect (muxPath "PUT" u₁) u₁ = none := by
        rw [hmux, hescaped]
        exact if_neg (by decide)
      have hmatch : matchPattern u₁.escapedPath = none := by
        rw [hescaped]
        decide
      unfold findHandler at hfound
      rw [hslash] at hfound
      simp only [hmux, ne_eq, not_true_eq_false, if_false, hmatch] at hfound
      cases hfound

/-- The redirects of the keys `.` and `..` end there. -/
theorem deadEnd_of_dots (hdots : key = ascii "." ∨ key = ascii "..")
    (hpath : u.path = keyPath key) (hescaped : u.escapedPath = keyPath key)
    (hfound : findHandler "PUT" u = .redirect u₂) :
    u₂.path = kvPrefix ∨ u₂.path = [slash] := by
  obtain ⟨-, ⟨hslash, hu₂⟩ | ⟨hslash, hu₂⟩⟩ :=
    of_findHandler_redirect hfound
  · rw [hpath] at hu₂
    obtain rfl | rfl := hdots
    · left
      rw [hu₂]
      decide
    · rw [muxPath, if_neg (by decide), hescaped] at hslash
      rw [slashRedirect, if_neg (by decide)] at hslash
      cases hslash
  · rw [muxPath, if_neg (by decide), hescaped] at hslash hu₂
    obtain rfl | rfl := hdots
    · rw [slashRedirect, if_pos (by decide)] at hslash
      cases hslash
    · right
      rw [hu₂]
      decide

-- ========================================================= the results

/-- None of the bytes that mean something else in a URL. -/
def PlainKey (key : Bytes) : Prop :=
  ∀ b ∈ key, b ≠ numberSign ∧ b ≠ questionMark ∧ b ≠ percent ∧ b ≠ slash

instance (key : Bytes) : Decidable (PlainKey key) :=
  inferInstanceAs (Decidable (∀ b ∈ key, _))

theorem cutKey_of_plain
    (h : ∀ b ∈ key, b ≠ numberSign ∧ b ≠ questionMark) :
    cutKey key = key := by
  have hfrag : key.takeWhile (· ≠ numberSign) = key :=
    List.takeWhile_eq_self_iff.mpr fun b hb => decide_eq_true (h b hb).1
  rw [cutKey, hfrag]
  exact List.takeWhile_eq_self_iff.mpr fun b hb => decide_eq_true (h b hb).2

/-- Cutting a key off leaves it whole only if there is nothing to cut. -/
theorem plain_of_cutKey (h : key.length ≤ (cutKey key).length) :
    cutKey key = key ∧ ∀ b ∈ key, b ≠ numberSign ∧ b ≠ questionMark := by
  have h₁ := List.takeWhile_prefix (fun b => decide (b ≠ numberSign))
    (l := key)
  have h₂ := List.takeWhile_prefix (fun b => decide (b ≠ questionMark))
    (l := key.takeWhile (· ≠ numberSign))
  have hcut : cutKey key = key := (h₂.trans h₁).eq_of_length_le h
  refine ⟨hcut, ?_⟩
  intro b hb
  rw [← hcut] at hb
  constructor
  · have := List.mem_takeWhile_imp (h₂.subset hb)
    simpa using this
  · have := List.mem_takeWhile_imp hb
    simpa using this

/-- What the cut key decodes to is the key itself exactly when nothing in
it is URL text. -/
theorem unescape_cutKey {bound : Bytes}
    (h : unescape (cutKey key) = some bound) (hslash : slash ∉ bound) :
    bound = key ↔ PlainKey key := by
  constructor
  · rintro rfl
    obtain ⟨hle, hlt⟩ := length_unescape h
    obtain ⟨hcut, hplain⟩ := plain_of_cutKey hle
    intro b hb
    refine ⟨(hplain b hb).1, (hplain b hb).2, ?_, ?_⟩
    · rintro rfl
      have := hlt (by rw [hcut]; exact hb)
      rw [hcut] at this
      omega
    · rintro rfl
      exact hslash hb
  · intro hplain
    rw [cutKey_of_plain fun b hb => ⟨(hplain b hb).1, (hplain b hb).2.1⟩,
      unescape_plain fun hb => (hplain _ hb).2.2.1 rfl] at h
    exact (Option.some.inj h).symm

/-- How the path of a plain key is written. -/
theorem escapedPath_of_plain (hu : URL.ofPath (kvPrefix ++ key) = some u)
    (hplain : PlainKey key) :
    u.path = keyPath key ∧ ∃ seg, u.escapedPath = kvPrefix ++ seg
      ∧ unescape seg = some key ∧ slash ∉ seg := by
  have hpercent : percent ∉ key := fun hb => (hplain _ hb).2.2.1 rfl
  have hslash : slash ∉ key := fun hb => (hplain _ hb).2.2.2 rfl
  have hpath : u.path = keyPath key := by
    have hun := URL.path_ofPath hu
    rw [unescape_append_plain (by decide), unescape_plain hpercent] at hun
    exact (Option.some.inj hun).symm
  refine ⟨hpath, ?_⟩
  obtain hescaped | hescaped := URL.escapedPath_cases hu rfl
  · exact ⟨key, hescaped, unescape_plain hpercent, hslash⟩
  · refine ⟨escape key, ?_, unescape_escape key, mt slash_mem_escape hslash⟩
    rw [hescaped, hpath, keyPath, escape, List.flatMap_append]
    rfl

/-- A plain key is redirected nowhere from where it could be bound. -/
theorem not_redirected_of_plain {n : Nat}
    (hu : URL.ofPath (kvPrefix ++ key) = some u) (hplain : PlainKey key)
    {u₁ : URL} (hpath : u₁.path = u.path)
    (hescaped : u₁.escapedPath = u.escapedPath)
    (hfound : findHandler "PUT" u₁ = .redirect u₂)
    (hparse : parseRequestURI u₂.requestURI = some u')
    (hmethod : r.method = "PUT") (hurl : r.url = u')
    (h : clientDo redirects n s r = some (resp, s')) :
    resp.status ≠ 204 := by
  obtain ⟨hkey, seg, hseg, hun, hslash⟩ := escapedPath_of_plain hu hplain
  obtain ⟨hred, hsame⟩ := redirected_of_location (by decide) hfound hparse
  by_cases hdots : seg = ascii "." ∨ seg = ascii ".."
  · -- the key is its own encoding and leads to a dead end
    have hkeyseg : key = seg := by
      obtain rfl | rfl := hdots <;> exact (Option.some.inj hun).symm
    subst hkeyseg
    refine clientDo_deadEnd hmethod (hurl ▸ hred) ?_ h
    rw [hurl, hsame]
    exact deadEnd_of_dots hdots (hpath.trans hkey) (hescaped.trans hseg)
      hfound
  · rw [not_or] at hdots
    have hsegment : seg = [] ∨ IsSegment seg := by
      by_cases hnil : seg = []
      · exact Or.inl hnil
      · exact Or.inr ⟨hnil, hdots.1, hdots.2, hslash⟩
    rw [findHandler_key (by decide) (hescaped.trans hseg) hsegment] at hfound
    cases hfound

/-- When `cache-cli put` is answered 204, the pod has bound one key to
the value, and it is the given key exactly when that has no `#`, `?`, `%`
and `/` in it. -/
theorem put_binds_key_iff
    (h : cliPut redirects pod s key value = some (resp, s'))
    (hstatus : resp.status = 204) :
    ∃ bound, s'.store = s.store.put bound value
      ∧ (bound = key ↔ PlainKey key) := by
  unfold cliPut at h
  split at h
  · cases h
  next authority u hparse =>
  obtain ⟨u₀, hu₀, hpath, hescaped⟩ := of_parse_kvURL hparse
  have hroot : u.escapedPath.head? = some slash := by
    rw [hescaped]
    obtain he | he := URL.escapedPath_cases hu₀ rfl
    · rw [he]
      rfl
    · have hun := URL.path_ofPath hu₀
      rw [unescape_append_plain (by decide)] at hun
      obtain ⟨t, -, ht⟩ := Option.map_eq_some_iff.mp hun
      rw [he]
      refine head_escape ?_
      rw [← ht]
      rfl
  obtain ⟨bound, hbound, -, hslash, -, hstore⟩
    | ⟨m, u₁, u₂, u', -, hpath₁, hescaped₁, hfound, hlocation, hnext⟩ :=
    clientDo_put rfl hroot h hstatus
  · -- answered at once: the key is what the cut key decodes to
    dsimp only [BodyReader.content] at hstore
    rw [List.append_nil] at hstore
    refine ⟨bound, hstore, unescape_cutKey ?_ hslash⟩
    have hun := URL.path_ofPath hu₀
    rw [← hpath, hbound, unescape_append_plain (by decide)] at hun
    obtain ⟨t, ht, heq⟩ := Option.map_eq_some_iff.mp hun
    rw [ht, List.append_cancel_left heq]
  cases redirects with
  | movedPermanently =>
      exact absurd hstatus (clientDo_get rfl hnext)
  | temporaryRedirect =>
      have hred := (redirected_of_location (by decide) hfound hlocation).1
      obtain ⟨bound, hstore, hsegment, hbytes⟩ :=
        clientDo_redirected rfl hred hnext hstatus
      dsimp only [redirected, BodyReader.content] at hstore
      rw [List.append_nil] at hstore
      refine ⟨bound, hstore, ?_, ?_⟩
      · rintro rfl
        -- such a key is written as it is and needs no redirect
        have hcut : cutKey bound = bound := by
          refine cutKey_of_plain fun b hb => ⟨?_, ?_⟩
          · rintro rfl
            exact absurd (hbytes _ hb) (by decide)
          · rintro rfl
            exact absurd (hbytes _ hb) (by decide)
        rw [hcut] at hu₀
        have hvalid : validEncoded (kvPrefix ++ bound) = true := by
          refine List.all_eq_true.mpr fun b hb => ?_
          obtain hb | hb := List.mem_append.mp hb
          · exact List.all_eq_true.mp (by decide :
              kvPrefix.all encodedByte = true) b hb
          · exact hbytes b hb
        have hwritten := URL.escapedPath_ofPath hu₀ rfl hvalid
        rw [findHandler_key (by decide)
          ((hescaped₁.trans hescaped).trans hwritten) (Or.inr hsegment)]
          at hfound
        cases hfound
      · intro hplain
        rw [cutKey_of_plain fun b hb =>
          ⟨(hplain b hb).1, (hplain b hb).2.1⟩] at hu₀
        exact absurd hstatus (not_redirected_of_plain hu₀ hplain
          (hpath₁.trans hpath) (hescaped₁.trans hescaped) hfound hlocation
          (r := redirected .temporaryRedirect _ u') rfl rfl hnext)

/-- The pod of the examples. -/
def ordersPodAddress : PodAddress where
  host := ascii "orders-cache-0.orders-cache.default.svc.cluster.local"
  port := 8080
  isName := by decide

/-- `cache-cli put <key> v` at a pod with an empty store: the status, and
what the pod has under two keys then. -/
def putAtOrders (redirects : RedirectStatus) (key other : String) :
    Option (Nat × Option Bytes × Option Bytes) :=
  (cliPut redirects ordersPodAddress newServer (ascii key) (ascii "v")).map
    fun p => (p.1.status, p.2.store.get (ascii key),
      p.2.store.get (ascii other))

theorem put_binds_key_iff_orders :
    ∃ resp s' bound, cliPut .movedPermanently ordersPodAddress newServer
        (ascii "user-1234") (ascii "v") = some (resp, s')
      ∧ s'.store = newServer.store.put bound (ascii "v")
      ∧ (bound = ascii "user-1234" ↔ PlainKey (ascii "user-1234")) := by
  have hput : putAtOrders .movedPermanently "user-1234" ""
      = some (204, some (ascii "v"), none) := by
    decide +kernel
  obtain ⟨⟨resp, s'⟩, h, heq⟩ := Option.map_eq_some_iff.mp hput
  obtain ⟨bound, hbound⟩ := put_binds_key_iff h (Prod.mk.inj heq).1
  exact ⟨resp, s', bound, h, hbound⟩

/-- A number sign, a question mark or a percent sequence: the value is
stored under another key, under which other keys are stored too. -/
theorem pasted_key_is_cut :
    putAtOrders .movedPermanently "a#b" "a"
        = some (204, none, some (ascii "v"))
      ∧ putAtOrders .movedPermanently "a?c" "a"
        = some (204, none, some (ascii "v"))
      ∧ putAtOrders .movedPermanently "%61" "a"
        = some (204, none, some (ascii "v")) :=
  ⟨by decide +kernel, by decide +kernel, by decide +kernel⟩

end CacheOperator
