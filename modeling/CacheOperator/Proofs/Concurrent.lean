/-
Requests at one pod, side by side.

No handler makes more than one call to what the handlers share, so by
`linearizes_of_run` any number of requests at the same time, whatever
happens to the store and to the flag meanwhile, were served as if one
after the other, in an order that agrees with the clock. What holds of
requests one at a time holds of that order. The library is asked for
nothing but that a call to it is served at once.
-/
import CacheOperator.Proofs.Handlers

namespace CacheOperator

open Lib

-- ========================================================= one handler

namespace Handler

variable {L : Library} {r : HttpRequest} {key : Bytes}

/-- A handler cannot fail. -/
theorem run_alone (p : Handler) (s : TinyCache L) :
    p.run shared s = (.ok (p.alone s).1, (p.alone s).2) := by
  unfold alone
  split
  · next heq => rw [heq]
  · next e _ _ => cases e

theorem single_ite {c : Prop} [Decidable c] {p q : Handler}
    (hp : p.Single) (hq : q.Single) :
    (if c then p else q : Handler).Single := by
  by_cases hc : c
  · rw [if_pos hc]
    exact hp
  · rw [if_neg hc]
    exact hq

theorem handleGet_single : (handleGet key).Single := by
  intro value
  cases value with
  | none => exact ⟨_, rfl⟩
  | some value => exact ⟨_, rfl⟩

theorem handlePut_single : (handlePut r key).Single := by
  unfold handlePut
  split
  · trivial
  · exact single_ite trivial fun _ => ⟨_, rfl⟩

theorem handleDelete_single : (handleDelete key).Single := by
  intro existed
  cases existed with
  | false => exact ⟨_, rfl⟩
  | true => exact ⟨_, rfl⟩

theorem readyz_single : readyz.Single := by
  intro ready
  cases ready with
  | false => exact ⟨_, rfl⟩
  | true => exact ⟨_, rfl⟩

theorem kvHandler_single : (kvHandler r).Single :=
  single_ite trivial <| single_ite trivial <| single_ite handleGet_single <|
    single_ite handlePut_single <| single_ite handleDelete_single trivial

theorem serveHTTP_single (redirects : RedirectStatus) :
    (serveHTTP redirects r).Single := by
  unfold serveHTTP
  split
  · trivial
  · trivial
  · exact readyz_single
  · exact kvHandler_single
  · trivial

end Handler

-- ======================================================== the explanation

/-- The server with its requests on their way. -/
abbrev ServerThreads (L : Library) :=
  Threads SharedCalls (TinyCache L) HttpRequest Empty Response

namespace ServerThreads

variable {L : Library}

def start (s : TinyCache L) : ServerThreads L := ⟨s, fun _ => none, []⟩

def step (redirects : RedirectStatus) (w : ServerThreads L)
    (e : ThreadEvent HttpRequest (Upheaval L)) : ServerThreads L :=
  Threads.step shared (Handler.serveHTTP redirects) TinyCache.suffer w e

end ServerThreads

/-- Whatever requests a server handles at the same time, it has served
them one after the other: with the answers it gave, every request that
was answered once, and in the order of time where one had been answered
before the other came. -/
theorem tiny_cache_linearizable {L : Library} (redirects : RedirectStatus)
    (s : TinyCache L) {w : ServerThreads L}
    (hrun : Run (ServerThreads.step redirects) Threads.Possible
      (.start s) w) :
    ∃ acts, Linearizes (fun r s => s.serveHTTP redirects r)
      TinyCache.suffer s w.history w.state acts :=
  linearizes_of_run (fun r => ⟨Handler.serveHTTP_single redirects,
    Handler.run_alone (Handler.serveHTTP redirects r)⟩) hrun

/-- A GET overtakes a PUT of the same key that came before it; a GET that
comes when both have been answered finds the value; later it expires and
is swept. -/
def overtaking : List (ThreadEvent HttpRequest (Upheaval agingLibrary)) :=
  [.invoke 0 putK, .invoke 1 getK, .turn 1, .turn 0, .answer 0, .answer 1,
    .other .markNotReady, .invoke 2 getK, .turn 2, .answer 2,
    .other (.store (.expire (ascii "k"))),
    .other (.store (.sweep (ascii "k"))), .invoke 3 getK, .turn 3,
    .answer 3]

def overtaken : ServerThreads agingLibrary :=
  overtaking.foldl (ServerThreads.step .movedPermanently)
    (.start smallCache)

/-- The numbers and the statuses that were returned. -/
def statuses (w : ServerThreads agingLibrary) : List (Nat × Nat) :=
  w.history.filterMap fun
    | .invoked _ _ => none
    | .returned i resp => some (i, resp.status)

theorem tiny_cache_linearizable_overtaken :
    statuses overtaken = [(3, 404), (2, 200), (1, 404), (0, 204)]
      ∧ ∃ acts, Linearizes (fun r s => s.serveHTTP .movedPermanently r)
          TinyCache.suffer smallCache overtaken.history overtaken.state
          acts := by
  refine ⟨by decide +kernel, tiny_cache_linearizable _ _ ?_⟩
  exact Run.extend .nil (by decide +kernel)

end CacheOperator
