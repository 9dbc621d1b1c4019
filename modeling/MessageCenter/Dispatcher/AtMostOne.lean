import MessageCenter.Dispatcher.Fast
import MessageCenter.Dispatcher.Center

/-!
# At most one dispatcher

Both centers keep to one dispatch thread as long as their calls keep apart, and neither
does otherwise: two calls of `start` that both find the center stopped create two
threads, and the pointer to the first is lost.
-/

namespace MessageCenter.Dispatcher

open Concurrency

/-- In every run whose calls keep apart, at every point of it: at most one dispatch thread
executes, no thread object is joined or deleted twice or lost before it was joined, and
none executes after a `stop` that no `start` overlapped or followed. -/
theorem at_most_one_dispatcher {Tid : Type} [DecidableEq Tid] {s : Fast.State Tid}
    {c : Center.State Tid} (hs : (Fast.machine Tid).ReachableUnder Fast.Apart s)
    (hc : (Center.machine Tid).ReachableUnder Center.Apart c) :
    AtMostOne s.threads s.Executing s.calls ∧ AtMostOne c.threads c.Executing c.calls :=
  ⟨Fast.atMostOne_of_apart hs, Center.atMostOne_of_apart hc⟩

/-! ### Two callers -/

instance (s : Fast.State Bool) : (action : Fast.Action Bool) → Decidable (Fast.Apart s action)
  | .call t => inferInstanceAs (Decidable
      ((s.pc t = .startTest → s.m_running = false → ∀ u, u ≠ t → ¬ (s.pc u).Engaged) ∧
        (s.pc t = .stopTestPointer → ∀ u, u ≠ t → ¬ (s.pc u).Handling)))
  | .start _ | .stop _ | .thread _ => isTrue trivial

instance (c : Center.State Bool) :
    (action : Center.Action Bool) → Decidable (Center.Apart c action)
  | .call t => inferInstanceAs (Decidable
      (c.pc t = .startTest → c.m_started = false → ∀ u, u ≠ t → ¬ (c.pc u).Claiming))
  | .start _ | .stop _ | .thread _ => isTrue trivial

/-- A start, and two overlapping calls of `stop` of which one joins the thread. -/
def fastStops : List (Fast.Action Bool) :=
  .start true :: List.replicate 5 (.call true) ++
    [.stop true, .stop false, .call true, .call false, .call false, .call true, .call true,
      .call true, .call true, .thread 0, .thread 0, .thread 0, .call true, .call true, .call true,
      .call false, .call true, .call false]

def centerStops : List (Center.Action Bool) :=
  .start true :: List.replicate 8 (.call true) ++
    [.stop true, .stop false, .call true, .call false, .call true, .call true, .call true,
      .call true, .call true, .thread 0, .thread 0, .thread 0, .call true, .call true, .call true,
      .call true, .call true, .call false, .call false, .call false, .call false, .call false]

theorem at_most_one_dispatcher_two_stops :
    (∃ s : Fast.State Bool, AtMostOne s.threads s.Executing s.calls ∧
      s.calls.Settled ∧ s.threads.joins = [0]) ∧
    ∃ c : Center.State Bool, AtMostOne c.threads c.Executing c.calls ∧
      c.calls.Settled ∧ c.threads.joins = [0] := by
  obtain ⟨s, hs, htest⟩ := (Fast.machine Bool).exists_reachableUnder_of_run
    (fun s action => decide (Fast.Apart s action)) (fun _ _ => of_decide_eq_true) fastStops
    (fun s => decide (s.calls.Settled ∧ s.threads.joins = [0])) (by decide +kernel)
  obtain ⟨c, hc, ctest⟩ := (Center.machine Bool).exists_reachableUnder_of_run
    (fun c action => decide (Center.Apart c action)) (fun _ _ => of_decide_eq_true) centerStops
    (fun c => decide (c.calls.Settled ∧ c.threads.joins = [0])) (by decide +kernel)
  obtain ⟨hfast, hcenter⟩ := at_most_one_dispatcher hs hc
  exact ⟨⟨s, hfast, of_decide_eq_true htest⟩, c, hcenter, of_decide_eq_true ctest⟩

/-- Both callers find the center stopped. -/
def fastStarts : List (Fast.Action Bool) :=
  [.start true, .start false, .call true, .call false] ++
    List.replicate 4 (.call true) ++ List.replicate 4 (.call false)

def centerStarts : List (Center.Action Bool) :=
  [.start true, .start false, .call true, .call false] ++
    List.replicate 7 (.call true) ++ List.replicate 7 (.call false)

/-- Two overlapping calls of `start` leave two dispatch threads and one pointer. -/
theorem two_dispatchers :
    (∃ s, (Fast.machine Bool).Reachable s ∧ ¬ AtMostOne s.threads s.Executing s.calls) ∧
    ∃ c, (Center.machine Bool).Reachable c ∧ ¬ AtMostOne c.threads c.Executing c.calls := by
  obtain ⟨s, hs, htest⟩ := (Fast.machine Bool).exists_reachable_of_run fastStarts
    (fun s => decide (s.threads.overwritten = [0])) (by decide +kernel)
  obtain ⟨c, hc, ctest⟩ := (Center.machine Bool).exists_reachable_of_run centerStarts
    (fun c => decide (c.threads.overwritten = [0])) (by decide +kernel)
  refine ⟨⟨s, hs, fun hlaw => ?_⟩, c, hc, fun hlaw => ?_⟩
  · have hlost := hlaw.keptUntilJoined
    simp [of_decide_eq_true htest] at hlost
  · have hlost := hlaw.keptUntilJoined
    simp [of_decide_eq_true ctest] at hlost

end MessageCenter.Dispatcher
