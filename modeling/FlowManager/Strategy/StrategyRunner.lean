import FlowManager.System.SimulatedRun

/-!
# The strategy runner

`strategy_runner.py` reads a log of events, starts the position manager on a simulated broker, and
replays the log on its main thread: it sets targets and waits. Then it sets the terminate flag.

* `EventData` are the fields that are read of an event. Nothing is timed, so a wait is a step like
  any other; `time.sleep` raises on a duration that is negative, not a number, or longer than 64 bits
  of nanoseconds.
* `log_current_summary` changes nothing.
* The main thread ends with an exception that it raises, and the others end with it.
-/

namespace FlowManager.Strategy

open FlowManager.Broker FlowManager.Position FlowManager.System

/-- Source: `strategy_runner.py`, `class Event`. -/
inductive Event where
  | Target
  | Wait
  | LogPosition

/-- `Event.value`. -/
def Event.value : Event → String
  | .Target => "Target"
  | .Wait => "Wait"
  | .LogPosition => "LogPosition"

/-- What is read of an event of the log; `none` is a field that is missing or `null`.
Source: `strategy_runner.py`, `Strategy.replay_events_log` -/
structure EventData where
  event : Option String
  seconds : PyFloat := .finite 0
  symbol : Option String := none
  target : Option ℤ := none

/-- What `time.sleep` raises, if it does. A duration is taken if it is not negative; before that, its
nanoseconds have to fit in 64 bits. -/
def sleep : PyFloat → Option PyError
  | .finite value =>
      if value.num * 10 ^ 9 < -2 ^ 63 * value.den ∨ 2 ^ 63 * value.den ≤ value.num * 10 ^ 9 then
        some .overflowError
      else if 0 ≤ value then none
      else some .valueError
  | .infinite _ => some .overflowError
  | .nan => some .valueError

/-- The body of the loop over the events.
Source: `strategy_runner.py`, `Strategy.replay_events_log`, lines 36-54 -/
def replayEvent (eventData : EventData) (pm : PositionManager) : Except PyError PositionManager :=
  if eventData.event = some Event.Wait.value then
    match sleep eventData.seconds with
    | none => .ok pm
    | some e => .error e
  else if eventData.event = some Event.Target.value then
    match eventData.symbol, eventData.target with
    | some symbol, some target => .ok (updateTargetPosition symbol target pm)
    | _, _ => .ok pm
  else .ok pm

/-- Where the main thread is. -/
inductive MainPlace where
  /-- At the head of the loop over the events, with those that are left. -/
  | replaying (events : List EventData)
  /-- At `pm_instance.terminate()`. -/
  | terminating
  /-- At `thread_position_manager.join`, or behind it. -/
  | joining
  | raised (e : PyError)

/-- The main thread, and the position manager on the broker. -/
structure Runner where
  main : MainPlace
  sim : SimConfig

/-- The program has started the thread of the position manager.
Source: `strategy_runner.py`, `__main__` -/
def Runner.init (log : List EventData) : Runner := ⟨.replaying log, .init⟩

/-- The next step of the main thread.
Source: `strategy_runner.py`, `Strategy.replay_events_log` and `__main__` -/
def Runner.mainStep (c : Runner) : Runner :=
  match c.main with
  | .replaying [] => { c with main := .terminating }
  | .replaying (eventData :: rest) =>
      if c.sim.terminateFlag then { c with main := .terminating }
      else match replayEvent eventData c.sim.pm with
        | .ok pm => ⟨.replaying rest, { c.sim with pm := pm }⟩
        | .error e => { c with main := .raised e }
  | .terminating => ⟨.joining, { c.sim with terminateFlag := true }⟩
  | .joining => c
  | .raised _ => c

/-! ## What a replay sends -/

/-- The update that an event sends. -/
def EventData.update? (eventData : EventData) : Option (String × ℤ) :=
  if eventData.event = some Event.Target.value then
    match eventData.symbol, eventData.target with
    | some symbol, some target => some (symbol, target)
    | _, _ => none
  else none

/-- What an event raises. -/
def EventData.error? (eventData : EventData) : Option PyError :=
  if eventData.event = some Event.Wait.value then sleep eventData.seconds else none

/-- An event raises, or sends its update. -/
theorem replayEvent_eq (eventData : EventData) (pm : PositionManager) :
    replayEvent eventData pm = eventData.error?.elim
      (.ok (eventData.update?.elim pm fun update => updateTargetPosition update.1 update.2 pm))
      .error := by
  unfold replayEvent EventData.error? EventData.update?
  split_ifs with hwait htarget htarget
  · rw [hwait] at htarget
    exact absurd htarget (by decide)
  · cases sleep eventData.seconds <;> rfl
  · rcases eventData.symbol with _ | symbol <;> rcases eventData.target with _ | target <;> rfl
  · rfl

/-- The updates that the replay of some events sends. -/
def updatesOf : List EventData → List (String × ℤ)
  | [] => []
  | eventData :: rest =>
      match eventData.error? with
      | some _ => []
      | none => eventData.update?.toList ++ updatesOf rest

/-- The updates that the main thread is still going to send. -/
def MainPlace.unsent : MainPlace → List (String × ℤ)
  | .replaying events => updatesOf events
  | .terminating | .joining | .raised _ => []

/-- A main thread that joins the position manager stays there. -/
theorem mainStep_of_joining {c : Runner} (h : c.main = .joining) : c.mainStep = c := by
  unfold Runner.mainStep
  rw [h]

/-- **What a step of the main thread does** while the flag is clear, or it waits for the thread of
the position manager: it moves on, sends its next update, or sets the flag. -/
theorem mainStep_cases {c : Runner} (hflag : c.sim.terminateFlag = true → c.main = .joining) :
    (c.mainStep.sim = c.sim ∧ c.mainStep.main.unsent = c.main.unsent) ∨
    (∃ symbol target, c.main.unsent = (symbol, target) :: c.mainStep.main.unsent ∧
      c.mainStep.sim = { c.sim with pm := updateTargetPosition symbol target c.sim.pm }) ∨
    (c.mainStep = ⟨.joining, { c.sim with terminateFlag := true }⟩ ∧ c.main.unsent = []) := by
  obtain ⟨main, phase, flag, pm, b⟩ := c
  cases main with
  | terminating => exact Or.inr (Or.inr ⟨rfl, rfl⟩)
  | joining | raised => exact Or.inl ⟨rfl, rfl⟩
  | replaying events =>
      obtain rfl : flag = false := by
        cases flag with
        | false => rfl
        | true => cases hflag rfl
      cases events with
      | nil => exact Or.inl ⟨rfl, rfl⟩
      | cons eventData rest =>
          have hreplay := replayEvent_eq eventData pm
          cases herror : eventData.error? with
          | some e =>
              rw [herror, Option.elim_some] at hreplay
              left
              simp [Runner.mainStep, hreplay, MainPlace.unsent, updatesOf, herror]
          | none =>
              rw [herror, Option.elim_none] at hreplay
              cases hupdate : eventData.update? with
              | none =>
                  rw [hupdate, Option.elim_none] at hreplay
                  left
                  simp [Runner.mainStep, hreplay, MainPlace.unsent, updatesOf, herror,
                    hupdate]
              | some update =>
                  rw [hupdate, Option.elim_some] at hreplay
                  right
                  left
                  refine ⟨update.1, update.2, ?_, ?_⟩ <;>
                    simp [Runner.mainStep, hreplay, MainPlace.unsent, updatesOf, herror,
                      hupdate]

end FlowManager.Strategy
