import GroundLink.Time.Timers

/-! Scripts for a table of timers. Timers go by names, and a timer that fires goes on
with a script of its own. -/

namespace GroundLink.Script

inductive TimerStep
  /-- Arms a timer. A keyed one is told its own cookie when it fires. -/
  | add (name : String) (keyed : Bool) (span : Span) (reaction : List TimerStep)
  | refresh (name : String)
  | remove (name : String)
  | contains (name : String)
  /-- Whether one timer's cookie was handed out before another's. -/
  | before (name other : String)
  | advance (us : UInt64)
  | set (now : Instant)
  | pass

structure TimerTag where
  name : String
  keyed : Bool
  reaction : List TimerStep

inductive TimerAnswer
  | nothing
  | bool (b : Bool)
  | unknownName

/-- What can be seen of a pass: a timer fires, with whether its cookie is the one last stored under its
name if it was told it, or a step of a reaction has been made. -/
inductive TimerEvent
  | fired (name : String) (own : Option Bool)
  | acted (answer : TimerAnswer)

structure TimerWorld where
  clock : Instant
  /-- The cookie last stored under each name. -/
  names : List (String × Cookie)
  seen : List TimerEvent

/-- A table of timers and all that surrounds it. -/
abbrev TimerState := Timers TimerTag × TimerWorld

namespace TimerState

def see (s : TimerState) (e : TimerEvent) : TimerState := (s.1, { s.2 with seen := s.2.seen ++ [e] })

def withCookie (s : TimerState) (name : String) (f : Cookie → TimerAnswer × TimerState) :
    TimerAnswer × TimerState :=
  match s.2.names.lookup name with
  | none => (.unknownName, s)
  | some cookie => f cookie

/-- One step. Passes within reactions may be nested as deep as the fuel says. -/
def step : Nat → TimerStep → TimerState → TimerAnswer × TimerState
  | _, .add name keyed span reaction, (t, w) =>
    (.nothing, (t.add w.clock span ⟨name, keyed, reaction⟩, { w with names := (name, t.fresh) :: w.names }))
  | _, .refresh name, s => s.withCookie name fun c => (.nothing, (s.1.refresh s.2.clock c, s.2))
  | _, .remove name, s => s.withCookie name fun c => (.nothing, (s.1.remove c, s.2))
  | _, .contains name, s => s.withCookie name fun c => (.bool (s.1.contains c), s)
  | _, .before name other, s => s.withCookie name fun c => s.withCookie other fun d => (.bool (c < d), s)
  | _, .advance us, (t, w) => (.nothing, (t, { w with clock := w.clock.advance us }))
  | _, .set now, (t, w) => (.nothing, (t, { w with clock := now }))
  | 0, .pass, s => (.nothing, s)
  | fuel + 1, .pass, s =>
    let act (s : TimerState) (reaction : TimerStep) : TimerState :=
      let (answer, s) := step fuel reaction s
      s.see (.acted answer)
    let fire (x : Timer TimerTag) (s : TimerState) : TimerState :=
      let own := s.2.names.lookup x.tag.name = some x.cookie
      x.tag.reaction.foldl act (s.see (.fired x.tag.name (if x.tag.keyed then some own else none)))
    (.nothing, Timers.pass s.2.clock fire s)

end TimerState

/-- The number of steps of a script, those of reactions included. -/
def timerSteps : List TimerStep → Nat
  | [] => 0
  | .add _ _ _ reaction :: rest => 1 + timerSteps reaction + timerSteps rest
  | .refresh _ :: rest | .remove _ :: rest | .contains _ :: rest | .before _ _ :: rest | .advance _ :: rest
  | .set _ :: rest | .pass :: rest => 1 + timerSteps rest

/-- What a step comes to, what was seen of it, and the state after it. -/
structure TimerEntry where
  answer : TimerAnswer
  seen : List TimerEvent
  size : Nat
  now : Instant

def runTimersFrom (fuel : Nat) : TimerState → List TimerStep → List TimerEntry
  | _, [] => []
  | s, step :: rest =>
    let (answer, (t, w)) := s.step fuel step
    ⟨answer, w.seen, t.size, w.clock⟩ :: runTimersFrom fuel (t, { w with seen := [] }) rest

def runTimers (steps : List TimerStep) : List TimerEntry :=
  runTimersFrom (timerSteps steps) (.empty, ⟨0, [], []⟩) steps

end GroundLink.Script
