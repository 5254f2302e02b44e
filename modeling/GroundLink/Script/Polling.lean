import GroundLink.Engine.Order
import GroundLink.Engine.Polling

/-! Scripts for an engine that is looked after by its own task. -/

namespace GroundLink.Script

inductive PollStep
  | sleep (ms : Nat)
  | connected (up : Bool)
  | advance (us : UInt64)
  | place (order : Order)
  | receive (header : Header) (message : Message)
  | tell (stop : Bool)
  | abandon

structure PollEntry where
  polls : Nat
  sent : List Message
  client : Nat
  finished : Bool

def pollStep (p : Polling) : PollStep → Polling
  | .sleep ms => p.sleep ms
  | .connected up => p.follow (p.engine.step (.connected up))
  | .advance us => p.follow (p.engine.step (.advance us))
  | .place order => p.follow (p.engine.place order .queue)
  | .receive header m => p.follow (p.engine.step (.receive header m))
  | .tell stop => p.tell stop
  | .abandon => p.abandon

def sentMessage? : Effect → Option Message
  | .sent _ m => some m
  | _ => none

def runPolling : Polling → List PollStep → List PollEntry
  | _, [] => []
  | p, s :: rest =>
    let p := pollStep p s
    ⟨p.polls, p.effects.filterMap sentMessage?, p.engine.client.pending, p.isFinished⟩ ::
      runPolling { p with effects := [] } rest

end GroundLink.Script
