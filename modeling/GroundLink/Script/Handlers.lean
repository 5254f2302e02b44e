import GroundLink.Handlers
import GroundLink.Message.Basic

/-! Scripts for a table of message handlers. Owners and handlers go by names, and a handler that is
called goes on with a script of its own, as long as calls are not nested too deep. -/

namespace GroundLink.Script

inductive HandlerStep
  | owner (name : String)
  | register (name owner : String) (kind : Kind) (reaction : List HandlerStep)
  | unregister (owner : String) (kind : Kind)
  | unregisterAll (owner : String)
  | dispatch (header : Header) (message : Message)

structure HandlerAction where
  name : String
  reaction : List HandlerStep

inductive HandlerAnswer
  | nothing
  /-- An owner was named, and none had its number before. -/
  | allocated
  | called (count : Nat)
  | unknownOwner

/-- What can be seen of a dispatch: a handler is called, or a step of its script has been made. -/
inductive HandlerEvent
  | call (name : String) (header : Header) (message : Message)
  | acted (answer : HandlerAnswer)

/-- A table of handlers, the owners by name, and what was seen. -/
structure HandlerState where
  table : Handlers Kind HandlerAction
  names : List (String × Owner)
  seen : List HandlerEvent

namespace HandlerState

def see (s : HandlerState) (e : HandlerEvent) : HandlerState := { s with seen := s.seen ++ [e] }

/-- Changes the table on behalf of an owner. -/
def onBehalf (s : HandlerState) (owner : String)
    (f : Handlers Kind HandlerAction → Owner → Handlers Kind HandlerAction) :
    HandlerAnswer × HandlerState :=
  match s.names.lookup owner with
  | none => (.unknownOwner, s)
  | some o => (.nothing, { s with table := f s.table o })

/-- One step. The handlers called in it go on with their scripts if the depth left is not zero. -/
def step : Nat → HandlerStep → HandlerState → HandlerAnswer × HandlerState
  | _, .owner name, s =>
    (.allocated, { s with table := s.table.allocate, names := (name, s.table.freshOwner) :: s.names })
  | _, .register name owner kind reaction, s => s.onBehalf owner fun t o => t.register kind o ⟨name, reaction⟩
  | _, .unregister owner kind, s => s.onBehalf owner fun t o => t.unregister kind o
  | _, .unregisterAll owner, s => s.onBehalf owner fun t o => t.unregisterAll o
  | 0, .dispatch header m, s =>
    let called := s.table.matching m.kind
    (.called called.length, called.foldl (fun s h => s.see (.call h.name header m)) s)
  | depth + 1, .dispatch header m, s =>
    let called := s.table.matching m.kind
    let act (s : HandlerState) (reaction : HandlerStep) : HandlerState :=
      let (answer, s) := step depth reaction s
      s.see (.acted answer)
    let call (s : HandlerState) (h : HandlerAction) : HandlerState :=
      h.reaction.foldl act (s.see (.call h.name header m))
    (.called called.length, called.foldl call s)

end HandlerState

/-- Dispatches within dispatches in which handlers still go on with their scripts. -/
def handlerDepth : Nat := 2

/-- What a step comes to, what was seen of it, and how many handlers there are after it. -/
structure HandlerEntry where
  answer : HandlerAnswer
  seen : List HandlerEvent
  handlers : Nat

def runHandlersFrom : HandlerState → List HandlerStep → List HandlerEntry
  | _, [] => []
  | s, step :: rest =>
    let (answer, s) := s.step handlerDepth step
    ⟨answer, s.seen, s.table.count⟩ :: runHandlersFrom { s with seen := [] } rest

def runHandlers (steps : List HandlerStep) : List HandlerEntry := runHandlersFrom ⟨.empty, [], []⟩ steps

end GroundLink.Script
