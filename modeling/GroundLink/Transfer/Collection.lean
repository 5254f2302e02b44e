import GroundLink.Job.Move

/-! Fetching a list from a peer. Items are asked for one at a time, and only the one asked for is
taken; the last is answered with an acknowledgement. The count of items either has to be asked for
first or is known because the peer announced it. -/

namespace GroundLink

/-- What has come of a list so far, and how often the item that comes next was asked for. -/
structure Collection where
  expected : Nat
  items : List MissionItem
  retries : Nat
  deriving DecidableEq, Inhabited

namespace Collection

def request (l : ListRef) (c : Collection) : Message :=
  .missionRequestInt ⟨UInt16.ofNat (min c.items.length maxItems), l.peer, l.missionType⟩

/-- Acknowledges a whole list and hands it over. -/
def accept {σ : Type} (l : ListRef) (items : List MissionItem) : Move σ :=
  .finish (some (l.ack .accepted)) (some .one) (.success (.items items))

def opening (expected : Nat) : Collection := ⟨expected, [], 1⟩

def onItem (l : ListRef) (c : Collection) (m : MissionItemInt) : Move Collection :=
  if m.seq.toNat ≠ c.items.length then .proceed .extend none none c
  else
    let next : Collection := { c with items := c.items ++ [MissionItem.decode m], retries := 1 }
    if next.items.length = c.expected then accept l next.items
    else .proceed .extend (some ⟨next.items.length, c.expected⟩) (some (next.request l)) next

def onTimeout (p : Policy) (l : ListRef) (c : Collection) : Move Collection :=
  if p.retries ≤ c.retries then .stop (.failed .timeout)
  else .proceed (.restart p.timeout) none (some (c.request l)) { c with retries := c.retries + 1 }

end Collection

structure Download where
  list : ListRef
  wantsProgress : Bool
  deriving DecidableEq, Inhabited

namespace Download

/-- How often the list was asked for, or else what has come of it. -/
inductive State
  | listing (retries : Nat)
  | collecting (collection : Collection)
  deriving DecidableEq, Inhabited

def kinds : List Kind := [.missionCount, .missionItemInt]

def request (d : Download) : Message := .missionRequestList ⟨d.list.peer, d.list.missionType⟩

def start (p : Policy) (d : Download) : Move State :=
  .proceed (.restart p.timeout) (some .zero) (some d.request) (.listing 1)

def onTimeout (p : Policy) (d : Download) : State → Move State
  | .listing retries =>
    if p.retries ≤ retries then .stop (.failed .timeout)
    else .proceed (.restart p.timeout) none (some d.request) (.listing (retries + 1))
  | .collecting c => (c.onTimeout p d.list).map .collecting

/-- The first count opens the collection; an empty list is complete at once. -/
def onCount (d : Download) (count : Nat) : State → Move State
  | .listing _ =>
    if count = 0 then Collection.accept d.list []
    else
      let c := Collection.opening count
      .proceed .extend none (some (c.request d.list)) (.collecting c)
  | .collecting _ => .ignore

def onItem (d : Download) (m : MissionItemInt) : State → Move State
  | .listing _ => .ignore
  | .collecting c => (c.onItem d.list m).map .collecting

def onMessage (d : Download) (s : State) : Message → Move State
  | .missionCount m => d.onCount m.count.toNat s
  | .missionItemInt m => d.onItem m s
  | _ => .ignore

end Download

structure Receive where
  list : ListRef
  count : Nat
  deriving DecidableEq, Inhabited

namespace Receive

def kinds : List Kind := [.missionItemInt]

def start (p : Policy) (r : Receive) : Move Collection :=
  if maxItems < r.count then .stop (.failed .tooManyMissionItems)
  else if r.count = 0 then Collection.accept r.list []
  else
    let c := Collection.opening r.count
    .proceed (.restart p.timeout) none (some (c.request r.list)) c

def onMessage (r : Receive) (c : Collection) : Message → Move Collection
  | .missionItemInt m => c.onItem r.list m
  | _ => .ignore

end Receive

end GroundLink
