import GroundLink.Autopilot
import GroundLink.Message.Basic

/-! The link as an engine sees it: who is at its ends, what is known of the vehicle, and which of the
messages it is offered it takes. -/

namespace GroundLink

/-- How a link decides on the messages that it is offered one after the other. -/
inductive Acceptance
  /-- On each by what it is. -/
  | steady (takes : Message → Bool)
  /-- On so many in this way, and then in another. -/
  | spell (more : Nat) (takes : Message → Bool) (later : Acceptance)

namespace Acceptance

def always : Acceptance := steady fun _ => true

def never : Acceptance := steady fun _ => false

/-- So many more messages are taken, whatever they are, and none after them. -/
def only (more : Nat) : Acceptance := spell more (fun _ => true) never

instance : Inhabited Acceptance := ⟨always⟩

/-- Whether the next message is taken if it is the given one. -/
def takes : Acceptance → Message → Bool
  | steady takes, m => takes m
  | spell 0 _ later, m => later.takes m
  | spell (_ + 1) takes _, m => takes m

/-- How the link decides after one more message. -/
def next : Acceptance → Acceptance
  | steady takes => steady takes
  | spell 0 _ later => later.next
  | spell (more + 1) takes later => spell more takes later

end Acceptance

structure Link where
  own : Address
  targetSystem : UInt8
  autopilot : Autopilot
  connected : Bool
  acceptance : Acceptance
  deriving Inhabited

namespace Link

def accepts (l : Link) (m : Message) : Bool := l.acceptance.takes m

def offered (l : Link) : Link := { l with acceptance := l.acceptance.next }

end Link

end GroundLink
