import GroundLink.Command.Attempt
import GroundLink.Transfer.Collection
import GroundLink.Transfer.Control
import GroundLink.Transfer.Upload

/-! The jobs an engine does. A task is what was asked for, an activity is a task under way; both
behave as the state machine of their kind does. -/

namespace GroundLink

inductive Transfer
  | upload (u : Upload)
  | download (d : Download)
  | receive (r : Receive)
  | clear (c : Clear)
  | setCurrent (c : SetCurrent)
  deriving DecidableEq, Inhabited

inductive Task
  | command (a : Attempt)
  | transfer (t : Transfer)
  deriving DecidableEq, Inhabited

inductive Activity
  | command (a : Attempt) (retries : Nat)
  | upload (u : Upload) (s : Upload.State)
  | download (d : Download) (s : Download.State)
  | receive (r : Receive) (c : Collection)
  | clear (c : Clear) (retries : Nat)
  | setCurrent (c : SetCurrent) (retries : Nat)
  deriving DecidableEq, Inhabited

/-- What a job may know of its engine. -/
structure Setting where
  policy : Policy
  own : Address
  autopilot : Autopilot
  deriving DecidableEq, Inhabited

namespace Transfer

/-- The kinds of message a transfer listens to. -/
def kinds : Transfer → List Kind
  | upload _ => Upload.kinds
  | download _ => Download.kinds
  | receive _ => Receive.kinds
  | clear _ => Clear.kinds
  | setCurrent _ => SetCurrent.kinds

def peer : Transfer → Address
  | upload u => u.list.peer
  | download d => d.list.peer
  | receive r => r.list.peer
  | clear c => c.list.peer
  | setCurrent c => c.peer

end Transfer

namespace Task

/-- The kinds of message a job listens to for itself. -/
def kinds : Task → List Kind
  | command _ => []
  | transfer t => t.kinds

def peer : Task → Address
  | command a => a.request.target
  | transfer t => t.peer

def wantsProgress : Task → Bool
  | command a => a.wantsProgress
  | transfer (.upload u) => u.wantsProgress
  | transfer (.download d) => d.wantsProgress
  | transfer _ => false

/-- How a job fails if the link refuses its message. -/
def refusal : Task → Failure
  | command _ => .command .connectionError
  | transfer _ => .transfer .connectionError

/-- How a job fails if its engine goes away. -/
def abandonment : Task → Failure
  | command _ => .command .connectionError
  | transfer _ => .transfer .cancelled

def initial (s : Setting) : Task → Activity
  | command a => .command a s.policy.retries
  | transfer (.upload u) => .upload u ⟨.counting, 0⟩
  | transfer (.download d) => .download d (.listing 0)
  | transfer (.receive r) => .receive r ⟨r.count, [], 0⟩
  | transfer (.clear c) => .clear c 0
  | transfer (.setCurrent c) => .setCurrent c 0

def start (s : Setting) : Task → Move Activity
  | command a => (a.start s.policy s.autopilot).map (.command a)
  | transfer (.upload u) => (u.start s.policy).map (.upload u)
  | transfer (.download d) => (d.start s.policy).map (.download d)
  | transfer (.receive r) => (r.start s.policy).map (.receive r)
  | transfer (.clear c) => (c.start s.policy).map (.clear c)
  | transfer (.setCurrent c) => (c.start s.policy).map (.setCurrent c)

end Task

namespace Activity

def task : Activity → Task
  | command a _ => .command a
  | upload u _ => .transfer (.upload u)
  | download d _ => .transfer (.download d)
  | receive r _ => .transfer (.receive r)
  | clear c _ => .transfer (.clear c)
  | setCurrent c _ => .transfer (.setCurrent c)

def onMessage (s : Setting) (sender : Address) (m : Message) : Activity → Move Activity
  | command a retries => (a.onMessage s.policy s.own retries m).map (.command a)
  | upload u state => (u.onMessage s.policy state sender m).map (.upload u)
  | download d state => (d.onMessage state m).map (.download d)
  | receive r c => (r.onMessage c m).map (.receive r)
  | clear c _ => (Clear.onMessage m).map (.clear c)
  | setCurrent c retries => (c.onMessage s.policy retries m).map (.setCurrent c)

def onTimeout (s : Setting) : Activity → Move Activity
  | command a retries => (a.onTimeout s.policy s.autopilot retries).map (.command a)
  | upload u state => (u.onTimeout s.policy state).map (.upload u)
  | download d state => (d.onTimeout s.policy state).map (.download d)
  | receive r c => (c.onTimeout s.policy r.list).map (.receive r)
  | clear c retries => (c.onTimeout s.policy retries).map (.clear c)
  | setCurrent c retries => (c.onTimeout s.policy retries).map (.setCurrent c)

/-- What a peer is told when a job is called off; only transfers of lists owe it a word. -/
def farewell? : Activity → Option Message
  | upload u _ => some (u.list.ack .operationCancelled)
  | download d _ => some (d.list.ack .operationCancelled)
  | receive r _ => some (r.list.ack .operationCancelled)
  | _ => none

end Activity

end GroundLink
