/-! How commands and transfers fail, with the texts that are shown for it. -/

namespace GroundLink

/-- Why a command failed. -/
inductive CommandError
  | connectionError
  | denied
  | unsupported
  | timeout
  | wouldDeadlock
  deriving DecidableEq, Inhabited

namespace CommandError

def name : CommandError → String
  | connectionError => "ConnectionError"
  | denied => "Denied"
  | unsupported => "Unsupported"
  | timeout => "Timeout"
  | wouldDeadlock => "WouldDeadlock"

def text : CommandError → String
  | connectionError => "connection error"
  | denied => "command denied"
  | unsupported => "command unsupported"
  | timeout => "command timed out"
  | wouldDeadlock => "blocking call from the callback thread would deadlock"

end CommandError

inductive TransferError
  | connectionError
  | denied
  | tooManyMissionItems
  | timeout
  | unsupported
  | unsupportedFrame
  | noMissionAvailable
  | cancelled
  | missionTypeNotConsistent
  | invalidSequence
  | currentInvalid
  | protocolError
  | invalidParam
  | busy
  deriving DecidableEq, Inhabited

namespace TransferError

def name : TransferError → String
  | connectionError => "ConnectionError"
  | denied => "Denied"
  | tooManyMissionItems => "TooManyMissionItems"
  | timeout => "Timeout"
  | unsupported => "Unsupported"
  | unsupportedFrame => "UnsupportedFrame"
  | noMissionAvailable => "NoMissionAvailable"
  | cancelled => "Cancelled"
  | missionTypeNotConsistent => "MissionTypeNotConsistent"
  | invalidSequence => "InvalidSequence"
  | currentInvalid => "CurrentInvalid"
  | protocolError => "ProtocolError"
  | invalidParam => "InvalidParam"
  | busy => "Busy"

def text : TransferError → String
  | connectionError => "connection error"
  | denied => "denied"
  | tooManyMissionItems => "too many mission items"
  | timeout => "timeout"
  | unsupported => "unsupported"
  | unsupportedFrame => "unsupported frame"
  | noMissionAvailable => "no mission available"
  | cancelled => "cancelled"
  | missionTypeNotConsistent => "mission type not consistent"
  | invalidSequence => "invalid sequence"
  | currentInvalid => "current item invalid"
  | protocolError => "protocol error"
  | invalidParam => "invalid param"
  | busy => "busy"

end TransferError

inductive Failure
  | command (error : CommandError)
  | transfer (error : TransferError)
  deriving DecidableEq, Inhabited

namespace Failure

def name : Failure → String
  | command e => e.name
  | transfer e => e.name

def text : Failure → String
  | command e => e.text
  | transfer e => e.text

end Failure

end GroundLink
