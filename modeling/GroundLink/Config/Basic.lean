import GroundLink.Message.Basic
import GroundLink.Number.Decimal
import GroundLink.Time.Span

/-! The configuration of a link: how long to wait, how often to ask again, how often
to look, and who we are. -/

namespace GroundLink

structure Config where
  /-- Time to wait for an answer, in seconds. -/
  timeout : Double
  commandRetries : UInt32
  missionRetries : UInt32
  /-- Milliseconds between two looks while the link is up. -/
  pollConnected : UInt64
  /-- Milliseconds between two looks while it is not. -/
  pollIdle : UInt64
  own : Address
  commandDebugging : Bool
  missionDebugging : Bool
  deriving DecidableEq

inductive ConfigError
  | timeoutNotPositive (timeout : Double)
  | pollIntervalZero
  deriving DecidableEq

def ConfigError.text : ConfigError → String
  | timeoutNotPositive x => "Invalid config: timeout_s must be a positive number, got " ++ Decimal.display x
  | pollIntervalZero => "Invalid config: poll intervals must be non-zero"

namespace Config

def default : Config where
  timeout := ⟨0x3fe0000000000000⟩
  commandRetries := 3
  missionRetries := 5
  pollConnected := 10
  pollIdle := 100
  own := ⟨245, 190⟩
  commandDebugging := false
  missionDebugging := false

def fault? (c : Config) : Option ConfigError :=
  if !(c.timeout.isFinite && c.timeout.isPositive) then some (.timeoutNotPositive c.timeout)
  else if c.pollConnected = 0 || c.pollIdle = 0 then some .pollIntervalZero
  else none

/-- The time to wait, or half a second if the configured one is no span. -/
def timeoutSpan (c : Config) : Span := (Span.ofSeconds? c.timeout).getD (.ofMillis 500)

def pollInterval (c : Config) (connected : Bool) : UInt64 := if connected then c.pollConnected else c.pollIdle

/-- Switches debugging on where an environment variable says `1`. -/
def withEnvironment (c : Config) (command mission : Option String) : Config :=
  { c with
    commandDebugging := c.commandDebugging || command = some "1"
    missionDebugging := c.missionDebugging || mission = some "1" }

end Config

end GroundLink
