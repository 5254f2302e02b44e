import GroundLink.Mission.Item
import GroundLink.Toml.Document
import GroundLink.Toml.Field

/-! Mission plans: files in which the waypoints of a mission are written down. -/

namespace GroundLink

/-- A place to fly to, in degrees and metres, and the seconds to hold there. -/
structure Waypoint where
  latitude : Double
  longitude : Double
  altitude : Single
  hold : Single
  deriving DecidableEq, Inhabited

structure Plan where
  waypoints : List Waypoint
  deriving DecidableEq, Inhabited

namespace Waypoint

open Toml.Field in
def ofValues (latitude longitude altitude : Toml.Node) (hold : Option Toml.Node) : Option Waypoint := do
  let latitude ← double latitude
  let longitude ← double longitude
  let altitude ← single altitude
  let hold ← hold.elim (some Single.zero) single
  return ⟨latitude, longitude, altitude, hold⟩

/-- A waypoint from a table, whose other keys do not matter, or from its values in a row. -/
def ofNode (n : Toml.Node) : Option Waypoint :=
  match n.entries?, n.elements? with
  | some es, _ => do
    ofValues (← es.get? "latitude_deg") (← es.get? "longitude_deg") (← es.get? "altitude_m")
      (es.get? "hold_s")
  | none, some (latitude :: longitude :: altitude :: rest) => ofValues latitude longitude altitude rest.head?
  | none, _ => none

def item (w : Waypoint) (seq : Nat) : MissionItem :=
  let i := MissionItem.waypoint (UInt16.ofNat seq) w.latitude w.longitude w.altitude
  { i with params := i.params.set 0 w.hold }

end Waypoint

namespace Plan

/-- The plan in a document; without waypoints it is empty. -/
def ofDocument? (es : Toml.Entries) : Option Plan :=
  match es.get? "waypoint" with
  | none => some ⟨[]⟩
  | some n => do
    let waypoints ← (← n.elements?).mapM Waypoint.ofNode
    return ⟨waypoints⟩

def ofText? (text : String) : Option Plan := Toml.parse? text >>= ofDocument?

/-- The items of a plan, numbered from zero; the first is current. -/
def items (p : Plan) : List MissionItem := p.waypoints.mapIdx fun seq w => w.item seq

end Plan

end GroundLink
