import Inferenced.Lib.KeyedMap
import Inferenced.Lib.Text

/-!
# Kernel device events (crates/inferenced-core/src/netlink.rs)

A message of `KOBJECT_UEVENT` is a header `action@devpath` and properties
`key=value`, each ended by a NUL.
-/

namespace Inferenced
open Lib

/-- `HashMap<String, String>`. -/
abbrev PropertyMap := KeyedMap String (String × String) Prod.fst

structure Uevent where
  action : String
  devpath : String
  subsystem : String
  devname : Option String
  properties : PropertyMap

namespace Uevent

/-- `properties.get(key)`. -/
def property? (u : Uevent) (key : String) : Option String := (u.properties.get? key).map Prod.snd

def nul : Char := Char.ofNat 0

/-- One turn of the loop over the properties (netlink.rs:27-36). -/
def addProperty (u : Uevent) (prop : List Char) : Uevent :=
  match Text.splitOnce prop '=' with
  | none => u
  | some (k, v) =>
    { u with
      subsystem := if k = "SUBSYSTEM".toList then String.ofList v else u.subsystem
      devname := if k = "DEVNAME".toList then some (String.ofList v) else u.devname
      properties := u.properties.insert (String.ofList k, String.ofList v) }

/-- `if subsystem.is_empty()` (netlink.rs:38-42). -/
def fillSubsystem (u : Uevent) : Uevent :=
  if u.subsystem = "" then { u with subsystem := (u.property? "SUBSYSTEM").getD u.subsystem } else u

/-- `text.split('\0').filter(|s| !s.is_empty())`. -/
def segments (text : List Char) : List (List Char) :=
  (text.splitOnP fun c => decide (c = nul)).filter fun s => !s.isEmpty

/-- `Uevent::parse` (netlink.rs:18-51). -/
def parse (buf : List UInt8) : Option Uevent :=
  (Text.fromUtf8 buf).bind fun text =>
    match segments text with
    | [] => none
    | header :: props =>
      (Text.splitOnce header '@').map fun (action, devpath) =>
        (props.foldl addProperty
          { action := String.ofList action
            devpath := String.ofList devpath
            subsystem := ""
            devname := none
            properties := .empty }).fillSubsystem

/-- `is_compute_device` (netlink.rs:55-60). -/
def isComputeDevice (u : Uevent) : Bool :=
  decide (u.subsystem = "drm") || decide (u.subsystem = "accel") ||
    (decide (u.subsystem = "misc") &&
      u.devname.elim false fun n => Text.contains n.toList "hailo".toList) ||
    decide (u.subsystem = "kfd")

/-- A message on which the daemon renews its topology (main.rs:161-176). -/
def refreshes (buf : List UInt8) : Bool := (parse buf).elim false isComputeDevice

end Uevent

end Inferenced
