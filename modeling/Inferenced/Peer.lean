import Inferenced.Lib.UnixPath

/-!
# Peers (crates/inferenced-core/src/peer.rs)

What the daemon knows of a connected client: the socket credentials and the
slice read off its cgroup path.
-/

namespace Inferenced
open Lib

structure PeerInfo where
  pid : UInt32
  uid : UInt32
  gid : UInt32
  cgroupPath : String
  slice : String
  isContainer : Bool
  isBatch : Bool
  deriving DecidableEq

def isSlice (seg : List Char) : Bool := decide (".slice".toList <:+ seg)

/-- `PeerInfo::parse_slice_and_flags` (peer.rs:70-90). -/
def parseSliceAndFlags (cgroupPath : String) : String × Bool × Bool :=
  let isContainer := Text.contains cgroupPath.toList "machine.slice".toList
  let isBatch := Text.contains cgroupPath.toList "ai-batch.slice".toList
  let slice := match (UnixPath.segments cgroupPath.toList).find? isSlice with
    | some seg => String.ofList seg
    | none =>
      if isContainer then "machine.slice"
      else if isBatch then "ai-batch.slice"
      else "system.slice"
  (slice, isContainer, isBatch)

/-- The peer of a process in `cgroupPath`, as `from_socket` puts it together
(peer.rs:37-47). -/
def PeerInfo.ofCgroup (pid uid gid : UInt32) (cgroupPath : String) : PeerInfo :=
  let (slice, isContainer, isBatch) := parseSliceAndFlags cgroupPath
  { pid, uid, gid, cgroupPath, slice, isContainer, isBatch }

def systemSlice : String := "/system.slice"

/-- `read_cgroup_path` (peer.rs:50-67) on the contents of `/proc/<pid>/cgroup`,
of which one read returns the first 512 bytes. -/
def readCgroupPath (content : List UInt8) : Option String :=
  (Text.fromUtf8 (content.take 512)).bind fun text =>
    (Text.lines '\n' '\r' text).findSome? fun line =>
      (Text.stripPrefix line "0::".toList).bind fun path =>
        let trimmed := Text.trim path
        if trimmed.isEmpty then none else some (String.ofList trimmed)

/-- `PeerInfo::from_socket` (peer.rs:20-48) for the credentials of the socket;
`cgroup` is `none` when the file cannot be opened or read. -/
def PeerInfo.fromSocket (pid uid gid : UInt32) (cgroup : Option (List UInt8)) : PeerInfo :=
  .ofCgroup pid uid gid
    (if 0 < pid then (cgroup.bind readCgroupPath).getD systemSlice else systemSlice)

/-- The kernel vouches for the peer: a process id, and slice and flags that
come from its cgroup path. -/
def PeerInfo.Verified (peer : PeerInfo) : Prop :=
  0 < peer.pid ∧ peer = PeerInfo.ofCgroup peer.pid peer.uid peer.gid peer.cgroupPath

theorem isName_of_slice {seg : List Char} (hslash : '/' ∉ seg) (h : ".slice".toList <:+ seg) :
    UnixPath.IsName seg := by
  refine ⟨hslash, ?_, ?_⟩
  · rintro rfl
    exact absurd h (by decide)
  · rintro rfl
    exact absurd h (by decide)

/-- The slice of a peer has no slash and ends in `.slice`, whatever its cgroup
path. -/
theorem parseSlice_slice (cgroupPath : String) :
    '/' ∉ (parseSliceAndFlags cgroupPath).1.toList ∧
      ".slice".toList <:+ (parseSliceAndFlags cgroupPath).1.toList := by
  simp only [parseSliceAndFlags]
  split
  · rename_i seg hfind
    have hslice : isSlice seg = true := List.find?_some hfind
    rw [String.toList_ofList]
    exact ⟨UnixPath.not_mem_of_mem_segments (List.mem_of_find?_eq_some hfind),
      of_decide_eq_true hslice⟩
  · split
    · decide
    · split
      · decide
      · decide

theorem isName_parseSlice (cgroupPath : String) :
    UnixPath.IsName (parseSliceAndFlags cgroupPath).1.toList :=
  isName_of_slice (parseSlice_slice cgroupPath).1 (parseSlice_slice cgroupPath).2

theorem PeerInfo.Verified.isName {peer : PeerInfo} (h : peer.Verified) :
    UnixPath.IsName peer.slice.toList := by
  rw [h.2]
  exact isName_parseSlice peer.cgroupPath

end Inferenced
