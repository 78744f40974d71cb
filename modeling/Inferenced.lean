import Inferenced.Topology.Discover
import Inferenced.Topology.Enclave
import Inferenced.Topology.Inventory
import Inferenced.Topology.Preconditions
import Inferenced.Topology.Crashes
import Inferenced.Arbiter.Conservation
import Inferenced.Arbiter.SharedMemory
import Inferenced.Arbiter.Overdraft
import Inferenced.Arbiter.Refusal
import Inferenced.Arbiter.LifeCycle
import Inferenced.Arbiter.Capacity
import Inferenced.Arbiter.HotPlug
import Inferenced.Arbiter.Refresh
import Inferenced.Arbiter.Recount
import Inferenced.Arbiter.Triage
import Inferenced.Arbiter.Quota
import Inferenced.Arbiter.Overflow
import Inferenced.Arbiter.Quarantine
import Inferenced.Arbiter.Admission
import Inferenced.Arbiter.Placement
import Inferenced.Arbiter.Victims
import Inferenced.Arbiter.Thaw
import Inferenced.Arbiter.ReleaseOrder
import Inferenced.Model.Pinned
import Inferenced.Varlink.Reclaim
import Inferenced.Varlink.FrozenUnits
import Inferenced.Varlink.FreezeTarget
import Inferenced.Varlink.Identity
import Inferenced.Varlink.Demotion
import Inferenced.Varlink.Framing
import Inferenced.Varlink.Parameters
import Inferenced.Gateway.LeaseLeak
import Inferenced.Preempt.Race
import Inferenced.Preempt.Thaw
import Inferenced.System.Answers
import Inferenced.System.CgroupRoot
import Inferenced.Client.Replies
import Inferenced.Client.Exec
import Inferenced.FdServer.Accounting
import Inferenced.FdServer.Framing
import Inferenced.FdServer.Progress
import Inferenced.FdServer.Answers
import Inferenced.Sentry.Payload
import Inferenced.Uevent.Parsing
import Inferenced.Activation.Slots
import Inferenced.Peer.Segments
import Inferenced.Inhibit.LeaseCount
import Inferenced.Gateway.Token
import Inferenced.FdLease.Sealed
import Inferenced.Preempt.Records
import Inferenced.Session.Progress
import Inferenced.Session.Commands
import Inferenced.Session.Exec
import Inferenced.System.Custody
import Inferenced.System.Registry
import Inferenced.Gateway.Stream
import Inferenced.Gateway.Answers
import Inferenced.System.Watch
import Inferenced.Client.Tables
import Inferenced.Client.Sizes
import Inferenced.Session.Views
import Inferenced.Psi
import Inferenced.Notify
import Inferenced.Inhibit.Turns
import Inferenced.System.Supervision
