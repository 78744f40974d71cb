import Inferenced.Client.Tables
import Inferenced.Session.Commands

/-!
# What the tables of inferenctl show (cmd/system.rs, cmd/models.rs)

A command asks the daemon for its planes, leases or models and prints a row for
each. Between its request and the reply other clients go on working; what it
prints is still the state of the arbiter at one moment, not a mixture of several.
-/

namespace Inferenced.Session
open Lib Lib.Runs Varlink Client Arbiter

inductive View where
  | planes
  | leases
  | models

def View.command : View → Command
  | .planes => .getTopology
  | .leases => .listLeases
  | .models => .listModels

/-- The rows that the command reads off the value are those of this state, one
for each plane, lease or model. -/
def View.Shows (a : ArbiterState) (val : Json) : View → Prop
  | .planes => planeRows val = some (a.topology.planes.map rowOfPlane)
  | .leases => ∃ rows, leaseRows val = some rows ∧ rows.Perm (a.leases.entries.map rowOfLease)
  | .models => ∃ rows, modelRows val = some rows ∧ rows.Perm (a.registry.models.entries.map rowOfModel)

/-! ### Replies as rows -/

theorem planeRow_planeJson (p : ComputePlane) : planeRow (planeJson p) = rowOfPlane p := rfl

theorem shows_getTopology (a : ArbiterState) :
    ∃ val, outcomeOf (handleGetTopology a) = .ok val ∧ View.Shows a val .planes := by
  refine ⟨_, rfl, ?_⟩
  show some ((a.topology.planes.map planeJson).map planeRow) = _
  rw [List.map_map]
  exact congrArg some (List.map_congr_left fun p _ => planeRow_planeJson p)

theorem shows_listLeases (a : ArbiterState) (order : IterOrder ComputeLease) :
    ∃ val, outcomeOf (handleListLeases a order) = .ok val ∧ View.Shows a val .leases := by
  refine ⟨_, rfl, (order.order a.leases.entries).map rowOfLease, ?_, (order.perm _).map _⟩
  show some (((order.order a.leases.entries).map _).map leaseRow) = _
  rw [List.map_map]
  refine congrArg some (List.map_congr_left fun l _ => ?_)
  -- a lease without a unit is shown with a dash
  obtain ⟨id, clientPid, clientUnit, planeId, bytes, priority, state⟩ := l
  cases clientUnit with
  | none => rfl
  | some unit => rfl

theorem shows_listModels (a : ArbiterState) (order : IterOrder ModelDescriptor) :
    ∃ val, outcomeOf (handleListModels a order) = .ok val ∧ View.Shows a val .models := by
  refine ⟨_, rfl, (order.order a.registry.models.entries).map rowOfModel, ?_, (order.perm _).map _⟩
  show some (((order.order a.registry.models.entries).map _).map modelRow) = _
  rw [List.map_map]
  rfl

theorem shows_reply (view : View) (parseUuid : String → Option LeaseId) (a : ArbiterState)
    (activeLeases : List LeaseId) (peer : Option PeerInfo) (env : HandlerEnv) {r : VarlinkReply}
    (hr : (view.command.direct parseUuid a activeLeases peer env).reply = some r) :
    ∃ val, outcomeOf r = .ok val ∧ view.Shows a val := by
  cases view with
  | planes =>
    cases hr
    exact shows_getTopology a
  | leases =>
    cases hr
    exact shows_listLeases a env.order
  | models =>
    cases hr
    exact shows_listModels a env.modelOrder

/-- A table shows one moment: in every interleaving of any number of clients and
other users of the arbiter, if every message has no NUL, is below its limit of
1 MiB and is read back as it was written, and no client asks for more behind a
`call` of the stream, then whenever a client has the answer to its question for
planes, leases or models, the answer is no error, and the rows that inferenctl
prints of it are those of the arbiter in one state of the run between question
and answer, one row for each. -/
theorem tables_show_one_moment (toVec : Json → List UInt8) (fromSlice : List UInt8 → Option Json)
    (requestFromSlice : List UInt8 → Option VarlinkRequest) (replyToVec : VarlinkReply → List UInt8)
    (parseUuid : String → Option LeaseId) (T : HardwareTopology) (ops : List Op)
    (hcarried : Along (step toVec fromSlice requestFromSlice replyToVec parseUuid)
      (Carried toVec fromSlice requestFromSlice replyToVec parseUuid) (start T) ops)
    (i : ℕ) (l : Link)
    (hl : (exec (step toVec fromSlice requestFromSlice replyToVec parseUuid) (start T) ops).links[i]? =
      some l) (j : ℕ) (view : View) (hasked : l.asked[j]? = some view.command.asked) (answer : Answer)
    (hanswer : l.answers[j]? = some answer) :
    ∃ before l₀ val, before <+: ops ∧
      (exec (step toVec fromSlice requestFromSlice replyToVec parseUuid) (start T) before).links[i]? =
        some l₀ ∧
      j < l₀.asked.length ∧ l₀.answers.length ≤ j ∧ answer = .call (.ok val) ∧
      view.Shows (exec (step toVec fromSlice requestFromSlice replyToVec parseUuid) (start T)
        before).daemon.arbiter val := by
  obtain ⟨pre, env, written, rest, s, l₀, c, q, hops, rfl, hl₀, hc, hq, hbefore, hlate, -, hans⟩ :=
    answered_at hcarried hl hanswer
  obtain rfl : view.command.asked = q := Option.some.inj (hasked.symm.trans hq)
  obtain ⟨r, hr, hframes⟩ := framesFor_command parseUuid view.command _ c env
  obtain ⟨val, hval, hshows⟩ := shows_reply view parseUuid _ c.activeLeases c.peer env hr
  have hkind : view.command.asked.kind = .call := by cases view <;> rfl
  rw [hframes, hkind] at hans
  refine ⟨pre, l₀, val, hops ▸ List.prefix_append _ _, hl₀, hbefore, hlate, ?_, hshows⟩
  rw [← hval]
  exact (Option.some.inj hans).symm

/-! ### A client that asks for the leases -/

def listText : List UInt8 :=
  Utf8.ascii ("\x7b\"method\":\"io.systemd.inferenced1.ListLeases\",\"parameters\":\x7b\x7d\x7d").toList

def emptyText : List UInt8 := Utf8.ascii "\x7b\"parameters\":\x7b\"leases\":[]\x7d\x7d".toList

def listFromSlice (bytes : List UInt8) : Option VarlinkRequest :=
  if bytes = listText then some Command.listLeases.asked.request else none

def emptyReply : VarlinkReply := .ok (.object [("leases", .array [])])

def emptyFromSlice (bytes : List UInt8) : Option Json :=
  if bytes = emptyText then some (replyJson emptyReply) else none

def listRun : List Op :=
  [.connect none, .ask 0 Command.listLeases.asked, .deliverRequest 0 100, .serve 0 sampleHandlerEnv true,
   .deliverReply 0 100, .read 0]

theorem carried_listRun :
    Along (step (fun _ => listText) emptyFromSlice listFromSlice (fun _ => emptyText) fun _ => none)
      (Carried (fun _ => listText) emptyFromSlice listFromSlice (fun _ => emptyText) fun _ => none)
      (start gpuTopology) listRun := by
  refine ⟨trivial, ⟨⟨by decide, by decide, rfl⟩, ?_⟩, trivial, ?_, trivial, trivial, trivial⟩
  · intro l hl b hb
    cases hl
    cases hb
  · intro l c a hl hc ha r hr
    cases hl
    cases hc
    cases ha
    have hframes : r ∈ [emptyReply] := hr
    rw [List.mem_singleton.mp hframes]
    exact ⟨by decide, by decide, rfl⟩

theorem tables_show_one_moment_listRun :
    ∃ before val, before <+: listRun ∧ val = Json.object [("leases", .array [])] ∧
      View.leases.Shows (exec (step (fun _ => listText) emptyFromSlice listFromSlice (fun _ => emptyText)
        fun _ => none) (start gpuTopology) before).daemon.arbiter val := by
  obtain ⟨before, -, val, hprefix, -, -, -, hval, hshows⟩ :=
    tables_show_one_moment (fun _ => listText) emptyFromSlice listFromSlice (fun _ => emptyText)
      (fun _ => none) gpuTopology listRun carried_listRun 0 _ rfl 0 .leases rfl
      (.call (.ok (.object [("leases", .array [])]))) rfl
  cases hval
  exact ⟨before, _, hprefix, rfl, hshows⟩

end Inferenced.Session
