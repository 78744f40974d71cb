import Inferenced.Session.Delivery

/-!
# The methods of the client (client.rs:90-146)

Each method of the client is a call with parameters of its own. Between the step
in which a client asks and the one in which it has its answer lies one step of
the daemon in which the arbiter does what the method says, on the arguments of
the method, and the answer is what it returned then: whatever the other clients
do, the calls behave as if each were made on the arbiter itself, at one moment.
-/

namespace Inferenced.Session
open Lib Lib.Runs Lib.Framing Varlink Client Arbiter

inductive Command where
  | getTopology
  | getPressure
  | listLeases
  | acquireLease (priority : String) (memoryBytes : UInt64) (plane : Option String)
  | releaseLease (leaseId : String)
  | freeze (leaseId : String)
  | thaw (leaseId : String)
  | listModels
  | registerModel (id format path : String) (bytes : UInt64)
  | evictModel (model : String)
  | pinModel (model plane : String)
  | getInfo
  | getInterfaceDescription (interface : String)

def leaseParameters (leaseId : String) : Option Json := some (.object [("lease_id", .string leaseId)])

/-- What each method passes to `call`. -/
def Command.asked : Command → Asked
  | .getTopology => ⟨.call, "io.systemd.inferenced1.GetTopology", none⟩
  | .getPressure => ⟨.call, "io.systemd.inferenced1.GetPressure", none⟩
  | .listLeases => ⟨.call, "io.systemd.inferenced1.ListLeases", none⟩
  | .acquireLease priority memoryBytes plane =>
    ⟨.call, "io.systemd.inferenced1.AcquireLease", some (.object
      [("priority", .string priority), ("memory_bytes", .posInt memoryBytes),
       ("plane", .ofOption .string plane)])⟩
  | .releaseLease leaseId => ⟨.call, "io.systemd.inferenced1.ReleaseLease", leaseParameters leaseId⟩
  | .freeze leaseId => ⟨.call, "io.systemd.inferenced1.Freeze", leaseParameters leaseId⟩
  | .thaw leaseId => ⟨.call, "io.systemd.inferenced1.Thaw", leaseParameters leaseId⟩
  | .listModels => ⟨.call, "io.systemd.inferenced1.ListModels", none⟩
  | .registerModel id format path bytes =>
    ⟨.call, "io.systemd.inferenced1.RegisterModel", some (.object
      [("id", .string id), ("format", .string format), ("path", .string path),
       ("estimated_bytes", .posInt bytes)])⟩
  | .evictModel model => ⟨.call, "io.systemd.inferenced1.EvictModel", some (.object [("model", .string model)])⟩
  | .pinModel model plane =>
    ⟨.call, "io.systemd.inferenced1.PinModel", some (.object
      [("model", .string model), ("plane", .string plane)])⟩
  | .getInfo => ⟨.call, "org.varlink.service.GetInfo", none⟩
  | .getInterfaceDescription interface =>
    ⟨.call, "org.varlink.service.GetInterfaceDescription", some (.object [("interface", .string interface)])⟩

/-! ### The same on the arbiter itself -/

/-- The lease that a client asks for: the unit and the process are those of the
peer, and a peer in a batch slice gets a batch lease. -/
def leaseRequestFor (priority : String) (memoryBytes : UInt64) (plane : Option String)
    (peer : Option PeerInfo) : LeaseRequest :=
  { priority := if peer.any (·.isBatch) then .batch else priorityOf priority
    requiredBytes := memoryBytes
    preferredPlane := plane
    clientUnit := peer.map (·.slice)
    clientPid := peer.bind fun p => if 0 < p.pid then some p.pid else none }

section
variable (parseUuid : String → Option LeaseId) (a : ArbiterState) (activeLeases : List LeaseId)

/-- A call of the arbiter on the lease with this id. -/
def onLease (call : ArbiterState → LeaseId → Outcome Unit) (errorName : String) (leaseId : String) : Handled :=
  match parseUuid leaseId with
  | none => { arbiter := a, activeLeases, reply := some (invalidParameter "lease_id") }
  | some id =>
    { arbiter := (call a id).state
      activeLeases
      reply := some (match (call a id).result with
        | .ok () => .ok (.object [])
        | .error e => .fail errorName (.object [("error", .string e.toString)]))
      effects := (call a id).effects }

/-- What the method does to the arbiter and the lease list of its connection,
with its reply. -/
def Command.direct (peer : Option PeerInfo) (env : HandlerEnv) : Command → Handled
  | .getTopology => { arbiter := a, activeLeases, reply := some (handleGetTopology a) }
  | .getPressure => { arbiter := a, activeLeases, reply := some (handleGetPressure env.psi) }
  | .listLeases => { arbiter := a, activeLeases, reply := some (handleListLeases a env.order) }
  | .acquireLease priority memoryBytes plane =>
    let out := Arbiter.acquireLease a env.toCallEnv (leaseRequestFor priority memoryBytes plane peer)
    match out.result with
    | .ok lease =>
      { arbiter := out.state
        activeLeases := activeLeases ++ [lease.id]
        reply := some (.ok (.object
          [("lease_id", .string lease.id.toString), ("plane_id", .string lease.planeId),
           ("allocated_memory", .posInt lease.allocatedMemoryBytes)]))
        effects := out.effects }
    | .error e =>
      { arbiter := out.state
        activeLeases
        reply := some (.fail "io.systemd.inferenced1.ResourceExhaustion"
          (.object [("error", .string e.toString)]))
        effects := out.effects }
  | .releaseLease leaseId =>
    match parseUuid leaseId with
    | none => { arbiter := a, activeLeases, reply := some (invalidParameter "lease_id") }
    | some id =>
      match (Arbiter.releaseLease a id).result with
      | .ok () =>
        { arbiter := (Arbiter.releaseLease a id).state
          activeLeases := activeLeases.filter fun j => decide (j ≠ id)
          reply := some (.ok (.object [])) }
      | .error e =>
        { arbiter := (Arbiter.releaseLease a id).state
          activeLeases
          reply := some (.fail "io.systemd.inferenced1.LeaseNotFound"
            (.object [("error", .string e.toString)])) }
  | .freeze leaseId =>
    onLease parseUuid a activeLeases freezeLease "io.systemd.inferenced1.LeaseNotFound" leaseId
  | .thaw leaseId =>
    onLease parseUuid a activeLeases thawLease "io.systemd.inferenced1.ResourceExhaustion" leaseId
  | .listModels => { arbiter := a, activeLeases, reply := some (handleListModels a env.modelOrder) }
  | .registerModel id format path bytes =>
    let model : ModelDescriptor :=
      { id, format, path, estimatedMemoryBytes := bytes, placement := .dormant, residentPlaneId := none
        lastAccessed := env.now, accessCount := 0, preferredPlane := none }
    { arbiter := { a with registry := a.registry.register env.modelOrder model }
      activeLeases
      reply := some (.ok (.object [])) }
  | .evictModel model =>
    if model = "" then { arbiter := a, activeLeases, reply := some (invalidParameter "model") }
    else
      { arbiter := { a with registry := (a.registry.remove model).2 }
        activeLeases
        reply := some (match (a.registry.remove model).1 with
          | some _ => .ok (.object [])
          | none => modelNotFound model) }
  | .pinModel model plane =>
    if model = "" then { arbiter := a, activeLeases, reply := some (invalidParameter "model") }
    else if plane = "" then { arbiter := a, activeLeases, reply := some (invalidParameter "plane") }
    else
      { arbiter := { a with registry := (a.registry.pinForTriage model plane).2 }
        activeLeases
        reply := some (if (a.registry.pinForTriage model plane).1 then .ok (.object [])
          else modelNotFound model) }
  | .getInfo => { arbiter := a, activeLeases, reply := some handleGetInfo }
  | .getInterfaceDescription interface =>
    { arbiter := a, activeLeases
      reply := some (handleGetInterfaceDescription (some (.object [("interface", .string interface)]))) }

end

variable {toVec : Json → List UInt8} {fromSlice : List UInt8 → Option Json}
  {requestFromSlice : List UInt8 → Option VarlinkRequest} {replyToVec : VarlinkReply → List UInt8}
  {parseUuid : String → Option LeaseId}

/-! ### One call -/

theorem acquireRequest_eq (priority : String) (memoryBytes : UInt64) (plane : Option String)
    (peer : Option PeerInfo) :
    acquireRequest (.object [("priority", .string priority), ("memory_bytes", .posInt memoryBytes),
      ("plane", .ofOption .string plane)]) peer = leaseRequestFor priority memoryBytes plane peer := by
  have hplane : (Json.ofOption Json.string plane).asStr = plane := by
    cases plane <;> rfl
  have hget : (Json.object [("priority", .string priority), ("memory_bytes", .posInt memoryBytes),
      ("plane", .ofOption .string plane)]).get "plane" = some (.ofOption .string plane) := rfl
  cases peer with
  | none =>
    simp only [acquireRequest, hget, Option.bind_some, hplane]
    rfl
  | some p =>
    simp only [acquireRequest, hget, Option.bind_some, hplane]
    rfl

theorem serve_of_methodOf {req : VarlinkRequest} {m : Method} (hm : methodOf req.method = some m)
    (a : ArbiterState) (activeLeases : List LeaseId) (peer : Option PeerInfo) (env : HandlerEnv) :
    serve parseUuid req a activeLeases peer env =
      runMethod parseUuid m req.parameters a activeLeases peer env := by
  have hservice : ∀ name, methodOf name = none → req.method ≠ name := by
    rintro name hname rfl
    rw [hm] at hname
    cases hname
  rw [serve, if_neg (hservice _ (by decide)), if_neg (hservice _ (by decide)), handleMethod, hm]

/-- The handler of a method; the two of the service interface have none. -/
def Command.method : Command → Option Method
  | .getTopology => some .getTopology
  | .getPressure => some .getPressure
  | .listLeases => some .listLeases
  | .acquireLease _ _ _ => some .acquireLease
  | .releaseLease _ => some .releaseLease
  | .freeze _ => some .freeze
  | .thaw _ => some .thaw
  | .listModels => some .listModels
  | .registerModel _ _ _ _ => some .registerModel
  | .evictModel _ => some .evictModel
  | .pinModel _ _ => some .pinModel
  | .getInfo | .getInterfaceDescription _ => none

theorem methodOf_asked (cmd : Command) : methodOf cmd.asked.request.method = cmd.method := by
  cases cmd with
  | getTopology => exact (by decide : methodOf "io.systemd.inferenced1.GetTopology" = some .getTopology)
  | getPressure => exact (by decide : methodOf "io.systemd.inferenced1.GetPressure" = some .getPressure)
  | listLeases => exact (by decide : methodOf "io.systemd.inferenced1.ListLeases" = some .listLeases)
  | acquireLease _ _ _ =>
    exact (by decide : methodOf "io.systemd.inferenced1.AcquireLease" = some .acquireLease)
  | releaseLease _ => exact (by decide : methodOf "io.systemd.inferenced1.ReleaseLease" = some .releaseLease)
  | freeze _ => exact (by decide : methodOf "io.systemd.inferenced1.Freeze" = some .freeze)
  | thaw _ => exact (by decide : methodOf "io.systemd.inferenced1.Thaw" = some .thaw)
  | listModels => exact (by decide : methodOf "io.systemd.inferenced1.ListModels" = some .listModels)
  | registerModel _ _ _ _ =>
    exact (by decide : methodOf "io.systemd.inferenced1.RegisterModel" = some .registerModel)
  | evictModel _ => exact (by decide : methodOf "io.systemd.inferenced1.EvictModel" = some .evictModel)
  | pinModel _ _ => exact (by decide : methodOf "io.systemd.inferenced1.PinModel" = some .pinModel)
  | getInfo => exact (by decide : methodOf "org.varlink.service.GetInfo" = none)
  | getInterfaceDescription _ =>
    exact (by decide : methodOf "org.varlink.service.GetInterfaceDescription" = none)

theorem runMethod_command {cmd : Command} {m : Method} (hm : cmd.method = some m) (a : ArbiterState)
    (activeLeases : List LeaseId) (peer : Option PeerInfo) (env : HandlerEnv) :
    runMethod parseUuid m cmd.asked.request.parameters a activeLeases peer env =
      cmd.direct parseUuid a activeLeases peer env := by
  cases cmd with
  | acquireLease priority memoryBytes plane =>
    cases hm
    cases hresult : (Arbiter.acquireLease a env.toCallEnv
      (leaseRequestFor priority memoryBytes plane peer)).result with
    | ok lease =>
      simp only [runMethod, Command.asked, Asked.request, Option.getD_some, handleAcquireLease,
        acquireRequest_eq, Command.direct, hresult]
    | error e =>
      simp only [runMethod, Command.asked, Asked.request, Option.getD_some, handleAcquireLease,
        acquireRequest_eq, Command.direct, hresult]
  | evictModel model =>
    cases hm
    have hmodel : stringParam (.object [("model", .string model)]) "model" "id" = model := rfl
    simp only [runMethod, Command.asked, Asked.request, Option.getD_some, handleEvictModel, hmodel,
      Command.direct]
    split <;> rfl
  | pinModel model plane =>
    cases hm
    have hmodel : stringParam (.object [("model", .string model), ("plane", .string plane)]) "model" "id" =
      model := rfl
    have hplane : stringParam (.object [("model", .string model), ("plane", .string plane)]) "plane"
      "plane_id" = plane := rfl
    simp only [runMethod, Command.asked, Asked.request, Option.getD_some, handlePinModel, hmodel, hplane,
      Command.direct]
    by_cases hempty : model = ""
    · rw [if_pos (Or.inl hempty), if_pos hempty, if_pos hempty]
    · by_cases hp : plane = ""
      · rw [if_pos (Or.inr hp), if_neg hempty, if_neg hempty, if_pos hp]
      · rw [if_neg (not_or.mpr ⟨hempty, hp⟩), if_neg hempty, if_neg hp]
  | getInfo => cases hm
  | getInterfaceDescription interface => cases hm
  | _ => cases hm; rfl

/-- The server does with the request of a method what the method does directly. -/
theorem serve_command (parseUuid : String → Option LeaseId) (cmd : Command) (a : ArbiterState)
    (activeLeases : List LeaseId) (peer : Option PeerInfo) (env : HandlerEnv) :
    serve parseUuid cmd.asked.request a activeLeases peer env =
      cmd.direct parseUuid a activeLeases peer env := by
  cases hm : cmd.method with
  | some m =>
    rw [serve_of_methodOf ((methodOf_asked cmd).trans hm)]
    exact runMethod_command hm a activeLeases peer env
  | none =>
    cases cmd with
    | getInfo => rfl
    | getInterfaceDescription interface => rfl
    | _ => cases hm

/-! ### Runs -/

variable {s : State} {i : ℕ} {l l' : Link}

/-- A step leaves the requests that link `i` has been served with, or serves the
next one of them. -/
theorem step_served (op : Op)
    (hl' : (step toVec fromSlice requestFromSlice replyToVec parseUuid s op).links[i]? = some l') :
    l'.served = [] ∨ (∃ l, s.links[i]? = some l ∧ l'.served = l.served) ∨
    ∃ l c env written, op = .serve i env written ∧ s.links[i]? = some l ∧
      s.daemon.conns[i]? = some c ∧ c.phase = .serving ∧ Ready maxFrame l.reader ∧
      step toVec fromSlice requestFromSlice replyToVec parseUuid s op =
        s.serve requestFromSlice parseUuid i l c env written := by
  -- a change of one link that is not made by its task
  have hmodify : ∀ {j : ℕ} {f : Link → Link}, (s.links.modify j f)[i]? = some l' →
      (∀ l, (f l).served = l.served) → ∃ l, s.links[i]? = some l ∧ l'.served = l.served := by
    intro j f h hf
    rw [List.getElem?_modify] at h
    obtain ⟨l, hl, rfl⟩ := Option.map_eq_some_iff.mp h
    refine ⟨l, hl, ?_⟩
    split
    · exact hf l
    · rfl
  cases op with
  | connect peer =>
    rcases getElem?_concat_cases hl' with hl | ⟨-, rfl⟩
    · exact Or.inr (Or.inl ⟨l', hl, rfl⟩)
    · exact Or.inl rfl
  | ask j a =>
    refine Or.inr (Or.inl (hmodify hl' fun l => ?_))
    unfold Link.ask
    split
    · split <;> rfl
    · rfl
  | deliverRequest j n => exact Or.inr (Or.inl (hmodify hl' fun l => rfl))
  | serve j env written =>
    simp only [step] at hl' ⊢
    split at hl'
    · rename_i l c hl hc
      split at hl'
      · rename_i hready
        rcases getElem?_set_cases hl' with ⟨rfl, -⟩ | hkept
        · exact Or.inr (Or.inr ⟨l, c, env, written, rfl, hl, hc, hready.1, hready.2, if_pos hready⟩)
        · exact Or.inr (Or.inl ⟨l', hkept, rfl⟩)
      · exact Or.inr (Or.inl ⟨l', hl', rfl⟩)
    · exact Or.inr (Or.inl ⟨l', hl', rfl⟩)
  | deliverReply j n =>
    simp only [step] at hl'
    split at hl'
    · exact Or.inr (Or.inl (hmodify hl' fun l => rfl))
    · exact Or.inr (Or.inl ⟨l', hl', rfl⟩)
  | read j =>
    refine Or.inr (Or.inl (hmodify hl' fun l => ?_))
    unfold Link.read
    split
    · split
      · rfl
      · split <;> rfl
      · split <;> rfl
    · rfl
  | close j => exact Or.inr (Or.inl (hmodify hl' fun l => rfl))
  | hangup j =>
    simp only [step] at hl'
    split at hl'
    · split at hl'
      · exact Or.inr (Or.inl ⟨l', hl', rfl⟩)
      · exact Or.inr (Or.inl ⟨l', hl', rfl⟩)
    · exact Or.inr (Or.inl ⟨l', hl', rfl⟩)
  | reclaim j => exact Or.inr (Or.inl ⟨l', hl', rfl⟩)
  | others arbiter => exact Or.inr (Or.inl ⟨l', hl', rfl⟩)

/-- The step of a run in which link `i` was served with request `j`: the client
had asked by then and had no answer yet. -/
theorem served_at {T : HardwareTopology} {ops : List Op}
    (hcarried : Along (step toVec fromSlice requestFromSlice replyToVec parseUuid)
      (Carried toVec fromSlice requestFromSlice replyToVec parseUuid) (start T) ops)
    (hl : (exec (step toVec fromSlice requestFromSlice replyToVec parseUuid) (start T) ops).links[i]? =
      some l) {j : ℕ} {p : VarlinkRequest × List VarlinkReply} (hp : l.served[j]? = some p) :
    ∃ pre env written rest s l₀ c q, ops = pre ++ .serve i env written :: rest ∧
      s = exec (step toVec fromSlice requestFromSlice replyToVec parseUuid) (start T) pre ∧
      s.links[i]? = some l₀ ∧ s.daemon.conns[i]? = some c ∧ l₀.asked[j]? = some q ∧
      l₀.answers.length ≤ j ∧ p = (q.request, framesFor parseUuid s.daemon c q.request env) ∧
      (step toVec fromSlice requestFromSlice replyToVec parseUuid s (.serve i env written)).daemon.arbiter =
        (serve parseUuid q.request s.daemon.arbiter c.activeLeases c.peer env).arbiter := by
  induction ops using List.reverseRecOn generalizing l with
  | nil => cases hl
  | append_singleton ops op ih =>
    obtain ⟨hbefore, -⟩ := (along_append ..).mp hcarried
    rw [exec_append] at hl
    rcases step_served op hl with hnil | ⟨l', hl', hsame⟩ | ⟨l', c, env, written, rfl, hl', hc, hphase, hready, hstep⟩
    · rw [hnil] at hp
      cases hp
    · obtain ⟨pre, env, written, rest, s, l₀, c, q, rfl, hrest⟩ := ih hbefore hl' (hsame ▸ hp)
      exact ⟨pre, env, written, rest ++ [op], s, l₀, c, q, List.append_assoc .., hrest⟩
    · have hok : Ok toVec fromSlice requestFromSlice replyToVec
          (exec (step toVec fromSlice requestFromSlice replyToVec parseUuid) (start T) ops) :=
        exec_inv_along _ (fun _ op hop h => h.step op hop) _ ops (ok_start T) hbefore
      have hlink := hok.links i l' c hl' hc
      obtain ⟨q, hq, hparse, -⟩ := hlink.next hready
      have hlast := (congrArg (fun s : State => s.links[i]?) hstep).symm.trans hl
      simp only [State.serve, hparse, Option.map_some, Option.toList_some,
        getElem?_set_of_getElem? hl' hl', if_true, Option.some.injEq] at hlast
      subst hlast
      rcases getElem?_concat_cases hp with hold | ⟨rfl, rfl⟩
      · obtain ⟨pre, env', written', rest, s, l₀, c', q', rfl, hrest⟩ := ih hbefore hl' hold
        exact ⟨pre, env', written', rest ++ [.serve i env written], s, l₀, c', q', List.append_assoc ..,
          hrest⟩
      · refine ⟨ops, env, written, [], _, l', c, q, rfl, rfl, hl', hc, hq, ?_, rfl, ?_⟩
        · -- an answer is to a request that has been served
          by_contra hlt
          obtain ⟨_, _, -, hserved, -⟩ := hlink.answers _ _ (List.getElem?_eq_getElem (Nat.lt_of_not_le hlt))
          exact absurd (List.getElem?_eq_some_iff.mp hserved).1 (Nat.lt_irrefl _)
        · rw [hstep]
          simp only [State.serve, hparse, Varlink.step, hc, if_pos hphase, Daemon.handle]

theorem direct_reply (parseUuid : String → Option LeaseId) (cmd : Command) (a : ArbiterState)
    (activeLeases : List LeaseId) (peer : Option PeerInfo) (env : HandlerEnv) :
    ∃ r, (cmd.direct parseUuid a activeLeases peer env).reply = some r ∧
      (cmd.direct parseUuid a activeLeases peer env).streamed = [] := by
  cases cmd with
  | acquireLease priority memoryBytes plane =>
    simp only [Command.direct]
    split <;> exact ⟨_, rfl, rfl⟩
  | releaseLease leaseId =>
    simp only [Command.direct]
    split
    · exact ⟨_, rfl, rfl⟩
    · split <;> exact ⟨_, rfl, rfl⟩
  | freeze leaseId =>
    simp only [Command.direct, onLease]
    split <;> exact ⟨_, rfl, rfl⟩
  | thaw leaseId =>
    simp only [Command.direct, onLease]
    split <;> exact ⟨_, rfl, rfl⟩
  | evictModel model =>
    simp only [Command.direct]
    split <;> exact ⟨_, rfl, rfl⟩
  | pinModel model plane =>
    simp only [Command.direct]
    split
    · exact ⟨_, rfl, rfl⟩
    · split <;> exact ⟨_, rfl, rfl⟩
  | _ => exact ⟨_, rfl, rfl⟩

/-- The frames for a method are its reply. -/
theorem framesFor_command (parseUuid : String → Option LeaseId) (cmd : Command) (d : Daemon) (c : Conn)
    (env : HandlerEnv) :
    ∃ r, (cmd.direct parseUuid d.arbiter c.activeLeases c.peer env).reply = some r ∧
      framesFor parseUuid d c cmd.asked.request env = [r] := by
  obtain ⟨r, hr, hstreamed⟩ := direct_reply parseUuid cmd d.arbiter c.activeLeases c.peer env
  refine ⟨r, hr, ?_⟩
  rw [framesFor, serve_command, Handled.frames, hstreamed, hr]
  rfl

/-- The step of a run in which the request behind an answer was served. -/
theorem answered_at {T : HardwareTopology} {ops : List Op}
    (hcarried : Along (step toVec fromSlice requestFromSlice replyToVec parseUuid)
      (Carried toVec fromSlice requestFromSlice replyToVec parseUuid) (start T) ops)
    (hl : (exec (step toVec fromSlice requestFromSlice replyToVec parseUuid) (start T) ops).links[i]? =
      some l) {j : ℕ} {answer : Answer} (hanswer : l.answers[j]? = some answer) :
    ∃ pre env written rest s l₀ c q, ops = pre ++ .serve i env written :: rest ∧
      s = exec (step toVec fromSlice requestFromSlice replyToVec parseUuid) (start T) pre ∧
      s.links[i]? = some l₀ ∧ s.daemon.conns[i]? = some c ∧ l.asked[j]? = some q ∧ j < l₀.asked.length ∧
      l₀.answers.length ≤ j ∧
      (step toVec fromSlice requestFromSlice replyToVec parseUuid s (.serve i env written)).daemon.arbiter =
        (serve parseUuid q.request s.daemon.arbiter c.activeLeases c.peer env).arbiter ∧
      q.kind.answer (framesFor parseUuid s.daemon c q.request env) = some answer := by
  have hok : Ok toVec fromSlice requestFromSlice replyToVec
      (exec (step toVec fromSlice requestFromSlice replyToVec parseUuid) (start T) ops) :=
    exec_inv_along _ (fun _ op hop h => h.step op hop) _ ops (ok_start T) hcarried
  obtain ⟨cn, hcn⟩ := hok.conn hl
  obtain ⟨q, frames, hq, hserved, hans⟩ := (hok.links i l cn hl hcn).answers j answer hanswer
  obtain ⟨pre, env, written, rest, s, l₀, c, q', hops, hs, hl₀, hc, hq', hlate, hpair, harbiter⟩ :=
    served_at hcarried hl hserved
  obtain ⟨hreq, hframes⟩ := Prod.mk.inj hpair
  rw [← hreq] at hframes harbiter
  exact ⟨pre, env, written, rest, s, l₀, c, q, hops, hs, hl₀, hc, hq, (List.getElem?_eq_some_iff.mp hq').1,
    hlate, harbiter, hframes ▸ hans⟩

/-- Remote calls are calls: in every interleaving of any number of clients, their
connections and other users of the arbiter, if every message has no NUL, is below
its limit of 1 MiB and is read back as it was written, and no client asks for more
behind a `call` of the stream, then for every answer that a client has to a method
of its client there is one step of the run, behind the request and before the
answer, in which the arbiter did what the method does with these arguments, and
the answer is what it returned. -/
theorem commands_linearized (toVec : Json → List UInt8) (fromSlice : List UInt8 → Option Json)
    (requestFromSlice : List UInt8 → Option VarlinkRequest) (replyToVec : VarlinkReply → List UInt8)
    (parseUuid : String → Option LeaseId) (T : HardwareTopology) (ops : List Op)
    (hcarried : Along (step toVec fromSlice requestFromSlice replyToVec parseUuid)
      (Carried toVec fromSlice requestFromSlice replyToVec parseUuid) (start T) ops)
    (i : ℕ) (l : Link)
    (hl : (exec (step toVec fromSlice requestFromSlice replyToVec parseUuid) (start T) ops).links[i]? =
      some l) (j : ℕ) (cmd : Command) (hasked : l.asked[j]? = some cmd.asked) (answer : Answer)
    (hanswer : l.answers[j]? = some answer) :
    ∃ pre env written rest s l₀ c r, ops = pre ++ .serve i env written :: rest ∧
      s = exec (step toVec fromSlice requestFromSlice replyToVec parseUuid) (start T) pre ∧
      s.links[i]? = some l₀ ∧ s.daemon.conns[i]? = some c ∧ j < l₀.asked.length ∧
      l₀.answers.length ≤ j ∧
      (step toVec fromSlice requestFromSlice replyToVec parseUuid s (.serve i env written)).daemon.arbiter =
        (cmd.direct parseUuid s.daemon.arbiter c.activeLeases c.peer env).arbiter ∧
      (cmd.direct parseUuid s.daemon.arbiter c.activeLeases c.peer env).reply = some r ∧
      answer = .call (outcomeOf r) := by
  obtain ⟨pre, env, written, rest, s, l₀, c, q, hops, hs, hl₀, hc, hq, hbefore, hlate, harbiter, hans⟩ :=
    answered_at hcarried hl hanswer
  obtain rfl : cmd.asked = q := Option.some.inj (hasked.symm.trans hq)
  obtain ⟨r, hr, hframes⟩ := framesFor_command parseUuid cmd s.daemon c env
  have hkind : cmd.asked.kind = .call := by cases cmd <;> rfl
  rw [hframes, hkind] at hans
  refine ⟨pre, env, written, rest, s, l₀, c, r, hops, hs, hl₀, hc, hbefore, hlate, ?_, hr,
    (Option.some.inj hans).symm⟩
  rw [harbiter, serve_command]

/-! ### A method with a malformed argument -/

def freezeText : List UInt8 :=
  Utf8.ascii ("\x7b\"method\":\"io.systemd.inferenced1.Freeze\"," ++
    "\"parameters\":\x7b\"lease_id\":\"\"\x7d\x7d").toList

def freezeToVec : Json → List UInt8
  | .object [("method", .string _), ("parameters", .object [("lease_id", .string "")])] => freezeText
  | _ => []

def freezeFromSlice (bytes : List UInt8) : Option VarlinkRequest :=
  if bytes = freezeText then some (Command.freeze "").asked.request else none

def freezeRun : List Op :=
  [.connect none, .ask 0 (Command.freeze "").asked, .deliverRequest 0 100, .serve 0 sampleHandlerEnv true,
   .deliverReply 0 200, .read 0]

theorem carried_freezeRun :
    Along (step freezeToVec refusalFromSlice freezeFromSlice refusalToVec fun _ => none)
      (Carried freezeToVec refusalFromSlice freezeFromSlice refusalToVec fun _ => none)
      (start gpuTopology) freezeRun := by
  refine ⟨trivial, ⟨⟨by decide, by decide, rfl⟩, ?_⟩, trivial, ?_, trivial, trivial, trivial⟩
  · intro l hl b hb
    cases hl
    cases hb
  · intro l c a hl hc ha r hr
    cases hl
    cases hc
    cases ha
    have hframes : r ∈ [invalidParameter "lease_id"] := hr
    rw [List.mem_singleton.mp hframes]
    exact ⟨by decide, by decide, rfl⟩

theorem commands_linearized_freezeRun :
    ∃ l answer, (exec (step freezeToVec refusalFromSlice freezeFromSlice refusalToVec fun _ => none)
        (start gpuTopology) freezeRun).links[0]? = some l ∧ l.answers[0]? = some answer ∧
      ∃ a activeLeases peer env r,
        ((Command.freeze "").direct (fun _ => none) a activeLeases peer env).reply = some r ∧
        answer = .call (outcomeOf r) := by
  refine ⟨_, .call (outcomeOf (invalidParameter "lease_id")), rfl, rfl, ?_⟩
  obtain ⟨_, env, _, _, s, _, c, r, -, -, -, -, -, -, -, hr, hanswer⟩ :=
    commands_linearized freezeToVec refusalFromSlice freezeFromSlice refusalToVec (fun _ => none)
      gpuTopology freezeRun carried_freezeRun 0 _ rfl 0 (.freeze "") rfl _ rfl
  exact ⟨s.daemon.arbiter, c.activeLeases, c.peer, env, r, hr, hanswer⟩

end Inferenced.Session
