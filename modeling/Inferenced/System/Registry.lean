import Inferenced.Model.Cache
import Inferenced.System.Custody

/-!
# The model registry of the daemon

Clients of the Varlink socket register, pin and evict models; the gateway looks
models up. Seen from the registry, a run of the daemon is the list of the calls
that its clients make.
-/

namespace Inferenced.System
open Lib Lib.Runs Arbiter Varlink ModelRegistry

/-! ### Steps of the arbiter leave the registry alone -/

theorem registry_acquireLease (a : ArbiterState) (env : CallEnv) (req : LeaseRequest) :
    (acquireLease a env req).state.registry = a.registry := by
  unfold acquireLease
  split
  · rfl
  · split
    · rfl
    · dsimp only
      split <;> rfl

theorem registry_endLease (final : LeaseState) (a : ArbiterState) (id : LeaseId) :
    (endLease final a id).state.registry = a.registry := by
  rw [endLease]
  split
  · rfl
  · split <;> rfl

theorem registry_markLease (mark : LeaseState) (a : ArbiterState) (id : LeaseId) :
    (markLease mark a id).state.registry = a.registry := by
  rw [markLease]
  split
  · rfl
  · split <;> rfl

theorem registry_thawLease (a : ArbiterState) (id : LeaseId) :
    (thawLease a id).state.registry = a.registry := by
  rcases thawLease_cases a id with ⟨e, h, -⟩ | ⟨l, -, -, -, h⟩ | ⟨l, -, -, h⟩ | ⟨l, -, -, h⟩ <;> rw [h]

theorem registry_stepLease (a : ArbiterState) (op : LeaseOp) : (stepLease a op).registry = a.registry := by
  cases op with
  | acquire env req => exact registry_acquireLease a env req
  | release id => exact registry_endLease .expired a id
  | revoke id => exact registry_endLease .revoked a id
  | yield id => exact registry_markLease .preempting a id
  | freeze id => exact registry_markLease .frozen a id
  | thaw id => exact registry_thawLease a id

theorem registry_after (a : ArbiterState) (op : Option ArbiterOp) :
    (Gateway.after a op).registry = a.registry := by
  cases op with
  | none => rfl
  | some o =>
    cases o with
    | lease lop => exact registry_stepLease a lop
    | updateTopology order topology => rfl

/-! ### Calls of clients -/

/-- The call of the registry that a method makes (models.rs). -/
def methodCall (m : Method) (params : Option Json) (env : HandlerEnv) : Option Call :=
  match m with
  | .registerModel => params.map fun p => .register env.modelOrder (registeredModel p env.now)
  | .evictModel => params.bind fun p =>
    if stringParam p "model" "id" = "" then none else some (.remove (stringParam p "model" "id"))
  | .pinModel => params.bind fun p =>
    if stringParam p "model" "id" = "" ∨ stringParam p "plane" "plane_id" = "" then none
    else some (.pinForTriage (stringParam p "model" "id") (stringParam p "plane" "plane_id"))
  | _ => none

def requestCall (req : VarlinkRequest) (env : HandlerEnv) : Option Call :=
  (methodOf req.method).bind fun m => methodCall m req.parameters env

def registryCall (s : System) : SystemOp → Option Call
  | .varlink (.frame i request env _) =>
    match s.conns[i]? with
    | some c => if c.phase = .serving then request.bind (requestCall · env) else none
    | none => none
  | _ => none

/-- The registry after a call, if there is one. -/
def callOn (r : ModelRegistry) (c : Option Call) : ModelRegistry := c.elim r (ModelRegistry.step r)

variable {fromSlice : List UInt8 → Option Varlink.Json} {parseUuid : String → Option LeaseId}

theorem registry_leaseCall {call : ArbiterState → LeaseId → Outcome Unit}
    (h : ∀ a id, (call a id).state.registry = a.registry) (errorName : String) (params : Option Json)
    (a : ArbiterState) (active : List LeaseId) :
    (handleLeaseCall parseUuid call errorName params a active).arbiter.registry = a.registry := by
  unfold handleLeaseCall
  split
  · rfl
  · exact h _ _

theorem registry_runMethod (m : Method) (params : Option Json) (a : ArbiterState) (active : List LeaseId)
    (peer : Option PeerInfo) (env : HandlerEnv) :
    (runMethod parseUuid m params a active peer env).arbiter.registry =
      callOn a.registry (methodCall m params env) := by
  cases m with
  | acquireLease =>
    cases params with
    | none => rfl
    | some p =>
      have h := registry_acquireLease a env.toCallEnv (acquireRequest p peer)
      simp only [runMethod, handleAcquireLease]
      split <;> exact h
  | releaseLease =>
    simp only [runMethod, handleReleaseLease]
    split
    · rfl
    · rename_i id _
      have h := registry_endLease .expired a id
      split <;> exact h
  | yield => exact registry_leaseCall (registry_markLease .preempting) _ _ _ _
  | freeze => exact registry_leaseCall (registry_markLease .frozen) _ _ _ _
  | thaw => exact registry_leaseCall registry_thawLease _ _ _ _
  | registerModel =>
    cases params with
    | none => rfl
    | some p => rfl
  | evictModel =>
    cases params with
    | none => rfl
    | some p =>
      simp only [runMethod, handleEvictModel, methodCall, Option.bind_some]
      split <;> rfl
  | pinModel =>
    cases params with
    | none => rfl
    | some p =>
      simp only [runMethod, handlePinModel, methodCall, Option.bind_some]
      split <;> rfl
  | _ => rfl

theorem registry_serve (req : VarlinkRequest) (a : ArbiterState) (active : List LeaseId)
    (peer : Option PeerInfo) (env : HandlerEnv) :
    (serve parseUuid req a active peer env).arbiter.registry = callOn a.registry (requestCall req env) := by
  -- the two service methods belong to neither interface
  have hservice : methodOf "org.varlink.service.GetInfo" = none ∧
      methodOf "org.varlink.service.GetInterfaceDescription" = none := by decide
  unfold serve requestCall
  split
  · rename_i h
    rw [h, hservice.1]
    rfl
  · split
    · rename_i h
      rw [h, hservice.2]
      rfl
    · unfold handleMethod
      cases methodOf req.method with
      | none => rfl
      | some m => exact registry_runMethod m _ _ _ _ _

theorem registry_varlink (s : System) (op : DaemonOp) :
    (Varlink.step parseUuid s.varlink op).arbiter.registry =
      callOn s.arbiter.registry (s.registryCall (.varlink op)) := by
  cases op with
  | accept peer => rfl
  | hangup i =>
    simp only [Varlink.step]
    split
    · split <;> rfl
    · rfl
  | reclaim i =>
    simp only [Varlink.step]
    split
    · split
      · unfold Daemon.reclaimNext
        split
        · rfl
        · exact registry_endLease .expired _ _
      · rfl
    · rfl
  | frame i request env written =>
    simp only [Varlink.step, registryCall, varlink]
    cases s.conns[i]? with
    | none => rfl
    | some c =>
      by_cases hserving : c.phase = .serving
      · simp only [if_pos hserving]
        cases request with
        | none => rfl
        | some req => exact registry_serve req _ _ _ env
      · simp only [if_neg hserving]
        rfl

theorem registry_gateway (s : System) (op : Gateway.GatewayOp) (hop : ∀ r, op ≠ .setRegistry r)
    (hother : ∀ o, op ≠ .other o) : (s.stepGateway op).arbiter.registry = s.arbiter.registry := by
  cases op with
  | request authorization endpoint => rfl
  | poll i env =>
    simp only [stepGateway, Gateway.step]
    cases s.gateway.handlers[i]? with
    | none => rfl
    | some h =>
      simp only [Gateway.GatewayState.update, poll_arbiter]
      exact registry_after _ _
  | pollTask i createdAt delivered =>
    simp only [stepGateway, Gateway.step]
    cases s.gateway.handlers[i]? with
    | none => rfl
    | some h =>
      simp only [Gateway.GatewayState.update, pollTask_arbiter]
      exact registry_after _ _
  | cancel i =>
    simp only [stepGateway, Gateway.step]
    cases s.gateway.handlers[i]? with
    | none => rfl
    | some h => rfl
  | other o => exact absurd rfl (hother o)
  | setRegistry r => exact absurd rfl (hop r)

/-- A step does to the registry what its call does; only clients of the Varlink
socket make any. -/
theorem step_registry (fromSlice : List UInt8 → Option Varlink.Json) (parseUuid : String → Option LeaseId)
    (s : System) (op : SystemOp) :
    (s.step fromSlice parseUuid op).arbiter.registry = callOn s.arbiter.registry (s.registryCall op) := by
  cases op with
  | varlink op => exact registry_varlink s op
  | httpRequest authorization endpoint => rfl
  | httpPoll i env => exact registry_gateway s (.poll i env) (by simp) (by simp)
  | httpTask i createdAt delivered =>
    exact registry_gateway s (.pollTask i createdAt delivered) (by simp) (by simp)
  | httpDrop i => exact registry_gateway s (.cancel i) (by simp) (by simp)
  | sentry op =>
    cases op with
    | poll i env =>
      simp only [System.step, stepSentry]
      cases s.sentries[i]? with
      | none => rfl
      | some c =>
        simp only [sentry_arbiter]
        exact registry_after _ _
    | _ => rfl
  | refreshTopology order topology => rfl

/-! ### Runs -/

theorem registry_concat (fromSlice : List UInt8 → Option Varlink.Json) (parseUuid : String → Option LeaseId)
    (s : System) (ops : List SystemOp) (op : SystemOp) :
    (exec (step fromSlice parseUuid) s (ops ++ [op])).arbiter.registry =
      callOn (exec (step fromSlice parseUuid) s ops).arbiter.registry
        ((exec (step fromSlice parseUuid) s ops).registryCall op) := by
  rw [exec_append]
  exact step_registry fromSlice parseUuid _ op

/-- The calls that a run makes, in order. -/
def calls (fromSlice : List UInt8 → Option Varlink.Json) (parseUuid : String → Option LeaseId) :
    System → List SystemOp → List Call
  | _, [] => []
  | s, op :: ops => (s.registryCall op).toList ++ calls fromSlice parseUuid (s.step fromSlice parseUuid op) ops

theorem exec_toList (r : ModelRegistry) (c : Option Call) :
    exec ModelRegistry.step r c.toList = callOn r c := by
  cases c with
  | none => rfl
  | some c => rfl

/-- Seen from the registry, a run of the daemon is a run of its calls. -/
theorem exec_registry (fromSlice : List UInt8 → Option Varlink.Json)
    (parseUuid : String → Option LeaseId) (s : System) (ops : List SystemOp) :
    (exec (step fromSlice parseUuid) s ops).arbiter.registry =
      exec ModelRegistry.step s.arbiter.registry (calls fromSlice parseUuid s ops) := by
  induction ops generalizing s with
  | nil => rfl
  | cons op ops ih =>
    rw [calls, exec_append, exec_toList, ← step_registry fromSlice parseUuid]
    exact ih (s.step fromSlice parseUuid op)

/-- The registry is what clients have made of it: in every run of the daemon a
model that the registry has is as the calls of the clients have left it, and as
long as they register at most 256 names, the registry has exactly the models that
were registered and not evicted by name. -/
theorem registry_remembers (fromSlice : List UInt8 → Option Varlink.Json)
    (parseUuid : String → Option LeaseId) (T : HardwareTopology) (apiToken : Option String)
    (ops : List SystemOp) :
    (∀ id m, (exec (step fromSlice parseUuid) (start T apiToken) ops).arbiter.registry.get id = some m →
      known (calls fromSlice parseUuid (start T apiToken) ops) id = some m) ∧
    ((names (calls fromSlice parseUuid (start T apiToken) ops)).toFinset.card ≤ 256 →
      ∀ id, (exec (step fromSlice parseUuid) (start T apiToken) ops).arbiter.registry.get id =
        known (calls fromSlice parseUuid (start T apiToken) ops) id) := by
  rw [exec_registry]
  refine ⟨exec_get_some _ ModelRegistry.new (fun _ => none) (fun id m h => ?_), fun hcard => ?_⟩
  · rw [get_new] at h
    cases h
  · refine exec_get_eq _ ModelRegistry.new (fun _ => none) get_new ?_
    refine along_roomy hcard _ _ (fun id h => ?_) fun id hid => List.mem_toFinset.mpr hid
    rw [get_new] at h
    cases h

/-! ### What gets lost -/

theorem plain_registryCall (s : System) (op : SystemOp) : ∀ c ∈ s.registryCall op, c.Plain := by
  have hmethod : ∀ (m : Method) (params : Option Json) (env : HandlerEnv),
      ∀ c ∈ methodCall m params env, c.Plain := by
    intro m params env c hc
    cases m with
    | registerModel =>
      obtain ⟨p, -, rfl⟩ := Option.map_eq_some_iff.mp hc
      exact ⟨rfl, Or.inl ⟨rfl, rfl⟩⟩
    | evictModel =>
      obtain ⟨p, -, hp⟩ := Option.bind_eq_some_iff.mp hc
      split at hp
      · cases hp
      · cases hp
        exact trivial
    | pinModel =>
      obtain ⟨p, -, hp⟩ := Option.bind_eq_some_iff.mp hc
      split at hp
      · cases hp
      · cases hp
        exact trivial
    | _ => cases hc
  intro c hc
  cases op with
  | varlink op =>
    cases op with
    | frame i request env written =>
      simp only [registryCall] at hc
      split at hc
      · split at hc
        · obtain ⟨req, -, hreq⟩ := Option.bind_eq_some_iff.mp hc
          obtain ⟨m, -, hm⟩ := Option.bind_eq_some_iff.mp hreq
          exact hmethod m _ _ c hm
        · cases hc
      · cases hc
    | _ => cases hc
  | _ => cases hc

theorem exec_plain (fromSlice : List UInt8 → Option Varlink.Json) (parseUuid : String → Option LeaseId)
    (T : HardwareTopology) (apiToken : Option String) (ops : List SystemOp) :
    ∀ id m, (exec (step fromSlice parseUuid) (start T apiToken) ops).arbiter.registry.get id = some m →
      Plain m := by
  refine exec_inv (fun s : System => ∀ id m, s.arbiter.registry.get id = some m → Plain m)
    (fun s op h id m hm => ?_) _ ops (fun id m hm => ?_)
  · rw [step_registry] at hm
    cases hc : s.registryCall op with
    | none =>
      rw [hc] at hm
      exact h id m hm
    | some c =>
      rw [hc] at hm
      exact plain_step h (plain_registryCall s op c hc) id m hm
  · have hnone : (start T apiToken).arbiter.registry.get id = none := get_new id
    rw [hnone] at hm
    cases hm

/-- Use does not count: whatever the gateway does with a model, a step of the
daemon loses it only if a client evicts it by name, or registers a new model
while 256 are there; then the lost model is not pinned, and of those that are not
pinned none was registered earlier. -/
theorem lost_model (fromSlice : List UInt8 → Option Varlink.Json) (parseUuid : String → Option LeaseId)
    (T : HardwareTopology) (apiToken : Option String) (ops : List SystemOp) (op : SystemOp) (id : String)
    (v : ModelDescriptor)
    (hv : (exec (step fromSlice parseUuid) (start T apiToken) ops).arbiter.registry.get id = some v)
    (hgone : (exec (step fromSlice parseUuid) (start T apiToken) (ops ++ [op])).arbiter.registry.get id =
      none) :
    (exec (step fromSlice parseUuid) (start T apiToken) ops).registryCall op = some (.remove id) ∨
    ∃ order d,
      (exec (step fromSlice parseUuid) (start T apiToken) ops).registryCall op = some (.register order d) ∧
      (exec (step fromSlice parseUuid) (start T apiToken) ops).arbiter.registry.get d.id = none ∧
      256 ≤ (exec (step fromSlice parseUuid) (start T apiToken) ops).arbiter.registry.models.len ∧
      v.placement ≠ .pinnedTriage ∧
      ∀ name w, (exec (step fromSlice parseUuid) (start T apiToken) ops).arbiter.registry.get name = some w →
        w.placement ≠ .pinnedTriage → v.lastAccessed ≤ w.lastAccessed := by
  have hplain := exec_plain fromSlice parseUuid T apiToken ops
  rw [registry_concat] at hgone
  generalize exec (step fromSlice parseUuid) (start T apiToken) ops = s at *
  cases hc : s.registryCall op with
  | none =>
    rw [hc, callOn, Option.elim_none, hv] at hgone
    cases hgone
  | some c =>
    rw [hc] at hgone
    rcases step_loses hv hgone with rfl | ⟨order, d, rfl, hevicting, hleast⟩
    · exact Or.inl rfl
    · refine Or.inr ⟨order, d, rfl, hevicting.1, hevicting.2.1, hleast.2.1, fun name w hw hpin => ?_⟩
      rcases hleast.2.2 w (KeyedMap.get?_eq_some.mp hw).1 hpin with hlt | ⟨-, hle⟩
      · rw [(hplain name w hw).unused] at hlt
        exact absurd hlt (UInt64.not_lt_zero)
      · exact hle

/-! ### A registry that is full -/

/-- The names `"m"`, `"mm"` and so on. -/
def crowdName (i : ℕ) : String := String.ofList (List.replicate (i + 1) 'm')

def crowdParams (i : ℕ) : Json := .object [("id", .string (crowdName i))]

def crowdModel (i : ℕ) : ModelDescriptor := registeredModel (crowdParams i) i

/-- Client 0 registers model `i` at time `i`. -/
def registerCrowd (i : ℕ) : SystemOp :=
  .varlink (.frame 0 (some { method := "io.syntrop.Inference1.RegisterModel", parameters := some (crowdParams i) })
    { toCallEnv := sampleEnv 0, modelOrder := IterOrder.stored, now := i } true)

/-- A client registers `n` models. -/
def crowdedRun (n : ℕ) : List SystemOp := .varlink (.accept none) :: (List.range n).map registerCrowd

theorem crowdName_injective : Function.Injective crowdName := by
  intro i j h
  have hlength := congrArg (fun s => s.toList.length) h
  simpa [crowdName] using hlength

theorem registerCrowd_call {s : System} {c : Conn} (hc : s.conns[0]? = some c) (hserving : c.phase = .serving)
    (i : ℕ) : s.registryCall (registerCrowd i) = some (.register IterOrder.stored (crowdModel i)) := by
  simp only [registryCall, registerCrowd, hc, if_pos hserving, Option.bind_some, requestCall,
    (by decide : methodOf "io.syntrop.Inference1.RegisterModel" = some .registerModel)]
  rfl

theorem registerCrowd_serving (fromSlice : List UInt8 → Option Varlink.Json)
    (parseUuid : String → Option LeaseId) {s : System} {c : Conn} (hc : s.conns[0]? = some c)
    (hserving : c.phase = .serving) (i : ℕ) :
    ∃ c', (s.step fromSlice parseUuid (registerCrowd i)).conns[0]? = some c' ∧ c'.phase = .serving := by
  have hc' : s.varlink.conns[0]? = some c := hc
  simp only [System.step, registerCrowd, Varlink.step, hc', if_pos hserving, Daemon.handle]
  refine ⟨_, (getElem?_set_of_getElem? hc' hc').trans (congrArg some (if_pos rfl)), ?_⟩
  simp

theorem calls_registerCrowd (fromSlice : List UInt8 → Option Varlink.Json)
    (parseUuid : String → Option LeaseId) (is : List ℕ) {s : System} {c : Conn} (hc : s.conns[0]? = some c)
    (hserving : c.phase = .serving) :
    calls fromSlice parseUuid s (is.map registerCrowd) =
        (is.map crowdModel).map (.register IterOrder.stored) ∧
      ∃ c', (exec (step fromSlice parseUuid) s (is.map registerCrowd)).conns[0]? = some c' ∧
        c'.phase = .serving := by
  induction is generalizing s c with
  | nil => exact ⟨rfl, c, hc, hserving⟩
  | cons i is ih =>
    obtain ⟨c', hc', hserving'⟩ := registerCrowd_serving fromSlice parseUuid hc hserving i
    obtain ⟨hcalls, hend⟩ := ih hc' hserving'
    refine ⟨?_, hend⟩
    rw [List.map_cons, calls, registerCrowd_call hc hserving, hcalls]
    rfl

/-- After the run the registry has the models, and the client can go on. -/
theorem crowdedRun_entries (fromSlice : List UInt8 → Option Varlink.Json)
    (parseUuid : String → Option LeaseId) (T : HardwareTopology) (apiToken : Option String) {n : ℕ}
    (hroom : n ≤ 256) :
    (exec (step fromSlice parseUuid) (start T apiToken) (crowdedRun n)).arbiter.registry.models.entries =
        ((List.range n).map crowdModel).reverse ∧
      ∃ c, (exec (step fromSlice parseUuid) (start T apiToken) (crowdedRun n)).conns[0]? = some c ∧
        c.phase = .serving := by
  have haccepted : ((start T apiToken).step fromSlice parseUuid (.varlink (.accept none))).conns[0]? =
      some ⟨none, [], .serving, [], []⟩ := rfl
  obtain ⟨hcalls, hserving⟩ := calls_registerCrowd fromSlice parseUuid (List.range n) haccepted rfl
  refine ⟨?_, hserving⟩
  rw [exec_registry, crowdedRun, calls, hcalls]
  refine entries_registrations IterOrder.stored _ ?_ ?_
  · rw [List.map_map]
    exact List.nodup_range.map crowdName_injective
  · rw [List.length_map, List.length_range]
    exact hroom

theorem crowd_evicts {r : ModelRegistry} (hentries : r.models.entries = ((List.range 256).map crowdModel).reverse)
    (order : IterOrder ModelDescriptor) :
    r.get (crowdName 0) = some (crowdModel 0) ∧ (r.register order (crowdModel 256)).get (crowdName 0) = none := by
  have hmem : ∀ m, m ∈ r.models.entries ↔ ∃ i < 256, crowdModel i = m := by
    intro m
    rw [hentries, List.mem_reverse, List.mem_map]
    simp only [List.mem_range]
  have hfirst : crowdModel 0 ∈ r.models.entries := (hmem _).mpr ⟨0, by decide, rfl⟩
  have hnew : r.get (crowdName 256) = none := by
    cases hget : r.get (crowdName 256) with
    | none => rfl
    | some m =>
      obtain ⟨hm, hid⟩ := KeyedMap.get?_eq_some.mp hget
      obtain ⟨i, hi, rfl⟩ := (hmem m).mp hm
      exact absurd (crowdName_injective hid) hi.ne
  have hlen : r.models.len = 256 := by
    rw [KeyedMap.len, hentries, List.length_reverse, List.length_map, List.length_range]
  refine ⟨KeyedMap.get?_of_mem hfirst, ?_⟩
  obtain ⟨lost, hevicts⟩ := register_evicts r order (crowdModel 256)
  obtain ⟨v, rfl⟩ := Option.isSome_iff_exists.mp
    (hevicts.evicting.mpr ⟨hnew, hlen.ge, _, hfirst, ModelPlacementState.noConfusion⟩)
  obtain ⟨hv, -, hleast⟩ := hevicts.leastUsed v rfl
  obtain ⟨i, -, rfl⟩ := (hmem v).mp hv
  -- the first of them has the earliest time
  have hzero : i = 0 := by
    rcases hleast _ hfirst ModelPlacementState.noConfusion with hlt | ⟨-, hle⟩
    · exact absurd hlt (UInt64.lt_irrefl 0)
    · have hle' : (i : ℤ) ≤ 0 := hle
      omega
  have hother : crowdName 0 ≠ (crowdModel 256).id := fun h => absurd (crowdName_injective h) (by decide)
  rw [hevicts.others, if_neg hother, hzero]
  exact if_pos rfl

theorem lost_model_crowdedRun :
    (exec (step (fun _ => none) fun _ => none) (start roomyGpu none) (crowdedRun 256)).arbiter.registry.get
        (crowdName 0) = some (crowdModel 0) ∧
      (exec (step (fun _ => none) fun _ => none) (start roomyGpu none)
        (crowdedRun 256 ++ [registerCrowd 256])).arbiter.registry.get (crowdName 0) = none ∧
      256 ≤ (exec (step (fun _ => none) fun _ => none) (start roomyGpu none)
        (crowdedRun 256)).arbiter.registry.models.len ∧
      ∀ name w, (exec (step (fun _ => none) fun _ => none) (start roomyGpu none)
          (crowdedRun 256)).arbiter.registry.get name = some w →
        w.placement ≠ .pinnedTriage → (crowdModel 0).lastAccessed ≤ w.lastAccessed := by
  obtain ⟨hentries, c, hc, hserving⟩ := crowdedRun_entries (fun _ => none) (fun _ => none) roomyGpu none
    (Nat.le_refl 256)
  have hcall := registerCrowd_call hc hserving 256
  obtain ⟨hv, hregister⟩ := crowd_evicts hentries IterOrder.stored
  have hgone : (exec (step (fun _ => none) fun _ => none) (start roomyGpu none)
      (crowdedRun 256 ++ [registerCrowd 256])).arbiter.registry.get (crowdName 0) = none := by
    rw [registry_concat, hcall]
    exact hregister
  rcases lost_model (fun _ => none) (fun _ => none) roomyGpu none (crowdedRun 256) (registerCrowd 256) _ _ hv
    hgone with h | ⟨order, d, -, -, hfull, -, hleast⟩
  · rw [hcall] at h
    cases h
  · exact ⟨hv, hgone, hfull, hleast⟩

/-! ### What the gateway asks for -/

/-- The memory that the gateway takes a model to need (handlers.rs:57-58, 124-125). -/
def estimate (r : ModelRegistry) (model : String) : UInt64 :=
  ((r.get model).map (·.estimatedMemoryBytes)).getD (512 * 1024 * 1024)

/-- The job is that of a request of the run `ops` that was let through. -/
def Admitted (apiToken : Option String) (ops : List SystemOp) (job : Gateway.Job) : Prop :=
  ∃ authorization endpoint, .httpRequest authorization endpoint ∈ ops ∧
    Gateway.checkAuth authorization apiToken = true ∧ job = endpoint.job

theorem Admitted.later {apiToken : Option String} {ops : List SystemOp} {job : Gateway.Job}
    (h : Admitted apiToken ops job) (op : SystemOp) : Admitted apiToken (ops ++ [op]) job := by
  obtain ⟨authorization, endpoint, hmem, hrest⟩ := h
  exact ⟨authorization, endpoint, List.mem_append_left _ hmem, hrest⟩

section
variable (fromSlice : List UInt8 → Option Varlink.Json) (parseUuid : String → Option LeaseId)
  (T : HardwareTopology) (apiToken : Option String)

/-- Where a handler has its job and the size of its request from. -/
def Founded (ops : List SystemOp) (h : Gateway.Handler) : Prop :=
  match h.state with
  | .awaitModel job => Admitted apiToken ops job
  | .awaitAcquire job bytes _ => ∃ before, before <+: ops ∧ Admitted apiToken before job ∧
    bytes = estimate (exec (step fromSlice parseUuid) (start T apiToken) before).arbiter.registry job.model
  | _ => True

variable {fromSlice parseUuid T apiToken}

theorem Founded.later {ops : List SystemOp} {h : Gateway.Handler}
    (hf : Founded fromSlice parseUuid T apiToken ops h) (op : SystemOp) :
    Founded fromSlice parseUuid T apiToken (ops ++ [op]) h := by
  unfold Founded at hf ⊢
  cases hstate : h.state with
  | awaitModel job =>
    rw [hstate] at hf
    exact Admitted.later hf op
  | awaitAcquire job bytes psi =>
    rw [hstate] at hf
    obtain ⟨before, hprefix, hrest⟩ := hf
    exact ⟨before, hprefix.trans (List.prefix_append _ _), hrest⟩
  | _ => exact trivial

theorem founded_poll {ops : List SystemOp} {h : Gateway.Handler}
    (hf : Founded fromSlice parseUuid T apiToken ops h) (env : Gateway.PollEnv) (op : SystemOp) :
    Founded fromSlice parseUuid T apiToken (ops ++ [op])
      (h.poll (exec (step fromSlice parseUuid) (start T apiToken) ops).arbiter env).2 := by
  have hlater := hf.later op
  unfold Gateway.Handler.poll
  cases hstate : h.state with
  | awaitModel job =>
    simp only [Founded, hstate] at hf
    dsimp only
    split
    · exact trivial
    · exact ⟨ops, List.prefix_append _ _, hf, rfl⟩
  | awaitAcquire job bytes psi =>
    dsimp only
    cases (acquireLease _ _ _).result with
    | error e => exact trivial
    | ok lease =>
      unfold Founded Gateway.Handler.acquired
      cases job.answer <;> exact trivial
  | awaitRelease job lease => exact trivial
  | streaming response task => exact hlater
  | completed response => exact hlater
  | dropped => exact hlater

theorem founded_pollTask {ops : List SystemOp} {h : Gateway.Handler}
    (hf : Founded fromSlice parseUuid T apiToken ops h) (a : ArbiterState) (createdAt : String)
    (delivered : Bool) :
    Founded fromSlice parseUuid T apiToken ops (h.pollTask a createdAt delivered).2 := by
  unfold Gateway.Handler.pollTask
  cases hstate : h.state with
  | streaming response task =>
    dsimp only
    cases task.phase <;> exact trivial
  | _ => exact hf

theorem founded_cancel {ops : List SystemOp} {h : Gateway.Handler}
    (hf : Founded fromSlice parseUuid T apiToken ops h) :
    Founded fromSlice parseUuid T apiToken ops h.cancel := by
  unfold Gateway.Handler.cancel
  cases hstate : h.state with
  | awaitModel job => exact trivial
  | awaitAcquire job bytes psi => exact trivial
  | awaitRelease job lease => exact trivial
  | _ => exact hf

theorem exec_apiToken (ops : List SystemOp) :
    (exec (step fromSlice parseUuid) (start T apiToken) ops).apiToken = apiToken := by
  refine exec_inv (fun s : System => s.apiToken = apiToken) (fun s op h => ?_) _ ops rfl
  cases op with
  | sentry op =>
    cases op with
    | poll i env =>
      simp only [System.step, stepSentry]
      cases s.sentries[i]? with
      | none => exact h
      | some c => exact h
    | _ => exact h
  | _ => exact h

/-- One handler is replaced by one that is founded. -/
theorem founded_set {ops : List SystemOp} {handlers : List Gateway.Handler}
    (hall : ∀ h ∈ handlers, Founded fromSlice parseUuid T apiToken ops h) (i : ℕ) {h' : Gateway.Handler}
    (hnew : Founded fromSlice parseUuid T apiToken ops h') :
    ∀ h ∈ handlers.set i h', Founded fromSlice parseUuid T apiToken ops h := by
  intro h hh
  rcases List.mem_or_eq_of_mem_set hh with hold | rfl
  · exact hall h hold
  · exact hnew

theorem founded_arrive (ops : List SystemOp) (authorization : Option String) (endpoint : Gateway.Endpoint) :
    Founded fromSlice parseUuid T apiToken (ops ++ [.httpRequest authorization endpoint])
      ((exec (step fromSlice parseUuid) (start T apiToken) ops).gateway.arrive authorization endpoint) := by
  have htoken : (exec (step fromSlice parseUuid) (start T apiToken) ops).gateway.apiToken = apiToken :=
    exec_apiToken ops
  unfold Gateway.GatewayState.arrive
  rw [htoken]
  split
  · rename_i hauth
    exact ⟨authorization, endpoint, List.mem_append_right _ (List.mem_singleton_self _), hauth, rfl⟩
  · exact trivial

theorem exec_founded (ops : List SystemOp) :
    ∀ h ∈ (exec (step fromSlice parseUuid) (start T apiToken) ops).handlers,
      Founded fromSlice parseUuid T apiToken ops h := by
  induction ops using List.reverseRecOn with
  | nil => exact fun h hh => absurd hh List.not_mem_nil
  | append_singleton ops op ih =>
    have hlast : exec (step fromSlice parseUuid) (start T apiToken) (ops ++ [op]) =
        (exec (step fromSlice parseUuid) (start T apiToken) ops).step fromSlice parseUuid op :=
      exec_append _ _ _
    have hlater : ∀ h ∈ (exec (step fromSlice parseUuid) (start T apiToken) ops).handlers,
        Founded fromSlice parseUuid T apiToken (ops ++ [op]) h := fun h hh => (ih h hh).later op
    rw [hlast]
    cases op with
    | varlink op => exact hlater
    | httpRequest authorization endpoint =>
      intro h hh
      rcases List.mem_append.mp hh with hold | hnew
      · exact hlater h hold
      · rw [List.mem_singleton.mp hnew]
        exact founded_arrive ops authorization endpoint
    | httpPoll i env =>
      simp only [System.step, stepGateway, Gateway.step]
      cases hi : (exec (step fromSlice parseUuid) (start T apiToken) ops).gateway.handlers[i]? with
      | none => exact hlater
      | some h => exact founded_set hlater i (founded_poll (ih h (List.mem_of_getElem? hi)) env _)
    | httpTask i createdAt delivered =>
      simp only [System.step, stepGateway, Gateway.step]
      cases hi : (exec (step fromSlice parseUuid) (start T apiToken) ops).gateway.handlers[i]? with
      | none => exact hlater
      | some h =>
        exact founded_set hlater i (founded_pollTask (hlater h (List.mem_of_getElem? hi)) _ createdAt delivered)
    | httpDrop i =>
      simp only [System.step, stepGateway, Gateway.step]
      cases hi : (exec (step fromSlice parseUuid) (start T apiToken) ops).gateway.handlers[i]? with
      | none => exact hlater
      | some h => exact founded_set hlater i (founded_cancel (hlater h (List.mem_of_getElem? hi)))
    | sentry op =>
      simp only [System.step, (stepSentry_frame _ op).2]
      exact hlater
    | refreshTopology order topology => exact hlater

end

/-- What the gateway asks for: in every run, a handler of the gateway acquires a
lease only for a request that carried the token, and for the memory that the
registry gave for the model of that very request in a state since its arrival,
512 MiB if it had no such model. -/
theorem gateway_asks_estimate (fromSlice : List UInt8 → Option Varlink.Json)
    (parseUuid : String → Option LeaseId) (T : HardwareTopology) (apiToken : Option String)
    (ops : List SystemOp) (i : ℕ) (env : Gateway.PollEnv) (callEnv : CallEnv) (req : LeaseRequest)
    (hop : (exec (step fromSlice parseUuid) (start T apiToken) ops).arbiterOp parseUuid (.httpPoll i env) =
      some (.lease (.acquire callEnv req))) :
    ∃ before authorization endpoint, before <+: ops ∧ .httpRequest authorization endpoint ∈ before ∧
      Gateway.checkAuth authorization apiToken = true ∧
      req = endpoint.job.leaseRequest
        (estimate (exec (step fromSlice parseUuid) (start T apiToken) before).arbiter.registry
          endpoint.job.model) := by
  obtain ⟨h, hh, hstate⟩ := Option.bind_eq_some_iff.mp hop
  have hfounded : Founded fromSlice parseUuid T apiToken ops h :=
    exec_founded ops h (List.mem_of_getElem? hh)
  unfold Founded at hfounded
  cases hcase : h.state with
  | awaitAcquire job bytes psi =>
    rw [hcase] at hstate hfounded
    obtain ⟨before, hprefix, ⟨authorization, endpoint, hmem, hauth, rfl⟩, rfl⟩ := hfounded
    cases hstate
    exact ⟨before, authorization, endpoint, hprefix, hmem, hauth, rfl⟩
  | _ =>
    rw [hcase] at hstate
    cases hstate

/-- The model is registered before the chat request for it arrives. -/
def chatRun : List SystemOp :=
  [.varlink (.accept none),
    .varlink (sampleFrame 0 0 "RegisterModel" [("id", .string "phi"), ("estimated_bytes", .posInt 7)] true),
    .httpRequest none (.chatCompletions "phi"),
    .httpPoll 0 { toCallEnv := sampleEnv 1, createdAt := "", chatId := "0" }]

theorem gateway_asks_estimate_chatRun :
    ∃ before authorization endpoint, before <+: chatRun ∧
      .httpRequest authorization endpoint ∈ before ∧ Gateway.checkAuth authorization none = true ∧
      (⟨.interactive, 7, none, some "gateway-client", none⟩ : LeaseRequest) = endpoint.job.leaseRequest
        (estimate (exec (step (fun _ => none) fun _ => none) (start roomyGpu none) before).arbiter.registry
          endpoint.job.model) :=
  gateway_asks_estimate (fun _ => none) (fun _ => none) roomyGpu none chatRun 0
    { toCallEnv := sampleEnv 2, createdAt := "", chatId := "0" }
    { sampleEnv 2 with psi := (sampleEnv 1).psi } ⟨.interactive, 7, none, some "gateway-client", none⟩ rfl

end Inferenced.System
