import Inferenced.Arbiter.Triage
import Inferenced.Sentry

/-!
# One payload, one triage (sentry/mod.rs:47-110)

A connection takes what one read returns for a payload. It serves a payload once
if the payload comes in one read; a payload that comes in several is served once
for each of them, and a piece of it is no JSON and has no incident id.
-/

namespace Inferenced.Sentry
open Lib Arbiter Varlink

def bufferSize : ℕ := 65536

/-- One turn of the loop: what the read returns, the arbiter when the state lock
is granted to `acquire_lease` and to `release_lease`, and the result of the
write. Between its own steps other tasks change the arbiter. -/
structure Turn where
  bytes : List UInt8
  atAcquire : ArbiterState
  call : CallEnv
  written : Bool
  atRelease : ArbiterState

inductive TriageEvent where
  | acquired (lease : ComputeLease)
  | responded (response : TriageResponse) (written : Bool)
  /-- `release_lease`, and the arbiter after it. -/
  | released (lease : LeaseId) (after : ArbiterState)

section
variable (fromSlice : List UInt8 → Option Json)

/-- `handle_sentry_connection`, up to the end of the stream. -/
def handleSentryConnection : List Turn → List TriageEvent
  | [] => []
  | t :: turns =>
    if t.bytes = [] then []
    else
      let triage := triageOf fromSlice t.bytes
      match (acquireLease t.atAcquire t.call triage.leaseRequest).result with
      | .error _ => []
      | .ok lease =>
        [.acquired lease, .responded (triage.response lease) t.written,
          .released lease.id (releaseLease t.atRelease lease.id).state] ++
          if t.written then handleSentryConnection turns else []

/-- Exactly one emergency lease, one response with the incident id of the
payload, and the release of the lease. -/
def OneTriage (payload : Json) (turns : List Turn) : Prop :=
  ∃ lease response written after,
    handleSentryConnection fromSlice turns =
      [.acquired lease, .responded response written, .released lease.id after] ∧
    lease.priority = .emergencyTriage ∧
    response.incidentId = (payload.get "incident_id").bind Json.asStr ∧
    ¬ Live after lease.id

/-- The steps of the connection's task in one turn. -/
def Conn.turn (t : Turn) (c : Conn) : Conn :=
  ((((c.read fromSlice (some t.bytes)).poll t.atAcquire t.call).2.1.write t.written).poll
    t.atRelease t.call).2.1

end

/-- The response, if the client has got it. -/
def TriageEvent.answer : TriageEvent → Option TriageResponse
  | .responded response true => some response
  | _ => none

variable {fromSlice : List UInt8 → Option Json} {t : Turn} {turns : List Turn} {c : Conn}
  {payload : Json} {p : List UInt8} {reads : List (List UInt8)}

/-! ### The steps of the task -/

theorem turns_closed (hc : c.phase = .closed) (turns : List Turn) :
    turns.foldl (fun c t => c.turn fromSlice t) c = c := by
  induction turns with
  | nil => rfl
  | cons t turns ih =>
    have hturn : c.turn fromSlice t = c := by
      simp only [Conn.turn, Conn.read, Conn.poll, Conn.write, hc]
    rw [List.foldl_cons, hturn, ih]

theorem sent_turns (hc : c.phase = .reading) (turns : List Turn) :
    (turns.foldl (fun c t => c.turn fromSlice t) c).sent =
      c.sent ++ (handleSentryConnection fromSlice turns).filterMap TriageEvent.answer := by
  induction turns generalizing c with
  | nil => simp [handleSentryConnection]
  | cons t turns ih =>
    rw [List.foldl_cons, handleSentryConnection]
    cases hbytes : t.bytes with
    | nil =>
      have hturn : (c.turn fromSlice t).phase = .closed ∧ (c.turn fromSlice t).sent = c.sent := by
        simp only [Conn.turn, Conn.read, Conn.poll, Conn.write, hc, hbytes, and_self]
      rw [turns_closed hturn.1, hturn.2]
      simp
    | cons b bytes =>
      cases hacq : (acquireLease t.atAcquire t.call (triageOf fromSlice (b :: bytes)).leaseRequest).result with
      | error e =>
        have hturn : (c.turn fromSlice t).phase = .closed ∧ (c.turn fromSlice t).sent = c.sent := by
          simp only [Conn.turn, Conn.read, Conn.poll, Conn.write, hc, hbytes, hacq, and_self]
        rw [turns_closed hturn.1, hturn.2]
        simp [hacq]
      | ok lease =>
        cases hwritten : t.written with
        | false =>
          have hturn : (c.turn fromSlice t).phase = .closed ∧ (c.turn fromSlice t).sent = c.sent := by
            simp only [Conn.turn, Conn.read, Conn.poll, Conn.write, hc, hbytes, hacq, hwritten,
              Bool.false_eq_true, if_false, and_self]
          rw [turns_closed hturn.1, hturn.2]
          simp [hacq, TriageEvent.answer]
        | true =>
          have hturn : (c.turn fromSlice t).phase = .reading ∧ (c.turn fromSlice t).sent =
              c.sent ++ [(triageOf fromSlice (b :: bytes)).response lease] := by
            simp only [Conn.turn, Conn.read, Conn.poll, Conn.write, hc, hbytes, hacq, hwritten, if_true,
              and_self]
          rw [ih hturn.1, hturn.2, if_neg (List.cons_ne_nil b bytes)]
          simp only [hacq, if_true, List.append_assoc]
          rfl

/-! ### One turn -/

theorem acquireLease_triage (triage : Triage) (hplanes : t.atAcquire.topology.planes ≠ []) :
    ∃ lease, (acquireLease t.atAcquire t.call triage.leaseRequest).result = .ok lease ∧
      lease.priority = .emergencyTriage := by
  have hprio : triage.leaseRequest.priority = .emergencyTriage := rfl
  have hpref : triage.leaseRequest.preferredPlane = none := rfl
  obtain ⟨idx, -, htarget, -, -⟩ := targetPlaneIdx_emergency hplanes hprio hpref
  have hadm : Admitted t.atAcquire t.call triage.leaseRequest idx :=
    ⟨fun _ => rfl, htarget, fun _ => rfl⟩
  refine ⟨grantedLease t.atAcquire t.call triage.leaseRequest idx, ?_, rfl⟩
  rw [acquireLease_of_admitted hadm]
  rfl

theorem oneTriage_singleton (hbytes : t.bytes ≠ []) (hplanes : t.atAcquire.topology.planes ≠ [])
    (hpayload : fromSlice t.bytes = some payload) : OneTriage fromSlice payload [t] := by
  obtain ⟨lease, hacq, hprio⟩ := acquireLease_triage (triageOf fromSlice t.bytes) hplanes
  refine ⟨lease, (triageOf fromSlice t.bytes).response lease, t.written,
    (releaseLease t.atRelease lease.id).state, ?_, hprio, ?_, not_live_endLease .expired rfl _ _⟩
  · rw [handleSentryConnection, if_neg hbytes]
    simp only [hacq, handleSentryConnection, ite_self, List.append_nil]
  · show ((fromSlice t.bytes).bind (·.get "incident_id")).bind Json.asStr = _
    rw [hpayload]
    rfl

/-! ### All reads -/

theorem length_events (turns : List Turn) (hbytes : ∀ t ∈ turns, t.bytes ≠ [])
    (hplanes : ∀ t ∈ turns, t.atAcquire.topology.planes ≠ []) (hwritten : ∀ t ∈ turns, t.written = true) :
    (handleSentryConnection fromSlice turns).length = 3 * turns.length := by
  induction turns with
  | nil => rfl
  | cons t turns ih =>
    obtain ⟨hb, hbytes⟩ := List.forall_mem_cons.mp hbytes
    obtain ⟨hp, hplanes⟩ := List.forall_mem_cons.mp hplanes
    obtain ⟨hw, hwritten⟩ := List.forall_mem_cons.mp hwritten
    obtain ⟨lease, hacq, -⟩ := acquireLease_triage (triageOf fromSlice t.bytes) hp
    rw [handleSentryConnection, if_neg hb]
    simp only [hacq, hw, if_true, List.length_append, List.length_cons, List.length_nil,
      ih hbytes hplanes hwritten]
    omega

def npuArbiter : ArbiterState :=
  Arbiter.new (sampleTopology [samplePlane "npu-accel0" .npuAccelerator 4294967296 4294967296])

def quietTurn (bytes : List UInt8) : Turn :=
  { bytes, atAcquire := npuArbiter, call := sampleEnv 0, written := true, atRelease := npuArbiter }

/-- One payload, one triage: in whatever state the arbiter is as long as it has a
plane (`planes_ne_nil_of_discovered`), and whether or not the writes succeed, a
payload is served exactly once, if and only if it comes in one read. -/
theorem one_triage_iff (fromSlice : List UInt8 → Option Json) (p : List UInt8) (payload : Json)
    (hpayload : fromSlice p = some payload) (reads : List (List UInt8)) (hflat : reads.flatten = p)
    (hreads : ∀ r ∈ reads, r ≠ [] ∧ r.length ≤ bufferSize) :
    (∀ turns : List Turn, turns.map (·.bytes) = reads →
      (∀ t ∈ turns, t.atAcquire.topology.planes ≠ []) → OneTriage fromSlice payload turns) ↔
    reads = [p] := by
  constructor
  · intro h
    have hbytes : (reads.map quietTurn).map (·.bytes) = reads := by
      rw [List.map_map]
      exact List.map_id reads
    have hquiet : ∀ t ∈ reads.map quietTurn, ∃ r ∈ reads, quietTurn r = t := fun t ht =>
      List.mem_map.mp ht
    have hplane : npuArbiter.topology.planes ≠ [] := List.cons_ne_nil _ _
    have hlength : (handleSentryConnection fromSlice (reads.map quietTurn)).length =
        3 * (reads.map quietTurn).length := by
      refine length_events _ (fun t ht => ?_) (fun t ht => ?_) fun t ht => ?_
      · obtain ⟨r, hr, rfl⟩ := hquiet t ht
        exact (hreads r hr).1
      · obtain ⟨r, -, rfl⟩ := hquiet t ht
        exact hplane
      · obtain ⟨r, -, rfl⟩ := hquiet t ht
        rfl
    obtain ⟨lease, response, written, after, hevents, -⟩ := h (reads.map quietTurn) hbytes fun t ht => by
      obtain ⟨r, -, rfl⟩ := hquiet t ht
      exact hplane
    rw [hevents, List.length_map] at hlength
    have hone : reads.length = 1 := by
      simp only [List.length_cons, List.length_nil] at hlength
      omega
    obtain ⟨r, rfl⟩ := List.length_eq_one_iff.mp hone
    rw [← hflat, List.flatten_singleton]
  · rintro rfl turns hturns hplanes
    obtain ⟨t, rfl, hbytes⟩ := List.map_eq_singleton_iff.mp hturns
    have hne : t.bytes ≠ [] := by
      rw [hbytes]
      exact (hreads p (List.mem_singleton_self _)).1
    exact oneTriage_singleton hne (hplanes t (List.mem_singleton_self _)) (by rw [hbytes, hpayload])

def incidentText : List UInt8 :=
  "\x7b\"incident_id\":\"panic-gpu-hang-007\"\x7d".toList.map Char.toUInt8

def incidentPayload : Json := .object [("incident_id", .string "panic-gpu-hang-007")]

def incidentParser (bytes : List UInt8) : Option Json :=
  if bytes = incidentText then some incidentPayload else none

theorem incident_triaged_once :
    incidentText.length ≤ bufferSize ∧
      OneTriage incidentParser incidentPayload [quietTurn incidentText] := by
  have hreads : ∀ r ∈ [incidentText], r ≠ [] ∧ r.length ≤ bufferSize :=
    List.forall_mem_singleton.mpr ⟨by decide, by decide⟩
  have hiff := one_triage_iff incidentParser incidentText incidentPayload (if_pos rfl) [incidentText]
    (List.flatten_singleton ..) hreads
  refine ⟨by decide, hiff.mpr rfl [quietTurn incidentText] rfl fun t ht => ?_⟩
  rw [List.mem_singleton.mp ht]
  exact List.cons_ne_nil _ _

/-- The same payload in two reads: two leases, and two responses without its
incident id. -/
theorem split_incident_triaged_twice :
    incidentParser incidentText = some incidentPayload ∧
      [incidentText.take 10, incidentText.drop 10].flatten = incidentText ∧
      ((handleSentryConnection incidentParser
        [quietTurn (incidentText.take 10), quietTurn (incidentText.drop 10)]).filterMap
          TriageEvent.answer).map (·.incidentId) = [none, none] ∧
      ¬ OneTriage incidentParser incidentPayload
        [quietTurn (incidentText.take 10), quietTurn (incidentText.drop 10)] := by
  refine ⟨if_pos rfl, by decide, by decide +kernel, ?_⟩
  rintro ⟨lease, response, written, after, hevents, -⟩
  have hlength : (handleSentryConnection incidentParser
      [quietTurn (incidentText.take 10), quietTurn (incidentText.drop 10)]).length = 6 := by
    decide +kernel
  rw [hevents] at hlength
  cases hlength

end Inferenced.Sentry
