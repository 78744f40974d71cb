import Inferenced.FdLease
import Inferenced.Lib.Assignments
import Inferenced.Lib.Utf8

/-!
# Notices to the service manager (crates/inferenced-daemon/src/notify.rs)

A notice is one datagram of `NAME=value` lines to the socket in `NOTIFY_SOCKET`.
The status text is any text; its line breaks are stripped before it is sent. The
answers of the kernel and of `rustix` are an environment.
-/

namespace Inferenced.Notify
open Lib FdLease

/-- `NOTIFY_MAX`. -/
def notifyMax : ℕ := 8 * 1024 * 1024

inductive SocketAddrUnix where
  | abstractName (name : List UInt8)
  | path (path : List UInt8)
  deriving DecidableEq

/-- The errors of `io::Error::new` with their kinds. -/
inductive IoError where
  | invalidInput (message : String)
  | other (errno : Errno)
  deriving DecidableEq

structure Datagram where
  addr : SocketAddrUnix
  payload : List UInt8
  deriving DecidableEq

/-- `newAddr` says whether `SocketAddrUnix::new` and `new_abstract_name` take the
name; a datagram is taken whole or not at all. -/
structure NotifyEnv where
  notifySocket : Option String
  newAddr : SocketAddrUnix → Bool
  socket : Except Errno Unit
  sendto : Datagram → Except Errno ℕ

/-- `notify_address` (notify.rs:18-29). -/
def notifyAddress (env : NotifyEnv) (socketPath : String) : Option SocketAddrUnix :=
  match Text.stripPrefix socketPath.toList ['@'] with
  | some name =>
    if name.isEmpty || (Utf8.encode name).contains 0 then none
    else Option.guard env.newAddr (.abstractName (Utf8.encode name))
  | none =>
    if socketPath.isEmpty then none
    else Option.guard env.newAddr (.path (Utf8.encode socketPath.toList))

/-- `sanitize_value` (notify.rs:34-36). -/
def sanitizeValue (s : String) : String :=
  String.ofList (s.toList.filter fun c => decide (c ≠ '\n') && decide (c ≠ '\r'))

/-- `send_notification_to` (notify.rs:95-112), with the datagram that goes out. -/
def sendNotificationTo (env : NotifyEnv) (socketPath state : String) : Except IoError ℕ × Option Datagram :=
  match notifyAddress env socketPath with
  | none => (.error (.invalidInput ("invalid NOTIFY_SOCKET target '" ++ socketPath ++ "'")), none)
  | some addr =>
    match env.socket with
    | .error e => (.error (.other e), none)
    | .ok () =>
      let datagram := { addr, payload := Utf8.encode state.toList }
      match env.sendto datagram with
      | .error e => (.error (.other e), none)
      | .ok n => (.ok n, some datagram)

/-- `send_notification` (notify.rs:80-92). -/
def sendNotification (env : NotifyEnv) (state : String) : Except IoError ℕ × Option Datagram :=
  if notifyMax < (Utf8.encode state.toList).length then
    (.error (.invalidInput "notification exceeds 8 MiB systemd cap"), none)
  else
    match env.notifySocket.filter fun path => !path.isEmpty with
    | none => (.ok 0, none)
    | some path => sendNotificationTo env path state

/-- `notify_systemd_ready`; the result is only logged. -/
def notifySystemdReady (env : NotifyEnv) : Option Datagram :=
  (sendNotification env "READY=1\nSTATUS=Hardware planes active\n").2

/-- `notify_systemd_status`. -/
def notifySystemdStatus (env : NotifyEnv) (status : String) : Option Datagram :=
  (sendNotification env ("STATUS=" ++ sanitizeValue status ++ "\n")).2

/-- `notify_systemd_watchdog`. -/
def notifySystemdWatchdog (env : NotifyEnv) : Option Datagram := (sendNotification env "WATCHDOG=1\n").2

/-- `notify_systemd_stopping`. -/
def notifySystemdStopping (env : NotifyEnv) : Option Datagram :=
  (sendNotification env "STOPPING=1\nSTATUS=Shutting down cleanly\n").2

inductive Notice where
  | ready
  | status (text : String)
  | watchdog
  | stopping
  deriving DecidableEq

def notify (env : NotifyEnv) : Notice → Option Datagram
  | .ready => notifySystemdReady env
  | .status text => notifySystemdStatus env text
  | .watchdog => notifySystemdWatchdog env
  | .stopping => notifySystemdStopping env

/-! ### What the manager reads

The manager splits a datagram at its line breaks and each line at its first `=`.
-/

def isBreak (b : UInt8) : Bool := b == 10 || b == 13

def assignmentsOf (d : Datagram) : List (List UInt8 × List UInt8) := readAssignments isBreak 61 d.payload

def Unbroken (text : List Char) : Prop := '\n' ∉ text ∧ '\r' ∉ text

instance (text : List Char) : Decidable (Unbroken text) :=
  inferInstanceAs (Decidable ('\n' ∉ text ∧ '\r' ∉ text))

theorem unbroken_append {l m : List Char} (hl : Unbroken l) (hm : Unbroken m) : Unbroken (l ++ m) := by
  simp only [Unbroken, List.mem_append, not_or]
  exact ⟨⟨hl.1, hm.1⟩, hl.2, hm.2⟩

theorem unbroken_decimal (n : ℕ) : Unbroken (toString n).toList := by
  have hdigits : ∀ c ∈ (toString n).toList, c.isDigit = true := by
    intro c hc
    rw [Nat.toString_eq_ofList_toDigits, String.toList_ofList] at hc
    exact Nat.isDigit_of_mem_toDigits (by decide) (by decide) hc
  exact ⟨fun hc => absurd (hdigits '\n' hc) (by decide), fun hc => absurd (hdigits '\r' hc) (by decide)⟩

theorem encode_unbroken {text : List Char} (h : Unbroken text) :
    ∀ b ∈ Utf8.encode text, isBreak b = false := by
  intro b hb
  have hnl : b ≠ 10 := by
    rintro rfl
    exact h.1 ((Utf8.mem_encode_iff (a := '\n') (by decide) text).mp hb)
  have hcr : b ≠ 13 := by
    rintro rfl
    exact h.2 ((Utf8.mem_encode_iff (a := '\r') (by decide) text).mp hb)
  simp [isBreak, hnl, hcr]

theorem sanitizeValue_unbroken (s : String) : Unbroken (sanitizeValue s).toList := by
  simp [Unbroken, sanitizeValue]

theorem sanitizeValue_of_unbroken {s : String} (h : Unbroken s.toList) : sanitizeValue s = s := by
  have hall : ∀ c ∈ s.toList, (decide (c ≠ '\n') && decide (c ≠ '\r')) = true := by
    intro c hc
    simp [ne_of_mem_of_not_mem hc h.1, ne_of_mem_of_not_mem hc h.2]
  rw [sanitizeValue, List.filter_eq_self.mpr hall, String.ofList_toList]

/-- A variable of a notice; neither it nor its value can break out of the line. -/
structure Variable where
  name : String
  value : String
  named : '=' ∉ name.toList ∧ Unbroken name.toList
  unbroken : Unbroken value.toList

namespace Variable

def assignment (v : Variable) : Assignment isBreak 61 where
  name := Utf8.encode v.name.toList
  value := Utf8.encode v.value.toList
  split := mt (Utf8.mem_encode_iff (a := '=') (by decide) v.name.toList).mp v.named.1
  name_unbroken := encode_unbroken v.named.2
  value_unbroken := encode_unbroken v.unbroken

theorem line_assignment (v : Variable) :
    v.assignment.line ++ [10] = Utf8.encode (v.name ++ "=" ++ v.value ++ "\n").toList := by
  have heq : Utf8.encode "=".toList = [61] := Utf8.encode_ascii (by decide)
  have hnl : Utf8.encode "\n".toList = [10] := Utf8.encode_ascii (by decide)
  simp only [String.toList_append, Utf8.encode_append, heq, hnl, Assignment.line, assignment,
    List.append_assoc, List.cons_append, List.nil_append]

end Variable

/-- What a notice is meant to tell. -/
def Notice.variables : Notice → List Variable
  | .ready => [⟨"READY", "1", by decide, by decide⟩, ⟨"STATUS", "Hardware planes active", by decide, by decide⟩]
  | .status text => [⟨"STATUS", sanitizeValue text, by decide, sanitizeValue_unbroken text⟩]
  | .watchdog => [⟨"WATCHDOG", "1", by decide, by decide⟩]
  | .stopping => [⟨"STOPPING", "1", by decide, by decide⟩, ⟨"STATUS", "Shutting down cleanly", by decide, by decide⟩]

def Notice.pairs (n : Notice) : List (List UInt8 × List UInt8) :=
  n.variables.map fun v => (Utf8.encode v.name.toList, Utf8.encode v.value.toList)

/-- The text that is sent. -/
def Notice.state (n : Notice) : String :=
  String.join (n.variables.map fun v => v.name ++ "=" ++ v.value ++ "\n")

theorem notify_eq (env : NotifyEnv) (n : Notice) : notify env n = (sendNotification env n.state).2 := by
  cases n with
  | ready => rfl
  | status text => rfl
  | watchdog => rfl
  | stopping => rfl

theorem encode_join (texts : List String) :
    Utf8.encode (String.join texts).toList = texts.flatMap fun t => Utf8.encode t.toList := by
  induction texts with
  | nil => rfl
  | cons t texts ih => rw [String.join_cons, String.toList_append, Utf8.encode_append, ih, List.flatMap_cons]

theorem Notice.encode_state (n : Notice) :
    Utf8.encode n.state.toList = writeAssignments 10 (n.variables.map Variable.assignment) := by
  rw [state, encode_join, writeAssignments, List.flatMap_map, List.flatMap_map]
  refine List.flatMap_congr fun v _ => ?_
  exact v.line_assignment.symm

/-- A notice reaches the manager. -/
structure Reaches (env : NotifyEnv) (n : Notice) (d : Datagram) : Prop where
  fits : (Utf8.encode n.state.toList).length ≤ notifyMax
  addressed : ∃ path, env.notifySocket = some path ∧ notifyAddress env path = some d.addr
  socket : env.socket = .ok ()
  payload : d.payload = Utf8.encode n.state.toList
  taken : ∃ k, env.sendto d = .ok k

theorem sendNotificationTo_eq_some {env : NotifyEnv} {path state : String} {d : Datagram} :
    (sendNotificationTo env path state).2 = some d ↔
      notifyAddress env path = some d.addr ∧ env.socket = .ok () ∧
        d.payload = Utf8.encode state.toList ∧ ∃ k, env.sendto d = .ok k := by
  unfold sendNotificationTo
  cases haddr : notifyAddress env path with
  | none => simp
  | some addr =>
    cases hsocket : env.socket with
    | error e => simp
    | ok u =>
      cases hsend : env.sendto { addr, payload := Utf8.encode state.toList } with
      | error e =>
        simp only [hsend, reduceCtorEq, Option.some.injEq, false_iff]
        rintro ⟨rfl, -, hpayload, k, hk⟩
        rw [← hpayload, hk] at hsend
        cases hsend
      | ok k =>
        simp only [hsend, Option.some.injEq]
        constructor
        · rintro rfl
          exact ⟨rfl, trivial, rfl, k, hsend⟩
        · rintro ⟨rfl, -, hpayload, -⟩
          rw [← hpayload]

theorem notify_eq_some {env : NotifyEnv} {n : Notice} {d : Datagram} :
    notify env n = some d ↔ Reaches env n d := by
  rw [notify_eq, sendNotification]
  split
  · rename_i hlong
    exact ⟨fun h => (by cases h), fun h => absurd h.fits (Nat.not_le_of_lt hlong)⟩
  · rename_i hfits
    constructor
    · intro h
      cases hpath : env.notifySocket.filter fun path => !path.isEmpty with
      | none =>
        simp only [hpath] at h
        cases h
      | some path =>
        simp only [hpath] at h
        obtain ⟨haddr, hsocket, hpayload, htaken⟩ := sendNotificationTo_eq_some.mp h
        exact ⟨Nat.le_of_not_lt hfits, ⟨path, (Option.filter_eq_some_iff.mp hpath).1, haddr⟩, hsocket, hpayload, htaken⟩
    · intro h
      obtain ⟨path, hpath, haddr⟩ := h.addressed
      -- an empty path has no address
      have hne : (!path.isEmpty) = true := by
        by_contra hempty
        obtain rfl : path = "" := String.isEmpty_iff.mp (by simpa using hempty)
        cases haddr
      simp only [hpath, Option.filter_some, hne, if_true]
      exact sendNotificationTo_eq_some.mpr ⟨haddr, h.socket, h.payload, h.taken⟩

theorem Reaches.assignmentsOf {env : NotifyEnv} {n : Notice} {d : Datagram} (h : Reaches env n d) :
    assignmentsOf d = n.pairs := by
  have hbreak : isBreak 10 = true := rfl
  have hread := readAssignments_write hbreak rfl (n.variables.map Variable.assignment) []
  rw [List.append_nil, readAssignments_nil, List.append_nil, List.map_map, ← n.encode_state, ← h.payload] at hread
  exact hread

/-- No text can add to a notice or change what it says: whatever notices with
whatever status texts are sent, and whichever of them the kernel takes, the
assignments in the datagrams are those of the notices taken, in order. A status
is the one assignment of its text without line breaks. -/
theorem manager_told (calls : List (NotifyEnv × Notice)) :
    (calls.filterMap fun c => notify c.1 c.2).flatMap Notify.assignmentsOf =
      (calls.filter fun c => (notify c.1 c.2).isSome).flatMap fun c => c.2.pairs := by
  induction calls with
  | nil => rfl
  | cons c calls ih =>
    cases h : notify c.1 c.2 with
    | none => simpa [h] using ih
    | some d => simp [h, ih, (notify_eq_some.mp h).assignmentsOf]

end Inferenced.Notify
