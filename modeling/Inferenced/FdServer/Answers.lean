import Inferenced.FdServer.Progress

/-!
# The responses of the descriptor server

A task keeps no copy of its request: name, size and reservation go from one step
to the next while other tasks run. What it sends in the end is an answer to the
request that its own client has written.
-/

namespace Inferenced.FdServer
open Lib Lib.Runs

/-- The name and the size that a request asks for, if it is one the server
serves. -/
structure FdRequest.Asks (req : FdRequest) (name : String) (size : UInt64) : Prop where
  served : req.action = "create" ∨ req.action = "lease"
  named : name = req.name.getD "inferenced-shm"
  sized : size = req.sizeBytes.getD (4 * 1024 * 1024)
  fits : size ≤ maxMemfdBytes

/-- The answers that a request can get under this ceiling. -/
inductive FdRequest.Answer (ceiling : UInt64) (req : FdRequest) : FdResponse → Prop
  | unknownAction (h : req.action ≠ "create" ∧ req.action ≠ "lease") :
      Answer ceiling req (.error ("Unknown action '" ++ req.action ++
        "'. Supported actions: 'create', 'lease'"))
  | tooLarge (size : UInt64) (hsize : size = req.sizeBytes.getD (4 * 1024 * 1024)) (h : maxMemfdBytes < size) :
      Answer ceiling req (.error ("Requested size " ++ toString size.toNat ++ " exceeds limit of " ++
        toString maxMemfdBytes.toNat ++ " bytes"))
  | quotaExceeded (name : String) (size current : UInt64) (h : req.Asks name size)
      (hover : ceiling.toNat < current.toNat + size.toNat) :
      Answer ceiling req (.error ("Quota exceeded: " ++ toString current.toNat ++
        " bytes already allocated, request " ++ toString size.toNat ++ " bytes"))
  | failed (name : String) (size : UInt64) (h : req.Asks name size) (e : String) :
      Answer ceiling req (.error ("Failed to create sealed memfd: " ++ e))
  | created (name : String) (size : UInt64) (h : req.Asks name size) :
      Answer ceiling req
        { status := "ok"
          message := some ("Created sealed memfd '" ++ name ++ "' (" ++ toString size.toNat ++ " bytes)") }

/-- What task `i` reads in a step. -/
def reads (i : ℕ) (s : Listener) : FdOp → List UInt8
  | .accept => []
  | .task j env =>
    if j = i then
      match s.tasks[i]? with
      | some { pc := .reading _, .. } => env.chunk.getD []
      | _ => []
    else []

section
variable (fromSlice : List UInt8 → Option FdRequest) (ceiling : UInt64) (bytes : List UInt8)

/-- The request at the front of the bytes. -/
def Requested (req : FdRequest) : Prop :=
  0 ∈ bytes ∧ fromSlice (bytes.takeWhile fun b => decide (b ≠ 0)) = some req

def Answered (r : FdResponse) : Prop := ∃ req, Requested fromSlice bytes req ∧ req.Answer ceiling r

def Asked (name : String) (size : UInt64) : Prop := ∃ req, Requested fromSlice bytes req ∧ req.Asks name size

/-- How far a task has come with the request in the bytes it has read. -/
def FdPc.Follows : FdPc → Prop
  | .reading scratch => scratch = bytes
  | .tryReserve name size | .reserving name size _ => Asked fromSlice bytes name size
  | .quotaExceeded size current =>
    ∃ name, Asked fromSlice bytes name size ∧ ceiling.toNat < current.toNat + size.toNat
  | .creating name size _ | .sending name size _ => Asked fromSlice bytes name size
  | .release _ reply | .releasing _ _ reply => ∀ r ∈ reply, Answered fromSlice ceiling bytes r
  | .responding reply => Answered fromSlice ceiling bytes reply
  | .returned _ => True

structure FdTask.Follows (t : FdTask) : Prop where
  pc : t.pc.Follows fromSlice ceiling bytes
  sent : ∀ r ∈ t.sent, Answered fromSlice ceiling bytes r

end

variable {fromSlice : List UInt8 → Option FdRequest} {ceiling : UInt64} {bytes : List UInt8} {q : FdQuota}
  {pc : FdPc} {s : Listener} {t : FdTask} {i j : ℕ}

/-- Bytes behind the request do not change it. -/
theorem Answered.append {r : FdResponse} (h : Answered fromSlice ceiling bytes r) (more : List UInt8) :
    Answered fromSlice ceiling (bytes ++ more) r := by
  obtain ⟨req, ⟨hnul, hparse⟩, hanswer⟩ := h
  obtain ⟨l, m, rfl, hl⟩ := List.eq_append_cons_of_mem hnul
  rw [Text.takeWhile_ne_append hl] at hparse
  refine ⟨req, ⟨List.mem_append_left _ hnul, ?_⟩, hanswer⟩
  rw [List.append_assoc, List.cons_append, Text.takeWhile_ne_append hl]
  exact hparse

theorem checkRequest_follows {req : FdRequest} (h : Requested fromSlice bytes req) :
    (checkRequest req).Follows fromSlice ceiling bytes := by
  unfold checkRequest
  split
  · rename_i haction
    exact ⟨req, h, .unknownAction haction⟩
  · rename_i haction
    dsimp only
    split
    · rename_i hsize
      exact ⟨req, h, .tooLarge _ rfl hsize⟩
    · rename_i hsize
      refine ⟨req, h, ?_, rfl, rfl, UInt64.not_lt.mp hsize⟩
      tauto

theorem readFramedRequest_follows (chunk : Option (List UInt8)) :
    (readFramedRequest fromSlice chunk bytes).Follows fromSlice ceiling (bytes ++ chunk.getD []) := by
  unfold readFramedRequest
  split
  · exact trivial
  · exact trivial
  · rename_i chunk hne
    dsimp only
    split
    · rename_i hnul
      split
      · exact trivial
      · rename_i req hreq
        exact checkRequest_follows ⟨hnul, hreq⟩
    · split
      · exact trivial
      · exact rfl

theorem taskStep_follows (env : FdEnv) (hceiling : q.ceilingBytes = ceiling)
    (hpc : pc.Follows fromSlice ceiling bytes) (hbusy : ∀ scratch, pc ≠ .reading scratch) :
    (taskStep fromSlice env q pc).2.1.Follows fromSlice ceiling bytes ∧
      ∀ r ∈ (taskStep fromSlice env q pc).2.2, Answered fromSlice ceiling bytes r := by
  have hnone : ∀ r ∈ ([] : List FdResponse), Answered fromSlice ceiling bytes r := fun r hr => by cases hr
  cases pc with
  | reading scratch => exact absurd rfl (hbusy scratch)
  | tryReserve name size => exact ⟨hpc, hnone⟩
  | reserving name size current =>
    unfold taskStep FdQuota.compareExchange
    dsimp only
    split
    · rename_i hover
      refine ⟨⟨name, hpc, ?_⟩, hnone⟩
      rw [hceiling, UInt64.lt_iff_toNat_lt, toNat_saturatingAdd] at hover
      omega
    · by_cases hcurrent : q.allocatedBytes = current
      · rw [if_pos hcurrent]
        exact ⟨hpc, hnone⟩
      · rw [if_neg hcurrent]
        exact ⟨hpc, hnone⟩
  | quotaExceeded size current =>
    obtain ⟨name, ⟨req, hreq, hasks⟩, hover⟩ := hpc
    exact ⟨⟨req, hreq, .quotaExceeded name size current hasks hover⟩, hnone⟩
  | creating name size reserved =>
    unfold taskStep
    dsimp only
    split
    · exact ⟨hpc, hnone⟩
    · rename_i e he
      obtain ⟨req, hreq, hasks⟩ := hpc
      refine ⟨fun r hr => ?_, hnone⟩
      cases hr
      exact ⟨req, hreq, .failed name size hasks e⟩
  | sending name size reserved =>
    obtain ⟨req, hreq, hasks⟩ := hpc
    refine ⟨fun r hr => (by cases hr), fun r hr => ?_⟩
    unfold taskStep at hr
    dsimp only at hr
    split at hr
    · rw [List.mem_singleton.mp hr]
      exact ⟨req, hreq, .created name size hasks⟩
    · cases hr
  | release reserved reply => exact ⟨hpc, hnone⟩
  | releasing reserved current reply =>
    refine ⟨?_, hnone⟩
    cases reply with
    | none => exact trivial
    | some reply => exact hpc reply rfl
  | responding reply =>
    refine ⟨trivial, fun r hr => ?_⟩
    unfold taskStep at hr
    dsimp only at hr
    split at hr
    · rw [List.mem_singleton.mp hr]
      exact hpc
    · cases hr
  | returned ok => exact ⟨trivial, hnone⟩

/-! ### Runs -/

theorem reads_of_reading {scratch : List UInt8} (hi : s.tasks[i]? = some t) (hpc : t.pc = .reading scratch)
    (env : FdEnv) : reads i s (.task i env) = env.chunk.getD [] := by
  obtain ⟨pc, sent⟩ := t
  subst hpc
  simp only [reads, hi, if_true]

theorem reads_of_busy (hi : s.tasks[i]? = some t) (hpc : ∀ scratch, t.pc ≠ .reading scratch) (env : FdEnv) :
    reads i s (.task i env) = [] := by
  obtain ⟨pc, sent⟩ := t
  simp only [reads, hi, if_true]
  split
  · rename_i heq
    cases heq
    exact absurd rfl (hpc _)
  · rfl

theorem FdTask.Follows.task (h : t.Follows fromSlice ceiling bytes) (hi : s.tasks[i]? = some t) (env : FdEnv)
    (hceiling : s.quota.ceilingBytes = ceiling) :
    FdTask.Follows fromSlice ceiling (bytes ++ reads i s (.task i env))
      { pc := (taskStep fromSlice env s.quota t.pc).2.1
        sent := t.sent ++ (taskStep fromSlice env s.quota t.pc).2.2 } := by
  by_cases hreading : ∃ scratch, t.pc = .reading scratch
  · obtain ⟨scratch, hpc⟩ := hreading
    have hscratch := h.pc
    rw [hpc] at hscratch
    cases hscratch
    rw [reads_of_reading hi hpc, hpc]
    refine ⟨readFramedRequest_follows env.chunk, fun r hr => ?_⟩
    rw [taskStep, List.append_nil] at hr
    exact (h.sent r hr).append _
  · have hbusy : ∀ scratch, t.pc ≠ .reading scratch := fun scratch hpc => hreading ⟨scratch, hpc⟩
    rw [reads_of_busy hi hbusy, List.append_nil]
    obtain ⟨hpc, hsent⟩ := taskStep_follows env hceiling h.pc hbusy
    refine ⟨hpc, fun r hr => ?_⟩
    rcases List.mem_append.mp hr with hr | hr
    · exact h.sent r hr
    · exact hsent r hr

/-- Task `i`, once it is there, follows the request in the bytes it has read. -/
structure Faithful (fromSlice : List UInt8 → Option FdRequest) (ceiling : UInt64) (i : ℕ) (bytes : List UInt8)
    (s : Listener) : Prop where
  limit : s.quota.ceilingBytes = ceiling
  absent : s.tasks.length ≤ i → bytes = []
  follows : ∀ t, s.tasks[i]? = some t → t.Follows fromSlice ceiling bytes

theorem Faithful.step (h : Faithful fromSlice ceiling i bytes s) (op : FdOp) :
    Faithful fromSlice ceiling i (bytes ++ reads i s op) (step fromSlice s op) := by
  have hceiling : (FdServer.step fromSlice s op).quota.ceilingBytes = ceiling :=
    (ceiling_step s op).trans h.limit
  cases op with
  | accept =>
    refine ⟨hceiling, fun hlen => ?_, fun t ht => ?_⟩
    · simp only [FdServer.step, List.length_append] at hlen
      rw [h.absent (by omega)]
      rfl
    · rw [reads, List.append_nil]
      rw [FdServer.step, List.getElem?_append] at ht
      split at ht
      · exact h.follows t ht
      · rename_i hlt
        rw [List.mem_singleton.mp (List.mem_of_getElem? ht), h.absent (Nat.not_lt.mp hlt)]
        exact ⟨rfl, fun r hr => by cases hr⟩
  | task j env =>
    cases hj : s.tasks[j]? with
    | none =>
      have hnone : reads i s (.task j env) = [] := by
        by_cases hji : j = i
        · subst hji
          simp only [reads, hj, if_true]
        · exact if_neg hji
      rw [hnone, List.append_nil, FdServer.step, hj]
      exact h
    | some t =>
      have hlt : j < s.tasks.length := (List.getElem?_eq_some_iff.mp hj).1
      refine ⟨hceiling, fun hlen => ?_, fun t' ht' => ?_⟩
      · rw [FdServer.step, hj] at hlen
        simp only [List.length_set] at hlen
        rw [h.absent hlen, reads, if_neg (by omega)]
        rfl
      · simp only [FdServer.step, hj] at ht'
        by_cases hji : j = i
        · subst hji
          rw [getElem?_set_of_getElem? hj hj, if_pos rfl] at ht'
          cases ht'
          exact (h.follows t hj).task hj env h.limit
        · rw [List.getElem?_set_ne hji] at ht'
          rw [reads, if_neg hji, List.append_nil]
          exact h.follows t' ht'

/-- Every response is for its own request: in every interleaving of any number of
connections, what a task has sent is an answer to the request that stands before
the first NUL of the bytes it has read itself. The name and the size in it are
those of that request, and a refusal for the quota names a value with which the
request exceeds the ceiling. -/
theorem response_to_own_request (fromSlice : List UInt8 → Option FdRequest) (ceiling : UInt64)
    (ops : List FdOp) (i : ℕ) (t : FdTask)
    (ht : (exec (step fromSlice) (start (.new ceiling)) ops).tasks[i]? = some t) (r : FdResponse)
    (hr : r ∈ t.sent) :
    let bytes := emitted (step fromSlice) (reads i) (start (.new ceiling)) ops
    0 ∈ bytes ∧
    ∃ req, fromSlice (bytes.takeWhile fun b => decide (b ≠ 0)) = some req ∧ req.Answer ceiling r := by
  intro bytes
  have hfaithful : Faithful fromSlice ceiling i ([] ++ bytes)
      (exec (step fromSlice) (start (.new ceiling)) ops) :=
    exec_inv_emitted (C := fun _ _ => True) (Faithful fromSlice ceiling i) (fun _ _ op _ h => h.step op) [] _ ops
      ⟨rfl, fun _ => rfl, fun t ht => absurd ht (by simp [start])⟩ (along_of_forall ops (fun _ _ _ => trivial) _)
  obtain ⟨req, ⟨hnul, hparse⟩, hanswer⟩ := (hfaithful.follows t ht).sent r hr
  exact ⟨hnul, req, hparse, hanswer⟩

theorem response_to_own_request_rivalRun :
    ∃ t, (exec (step shardSlice) (start (.new u64Max)) rivalRun).tasks[0]? = some t ∧ t.sent ≠ [] ∧
      ∀ r ∈ t.sent, ∃ req, shardSlice shardPayload = some req ∧ req.Answer u64Max r := by
  have hbytes : emitted (step shardSlice) (reads 0) (start (.new u64Max)) rivalRun = shardPayload ++ [0] := by
    decide +kernel
  obtain ⟨t, ht, hne⟩ : ∃ t, (exec (step shardSlice) (start (.new u64Max)) rivalRun).tasks[0]? = some t ∧
      t.sent ≠ [] := ⟨_, rfl, by decide +kernel⟩
  refine ⟨t, ht, hne, fun r hr => ?_⟩
  obtain ⟨-, req, hparse, hanswer⟩ := response_to_own_request shardSlice u64Max rivalRun 0 t ht r hr
  rw [hbytes] at hparse
  exact ⟨req, hparse, hanswer⟩

end Inferenced.FdServer
