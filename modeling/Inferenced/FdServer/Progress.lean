import Inferenced.FdServer.Accounting

/-!
# Every request for a descriptor is answered

`try_reserve` repeats its `compare_exchange` as long as other tasks change the
counter. They do so at most twice each, once for a reservation and once for its
release, so the number of repetitions is bounded by the number of connections,
whatever the order of the steps.
-/

namespace Inferenced.FdServer
open Lib Lib.Runs

/-- The request has been read and the connection is not done. -/
@[simp] def FdPc.busy : FdPc → Bool
  | .reading _ | .returned _ => false
  | _ => true

/-- The changes of the counter that the task can still make. -/
@[simp] def FdPc.changes : FdPc → ℕ
  | .reading _ | .tryReserve _ _ | .reserving _ _ _ => 2
  | .creating _ _ _ | .sending _ _ _ | .release _ _ | .releasing _ _ _ => 1
  | .quotaExceeded _ _ | .responding _ | .returned _ => 0

/-- The next `compare_exchange` of the task fails. -/
@[simp] def FdPc.stale (q : FdQuota) : FdPc → ℕ
  | .reserving _ _ current => if current = q.allocatedBytes then 0 else 1
  | _ => 0

/-- The steps that the task needs if nobody disturbs it, less its changes. -/
@[simp] def FdPc.slack : FdPc → ℕ
  | .reading _ | .tryReserve _ _ => 4
  | .reserving _ _ _ | .creating _ _ _ => 3
  | .sending _ _ _ | .quotaExceeded _ _ | .release _ (some _) => 2
  | .release _ none | .releasing _ _ (some _) | .responding _ => 1
  | .releasing _ _ none | .returned _ => 0

variable {fromSlice : List UInt8 → Option FdRequest} {q : FdQuota} {pc : FdPc} {s : Listener} {t : FdTask}
  {i j : ℕ}

theorem stale_le (q : FdQuota) (pc : FdPc) : pc.stale q ≤ 1 := by
  unfold FdPc.stale
  split
  · split
    · exact Nat.zero_le 1
    · exact Nat.le_refl 1
  · exact Nat.zero_le 1

/-- What a task needs at most, and at its start. -/
theorem needs_le (q : FdQuota) (pc : FdPc) : pc.slack + pc.changes + pc.stale q ≤ 6 ∧ pc.changes ≤ 2 := by
  have hstale := stale_le q pc
  cases pc with
  | release reserved reply => cases reply <;> simp
  | releasing reserved current reply => cases reply <;> simp
  | reserving name size current =>
    simp only [FdPc.slack, FdPc.changes]
    omega
  | _ => simp

/-! ### One step of a task -/

/-- A step uses up one of the steps that the task has left, and a step that
changes the counter one of its changes. -/
structure Spends (q : FdQuota) (pc : FdPc) (out : FdQuota × FdPc × List FdResponse) : Prop where
  steps : out.2.1.slack + out.2.1.changes + out.2.1.stale out.1 + pc.busy.toNat ≤
    pc.slack + pc.changes + pc.stale q
  changes : out.2.1.changes ≤ pc.changes
  counter : out.1.allocatedBytes = q.allocatedBytes ∨ out.2.1.changes + 1 ≤ pc.changes

theorem taskStep_spends (fromSlice : List UInt8 → Option FdRequest) (env : FdEnv) (q : FdQuota) (pc : FdPc) :
    Spends q pc (taskStep fromSlice env q pc) := by
  cases pc with
  | reading scratch =>
    obtain ⟨hsteps, hchanges⟩ := needs_le q (readFramedRequest fromSlice env.chunk scratch)
    exact ⟨hsteps, hchanges, Or.inl rfl⟩
  | reserving name size current =>
    unfold taskStep FdQuota.compareExchange
    dsimp only
    split
    · constructor <;> simp
      omega
    · by_cases hcurrent : q.allocatedBytes = current
      · rw [if_pos hcurrent]
        constructor <;> simp
      · -- the value found is the one of the counter, so only a change makes the next try fail
        rw [if_neg hcurrent]
        constructor <;> simp [Ne.symm hcurrent]
  | creating name size reserved =>
    unfold taskStep
    dsimp only
    split
    · constructor <;> simp
    · constructor <;> simp
  | release reserved reply =>
    cases reply with
    | none => constructor <;> simp [taskStep]
    | some reply => constructor <;> simp [taskStep]
  | releasing reserved current reply =>
    cases reply with
    | none => constructor <;> simp [taskStep, afterRelease]
    | some reply => constructor <;> simp [taskStep, afterRelease]
  | _ => constructor <;> simp [taskStep]

/-! ### The steps of a connection -/

/-- Task `i` takes a step after it has read its request. -/
def works (i : ℕ) (s : Listener) : FdOp → Bool
  | .accept => false
  | .task j _ => decide (j = i) && (s.tasks[i]?.map fun t => t.pc.busy).getD false

theorem works_of_absent (hj : s.tasks[j]? = none) (env : FdEnv) : (works i s (.task j env)).toNat = 0 := by
  by_cases hji : j = i
  · subst hji
    simp [works, hj]
  · simp [works, hji]

theorem works_of_present (hj : s.tasks[j]? = some t) (env : FdEnv) :
    (works i s (.task j env)).toNat = if j = i then t.pc.busy.toNat else 0 := by
  by_cases hji : j = i
  · subst hji
    simp [works, hj]
  · simp [works, hji]

def Listener.changes (s : Listener) : ℕ := (s.tasks.map fun t => t.pc.changes).sum

/-- What task `i` still needs, with all that others can do to it. -/
def Listener.needs (s : Listener) (i : ℕ) : ℕ :=
  (s.tasks[i]?.map fun t => t.pc.slack + t.pc.stale s.quota).getD 4 + s.changes

theorem needs_accept (s : Listener) (i : ℕ) : (step fromSlice s .accept).needs i = s.needs i + 2 := by
  have hchanges : (step fromSlice s .accept).changes = s.changes + 2 := by
    simp [Listener.changes, step]
  have hnew : ((step fromSlice s .accept).tasks[i]?.map fun t => t.pc.slack + t.pc.stale s.quota).getD 4 =
      (s.tasks[i]?.map fun t => t.pc.slack + t.pc.stale s.quota).getD 4 := by
    rw [step, List.getElem?_append]
    split
    · rfl
    · rename_i hlt
      rw [List.getElem?_eq_none (Nat.not_lt.mp hlt)]
      cases i - s.tasks.length with
      | zero => rfl
      | succ k => rfl
  rw [Listener.needs, hchanges, ← Nat.add_assoc]
  exact congrArg (· + s.changes + 2) hnew

theorem changes_set (hj : s.tasks[j]? = some t) (q' : FdQuota) (pc' : FdPc) (sent : List FdResponse) :
    Listener.changes ⟨q', s.tasks.set j { pc := pc', sent }⟩ + t.pc.changes = s.changes + pc'.changes :=
  sum_map_set (fun t : FdTask => t.pc.changes) hj

theorem needs_task (hj : s.tasks[j]? = some t) {out : FdQuota × FdPc × List FdResponse}
    (hspends : Spends s.quota t.pc out) (sent : List FdResponse) (i : ℕ) :
    Listener.needs ⟨out.1, s.tasks.set j { pc := out.2.1, sent }⟩ i + (if j = i then t.pc.busy.toNat else 0) ≤
      s.needs i := by
  have hchanges := changes_set hj out.1 out.2.1 sent
  have hsteps := hspends.steps
  by_cases hji : j = i
  · subst hji
    have hnew : (s.tasks.set j { pc := out.2.1, sent })[j]? = some { pc := out.2.1, sent } := by
      rw [getElem?_set_of_getElem? hj hj, if_pos rfl]
    simp only [Listener.needs, hnew, hj, Option.map_some, Option.getD_some, if_true]
    omega
  · rw [if_neg hji, Nat.add_zero, Listener.needs, Listener.needs]
    have hold : (s.tasks.set j { pc := out.2.1, sent })[i]? = s.tasks[i]? := List.getElem?_set_ne hji
    simp only [hold]
    cases hi : s.tasks[i]? with
    | none =>
      have hle := hspends.changes
      simp only [Option.map_none, Option.getD_none]
      omega
    | some u =>
      simp only [Option.map_some, Option.getD_some]
      rcases hspends.counter with hsame | hless
      · have hle := hspends.changes
        have hstale : u.pc.stale out.1 = u.pc.stale s.quota := by
          cases hu : u.pc <;> simp [hsame]
        omega
      · have hstale := stale_le out.1 u.pc
        omega

theorem needs_pos (hi : s.tasks[i]? = some t) (hbusy : t.pc.busy = true) : 0 < s.needs i := by
  have hown : 0 < t.pc.slack + t.pc.changes := by
    cases hpc : t.pc with
    | reading scratch | returned ok =>
      rw [hpc] at hbusy
      cases hbusy
    | release reserved reply | releasing reserved current reply => simp
    | _ => simp
  have hsum : t.pc.changes ≤ s.changes :=
    List.single_le_sum (fun _ _ => Nat.zero_le _) _ (List.mem_map_of_mem (List.mem_of_getElem? hi))
  simp only [Listener.needs, hi, Option.map_some, Option.getD_some]
  omega

/-- The steps done and the steps left of task `i` are at most two for each
connection, and four. -/
def Paced (i n : ℕ) (s : Listener) : Prop := n + s.needs i ≤ 2 * s.tasks.length + 4

theorem Paced.step {n : ℕ} (h : Paced i n s) (op : FdOp) :
    Paced i (n + (works i s op).toNat) (step fromSlice s op) := by
  unfold Paced at *
  cases op with
  | accept =>
    rw [needs_accept]
    simp only [works, Bool.toNat_false, FdServer.step, List.length_append, List.length_singleton]
    omega
  | task j env =>
    rw [FdServer.step]
    cases hj : s.tasks[j]? with
    | none =>
      rw [works_of_absent hj]
      exact h
    | some t =>
      have hneeds := needs_task hj (taskStep_spends fromSlice env s.quota t.pc)
        (t.sent ++ (taskStep fromSlice env s.quota t.pc).2.2) i
      rw [works_of_present hj]
      refine Nat.le_trans ?_ (Nat.le_of_eq (congrArg (2 * · + 4) List.length_set.symm))
      refine Nat.le_trans ?_ h
      rw [Nat.add_assoc]
      exact Nat.add_le_add_left ((Nat.add_comm ..).trans_le hneeds) n

/-! ### The response -/

/-- The response is out, or there is none to come. -/
@[simp] def FdPc.answered : FdPc → Bool
  | .release _ none | .releasing _ _ none | .returned _ => true
  | _ => false

/-- What a task has sent, after `n` steps with its request; `heard` says that all
its sends succeed. -/
structure Replied (heard : Prop) (n : ℕ) (t : FdTask) : Prop where
  silent : t.pc.answered = false → t.sent = []
  once : t.sent.length ≤ 1
  idle : ∀ scratch, t.pc = .reading scratch → n = 0
  complete : heard → t.pc.answered = true → (t.pc.busy = false ∧ n = 0) ∨ t.sent.length = 1

/-- A connection that ends without a request is not answered. -/
theorem readFramedRequest_answered (chunk : Option (List UInt8)) (scratch : List UInt8) :
    (readFramedRequest fromSlice chunk scratch).answered = true →
      (readFramedRequest fromSlice chunk scratch).busy = false := by
  have hcheck : ∀ req, (checkRequest req).answered = false := by
    intro req
    unfold checkRequest
    split
    · rfl
    · dsimp only
      split
      · rfl
      · rfl
  unfold readFramedRequest
  split
  · exact fun _ => rfl
  · exact fun _ => rfl
  · dsimp only
    split
    · split
      · exact fun _ => rfl
      · rw [hcheck]
        exact fun h => by cases h
    · split
      · exact fun _ => rfl
      · exact fun _ => rfl

theorem Replied.of_silent {heard : Prop} {n : ℕ} (hanswered : pc.answered = false)
    (hidle : ∀ scratch, pc ≠ .reading scratch) : Replied heard n { pc, sent := [] } where
  silent := fun _ => rfl
  once := Nat.zero_le 1
  idle := fun scratch h => absurd h (hidle scratch)
  complete := fun _ h => by
    rw [hanswered] at h
    cases h

theorem Replied.of_sent {heard : Prop} {n : ℕ} {sent : List FdResponse} (hanswered : pc.answered = true)
    (hidle : ∀ scratch, pc ≠ .reading scratch) (honce : sent.length ≤ 1) (hheard : heard → sent.length = 1) :
    Replied heard n { pc, sent } where
  silent := fun h => by
    rw [hanswered] at h
    cases h
  once := honce
  idle := fun scratch h => absurd h (hidle scratch)
  complete := fun h _ => Or.inr (hheard h)

theorem Replied.taskStep {heard : Prop} {n : ℕ} {sent : List FdResponse} (h : Replied heard n { pc, sent })
    (fromSlice : List UInt8 → Option FdRequest) (env : FdEnv) (q : FdQuota)
    (henv : heard → env.sent = true ∧ env.written = true) :
    Replied heard (n + pc.busy.toNat)
      { pc := (taskStep fromSlice env q pc).2.1, sent := sent ++ (taskStep fromSlice env q pc).2.2 } := by
  cases pc with
  | reading scratch =>
    obtain rfl : sent = [] := h.silent rfl
    have hzero : n = 0 := h.idle scratch rfl
    refine ⟨fun _ => rfl, Nat.zero_le 1, fun _ _ => hzero, fun _ hanswered => Or.inl ⟨?_, hzero⟩⟩
    exact readFramedRequest_answered env.chunk scratch hanswered
  | tryReserve name size =>
    obtain rfl : sent = [] := h.silent rfl
    exact .of_silent rfl (by simp [FdServer.taskStep])
  | reserving name size current =>
    obtain rfl : sent = [] := h.silent rfl
    unfold FdServer.taskStep FdQuota.compareExchange
    dsimp only
    split
    · exact .of_silent rfl (by simp)
    · by_cases hcurrent : q.allocatedBytes = current
      · rw [if_pos hcurrent]
        exact .of_silent rfl (by simp)
      · rw [if_neg hcurrent]
        exact .of_silent rfl (by simp)
  | quotaExceeded size current =>
    obtain rfl : sent = [] := h.silent rfl
    exact .of_silent rfl (by simp [FdServer.taskStep])
  | creating name size reserved =>
    obtain rfl : sent = [] := h.silent rfl
    unfold FdServer.taskStep
    dsimp only
    split
    · exact .of_silent rfl (by simp)
    · exact .of_silent rfl (by simp)
  | sending name size reserved =>
    obtain rfl : sent = [] := h.silent rfl
    refine .of_sent rfl (by simp [FdServer.taskStep]) ?_ fun hheard => ?_
    · simp only [FdServer.taskStep]
      split <;> simp
    · simp [FdServer.taskStep, (henv hheard).1]
  | release reserved reply =>
    cases reply with
    | some reply =>
      obtain rfl : sent = [] := h.silent rfl
      exact .of_silent rfl (by simp [FdServer.taskStep])
    | none =>
      have hone : heard → sent.length = 1 := fun hheard => by simpa using h.complete hheard rfl
      exact .of_sent rfl (by simp [FdServer.taskStep]) (by simpa [FdServer.taskStep] using h.once)
        (by simpa [FdServer.taskStep] using hone)
  | releasing reserved current reply =>
    cases reply with
    | some reply =>
      obtain rfl : sent = [] := h.silent rfl
      exact .of_silent rfl (by simp [FdServer.taskStep, afterRelease])
    | none =>
      have hone : heard → sent.length = 1 := fun hheard => by simpa using h.complete hheard rfl
      exact .of_sent rfl (by simp [FdServer.taskStep, afterRelease])
        (by simpa [FdServer.taskStep] using h.once) (by simpa [FdServer.taskStep] using hone)
  | responding reply =>
    obtain rfl : sent = [] := h.silent rfl
    refine .of_sent rfl (by simp [FdServer.taskStep]) ?_ fun hheard => ?_
    · simp only [FdServer.taskStep]
      split <;> simp
    · simp [FdServer.taskStep, (henv hheard).2]
  | returned ok =>
    have hsame : sent ++ [] = sent := List.append_nil sent
    simpa [FdServer.taskStep, hsame] using h

/-! ### Runs -/

/-- The sends of task `i` succeed. -/
def Heard (i : ℕ) : FdOp → Prop
  | .accept => True
  | .task j env => j = i → env.sent = true ∧ env.written = true

/-- Task `i`, once it is there, has replied. -/
structure Answers (heard : Prop) (i n : ℕ) (s : Listener) : Prop where
  absent : s.tasks.length ≤ i → n = 0
  replied : ∀ t, s.tasks[i]? = some t → Replied heard n t

theorem Answers.step {heard : Prop} {n : ℕ} (h : Answers heard i n s) (op : FdOp) (hop : heard → Heard i op) :
    Answers heard i (n + (works i s op).toNat) (step fromSlice s op) := by
  cases op with
  | accept =>
    refine ⟨fun hlen => h.absent ?_, fun t ht => ?_⟩
    · simp only [FdServer.step, List.length_append] at hlen
      omega
    · rw [FdServer.step, List.getElem?_append] at ht
      split at ht
      · exact h.replied t ht
      · rename_i hlt
        obtain rfl : n = 0 := h.absent (Nat.not_lt.mp hlt)
        rw [List.mem_singleton.mp (List.mem_of_getElem? ht)]
        exact ⟨fun _ => rfl, Nat.zero_le 1, fun _ _ => rfl, fun _ hanswered => by cases hanswered⟩
  | task j env =>
    rw [FdServer.step]
    cases hj : s.tasks[j]? with
    | none =>
      rw [works_of_absent hj]
      exact h
    | some t =>
      rw [works_of_present hj]
      refine ⟨fun hlen => ?_, fun t' ht' => ?_⟩
      · rw [List.length_set] at hlen
        have hlt : j < s.tasks.length := (List.getElem?_eq_some_iff.mp hj).1
        rw [if_neg (by omega), Nat.add_zero]
        exact h.absent hlen
      · by_cases hji : j = i
        · subst hji
          rw [getElem?_set_of_getElem? hj hj, if_pos rfl] at ht'
          cases ht'
          rw [if_pos rfl]
          exact (h.replied t hj).taskStep fromSlice env s.quota fun hheard => hop hheard rfl
        · rw [List.getElem?_set_ne hji] at ht'
          rw [if_neg hji, Nat.add_zero]
          exact h.replied t' ht'

/-- Every request for a descriptor is answered: in every interleaving of any
number of connections, a connection that has read its request is done after at
most `2 n + 4` steps of its own, where `n` counts the connections so far,
whatever the others do in between; it sends one response at most, and exactly one
if its sends succeed. -/
theorem descriptor_request_answered (fromSlice : List UInt8 → Option FdRequest) (ceiling : UInt64)
    (ops : List FdOp) (i : ℕ) (t : FdTask)
    (ht : (exec (step fromSlice) (start (.new ceiling)) ops).tasks[i]? = some t) :
    let n := (exec (step fromSlice) (start (.new ceiling)) ops).tasks.length
    let steps := ticks (step fromSlice) (works i) (start (.new ceiling)) ops
    steps ≤ 2 * n + 4 ∧ (t.pc.busy = true → steps < 2 * n + 4) ∧
    t.sent.length ≤ 1 ∧
    ((∀ op ∈ ops, Heard i op) → 0 < steps → (∃ ok, t.pc = .returned ok) → t.sent.length = 1) := by
  intro n steps
  have hpaced : Paced i (0 + steps) (exec (step fromSlice) (start (.new ceiling)) ops) :=
    exec_inv_ticks (C := fun _ _ => True) (Paced i) (fun _ _ op _ h => h.step op) 0 _ ops (Nat.le_refl 4)
      (along_of_forall ops (fun _ _ _ => trivial) _)
  have hstart : ∀ heard, Answers heard i 0 (start (.new ceiling)) := fun heard =>
    ⟨fun _ => rfl, fun t ht => absurd ht (by simp [start])⟩
  have hanswers : Answers (∀ op ∈ ops, Heard i op) i (0 + steps)
      (exec (step fromSlice) (start (.new ceiling)) ops) :=
    exec_inv_ticks (C := fun _ op => op ∈ ops) (Answers (∀ op ∈ ops, Heard i op) i)
      (fun _ _ op hop h => h.step op fun hheard => hheard op hop) 0 _ ops (hstart _)
      (along_of_forall ops (fun _ hop _ => hop) _)
  rw [Nat.zero_add] at hpaced hanswers
  have hbound : steps + Listener.needs _ i ≤ 2 * n + 4 := hpaced
  have hreplied := hanswers.replied t ht
  refine ⟨by omega, fun hbusy => ?_, hreplied.once, ?_⟩
  · have hneeds := needs_pos ht hbusy
    omega
  · rintro hheard hsteps ⟨ok, hok⟩
    rcases hreplied.complete hheard (by rw [hok]; rfl) with ⟨-, hzero⟩ | hone
    · omega
    · exact hone

/-- Task 1 reserves between the load and the `compare_exchange` of task 0. -/
def rivalRun : List FdOp :=
  [.accept, .accept, .task 0 shardEnv, .task 0 shardEnv,
   .task 1 shardEnv, .task 1 shardEnv, .task 1 shardEnv,
   .task 0 shardEnv, .task 0 shardEnv, .task 0 shardEnv, .task 0 shardEnv, .task 0 shardEnv,
   .task 0 shardEnv]

theorem descriptor_request_answered_rivalRun :
    ticks (step shardSlice) (works 0) (start (.new u64Max)) rivalRun = 7 ∧
    ∃ t, (exec (step shardSlice) (start (.new u64Max)) rivalRun).tasks[0]? = some t ∧
      t.pc = .returned true ∧ t.sent.length = 1 := by
  have hheard : ∀ op ∈ rivalRun, Heard 0 op := by simp [rivalRun, Heard, shardEnv]
  have hticks : ticks (step shardSlice) (works 0) (start (.new u64Max)) rivalRun = 7 := by decide +kernel
  obtain ⟨t, ht, hpc⟩ : ∃ t, (exec (step shardSlice) (start (.new u64Max)) rivalRun).tasks[0]? = some t ∧
      t.pc = .returned true := ⟨_, rfl, by decide +kernel⟩
  obtain ⟨-, -, -, hone⟩ := descriptor_request_answered shardSlice u64Max rivalRun 0 t ht
  exact ⟨hticks, t, ht, hpc, hone hheard (by rw [hticks]; decide) ⟨true, hpc⟩⟩

end Inferenced.FdServer
