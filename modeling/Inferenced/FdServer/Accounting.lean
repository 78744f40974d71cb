import Inferenced.FdServer
import Inferenced.Lib.Runs
import Mathlib.Algebra.Order.BigOperators.Group.List

/-!
# The quota of the descriptor server

The counter is the sum of the reservations that tasks hold. A `release` reads
the counter while its own reservation is still in it, so its clamp never bites,
whatever other tasks do before the subtraction. A reservation is counted in full
unless the sum saturates, which the test against the ceiling lets through for
one ceiling, the largest `u64`.
-/

namespace Inferenced.FdServer
open Lib Lib.Runs

theorem toNat_u64Max : u64Max.toNat = 2 ^ 64 - 1 := rfl

theorem toNat_saturatingAdd (a b : UInt64) :
    (saturatingAdd a b).toNat = min (a.toNat + b.toNat) (2 ^ 64 - 1) := by
  have ha := a.toNat_lt
  have hb := b.toNat_lt
  unfold saturatingAdd
  split
  · rename_i h
    rw [UInt64.lt_iff_toNat_lt, UInt64.toNat_add] at h
    rw [toNat_u64Max]
    omega
  · rename_i h
    rw [UInt64.lt_iff_toNat_lt, UInt64.toNat_add] at h
    rw [UInt64.toNat_add]
    omega

/-- The bytes of the reservation that a task holds: granted, and not yet
subtracted again. -/
def FdPc.held : FdPc → ℕ
  | .creating _ _ reserved | .sending _ _ reserved => reserved.toNat
  | .release reserved _ | .releasing reserved _ _ => reserved.toNat
  | .reading _ | .tryReserve _ _ | .reserving _ _ _ | .quotaExceeded _ _ => 0
  | .responding _ | .returned _ => 0

def Listener.reserved (s : Listener) : ℕ := (s.tasks.map fun t => t.pc.held).sum

/-- What a task relies on between two of its atomic operations. -/
def FdPc.Sound (ceiling : UInt64) : FdPc → Prop
  | .quotaExceeded size current => ceiling.toNat < current.toNat + size.toNat
  | .releasing reserved current _ => reserved ≤ current
  | _ => True

/-- The reservation that the task is about to make saturates and is let through. -/
def FdPc.Saturates (q : FdQuota) : FdPc → Prop
  | .reserving _ size current => q.ceilingBytes = u64Max ∧ q.allocatedBytes = current ∧
      2 ^ 64 ≤ current.toNat + size.toNat
  | _ => False

/-! ### One step of a task -/

variable {fromSlice : List UInt8 → Option FdRequest} {q : FdQuota} {pc : FdPc}

theorem held_checkRequest (req : FdRequest) (ceiling : UInt64) :
    (checkRequest req).held = 0 ∧ (checkRequest req).Sound ceiling := by
  unfold checkRequest
  dsimp only
  split
  · exact ⟨rfl, trivial⟩
  · split <;> exact ⟨rfl, trivial⟩

theorem held_readFramedRequest (chunk : Option (List UInt8)) (scratch : List UInt8)
    (ceiling : UInt64) : (readFramedRequest fromSlice chunk scratch).held = 0 ∧
      (readFramedRequest fromSlice chunk scratch).Sound ceiling := by
  unfold readFramedRequest
  dsimp only
  split
  · exact ⟨rfl, trivial⟩
  · exact ⟨rfl, trivial⟩
  · split
    · split
      · exact ⟨rfl, trivial⟩
      · exact held_checkRequest _ _
    · split <;> exact ⟨rfl, trivial⟩

theorem held_afterRelease (reply : Option FdResponse) (ceiling : UInt64) :
    (afterRelease reply).held = 0 ∧ (afterRelease reply).Sound ceiling := by
  cases reply <;> exact ⟨rfl, trivial⟩

/-- A step of a task is quiet, or swaps its reservation in, or takes it out. -/
inductive TaskChange (q : FdQuota) : FdPc → FdQuota × FdPc × List FdResponse → Prop
  | quiet {pc pc' : FdPc} {sent : List FdResponse} (held : pc'.held = pc.held)
      (sound : pc.held ≤ q.allocatedBytes.toNat → pc'.Sound q.ceilingBytes) :
      TaskChange q pc (q, pc', sent)
  | reserve (name : String) (size : UInt64)
      (fits : saturatingAdd q.allocatedBytes size ≤ q.ceilingBytes) :
      TaskChange q (.reserving name size q.allocatedBytes)
        ({ q with allocatedBytes := saturatingAdd q.allocatedBytes size }, .creating name size size, [])
  | release (reserved current : UInt64) (reply : Option FdResponse) :
      TaskChange q (.releasing reserved current reply)
        (q.fetchSub (if reserved ≤ current then reserved else current), afterRelease reply, [])

theorem taskStep_change (fromSlice : List UInt8 → Option FdRequest) (env : FdEnv) (q : FdQuota)
    (pc : FdPc) : TaskChange q pc (taskStep fromSlice env q pc) := by
  cases pc with
  | reading scratch =>
    exact .quiet (held_readFramedRequest _ _ q.ceilingBytes).1
      fun _ => (held_readFramedRequest _ _ _).2
  | tryReserve name size => exact .quiet rfl fun _ => trivial
  | reserving name size current =>
    unfold taskStep FdQuota.compareExchange
    dsimp only
    split
    · rename_i h
      refine .quiet rfl fun _ => ?_
      rw [UInt64.lt_iff_toNat_lt, toNat_saturatingAdd] at h
      show q.ceilingBytes.toNat < current.toNat + size.toNat
      omega
    · rename_i h
      by_cases hc : q.allocatedBytes = current
      · subst hc
        rw [if_pos rfl]
        exact .reserve name size (UInt64.not_lt.mp h)
      · rw [if_neg hc]
        exact .quiet rfl fun _ => trivial
  | quotaExceeded size current => exact .quiet rfl fun _ => trivial
  | creating name size reserved =>
    unfold taskStep
    dsimp only
    split <;> exact .quiet rfl fun _ => trivial
  | sending name size reserved => exact .quiet rfl fun _ => trivial
  | release reserved reply => exact .quiet rfl fun h => UInt64.le_iff_toNat_le.mpr h
  | releasing reserved current reply => exact .release reserved current reply
  | responding reply => exact .quiet rfl fun _ => trivial
  | returned ok => exact .quiet rfl fun _ => trivial

/-! ### One step of the listener -/

/-- The counter holds what the tasks hold. -/
structure Ledger (s : Listener) : Prop where
  balanced : s.quota.allocatedBytes.toNat = s.reserved
  bounded : s.quota.allocatedBytes ≤ s.quota.ceilingBytes
  sound : ∀ t ∈ s.tasks, t.pc.Sound s.quota.ceilingBytes

/-- No step of the run swaps in a sum that saturates. -/
def SumFits (s : Listener) : FdOp → Prop
  | .accept => True
  | .task i _ => ∀ t, s.tasks[i]? = some t → ¬t.pc.Saturates s.quota

theorem ledger_start (ceiling : UInt64) : Ledger (start (.new ceiling)) where
  balanced := rfl
  bounded := UInt64.zero_le
  sound := fun _ ht => absurd ht List.not_mem_nil

variable {s : Listener} {t : FdTask} {i : ℕ}

theorem Ledger.held_le (h : Ledger s) (ht : t ∈ s.tasks) :
    t.pc.held ≤ s.quota.allocatedBytes.toNat := by
  rw [h.balanced]
  exact List.single_le_sum (fun _ _ => Nat.zero_le _) _ (List.mem_map_of_mem ht)

theorem sound_set {ceiling : UInt64} {pc' : FdPc} {sent : List FdResponse}
    (h : ∀ t ∈ s.tasks, t.pc.Sound ceiling) (hpc : pc'.Sound ceiling) :
    ∀ t ∈ s.tasks.set i { pc := pc', sent }, t.pc.Sound ceiling := by
  intro t ht
  rcases List.mem_or_eq_of_mem_set ht with ht | rfl
  · exact h t ht
  · exact hpc

theorem reserved_set (q' : FdQuota) (t' : FdTask) (hi : s.tasks[i]? = some t) :
    Listener.reserved ⟨q', s.tasks.set i t'⟩ + t.pc.held = s.reserved + t'.pc.held :=
  sum_map_set (fun t : FdTask => t.pc.held) hi

theorem toNat_fetchSub {reserved current : UInt64} (hcur : reserved ≤ current)
    (hle : reserved.toNat ≤ q.allocatedBytes.toNat) :
    (q.fetchSub (if reserved ≤ current then reserved else current)).allocatedBytes.toNat =
      q.allocatedBytes.toNat - reserved.toNat := by
  rw [if_pos hcur]
  exact UInt64.toNat_sub_of_le _ _ (UInt64.le_iff_toNat_le.mpr hle)

theorem Ledger.task {out : FdQuota × FdPc × List FdResponse} (h : Ledger s)
    (hi : s.tasks[i]? = some t) (hpc : t.pc = pc) (hchange : TaskChange s.quota pc out)
    (hsat : ¬pc.Saturates s.quota) :
    Ledger ⟨out.1, s.tasks.set i { pc := out.2.1, sent := t.sent ++ out.2.2 }⟩ := by
  have hmem : t ∈ s.tasks := List.mem_of_getElem? hi
  have hheld := h.held_le hmem
  have hsound := h.sound t hmem
  have hbal := h.balanced
  have hsum := reserved_set out.1 { pc := out.2.1, sent := t.sent ++ out.2.2 } hi
  rw [hpc] at hheld hsound hsum
  cases hchange with
  | quiet hsame hnext =>
    refine ⟨?_, h.bounded, sound_set h.sound (hnext hheld)⟩
    dsimp only at hsum ⊢
    omega
  | reserve name size fits =>
    -- the sum is exact: a saturated one would pass the test only at the largest ceiling
    have hfit : s.quota.allocatedBytes.toNat + size.toNat < 2 ^ 64 := by
      by_contra hover
      have hmax : s.quota.ceilingBytes = u64Max := by
        rw [UInt64.le_iff_toNat_le, toNat_saturatingAdd] at fits
        have hlt := s.quota.ceilingBytes.toNat_lt
        exact UInt64.toNat_inj.mp (by rw [toNat_u64Max]; omega)
      exact hsat ⟨hmax, rfl, Nat.not_lt.mp hover⟩
    refine ⟨?_, fits, sound_set h.sound trivial⟩
    simp only [FdPc.held, toNat_saturatingAdd] at hsum ⊢
    omega
  | release reserved current reply =>
    obtain ⟨hzero, hafter⟩ := held_afterRelease reply s.quota.ceilingBytes
    have hcount := toNat_fetchSub hsound hheld
    refine ⟨?_, ?_, sound_set h.sound hafter⟩
    · dsimp only at hsum ⊢
      rw [hcount]
      rw [hzero] at hsum
      simp only [FdPc.held] at hsum
      omega
    · have hbound := UInt64.le_iff_toNat_le.mp h.bounded
      refine UInt64.le_iff_toNat_le.mpr (Nat.le_trans (Nat.le_of_eq hcount) ?_)
      exact Nat.le_trans (Nat.sub_le _ _) hbound

theorem Ledger.step (h : Ledger s) (op : FdOp) (hop : SumFits s op) :
    Ledger (step fromSlice s op) := by
  cases op with
  | accept =>
    refine ⟨?_, h.bounded, fun t ht => ?_⟩
    · rw [FdServer.step, h.balanced]
      simp [Listener.reserved, FdPc.held]
    · rcases List.mem_append.mp ht with ht | ht
      · exact h.sound t ht
      · rw [List.mem_singleton.mp ht]
        trivial
  | task i env =>
    rw [FdServer.step]
    cases hi : s.tasks[i]? with
    | none => exact h
    | some t => exact h.task hi rfl (taskStep_change fromSlice env s.quota t.pc) (hop t hi)

/-! ### Runs -/

/-- The counter is the sum of the reservations, within the ceiling, and back at
zero when no connection is in flight; a subtraction that is pending does not wrap;
a refusal reports a value with which the request exceeds the ceiling. -/
structure Accounted (s : Listener) : Prop where
  balanced : s.quota.allocatedBytes.toNat = s.reserved
  bounded : s.quota.allocatedBytes ≤ s.quota.ceilingBytes
  idle : (∀ t ∈ s.tasks, ∃ ok, t.pc = .returned ok) → s.quota.allocatedBytes = 0
  noWrap : ∀ t ∈ s.tasks, ∀ reserved current reply, t.pc = .releasing reserved current reply →
    (if reserved ≤ current then reserved else current) ≤ s.quota.allocatedBytes
  refused : ∀ t ∈ s.tasks, ∀ size current, t.pc = .quotaExceeded size current →
    s.quota.ceilingBytes.toNat < current.toNat + size.toNat

theorem reserved_eq_zero (h : ∀ t ∈ s.tasks, ∃ ok, t.pc = .returned ok) : s.reserved = 0 := by
  refine List.sum_eq_zero fun n hn => ?_
  obtain ⟨t, ht, rfl⟩ := List.mem_map.mp hn
  obtain ⟨ok, hok⟩ := h t ht
  rw [hok]
  rfl

theorem Ledger.accounted (h : Ledger s) : Accounted s where
  balanced := h.balanced
  bounded := h.bounded
  idle := fun hall => UInt64.toNat_inj.mp (h.balanced.trans (reserved_eq_zero hall))
  noWrap := by
    intro t ht reserved current reply hpc
    have hsound := h.sound t ht
    have hheld := h.held_le ht
    rw [hpc] at hsound hheld
    rw [if_pos (show reserved ≤ current from hsound)]
    exact UInt64.le_iff_toNat_le.mpr hheld
  refused := by
    intro t ht size current hpc
    have hsound := h.sound t ht
    rwa [hpc] at hsound

theorem not_max_lt {c : UInt64} (h : c = u64Max) (n : UInt64) : ¬c < n := by
  have hn := n.toNat_lt
  rw [h, UInt64.lt_iff_toNat_lt, toNat_u64Max]
  omega

theorem not_accounted_of_saturates (h : Ledger s) (env : FdEnv) (hi : s.tasks[i]? = some t)
    (hsat : t.pc.Saturates s.quota) : ¬Accounted (step fromSlice s (.task i env)) := by
  intro hacc
  cases hpc : t.pc with
  | reserving name size current =>
    rw [hpc] at hsat
    obtain ⟨hmax, rfl, hover⟩ := hsat
    have hnot := not_max_lt hmax (saturatingAdd s.quota.allocatedBytes size)
    have hsum := reserved_set
      { s.quota with allocatedBytes := saturatingAdd s.quota.allocatedBytes size }
      { pc := .creating name size size, sent := t.sent ++ [] } hi
    have hbal := hacc.balanced
    have hold := h.balanced
    simp only [FdServer.step, hi, hpc, taskStep, if_neg hnot, FdQuota.compareExchange, if_true] at hbal
    rw [hpc] at hsum
    simp only [FdPc.held, toNat_saturatingAdd] at hsum hbal
    omega
  | _ => rw [hpc] at hsat; exact hsat

/-- For any connections, any ceiling and any interleaving of their steps: the
counter is kept in order if and only if no reservation saturates. -/
theorem fd_quota_accounted_iff (fromSlice : List UInt8 → Option FdRequest) (ceiling : UInt64)
    (ops : List FdOp) :
    (∀ pre, pre <+: ops → Accounted (exec (step fromSlice) (start (.new ceiling)) pre)) ↔
      Along (step fromSlice) SumFits (start (.new ceiling)) ops := by
  refine inv_iff_along (D := fun _ _ => True) (fun _ => Ledger) Accounted
    (fun _ _ op h _ _ hop => h.step op hop) (fun _ s op h _ _ _ => ?_) [] _ ops
    (ledger_start ceiling) (ledger_start ceiling).accounted (fresh_of_nameless ([] : List ℕ) ops)
    (along_of_forall ops (fun _ _ _ => trivial) _)
  refine ⟨fun hacc => ?_, fun hop => (h.step op hop).accounted⟩
  cases op with
  | accept => trivial
  | task i env => exact fun t hi hsat => not_accounted_of_saturates h env hi hsat hacc

/-! ### Ceilings below the largest -/

theorem TaskChange.ceiling {out : FdQuota × FdPc × List FdResponse} (h : TaskChange q pc out) :
    out.1.ceilingBytes = q.ceilingBytes := by
  cases h <;> rfl

theorem ceiling_step (s : Listener) (op : FdOp) :
    (step fromSlice s op).quota.ceilingBytes = s.quota.ceilingBytes := by
  cases op with
  | accept => rfl
  | task i env =>
    rw [step]
    cases s.tasks[i]? with
    | none => rfl
    | some t => exact (taskStep_change fromSlice env s.quota t.pc).ceiling

theorem sumFits_of_ceiling (h : s.quota.ceilingBytes ≠ u64Max) (op : FdOp) : SumFits s op := by
  cases op with
  | accept => trivial
  | task i env =>
    intro t _ hsat
    cases hpc : t.pc with
    | reserving name size current =>
      rw [hpc] at hsat
      exact h hsat.1
    | _ => rw [hpc] at hsat; exact hsat

theorem ledger_exec {ceiling : UInt64} (h : ceiling ≠ u64Max) (ops : List FdOp) :
    Ledger (exec (step fromSlice) (start (.new ceiling)) ops) := by
  have hstep : ∀ s op, Ledger s ∧ s.quota.ceilingBytes = ceiling →
      Ledger (step fromSlice s op) ∧ (step fromSlice s op).quota.ceilingBytes = ceiling := by
    rintro s op ⟨hl, rfl⟩
    exact ⟨hl.step op (sumFits_of_ceiling h op), ceiling_step s op⟩
  exact (exec_inv (fun s => Ledger s ∧ s.quota.ceilingBytes = ceiling) hstep _ ops
    ⟨ledger_start ceiling, rfl⟩).1

/-- The quota of the daemon's own listener is kept in order in every run. -/
theorem accounted_halfOfTotalRam (meminfo : Option String) (ops : List FdOp) :
    Accounted (exec (step fromSlice) (start (.fromHalfOfTotalRam meminfo)) ops) := by
  refine (ledger_exec (fun hmax => ?_) ops).accounted
  have hhalf := congrArg UInt64.toNat hmax
  have htwo : (2 : UInt64).toNat = 2 := rfl
  rw [UInt64.toNat_div, toNat_u64Max, htwo] at hhalf
  generalize Option.getD _ _ = total at hhalf
  have hlt := total.toNat_lt
  omega

/-! ### A crowd of clients at the largest ceiling -/

/-- The request of one client, as it stands in the stream before its NUL. -/
def shardPayload : List UInt8 :=
  "\x7b\"action\":\"create\",\"name\":null,\"size_bytes\":17179869184\x7d".toList.map fun c =>
    c.toNat.toUInt8

def shardRequest : FdRequest := { action := "create", name := none, sizeBytes := some maxMemfdBytes }

def shardSlice (bytes : List UInt8) : Option FdRequest :=
  if bytes = shardPayload then some shardRequest else none

def shardEnv : FdEnv :=
  { chunk := some (shardPayload ++ [0]), memfd := .ok (), sent := true, written := true }

/-- A client connects as task `i`, and its request is read and reserved for. -/
def reserveShard (i : ℕ) : List FdOp :=
  [.accept, .task i shardEnv, .task i shardEnv, .task i shardEnv]

def crowd (n : ℕ) : List FdOp := (List.range n).flatMap reserveShard

def shardTask : FdTask :=
  { pc := .creating "inferenced-shm" maxMemfdBytes maxMemfdBytes, sent := [] }

theorem readFramedRequest_shard :
    readFramedRequest shardSlice shardEnv.chunk [] = .tryReserve "inferenced-shm" maxMemfdBytes := by
  decide

theorem step_last {tasks : List FdTask} {t : FdTask} {q q' : FdQuota} {pc' : FdPc}
    {sent : List FdResponse} (h : taskStep fromSlice shardEnv q t.pc = (q', pc', sent)) :
    step fromSlice ⟨q, tasks ++ [t]⟩ (.task tasks.length shardEnv) =
      ⟨q', tasks ++ [{ pc := pc', sent := t.sent ++ sent }]⟩ := by
  have hlast : (tasks ++ [t])[tasks.length]? = some t := by simp
  simp only [step, hlast, h, List.set_append_right _ _ (Nat.le_refl _), Nat.sub_self,
    List.set_cons_zero]

theorem exec_reserveShard (h : s.quota.ceilingBytes = u64Max) :
    exec (step shardSlice) s (reserveShard s.tasks.length) =
      ⟨{ s.quota with allocatedBytes := saturatingAdd s.quota.allocatedBytes maxMemfdBytes },
        s.tasks ++ [shardTask]⟩ := by
  have hread : taskStep shardSlice shardEnv s.quota (.reading []) =
      (s.quota, .tryReserve "inferenced-shm" maxMemfdBytes, []) := by
    rw [taskStep, readFramedRequest_shard]
  have hload : taskStep shardSlice shardEnv s.quota (.tryReserve "inferenced-shm" maxMemfdBytes) =
      (s.quota, .reserving "inferenced-shm" maxMemfdBytes s.quota.allocatedBytes, []) := rfl
  have hswap : taskStep shardSlice shardEnv s.quota
      (.reserving "inferenced-shm" maxMemfdBytes s.quota.allocatedBytes) =
      ({ s.quota with allocatedBytes := saturatingAdd s.quota.allocatedBytes maxMemfdBytes },
        .creating "inferenced-shm" maxMemfdBytes maxMemfdBytes, []) := by
    rw [taskStep]
    dsimp only
    rw [if_neg (not_max_lt h _), FdQuota.compareExchange, if_pos rfl]
  have haccept : step shardSlice s .accept = ⟨s.quota, s.tasks ++ [{ pc := .reading [], sent := [] }]⟩ :=
    rfl
  simp only [exec, reserveShard, List.foldl_cons, List.foldl_nil]
  rw [haccept, step_last hread, step_last hload, step_last hswap]
  simp only [List.nil_append]
  rfl

theorem min_add_min (n size limit : ℕ) :
    min (min (n * size) limit + size) limit = min ((n + 1) * size) limit := by
  rw [Nat.succ_mul]
  omega

theorem exec_crowd (n : ℕ) :
    (exec (step shardSlice) (start (.new u64Max)) (crowd n)).quota.ceilingBytes =
        u64Max ∧
      (exec (step shardSlice) (start (.new u64Max)) (crowd n)).quota.allocatedBytes.toNat =
        min (n * maxMemfdBytes.toNat) (2 ^ 64 - 1) ∧
      (exec (step shardSlice) (start (.new u64Max)) (crowd n)).tasks =
        List.replicate n shardTask := by
  induction n with
  | zero =>
    refine ⟨rfl, ?_, rfl⟩
    rw [Nat.zero_mul, Nat.zero_min]
    rfl
  | succ n ih =>
    obtain ⟨hceil, halloc, htasks⟩ := ih
    have hcrowd : crowd (n + 1) = crowd n ++ reserveShard n := by
      simp [crowd, List.range_succ]
    rw [hcrowd, exec_append]
    generalize exec (step shardSlice) (start (.new u64Max)) (crowd n) = s at *
    have hlen : s.tasks.length = n := by rw [htasks, List.length_replicate]
    have hnext := exec_reserveShard hceil
    rw [hlen] at hnext
    rw [hnext]
    have hkeep : ∀ a tasks, (Listener.mk { s.quota with allocatedBytes := a } tasks).quota.ceilingBytes =
        s.quota.ceilingBytes := fun _ _ => rfl
    refine ⟨(hkeep _ _).trans hceil, ?_, ?_⟩
    · exact (toNat_saturatingAdd _ _).trans (by rw [halloc, min_add_min])
    · rw [htasks, List.replicate_succ']

/-- The last of 2^30 clients of 16 GiB each passes the ceiling and is admitted. -/
theorem crowd_not_accounted :
    ¬Accounted (exec (step shardSlice) (start (.new u64Max)) (crowd (2 ^ 30))) := by
  intro h
  obtain ⟨-, halloc, htasks⟩ := exec_crowd (2 ^ 30)
  have hheld : shardTask.pc.held = 2 ^ 34 := rfl
  have hsize : maxMemfdBytes.toNat = 2 ^ 34 := rfl
  have hbal := h.balanced
  rw [halloc, Listener.reserved, htasks, List.map_replicate, List.sum_replicate, hheld, hsize] at hbal
  simp at hbal

end Inferenced.FdServer
