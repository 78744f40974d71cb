import Inferenced.Inhibit.LeaseCount

/-!
# The monitor's turn, call by call (main.rs:203-219, inhibit.rs:63-75)

Others read the inhibitor while the monitor is in the middle of its calls. Here
a turn is taken in the steps that they can see: the look at the leases, each
`fetch_add` or `fetch_sub`, and each lock taken or given back. Such a turn ends
where `tick` does.
-/

namespace Inferenced.Inhibit
open Lib

/-- Where the monitor is; `left` calls are still to come in this turn. -/
inductive TurnPc where
  | waiting
  | acquiring (left : ℕ)
  | locking (left : ℕ)
  | releasing (left : ℕ)
  | unlocking (left : ℕ)
  deriving DecidableEq

structure MonitorTask where
  manager : InhibitorManager
  prevCount : UInt64 := 0
  count : UInt64 := 0
  pc : TurnPc := .waiting

/-- `interval.tick`, and the number of active leases then. -/
def MonitorTask.look (count : UInt64) (t : MonitorTask) : MonitorTask :=
  match t.pc with
  | .waiting =>
    if t.prevCount < count then { t with count, pc := .acquiring (count - t.prevCount).toNat }
    else if count < t.prevCount then { t with count, pc := .releasing (t.prevCount - count).toNat }
    else { t with count, pc := .releasing 0 }
  | _ => t

/-- One step of the calls; `env` is the host at the step that takes a lock. -/
def MonitorTask.poll (env : HostEnv) (t : MonitorTask) : MonitorTask :=
  let old := t.manager.activeLeases
  match t.pc with
  | .waiting => t
  | .acquiring 0 => { t with prevCount := t.count, pc := .waiting }
  | .acquiring (left + 1) =>
    { t with
      manager := { t.manager with activeLeases := old + 1 }
      pc := if old = 0 then .locking left else .acquiring left }
  | .locking left => { t with manager := (acquireInhibitLock env t.manager).1, pc := .acquiring left }
  | .releasing 0 => { t with prevCount := t.count, pc := .waiting }
  | .releasing (left + 1) =>
    { t with
      manager := { t.manager with activeLeases := old - 1 }
      pc := if old = 1 then .unlocking left else .releasing left }
  | .unlocking left => { t with manager := (releaseInhibitLock t.manager).1, pc := .releasing left }

/-- The monitor before its first turn. -/
def MonitorTask.start (options : InhibitOptions) : MonitorTask := { manager := { options } }

/-! ### A turn is a tick -/

/-- The turn that began at `s` so far: `k` of its calls are done, the last one
up to its lock. The host has met `P` at each of them. -/
inductive Turning (P : HostEnv → Prop) (s : Monitor) (t : MonitorTask) : Prop where
  | acquiring (envs : ℕ → HostEnv) (henvs : ∀ j, P (envs j)) (k left : ℕ) (hpc : t.pc = .acquiring left)
      (hlt : s.prevCount < t.count) (hcalls : k + left = (t.count - s.prevCount).toNat)
      (hmanager : t.manager = (repeatCall (fun j => onLeaseAcquired (envs j)) k s.manager).1)
  | locking (envs : ℕ → HostEnv) (henvs : ∀ j, P (envs j)) (k left : ℕ) (hpc : t.pc = .locking left)
      (hlt : s.prevCount < t.count) (hcalls : k + 1 + left = (t.count - s.prevCount).toNat)
      (m : InhibitorManager) (hm : m = (repeatCall (fun j => onLeaseAcquired (envs j)) k s.manager).1)
      (hzero : m.activeLeases = 0) (hmanager : t.manager = { m with activeLeases := m.activeLeases + 1 })
  | releasing (k left : ℕ) (hpc : t.pc = .releasing left)
      (hle : ¬ s.prevCount < t.count) (hcalls : k + left = (s.prevCount - t.count).toNat)
      (hmanager : t.manager = (repeatCall (fun _ => onLeaseReleased) k s.manager).1)
  | unlocking (k left : ℕ) (hpc : t.pc = .unlocking left)
      (hle : ¬ s.prevCount < t.count) (hcalls : k + 1 + left = (s.prevCount - t.count).toNat)
      (m : InhibitorManager) (hm : m = (repeatCall (fun _ => onLeaseReleased) k s.manager).1)
      (hone : m.activeLeases = 1) (hmanager : t.manager = { m with activeLeases := m.activeLeases - 1 })

variable {P : HostEnv → Prop} {s : Monitor} {t : MonitorTask} {env : HostEnv}

theorem turning_look (henv : P env) (hpc : t.pc = .waiting) (hmanager : t.manager = s.manager)
    (hprev : t.prevCount = s.prevCount) (count : UInt64) : Turning P s (t.look count) := by
  unfold MonitorTask.look
  simp only [hpc]
  split
  · rename_i hup
    exact .acquiring (fun _ => env) (fun _ => henv) 0 _ rfl (hprev ▸ hup) (by simp [hprev]) hmanager
  · rename_i hup
    split
    · exact .releasing 0 _ rfl (hprev ▸ hup) (by simp [hprev]) hmanager
    · rename_i hdown
      refine .releasing 0 0 rfl (hprev ▸ hup) ?_ hmanager
      rw [UInt64.lt_iff_toNat_lt] at hup hdown
      have hsame : s.prevCount = count := by
        rw [← hprev]
        exact UInt64.toNat_inj.mp (by omega)
      simp [hsame]

theorem Turning.ne_waiting (h : Turning P s t) : t.pc ≠ .waiting := by
  cases h with
  | acquiring _ _ _ _ hpc | locking _ _ _ _ hpc | releasing _ _ hpc | unlocking _ _ hpc => simp [hpc]

theorem look_count (count : UInt64) (hpc : t.pc = .waiting) : (t.look count).count = count := by
  unfold MonitorTask.look
  simp only [hpc]
  split
  · rfl
  · split <;> rfl

theorem look_of_ne (count : UInt64) (hpc : t.pc ≠ .waiting) : t.look count = t := by
  unfold MonitorTask.look
  split
  · contradiction
  · rfl

theorem look_manager (count : UInt64) (t : MonitorTask) : (t.look count).manager = t.manager := by
  unfold MonitorTask.look
  split
  · split
    · rfl
    · split <;> rfl
  · rfl

theorem poll_count (env : HostEnv) (t : MonitorTask) : (t.poll env).count = t.count := by
  unfold MonitorTask.poll
  split <;> rfl

theorem repeatCall_congr {call call' : ℕ → InhibitorManager → InhibitorManager × List Event} {n : ℕ}
    (h : ∀ j < n, call j = call' j) (m : InhibitorManager) : repeatCall call n m = repeatCall call' n m := by
  induction n with
  | zero => rfl
  | succ n ih =>
    simp only [repeatCall]
    rw [ih fun j hj => h j (Nat.lt_succ_of_lt hj), h n (Nat.lt_succ_self n)]

theorem onLeaseAcquired_counting {m : InhibitorManager} (env : HostEnv) (h : m.activeLeases ≠ 0) :
    (onLeaseAcquired env m).1 = { m with activeLeases := m.activeLeases + 1 } := by
  simp only [onLeaseAcquired, if_neg h]

theorem onLeaseAcquired_locking {m : InhibitorManager} (env : HostEnv) (h : m.activeLeases = 0) :
    (onLeaseAcquired env m).1 = (acquireInhibitLock env { m with activeLeases := m.activeLeases + 1 }).1 := by
  simp only [onLeaseAcquired, if_pos h]

theorem onLeaseReleased_counting {m : InhibitorManager} (h : m.activeLeases ≠ 1) :
    (onLeaseReleased m).1 = { m with activeLeases := m.activeLeases - 1 } := by
  simp only [onLeaseReleased, if_neg h]

theorem onLeaseReleased_unlocking {m : InhibitorManager} (h : m.activeLeases = 1) :
    (onLeaseReleased m).1 = (releaseInhibitLock { m with activeLeases := m.activeLeases - 1 }).1 := by
  simp only [onLeaseReleased, if_pos h]

/-- The turn is over, at the state of `tick`. -/
structure Turned (P : HostEnv → Prop) (s : Monitor) (count : UInt64) (t : MonitorTask) : Prop where
  waiting : t.pc = .waiting
  prevCount : t.prevCount = count
  manager : ∃ envs, (∀ j, P (envs j)) ∧ t.manager = (tick s ⟨count, envs⟩).manager

theorem turning_poll (h : Turning P s t) (henv : P env) :
    Turning P s (t.poll env) ∨ Turned P s t.count (t.poll env) := by
  cases h with
  | acquiring envs henvs k left hpc hlt hcalls hmanager =>
    cases left with
    | zero =>
      refine .inr ?_
      simp only [MonitorTask.poll, hpc]
      refine ⟨rfl, rfl, envs, henvs, ?_⟩
      simp only [tick, if_pos hlt, ← hcalls, Nat.add_zero]
      exact hmanager
    | succ left =>
      have hrest : k + 1 + left = (t.count - s.prevCount).toNat := by omega
      refine .inl ?_
      by_cases hzero : t.manager.activeLeases = 0
      · simp only [MonitorTask.poll, hpc, if_pos hzero]
        exact .locking envs henvs k left rfl hlt hrest t.manager hmanager hzero rfl
      · simp only [MonitorTask.poll, hpc, if_neg hzero]
        refine .acquiring envs henvs (k + 1) left rfl hlt hrest ?_
        simp only [repeatCall]
        rw [← hmanager, onLeaseAcquired_counting _ hzero]
  | locking envs henvs k left hpc hlt hcalls m hm hzero hmanager =>
    refine .inl ?_
    simp only [MonitorTask.poll, hpc]
    have hupdate : ∀ j, P (Function.update envs k env j) := by
      intro j
      by_cases hj : j = k
      · rw [hj, Function.update_self]
        exact henv
      · rw [Function.update_of_ne hj]
        exact henvs j
    refine .acquiring (Function.update envs k env) hupdate (k + 1) left rfl hlt hcalls ?_
    have hbefore : repeatCall (fun j => onLeaseAcquired (Function.update envs k env j)) k s.manager =
        repeatCall (fun j => onLeaseAcquired (envs j)) k s.manager :=
      repeatCall_congr (fun j hj => by rw [Function.update_of_ne (Nat.ne_of_lt hj)]) _
    simp only [repeatCall, hbefore, ← hm, Function.update_self]
    rw [hmanager, onLeaseAcquired_locking env hzero]
  | releasing k left hpc hle hcalls hmanager =>
    cases left with
    | zero =>
      refine .inr ?_
      simp only [MonitorTask.poll, hpc]
      refine ⟨rfl, rfl, fun _ => env, fun _ => henv, ?_⟩
      simp only [tick, if_neg hle]
      split
      · rw [← hcalls]
        exact hmanager
      · rename_i hdown
        have hk : k = 0 := by
          rw [UInt64.lt_iff_toNat_lt] at hle hdown
          have hsame : s.prevCount = t.count := UInt64.toNat_inj.mp (by omega)
          rw [hsame, UInt64.sub_self] at hcalls
          simpa using hcalls
        rw [hk] at hmanager
        exact hmanager
    | succ left =>
      have hrest : k + 1 + left = (s.prevCount - t.count).toNat := by omega
      refine .inl ?_
      by_cases hone : t.manager.activeLeases = 1
      · simp only [MonitorTask.poll, hpc, if_pos hone]
        exact .unlocking k left rfl hle hrest t.manager hmanager hone rfl
      · simp only [MonitorTask.poll, hpc, if_neg hone]
        refine .releasing (k + 1) left rfl hle hrest ?_
        simp only [repeatCall]
        rw [← hmanager, onLeaseReleased_counting hone]
  | unlocking k left hpc hle hcalls m hm hone hmanager =>
    refine .inl ?_
    simp only [MonitorTask.poll, hpc]
    refine .releasing (k + 1) left rfl hle hcalls ?_
    simp only [repeatCall, ← hm]
    rw [hmanager, onLeaseReleased_unlocking hone]

/-! ### In the middle of a turn -/

/-- The lock is held only while leases are counted, and if the host always
grants it, whenever leases are counted. -/
structure Guards (granted : Prop) (m : InhibitorManager) : Prop where
  handle : m.activeHandle.isSome = true ↔ m.isInhibited = true
  counted : m.isInhibited = true → 0 < m.activeLeases.toNat
  held : granted → 0 < m.activeLeases.toNat → m.isInhibited = true

/-- In a turn the count goes from `prevCount` to `count`; while the lock is
being taken the turn began at zero, and while it is being given back the turn
ends there. -/
inductive MonitorTask.Sound (granted : Prop) (t : MonitorTask) : Prop where
  | waiting (hpc : t.pc = .waiting) (hprev : t.prevCount = t.count)
      (hcount : t.manager.activeLeases = t.count) (hguards : Guards granted t.manager)
  | acquiring (left : ℕ) (hpc : t.pc = .acquiring left)
      (hprev : t.prevCount.toNat ≤ t.manager.activeLeases.toNat)
      (hcount : t.manager.activeLeases.toNat + left = t.count.toNat) (hguards : Guards granted t.manager)
  | locking (left : ℕ) (hpc : t.pc = .locking left) (hprev : t.prevCount.toNat = 0)
      (hpos : 0 < t.manager.activeLeases.toNat)
      (hcount : t.manager.activeLeases.toNat + left = t.count.toNat)
      (hnone : t.manager.activeHandle = none) (hflag : t.manager.isInhibited = false)
  | releasing (left : ℕ) (hpc : t.pc = .releasing left)
      (hprev : t.manager.activeLeases.toNat ≤ t.prevCount.toNat)
      (hcount : t.count.toNat + left = t.manager.activeLeases.toNat) (hguards : Guards granted t.manager)
  | unlocking (left : ℕ) (hpc : t.pc = .unlocking left) (hprev : 0 < t.prevCount.toNat)
      (hzero : t.manager.activeLeases.toNat = 0)
      (hcount : t.count.toNat + left = t.manager.activeLeases.toNat)
      (hhandle : t.manager.activeHandle.isSome = true ↔ t.manager.isInhibited = true)

variable {granted : Prop}

theorem sound_start (options : InhibitOptions) : (MonitorTask.start options).Sound granted :=
  .waiting rfl rfl rfl ⟨by simp [MonitorTask.start], by simp [MonitorTask.start], by simp [MonitorTask.start]⟩

theorem MonitorTask.Sound.of_waiting (h : t.Sound granted) (hpc : t.pc = .waiting) :
    t.prevCount = t.count ∧ t.manager.activeLeases = t.count ∧ Guards granted t.manager := by
  cases h with
  | waiting _ hprev hcount hguards => exact ⟨hprev, hcount, hguards⟩
  | acquiring _ hpc' | locking _ hpc' | releasing _ hpc' | unlocking _ hpc' =>
    rw [hpc] at hpc'
    cases hpc'

theorem MonitorTask.Sound.look (h : t.Sound granted) (count : UInt64) : (t.look count).Sound granted := by
  by_cases hpc : t.pc = .waiting
  · obtain ⟨hprev, hcount, hguards⟩ := h.of_waiting hpc
    have hsame : t.manager.activeLeases.toNat = t.prevCount.toNat := by rw [hcount, hprev]
    unfold MonitorTask.look
    simp only [hpc]
    split
    · rename_i hup
      have hsub := UInt64.toNat_sub_of_le _ _ (UInt64.le_of_lt hup)
      have hlt := UInt64.lt_iff_toNat_lt.mp hup
      exact .acquiring _ rfl (Nat.le_of_eq hsame.symm) (by simp only; omega) hguards
    · rename_i hup
      split
      · rename_i hdown
        have hsub := UInt64.toNat_sub_of_le _ _ (UInt64.le_of_lt hdown)
        have hlt := UInt64.lt_iff_toNat_lt.mp hdown
        exact .releasing _ rfl (Nat.le_of_eq hsame) (by simp only; omega) hguards
      · rename_i hdown
        rw [UInt64.lt_iff_toNat_lt] at hup hdown
        exact .releasing 0 rfl (Nat.le_of_eq hsame) (by simp only; omega) hguards
  · rw [look_of_ne count hpc]
    exact h

theorem guards_acquire {m : InhibitorManager} (hpos : 0 < m.activeLeases.toNat) (hnone : m.activeHandle = none)
    (hflag : m.isInhibited = false) (hgrant : granted → (newHandle env m.options).isSome = true) :
    Guards granted (acquireInhibitLock env m).1 ∧ (acquireInhibitLock env m).1.activeLeases = m.activeLeases := by
  unfold acquireInhibitLock
  simp only [hnone]
  cases hnew : newHandle env m.options with
  | none =>
    refine ⟨⟨by simp [hnone, hflag], fun _ => hpos, fun hg => ?_⟩, rfl⟩
    have hsome := hgrant hg
    rw [hnew] at hsome
    cases hsome
  | some handle => exact ⟨⟨by simp, fun _ => hpos, fun _ _ => rfl⟩, rfl⟩

theorem guards_release {m : InhibitorManager} (hzero : m.activeLeases.toNat = 0)
    (hhandle : m.activeHandle.isSome = true ↔ m.isInhibited = true) :
    Guards granted (releaseInhibitLock m).1 ∧ (releaseInhibitLock m).1.activeLeases = m.activeLeases := by
  unfold releaseInhibitLock
  cases hheld : m.activeHandle with
  | none =>
    rw [hheld] at hhandle
    refine ⟨⟨by simpa [hheld] using hhandle, fun hflag => absurd (hhandle.mpr hflag) (by simp), ?_⟩, rfl⟩
    exact fun _ hpos => absurd hzero (Nat.ne_of_gt hpos)
  | some handle =>
    exact ⟨⟨by simp, by simp, fun _ hpos => absurd hzero (Nat.ne_of_gt hpos)⟩, rfl⟩

theorem acquireInhibitLock_options (env : HostEnv) (m : InhibitorManager) :
    (acquireInhibitLock env m).1.options = m.options := by
  unfold acquireInhibitLock
  split
  · rfl
  · split <;> rfl

theorem releaseInhibitLock_options (m : InhibitorManager) : (releaseInhibitLock m).1.options = m.options := by
  unfold releaseInhibitLock
  split <;> rfl

theorem MonitorTask.options_poll (env : HostEnv) (t : MonitorTask) :
    (t.poll env).manager.options = t.manager.options := by
  unfold MonitorTask.poll
  split
  · rfl
  · rfl
  · rfl
  · exact acquireInhibitLock_options env _
  · rfl
  · rfl
  · exact releaseInhibitLock_options _

theorem MonitorTask.Sound.poll (h : t.Sound granted)
    (hgrant : granted → (newHandle env t.manager.options).isSome = true) : (t.poll env).Sound granted := by
  have hmax := t.count.toNat_lt
  cases h with
  | waiting hpc hprev hcount hguards =>
    simp only [MonitorTask.poll, hpc]
    exact .waiting hpc hprev hcount hguards
  | acquiring left hpc hprev hcount hguards =>
    cases left with
    | zero =>
      simp only [MonitorTask.poll, hpc]
      exact .waiting rfl rfl (UInt64.toNat_inj.mp hcount) hguards
    | succ left =>
      have hadd : (t.manager.activeLeases + 1).toNat = t.manager.activeLeases.toNat + 1 := by
        rw [UInt64.toNat_add]
        exact Nat.mod_eq_of_lt (by simp; omega)
      by_cases hzero : t.manager.activeLeases = 0
      · have hnat : t.manager.activeLeases.toNat = 0 := by rw [hzero]; rfl
        have hflag : t.manager.isInhibited = false := by
          rw [← Bool.not_eq_true]
          intro hflag
          have hpos := hguards.counted hflag
          omega
        have hnone : t.manager.activeHandle = none := by
          rw [← Option.not_isSome_iff_eq_none, hguards.handle, hflag]
          decide
        simp only [MonitorTask.poll, hpc, if_pos hzero]
        exact .locking left rfl (by simp only; omega) (by simp only; omega) (by simp only; omega) hnone hflag
      · have hpos : 0 < t.manager.activeLeases.toNat :=
          Nat.pos_of_ne_zero fun hnat => hzero (UInt64.toNat_inj.mp hnat)
        simp only [MonitorTask.poll, hpc, if_neg hzero]
        refine .acquiring left rfl (by simp only; omega) (by simp only; omega) ⟨hguards.handle, ?_, ?_⟩
        · intro _
          simp only
          omega
        · exact fun hg _ => hguards.held hg hpos
  | locking left hpc hprev hpos hcount hnone hflag =>
    obtain ⟨hguards, hsame⟩ := guards_acquire hpos hnone hflag hgrant
    simp only [MonitorTask.poll, hpc]
    refine .acquiring left rfl ?_ ?_ hguards
    · simp only
      omega
    · simp only [hsame]
      exact hcount
  | releasing left hpc hprev hcount hguards =>
    cases left with
    | zero =>
      simp only [MonitorTask.poll, hpc]
      exact .waiting rfl rfl (UInt64.toNat_inj.mp hcount.symm) hguards
    | succ left =>
      have hsub : (t.manager.activeLeases - 1).toNat + 1 = t.manager.activeLeases.toNat := by
        have hle : (1 : UInt64) ≤ t.manager.activeLeases := by
          rw [UInt64.le_iff_toNat_le]
          simp
          omega
        rw [UInt64.toNat_sub_of_le _ _ hle]
        simp
        omega
      by_cases hone : t.manager.activeLeases = 1
      · have hnat : t.manager.activeLeases.toNat = 1 := by rw [hone]; rfl
        simp only [MonitorTask.poll, hpc, if_pos hone]
        exact .unlocking left rfl (by simp only; omega) (by simp only; omega) (by simp only; omega) hguards.handle
      · have hne : t.manager.activeLeases.toNat ≠ 1 := fun hnat => hone (UInt64.toNat_inj.mp hnat)
        simp only [MonitorTask.poll, hpc, if_neg hone]
        refine .releasing left rfl (by simp only; omega) (by simp only; omega) ⟨hguards.handle, ?_, ?_⟩
        · intro _
          simp only
          omega
        · exact fun hg _ => hguards.held hg (by omega)
  | unlocking left hpc hprev hzero hcount hhandle =>
    obtain ⟨hguards, hsame⟩ :
        Guards granted (releaseInhibitLock t.manager).1 ∧
          (releaseInhibitLock t.manager).1.activeLeases = t.manager.activeLeases := guards_release hzero hhandle
    simp only [MonitorTask.poll, hpc]
    refine .releasing left rfl ?_ ?_ hguards
    · simp only [hsame]
      omega
    · simp only [hsame]
      exact hcount

/-- The last two numbers that the monitor has seen. -/
def MonitorTask.Seen (counts : List UInt64) (t : MonitorTask) : Prop :=
  ∃ front a, counts = front ++ [a, t.count] ∧ (t.pc ≠ .waiting → a = t.prevCount)

theorem MonitorTask.Seen.look {counts : List UInt64} (hseen : t.Seen counts) (h : t.Sound granted)
    (hpc : t.pc = .waiting) (count : UInt64) : (t.look count).Seen (counts ++ [count]) := by
  obtain ⟨front, a, rfl, -⟩ := hseen
  obtain ⟨hprev, -, -⟩ := h.of_waiting hpc
  have hlook : (t.look count).prevCount = t.prevCount := by
    unfold MonitorTask.look
    simp only [hpc]
    split
    · rfl
    · split <;> rfl
  refine ⟨front ++ [a], t.count, ?_, fun _ => ?_⟩
  · rw [look_count count hpc]
    simp
  · rw [hlook, hprev]

theorem MonitorTask.Seen.poll {counts : List UInt64} (h : t.Seen counts) (env : HostEnv) :
    (t.poll env).Seen counts := by
  obtain ⟨front, a, rfl, hprev⟩ := h
  refine ⟨front, a, ?_, fun hpc => ?_⟩
  · rw [poll_count]
  · unfold MonitorTask.poll at hpc ⊢
    split at hpc
    · rename_i hwait
      exact absurd hwait hpc
    · exact absurd rfl hpc
    · rename_i hpc'
      exact hprev (by simp [hpc'])
    · rename_i hpc'
      exact hprev (by simp [hpc'])
    · exact absurd rfl hpc
    · rename_i hpc'
      exact hprev (by simp [hpc'])
    · rename_i hpc'
      exact hprev (by simp [hpc'])

/-- At any moment the inhibitor is between the last two looks. -/
structure Between (granted : Prop) (m : InhibitorManager) (a b : UInt64) : Prop where
  low : min a.toNat b.toNat ≤ m.activeLeases.toNat
  high : m.activeLeases.toNat ≤ max a.toNat b.toNat
  needed : m.isInhibited = true → 0 < max a.toNat b.toNat
  held : granted → 0 < min a.toNat b.toNat → m.isInhibited = true

theorem MonitorTask.Sound.between {counts : List UInt64} (h : t.Sound granted) (hseen : t.Seen counts) :
    ∃ a b, [a, b] <:+ counts ∧ Between granted t.manager a b := by
  obtain ⟨front, a, rfl, ha⟩ := hseen
  refine ⟨a, t.count, List.suffix_append front _, ?_⟩
  cases h with
  | waiting hpc hprev hcount hguards =>
    have hnat : t.manager.activeLeases.toNat = t.count.toNat := by rw [hcount]
    refine ⟨by omega, by omega, fun hflag => ?_, fun hg hpos => hguards.held hg (by omega)⟩
    have := hguards.counted hflag
    omega
  | acquiring left hpc hprev hcount hguards =>
    obtain rfl := ha (by simp [hpc])
    refine ⟨by omega, by omega, fun hflag => ?_, fun hg hpos => hguards.held hg (by omega)⟩
    have := hguards.counted hflag
    omega
  | locking left hpc hprev hpos hcount hnone hflag =>
    obtain rfl := ha (by simp [hpc])
    refine ⟨by omega, by omega, fun hflag' => ?_, fun _ hpos => by omega⟩
    rw [hflag] at hflag'
    cases hflag'
  | releasing left hpc hprev hcount hguards =>
    obtain rfl := ha (by simp [hpc])
    refine ⟨by omega, by omega, fun hflag => ?_, fun hg hpos => hguards.held hg (by omega)⟩
    have := hguards.counted hflag
    omega
  | unlocking left hpc hprev hzero hcount hhandle =>
    obtain rfl := ha (by simp [hpc])
    exact ⟨by omega, by omega, fun _ => by omega, fun _ hpos => by omega⟩

end Inferenced.Inhibit
