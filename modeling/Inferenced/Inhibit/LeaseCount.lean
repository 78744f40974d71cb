import Inferenced.Inhibit

/-!
# The inhibitor follows the lease count (inhibit.rs:63-174, main.rs:203-219)

The manager reacts to the edges between zero and one lease, and the monitor
calls it as often as the count has changed. Between two ticks the handle is
therefore kept, taken once or given back once.
-/

namespace Inferenced.Inhibit
open Lib

variable {m : InhibitorManager} {s : Monitor} {o : Observation} {env : HostEnv}
  {a b : Option InhibitHandle} {events events' : List Event}

/-- The manager holds a handle and says so exactly while it counts a lease. -/
structure Tracks (m : InhibitorManager) : Prop where
  handle : m.activeHandle.isSome = true ↔ 0 < m.activeLeases
  flag : m.isInhibited = true ↔ 0 < m.activeLeases

def Event.isHandle : Event → Bool
  | .acquired _ | .released _ => true
  | .fetchAdd _ | .fetchSub _ => false

def handleEvents (events : List Event) : List Event := events.filter Event.isHandle

theorem handleEvents_append (events events' : List Event) :
    handleEvents (events ++ events') = handleEvents events ++ handleEvents events' :=
  List.filter_append ..

/-- The counter is at zero when it is decremented. -/
def Underflows (events : List Event) : Prop := Event.fetchSub 0 ∈ events

theorem not_underflows_append (h : ¬ Underflows events) (h' : ¬ Underflows events') :
    ¬ Underflows (events ++ events') := by
  intro hmem
  rcases List.mem_append.mp hmem with hmem | hmem
  · exact h hmem
  · exact h' hmem

inductive HandleStep : Option InhibitHandle → Option InhibitHandle → List Event → Prop where
  | keep (a : Option InhibitHandle) : HandleStep a a []
  | acquired (handle : InhibitHandle) : HandleStep none (some handle) [.acquired handle]
  | released (handle : InhibitHandle) : HandleStep (some handle) none [.released handle]

theorem HandleStep.eq_of_isSome_eq (h : HandleStep a b events) (hab : a.isSome = b.isSome) :
    b = a ∧ events = [] := by
  cases h with
  | keep => exact ⟨rfl, rfl⟩
  | acquired => cases hab
  | released => cases hab

/-- What the calls of one tick do to a manager. -/
structure Changes (m : InhibitorManager) (r : InhibitorManager × List Event) : Prop where
  options : r.1.options = m.options
  tracks : Tracks r.1
  handle : HandleStep m.activeHandle r.1.activeHandle (handleEvents r.2)
  noUnderflow : ¬ Underflows r.2

theorem Changes.refl (h : Tracks m) : Changes m (m, []) :=
  ⟨rfl, h, .keep _, List.not_mem_nil⟩

/-- Calls in sequence, if the first ones or the last one keep the handle. -/
theorem Changes.trans {r r' : InhibitorManager × List Event} (h : Changes m r) (h' : Changes r.1 r')
    (hkeep : m.activeHandle.isSome = r.1.activeHandle.isSome ∨
      r.1.activeHandle.isSome = r'.1.activeHandle.isSome) : Changes m (r'.1, r.2 ++ r'.2) := by
  refine ⟨h'.options.trans h.options, h'.tracks, ?_, not_underflows_append h.noUnderflow h'.noUnderflow⟩
  rw [handleEvents_append]
  rcases hkeep with hkeep | hkeep
  · obtain ⟨heq, hevents⟩ := h.handle.eq_of_isSome_eq hkeep
    rw [hevents, List.nil_append, ← heq]
    exact h'.handle
  · obtain ⟨heq, hevents⟩ := h'.handle.eq_of_isSome_eq hkeep
    rw [hevents, List.append_nil, heq]
    exact h.handle

/-! ### One call -/

theorem Tracks.handle_eq_none (h : Tracks m) (hzero : m.activeLeases = 0) : m.activeHandle = none := by
  have hnot : ¬ m.activeHandle.isSome = true := fun hsome => by
    have hpos := h.handle.mp hsome
    rw [hzero] at hpos
    exact absurd hpos (by decide)
  simpa using hnot

theorem pos_iff_toNat_ne_zero (n : UInt64) : 0 < n ↔ n.toNat ≠ 0 := by
  rw [UInt64.lt_iff_toNat_lt]
  simp
  omega

theorem acquireInhibitLock_eq {handle : InhibitHandle} (hnone : m.activeHandle = none)
    (hnew : newHandle env m.options = some handle) :
    acquireInhibitLock env m =
      ({ m with activeHandle := some handle, isInhibited := true }, [.acquired handle]) := by
  simp only [acquireInhibitLock, hnone, hnew]

theorem releaseInhibitLock_eq {handle : InhibitHandle} (hsome : m.activeHandle = some handle) :
    releaseInhibitLock m =
      ({ m with activeHandle := none, isInhibited := false }, [.released handle]) := by
  simp only [releaseInhibitLock, hsome]

theorem onLeaseAcquired_changes (env : HostEnv) (h : Tracks m) (hmax : m.activeLeases.toNat + 1 < 2 ^ 64)
    (hgrant : (newHandle env m.options).isSome = true) :
    Changes m (onLeaseAcquired env m) ∧
      (onLeaseAcquired env m).1.activeLeases.toNat = m.activeLeases.toNat + 1 := by
  have hadd : (m.activeLeases + 1).toNat = m.activeLeases.toNat + 1 := by
    rw [UInt64.toNat_add]
    exact Nat.mod_eq_of_lt hmax
  have hpos : 0 < m.activeLeases + 1 := (pos_iff_toNat_ne_zero _).mpr (by omega)
  unfold onLeaseAcquired
  by_cases hzero : m.activeLeases = 0
  · obtain ⟨handle, hnew⟩ := Option.isSome_iff_exists.mp hgrant
    have hnone := h.handle_eq_none hzero
    simp only [if_pos hzero]
    rw [acquireInhibitLock_eq (m := { m with activeLeases := m.activeLeases + 1 }) hnone hnew]
    refine ⟨⟨rfl, ⟨by simpa using hpos, by simpa using hpos⟩, ?_, ?_⟩, hadd⟩
    · rw [hnone]
      exact .acquired handle
    · simp [Underflows]
  · have hold : 0 < m.activeLeases := (pos_iff_toNat_ne_zero _).mpr fun hnat =>
      hzero (UInt64.toNat_inj.mp hnat)
    simp only [if_neg hzero]
    refine ⟨⟨rfl, ⟨?_, ?_⟩, .keep _, ?_⟩, hadd⟩
    · exact ⟨fun _ => hpos, fun _ => h.handle.mpr hold⟩
    · exact ⟨fun _ => hpos, fun _ => h.flag.mpr hold⟩
    · simp [Underflows]

theorem onLeaseReleased_changes (h : Tracks m) (hpos : 0 < m.activeLeases) :
    Changes m (onLeaseReleased m) ∧
      (onLeaseReleased m).1.activeLeases.toNat + 1 = m.activeLeases.toNat := by
  have hne := (pos_iff_toNat_ne_zero _).mp hpos
  have hsub : (m.activeLeases - 1).toNat + 1 = m.activeLeases.toNat := by
    have hle : (1 : UInt64) ≤ m.activeLeases := by
      rw [UInt64.le_iff_toNat_le]
      simpa using Nat.one_le_iff_ne_zero.mpr hne
    rw [UInt64.toNat_sub_of_le _ _ hle]
    simp
    omega
  have hevent : Event.fetchSub 0 ≠ Event.fetchSub m.activeLeases := fun heq => by
    injection heq with heq
    rw [← heq] at hpos
    exact absurd hpos (by decide)
  unfold onLeaseReleased
  by_cases hone : m.activeLeases = 1
  · obtain ⟨handle, hsome⟩ := Option.isSome_iff_exists.mp (h.handle.mpr hpos)
    have hzero : ¬ 0 < m.activeLeases - 1 := by rw [hone]; decide
    simp only [if_pos hone]
    rw [releaseInhibitLock_eq (m := { m with activeLeases := m.activeLeases - 1 }) hsome]
    refine ⟨⟨rfl, ⟨by simpa using hzero, by simpa using hzero⟩, ?_, ?_⟩, hsub⟩
    · rw [hsome]
      exact .released handle
    · simpa [Underflows] using hevent
  · have hnew : 0 < m.activeLeases - 1 := (pos_iff_toNat_ne_zero _).mpr fun hnat => by
      refine hone (UInt64.toNat_inj.mp ?_)
      simp
      omega
    simp only [if_neg hone]
    refine ⟨⟨rfl, ⟨?_, ?_⟩, .keep _, ?_⟩, hsub⟩
    · exact ⟨fun _ => hnew, fun _ => h.handle.mpr hpos⟩
    · exact ⟨fun _ => hnew, fun _ => h.flag.mpr hpos⟩
    · simpa [Underflows] using hevent

/-! ### One tick -/

theorem isSome_eq {m m' : InhibitorManager} (h : Tracks m) (h' : Tracks m')
    (hpos : 0 < m.activeLeases ↔ 0 < m'.activeLeases) :
    m.activeHandle.isSome = m'.activeHandle.isSome :=
  Bool.eq_iff_iff.mpr (h.handle.trans (hpos.trans h'.handle.symm))

theorem acquireLoop_changes (envs : ℕ → HostEnv) (h : Tracks m)
    (hgrant : ∀ j, (newHandle (envs j) m.options).isSome = true) (n : ℕ)
    (hmax : m.activeLeases.toNat + n < 2 ^ 64) :
    Changes m (repeatCall (fun j => onLeaseAcquired (envs j)) n m) ∧
      (repeatCall (fun j => onLeaseAcquired (envs j)) n m).1.activeLeases.toNat =
        m.activeLeases.toNat + n := by
  induction n with
  | zero => exact ⟨.refl h, rfl⟩
  | succ n ih =>
    obtain ⟨hfirst, hcount⟩ := ih (by omega)
    rw [repeatCall]
    generalize repeatCall (fun j => onLeaseAcquired (envs j)) n m = r at hfirst hcount
    obtain ⟨hlast, hcount'⟩ := onLeaseAcquired_changes (envs n) hfirst.tracks (by omega)
      (hfirst.options ▸ hgrant n)
    refine ⟨hfirst.trans hlast ?_, by simp only; omega⟩
    -- only the first call can find the counter at zero
    cases n with
    | zero =>
      refine .inl (isSome_eq h hfirst.tracks ?_)
      rw [pos_iff_toNat_ne_zero, pos_iff_toNat_ne_zero, hcount]
      rfl
    | succ n =>
      refine .inr (isSome_eq hfirst.tracks hlast.tracks ?_)
      rw [pos_iff_toNat_ne_zero, pos_iff_toNat_ne_zero]
      omega

theorem releaseLoop_changes (h : Tracks m) (n : ℕ) (hle : n ≤ m.activeLeases.toNat) :
    Changes m (repeatCall (fun _ => onLeaseReleased) n m) ∧
      (repeatCall (fun _ => onLeaseReleased) n m).1.activeLeases.toNat + n =
        m.activeLeases.toNat := by
  induction n with
  | zero => exact ⟨.refl h, rfl⟩
  | succ n ih =>
    obtain ⟨hfirst, hcount⟩ := ih (by omega)
    rw [repeatCall]
    generalize repeatCall (fun _ => onLeaseReleased) n m = r at hfirst hcount
    have hpos : 0 < r.1.activeLeases := (pos_iff_toNat_ne_zero _).mpr (by omega)
    obtain ⟨hlast, hcount'⟩ := onLeaseReleased_changes hfirst.tracks hpos
    refine ⟨hfirst.trans hlast (.inl (isSome_eq h hfirst.tracks ?_)), by simp only; omega⟩
    rw [pos_iff_toNat_ne_zero, pos_iff_toNat_ne_zero]
    omega

/-- The monitor's own count is that of the manager. -/
structure Follows (options : InhibitOptions) (s : Monitor) : Prop where
  options : s.manager.options = options
  count : s.manager.activeLeases = s.prevCount
  tracks : Tracks s.manager
  noUnderflow : ¬ Underflows s.log

def Observation.Grants (options : InhibitOptions) (o : Observation) : Prop :=
  ∀ j, (newHandle (o.envs j) options).isSome = true

theorem tick_eq {options : InhibitOptions} (h : Follows options s) (ho : o.Grants options) :
    ∃ r, Changes s.manager r ∧ r.1.activeLeases = o.count ∧
      tick s o = ⟨r.1, o.count, s.log ++ r.2⟩ := by
  have hcount : s.manager.activeLeases.toNat = s.prevCount.toNat := by rw [h.count]
  have hlt := o.count.toNat_lt
  by_cases hup : s.prevCount < o.count
  · have hsub := UInt64.toNat_sub_of_le _ _ (UInt64.le_of_lt hup)
    have hle := UInt64.lt_iff_toNat_lt.mp hup
    obtain ⟨hr, hn⟩ := acquireLoop_changes o.envs h.tracks (h.options ▸ ho)
      (o.count - s.prevCount).toNat (by omega)
    refine ⟨_, hr, UInt64.toNat_inj.mp (by omega), ?_⟩
    simp only [tick, if_pos hup]
  · by_cases hdown : o.count < s.prevCount
    · have hsub := UInt64.toNat_sub_of_le _ _ (UInt64.le_of_lt hdown)
      have hle := UInt64.lt_iff_toNat_lt.mp hdown
      obtain ⟨hr, hn⟩ := releaseLoop_changes h.tracks (s.prevCount - o.count).toNat (by omega)
      refine ⟨_, hr, UInt64.toNat_inj.mp (by omega), ?_⟩
      simp only [tick, if_neg hup, if_pos hdown]
    · rw [UInt64.lt_iff_toNat_lt] at hup hdown
      have hsame : s.prevCount = o.count := UInt64.toNat_inj.mp (by omega)
      refine ⟨(s.manager, []), .refl h.tracks, h.count.trans hsame, ?_⟩
      simp only [tick, UInt64.lt_iff_toNat_lt, if_neg hup, if_neg hdown]

theorem tick_changes {options : InhibitOptions} (h : Follows options s) (ho : o.Grants options) :
    Follows options (tick s o) ∧ ∃ events, (tick s o).log = s.log ++ events ∧
      HandleStep s.manager.activeHandle (tick s o).manager.activeHandle (handleEvents events) := by
  obtain ⟨r, hr, hcount, htick⟩ := tick_eq h ho
  rw [htick]
  exact ⟨⟨hr.options.trans h.options, hcount, hr.tracks,
    not_underflows_append h.noUnderflow hr.noUnderflow⟩, r.2, rfl, hr.handle⟩

/-! ### Runs of the monitor -/

variable {options : InhibitOptions} {obs before after run : List Observation}

theorem monitor_append (before after : List Observation) :
    monitor options (before ++ after) = Runs.exec tick (monitor options before) after :=
  Runs.exec_append ..

theorem monitor_follows (hok : ∀ o ∈ obs, o.Grants options) : Follows options (monitor options obs) := by
  refine Runs.exec_inv_along (C := fun _ o => o.Grants options) (Follows options) ?_ _ obs ?_ ?_
  · exact fun s o ho hs => (tick_changes hs ho).1
  · exact ⟨rfl, rfl, ⟨by simp, by simp⟩, by simp [Underflows]⟩
  · exact Runs.along_of_forall obs (fun o ho _ => hok o ho) _

theorem monitor_concat (hok : ∀ o' ∈ obs ++ [o], o'.Grants options) :
    ∃ events, (monitor options (obs ++ [o])).log = (monitor options obs).log ++ events ∧
      HandleStep (monitor options obs).manager.activeHandle
        (monitor options (obs ++ [o])).manager.activeHandle (handleEvents events) := by
  rw [monitor_append]
  refine (tick_changes (monitor_follows fun o' ho' => ?_) (hok o (by simp))).2
  exact hok o' (List.mem_append_left _ ho')

theorem prevCount_concat (obs : List Observation) (o : Observation) :
    (monitor options (obs ++ [o])).prevCount = o.count := by
  rw [monitor_append]
  rfl

theorem isSome_concat (hok : ∀ o' ∈ obs ++ [o], o'.Grants options) :
    (monitor options (obs ++ [o])).manager.activeHandle.isSome = true ↔ 0 < o.count := by
  have h := monitor_follows hok
  rw [h.tracks.handle, h.count, prevCount_concat]

theorem activeHandle_eq_none (hok : ∀ o ∈ obs, o.Grants options)
    (hzero : ∀ o, obs.getLast? = some o → o.count = 0) :
    (monitor options obs).manager.activeHandle = none := by
  have h := monitor_follows hok
  refine h.tracks.handle_eq_none (h.count.trans ?_)
  rcases List.eq_nil_or_concat obs with rfl | ⟨before, o, rfl⟩
  · rfl
  · rw [List.concat_eq_append] at hzero ⊢
    rw [prevCount_concat]
    exact hzero o List.getLast?_concat

def handleLog (options : InhibitOptions) (obs : List Observation) : List Event :=
  handleEvents (monitor options obs).log

theorem handleLog_of_isSome_eq (hok : ∀ o' ∈ obs ++ [o], o'.Grants options)
    (hsame : (monitor options obs).manager.activeHandle.isSome =
      (monitor options (obs ++ [o])).manager.activeHandle.isSome) :
    (monitor options (obs ++ [o])).manager.activeHandle = (monitor options obs).manager.activeHandle ∧
      handleLog options (obs ++ [o]) = handleLog options obs := by
  obtain ⟨events, hlog, hstep⟩ := monitor_concat hok
  obtain ⟨heq, hevents⟩ := hstep.eq_of_isSome_eq hsame
  refine ⟨heq, ?_⟩
  rw [handleLog, handleLog, hlog, handleEvents_append, hevents, List.append_nil]

theorem handleLog_acquired (hok : ∀ o' ∈ obs ++ [o], o'.Grants options)
    (hnone : (monitor options obs).manager.activeHandle = none) (hpos : 0 < o.count) :
    ∃ handle, (monitor options (obs ++ [o])).manager.activeHandle = some handle ∧
      handleLog options (obs ++ [o]) = handleLog options obs ++ [.acquired handle] := by
  obtain ⟨events, hlog, hstep⟩ := monitor_concat hok
  obtain ⟨handle, hsome⟩ := Option.isSome_iff_exists.mp ((isSome_concat hok).mpr hpos)
  rw [hnone, hsome] at hstep
  refine ⟨handle, hsome, ?_⟩
  rw [handleLog, handleLog, hlog, handleEvents_append]
  generalize handleEvents events = changes at hstep
  cases hstep
  rfl

theorem handleLog_released {handle : InhibitHandle} (hok : ∀ o' ∈ obs ++ [o], o'.Grants options)
    (hsome : (monitor options obs).manager.activeHandle = some handle) (hzero : o.count = 0) :
    handleLog options (obs ++ [o]) = handleLog options obs ++ [.released handle] := by
  obtain ⟨events, hlog, hstep⟩ := monitor_concat hok
  have hnone := activeHandle_eq_none hok fun o' ho' => by
    rw [List.getLast?_concat] at ho'
    exact Option.some.inj ho' ▸ hzero
  rw [hsome, hnone] at hstep
  rw [handleLog, handleLog, hlog, handleEvents_append]
  generalize handleEvents events = changes at hstep
  cases hstep
  rfl

/-- `run` is a maximal run of positive counts. -/
structure MaximalRun (before run after : List Observation) : Prop where
  nonempty : run ≠ []
  positive : ∀ o ∈ run, 0 < o.count
  before : ∀ o, before.getLast? = some o → o.count = 0
  after : ∀ o, after.head? = some o → o.count = 0

/-- One handle is taken at the start of a run of positive counts and kept in it. -/
theorem run_handle (hok : ∀ o' ∈ before ++ run, o'.Grants options)
    (hnone : (monitor options before).manager.activeHandle = none) (hne : run ≠ [])
    (hpos : ∀ o ∈ run, 0 < o.count) :
    ∃ handle, ∀ p, p ≠ [] → p <+: run →
      (monitor options (before ++ p)).manager.activeHandle = some handle ∧
        handleLog options (before ++ p) = handleLog options before ++ [.acquired handle] := by
  obtain ⟨first, rest, rfl⟩ := List.exists_cons_of_ne_nil hne
  have hgrants {p : List Observation} (hp : p <+: first :: rest) :
      ∀ o ∈ before ++ p, o.Grants options :=
    fun o ho => hok o (((List.prefix_append_right_inj before).mpr hp).subset ho)
  obtain ⟨handle, hsome, hlog⟩ := handleLog_acquired (hgrants ⟨rest, rfl⟩) hnone (hpos first (by simp))
  refine ⟨handle, fun p => ?_⟩
  induction p using List.reverseRecOn with
  | nil => exact fun h => absurd rfl h
  | append_singleton p o ih =>
    intro _ hp
    by_cases hnil : p = []
    · subst hnil
      obtain rfl : o = first := (List.cons_prefix_cons.mp hp).1
      exact ⟨hsome, hlog⟩
    · obtain ⟨hsome', hlog'⟩ := ih hnil ((List.prefix_append p [o]).trans hp)
      have hok' : ∀ o' ∈ (before ++ p) ++ [o], o'.Grants options := by
        rw [List.append_assoc]
        exact hgrants hp
      have hmem : o ∈ first :: rest := hp.subset (by simp)
      have hstill := (isSome_concat hok').mpr (hpos o hmem)
      obtain ⟨heq, hsame⟩ := handleLog_of_isSome_eq hok' (by rw [hstill, hsome']; rfl)
      rw [← List.append_assoc]
      exact ⟨heq.trans hsome', hsame.trans hlog'⟩

/-- The inhibitor follows the count: after every tick the manager has the observed
count, and a handle if that is positive; the counter never underflows; in a
maximal run of positive counts one handle is taken, and given back right after
it; and no handle comes or goes elsewhere. -/
theorem inhibitor_follows_count (options : InhibitOptions) (obs : List Observation)
    (hok : ∀ o ∈ obs, o.Grants options) :
    (∀ before o, before ++ [o] <+: obs →
      (monitor options (before ++ [o])).manager.activeLeases = o.count ∧
      ((monitor options (before ++ [o])).manager.activeHandle.isSome = true ↔ 0 < o.count) ∧
      ((monitor options (before ++ [o])).manager.isInhibited = true ↔ 0 < o.count)) ∧
    ¬ Underflows (monitor options obs).log ∧
    (∀ before run after, obs = before ++ run ++ after → MaximalRun before run after →
      ∃ handle,
        (∀ p, p ≠ [] → p <+: run →
          (monitor options (before ++ p)).manager.activeHandle = some handle ∧
          handleLog options (before ++ p) = handleLog options before ++ [.acquired handle]) ∧
        ∀ o, after.head? = some o →
          handleLog options (before ++ run ++ [o]) =
            handleLog options (before ++ run) ++ [.released handle]) ∧
    (∀ before o, before ++ [o] <+: obs → o.count = 0 →
      (∀ o', before.getLast? = some o' → o'.count = 0) →
      handleLog options (before ++ [o]) = handleLog options before) := by
  have hgrants {p : List Observation} (hp : p <+: obs) : ∀ o ∈ p, o.Grants options :=
    fun o ho => hok o (hp.subset ho)
  refine ⟨?_, (monitor_follows hok).noUnderflow, ?_, ?_⟩
  · intro before o hp
    have h := monitor_follows (hgrants hp)
    have hcount := h.count.trans (prevCount_concat before o)
    exact ⟨hcount, isSome_concat (hgrants hp), hcount ▸ h.tracks.flag⟩
  · rintro before run after rfl hrun
    have hbefore := activeHandle_eq_none (hgrants ((List.prefix_append before run).trans
      (List.prefix_append _ after))) hrun.before
    obtain ⟨handle, hheld⟩ := run_handle (hgrants (List.prefix_append _ after)) hbefore hrun.nonempty
      hrun.positive
    refine ⟨handle, hheld, fun o ho => ?_⟩
    obtain ⟨rest, rfl⟩ := List.head?_eq_some_iff.mp ho
    have hok' := hgrants (p := before ++ run ++ [o]) ⟨rest, by simp⟩
    exact handleLog_released hok' (hheld run hrun.nonempty List.prefix_rfl).1 (hrun.after o ho)
  · intro before o hp hzero hbefore
    have hnone := activeHandle_eq_none (hgrants ((List.prefix_append before [o]).trans hp)) hbefore
    refine (handleLog_of_isSome_eq (hgrants hp) ?_).2
    have hstill := (isSome_concat (hgrants hp)).not.mpr (by rw [hzero]; decide)
    rw [hnone]
    simpa using hstill

def spawningHost : HostEnv := ⟨some 4711, fun _ => none, fun _ => false, none, false, fun _ => none⟩

def daemonOptions : InhibitOptions := ⟨"/run/systemd-inferenced/inhibit.lock", none, false⟩

theorem inhibitor_follows_two_leases :
    (∀ o ∈ [2, 1, 0].map fun n => (⟨n, fun _ => spawningHost⟩ : Observation), o.Grants daemonOptions) ∧
      ∃ handle,
        handleLog daemonOptions ([2, 1].map fun n => ⟨n, fun _ => spawningHost⟩) = [.acquired handle] ∧
        handleLog daemonOptions ([2, 1, 0].map fun n => ⟨n, fun _ => spawningHost⟩) =
          [.acquired handle, .released handle] := by
  have hok : ∀ o ∈ [2, 1, 0].map fun n => (⟨n, fun _ => spawningHost⟩ : Observation),
      o.Grants daemonOptions := by
    intro o ho j
    obtain ⟨n, -, rfl⟩ := List.mem_map.mp ho
    rfl
  refine ⟨hok, ?_⟩
  obtain ⟨-, -, hrun, -⟩ := inhibitor_follows_count daemonOptions _ hok
  obtain ⟨handle, hheld, hreleased⟩ := hrun [] ([2, 1].map fun n => ⟨n, fun _ => spawningHost⟩)
    [⟨0, fun _ => spawningHost⟩] rfl ⟨by simp, by simp, by simp, by simp⟩
  have hlog := (hheld _ (by simp) List.prefix_rfl).2
  refine ⟨handle, hlog, ?_⟩
  refine (hreleased _ rfl).trans ?_
  rw [hlog]
  rfl

end Inferenced.Inhibit
