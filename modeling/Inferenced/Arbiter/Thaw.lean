import Inferenced.Arbiter.SharedMemory

/-!
# A thaw takes all of its memory or none

`thaw_lease` (arbiter.rs:204-233) looks a preempted lease's plane up four times:
for its kind, for its room, and once for each of the two debits. All the checks
come before the first write, and both debits find the planes that were checked,
so that neither of them saturates. Nothing is assumed of the state: an id that
several planes share stands for the first of them.
-/

namespace Inferenced.Arbiter
open Lib Lib.Runs HardwareTopology

variable {s : ArbiterState} {id : LeaseId} {l : ComputeLease} {t t' : HardwareTopology} {b : UInt64}

/-- Plane `i` has exactly `b` bytes less available, and is otherwise the same. -/
def Debited (b : UInt64) (t t' : HardwareTopology) (i : ℕ) : Prop :=
  ∃ p p', t.planes[i]? = some p ∧ t'.planes[i]? = some p' ∧ p'.layout = p.layout ∧
    p'.availableMemoryBytes.toNat + b.toNat = p.availableMemoryBytes.toNat

/-- What the thaw of the preempted lease `l` makes of the arbiter. -/
structure Thawed (s after : ArbiterState) (l : ComputeLease) : Prop where
  active : after.leases.get? l.id = some (l.withState .active)
  plane : ∃ i, s.topology.idx? l.planeId = some i ∧
    Debited l.allocatedMemoryBytes s.topology after.topology i
  cpu : s.topology.isUma l.planeId = true → ∀ i, s.topology.cpuIdx? = some i →
    Debited l.allocatedMemoryBytes s.topology after.topology i
  others : ∀ i, s.topology.chargesAt l.planeId i = false →
    after.topology.planes[i]? = s.topology.planes[i]?
  bare : after.topology.bare = s.topology.bare

theorem debited_of_le {q : String} {i : ℕ} {p : ComputePlane} (hc : t.chargesAt q i = true)
    (hp : t.planes[i]? = some p) (hle : b ≤ p.availableMemoryBytes) :
    Debited b t (debitPlaneMemory t q b) i := by
  refine ⟨p, p.debit b, hp, ?_, rfl, ?_⟩
  · rw [getElem?_debitPlaneMemory, if_pos hc, hp]
    rfl
  · rw [UInt64.le_iff_toNat_le] at hle
    rw [ComputePlane.debit, toNat_saturatingSub]
    omega

theorem ThawFits.debited_plane (h : ThawFits t l) :
    ∃ i, t.idx? l.planeId = some i ∧
      Debited l.allocatedMemoryBytes t (debitPlaneMemory t l.planeId l.allocatedMemoryBytes) i := by
  obtain ⟨⟨p, hfind, hle⟩, -⟩ := h
  obtain ⟨i, hi, hp⟩ : ∃ i, t.idx? l.planeId = some i ∧ t.planes[i]? = some p := by
    rw [find?_eq_bind] at hfind
    exact Option.bind_eq_some_iff.mp hfind
  exact ⟨i, hi, debited_of_le (by simp [chargesAt, hi]) hp hle⟩

theorem ThawFits.debited_cpu (h : ThawFits t l) (hu : t.isUma l.planeId = true) {i : ℕ}
    (hi : t.cpuIdx? = some i) :
    Debited l.allocatedMemoryBytes t (debitPlaneMemory t l.planeId l.allocatedMemoryBytes) i := by
  obtain ⟨c, hc, -, hcpu⟩ := getElem?_of_cpuIdx? hi
  have hle : l.allocatedMemoryBytes ≤ c.availableMemoryBytes := by
    have hshort := h.2
    rw [cpuShortage, if_pos hu, hcpu] at hshort
    simpa [Option.filter] using hshort
  exact debited_of_le (by simp [chargesAt, hu, hi]) hc hle

theorem ThawFits.thawed (h : ThawFits s.topology l) (hl : s.leases.get? id = some l) :
    Thawed s { s with
      topology := debitPlaneMemory s.topology l.planeId l.allocatedMemoryBytes
      leases := s.leases.setState id .active } l where
  active := by
    rw [get?_setState, if_pos (KeyedMap.get?_key hl), KeyedMap.get?_key hl, hl]
    rfl
  plane := h.debited_plane
  cpu := fun hu _ hi => h.debited_cpu hu hi
  others := fun i hi => by
    rw [getElem?_debitPlaneMemory, hi]
    rfl
  bare := bare_debitPlaneMemory _ _

theorem thawLease_of_error {e : Error} (h : (thawLease s id).result = .error e) :
    (thawLease s id).state = s := by
  rcases thawLease_cases s id with
    ⟨e', he, -⟩ | ⟨l, -, -, -, he⟩ | ⟨l, -, -, he⟩ | ⟨l, -, -, he⟩ <;> rw [he] at h ⊢
  all_goals cases h

theorem thawLease_of_not_preempted (hl : s.leases.get? id = some l) (hst : l.state ≠ .preempted) :
    ∃ leases : LeaseMap, thawLease s id = { result := .ok (), state := { s with leases } } ∧
      (∀ j, j ≠ id → leases.get? j = s.leases.get? j) ∧
      (l.isLive = false → leases.get? id = some l) := by
  rcases thawLease_cases s id with
    ⟨e, -, hno⟩ | ⟨m, hm, hp, -, -⟩ | ⟨m, hm, hsusp, he⟩ | ⟨m, hm, -, he⟩
  · exact absurd (hno l hl).1 hst
  · obtain rfl : m = l := Option.some.inj (hm.symm.trans hl)
    exact absurd hp hst
  · obtain rfl : m = l := Option.some.inj (hm.symm.trans hl)
    refine ⟨_, he, fun j hj => ?_, fun hdead => ?_⟩
    · rw [get?_setState, if_neg hj]
    · rcases hsusp with hsusp | hsusp <;> rw [ComputeLease.isLive, hsusp] at hdead <;> cases hdead
  · exact ⟨s.leases, he, fun _ _ => rfl, fun _ => hl⟩

/-- A refused thaw leaves the state alone. A thaw that is granted leaves the
other leases alone; it takes the memory of a preempted lease, all of it, and
that of no other, and it revives no lease that has ended. -/
theorem thaw_all_or_nothing (s : ArbiterState) (id : LeaseId) :
    (∀ e, (thawLease s id).result = .error e → (thawLease s id).state = s) ∧
    ((thawLease s id).result = .ok () → ∃ l, s.leases.get? id = some l ∧
      (∀ j, j ≠ id → (thawLease s id).state.leases.get? j = s.leases.get? j) ∧
      (thawLease s id).state.registry = s.registry ∧
      (l.state = .preempted → Thawed s (thawLease s id).state l) ∧
      (l.state ≠ .preempted → (thawLease s id).state.topology = s.topology) ∧
      (l.isLive = false → (thawLease s id).state.leases.get? id = some l)) := by
  refine ⟨fun e => thawLease_of_error, fun hok => ?_⟩
  cases hl : s.leases.get? id with
  | none =>
    rw [thawLease, hl] at hok
    cases hok
  | some l =>
    refine ⟨l, rfl, ?_⟩
    by_cases hp : l.state = .preempted
    · rcases thawLease_of_preempted hl hp with ⟨e, he, -⟩ | ⟨hfit, he⟩
      · rw [he] at hok
        cases hok
      · rw [he]
        refine ⟨fun j hj => ?_, rfl, fun _ => hfit.thawed hl, absurd hp, fun hdead => ?_⟩
        · rw [get?_setState, if_neg hj]
        · rw [preempted_isLive hp] at hdead
          cases hdead
    · obtain ⟨leases, he, hothers, hdead⟩ := thawLease_of_not_preempted hl hp
      rw [he]
      exact ⟨hothers, rfl, fun h => absurd h hp, fun _ => rfl, hdead⟩

/-- A batch lease of 4 bytes on the UMA plane that an interactive one has
preempted, before and after the release of that one. -/
def preemptedUma (released : Bool) : ArbiterState :=
  exec stepLease (new umaTopology)
    ([.acquire (sampleEnv 0) (sampleRequest .batch 4 "drm-renderD128"),
      .acquire (sampleEnv 1) (sampleRequest .interactive 6 "drm-renderD128")] ++
      if released then [.release (sampleId 1)] else [])

theorem thaw_all_or_nothing_preemptedUma :
    (thawLease (preemptedUma false) (sampleId 0)).state = preemptedUma false ∧
      ∃ l, (preemptedUma true).leases.get? (sampleId 0) = some l ∧ l.state = .preempted ∧
        Thawed (preemptedUma true) (thawLease (preemptedUma true) (sampleId 0)).state l := by
  refine ⟨(thaw_all_or_nothing (preemptedUma false) (sampleId 0)).1
    (.resourceExhaustion "drm-renderD128" 4 2) (by rfl), ?_⟩
  obtain ⟨l, hl, -, -, hthaw, -⟩ := (thaw_all_or_nothing (preemptedUma true) (sampleId 0)).2 (by rfl)
  have hst : ((preemptedUma true).leases.get? (sampleId 0)).map (·.state) = some .preempted := by decide
  rw [hl] at hst
  exact ⟨l, hl, Option.some.inj hst, hthaw (Option.some.inj hst)⟩

end Inferenced.Arbiter
