import Inferenced.Arbiter.Capacity
import Inferenced.Arbiter.Conservation
import Inferenced.Arbiter.Credits

/-!
# The additions of `restore_plane_memory`

A credit (arbiter.rs:236-246) adds the size of a lease to what its plane has
left, and for a UMA plane to what the CPU plane has left, before it takes the
minimum with the total. Preemption credits leases below emergency, which are no
larger than a plane. Only the forced path of `acquire_lease` grants a lease
whose size nobody has compared with anything, and such a lease can meet a plane
to which others have returned memory.
-/

namespace Inferenced.Arbiter
open Lib Lib.Runs HardwareTopology

variable {t T : HardwareTopology} {s : ArbiterState}

/-- Both sums of a credit are below `2 ^ 64`. -/
def CreditFits (t : HardwareTopology) (c : Credit) : Prop :=
  (∀ p ∈ t.find? c.planeId, p.availableMemoryBytes.toNat + c.bytes.toNat < 2 ^ 64) ∧
    (t.isUma c.planeId = true →
      ∀ cpu ∈ t.cpu?, cpu.availableMemoryBytes.toNat + c.bytes.toNat < 2 ^ 64)

instance (t : HardwareTopology) (c : Credit) : Decidable (CreditFits t c) :=
  inferInstanceAs (Decidable (_ ∧ _))

def NoOverflow (s : ArbiterState) (op : LeaseOp) : Prop :=
  Along creditStep CreditFits s.topology (credits s op)

instance (s : ArbiterState) (op : LeaseOp) : Decidable (NoOverflow s op) :=
  inferInstanceAs (Decidable (Along _ _ _ _))

/-- An operation that ends an active emergency lease of more than `2 ^ 63` bytes
finds its plane, and for a UMA plane the CPU plane, low enough. -/
def OversizedFits (s : ArbiterState) : LeaseOp → Prop
  | .release id | .revoke id => ∀ l ∈ s.leases.get? id, l.isActive = true →
      l.priority = .emergencyTriage → 2 ^ 63 < l.allocatedMemoryBytes.toNat →
      CreditFits s.topology ⟨l.planeId, l.allocatedMemoryBytes⟩
  | _ => True

theorem Capped.creditFits (h : Capped t) {c : Credit} (hc : c.bytes.toNat ≤ 2 ^ 63) :
    CreditFits t c := by
  have hsum : ∀ p ∈ t.planes, p.availableMemoryBytes.toNat + c.bytes.toNat < 2 ^ 64 := by
    intro p hp
    obtain ⟨hle, hlt⟩ := h p hp
    rw [UInt64.le_iff_toNat_le] at hle
    omega
  exact ⟨fun p hp => hsum p (List.mem_of_find?_eq_some hp),
    fun _ cpu hcpu => hsum cpu (List.mem_of_find?_eq_some hcpu)⟩

theorem Capped.along_creditFits (h : Capped t) (cs : List Credit)
    (hcs : ∀ c ∈ cs, c.bytes.toNat ≤ 2 ^ 63) : Along creditStep CreditFits t cs := by
  induction cs generalizing t with
  | nil => exact trivial
  | cons c cs ih =>
    exact ⟨h.creditFits (hcs c (List.mem_cons_self ..)),
      ih (h.restore _ _) fun d hd => hcs d (List.mem_cons_of_mem _ hd)⟩

theorem Bounded.noOverflow_end (h : Bounded s) (id : LeaseId) :
    Along creditStep CreditFits s.topology (endCredits s id) ↔
      ∀ l ∈ s.leases.get? id, l.isActive = true → l.priority = .emergencyTriage →
        2 ^ 63 < l.allocatedMemoryBytes.toNat →
        CreditFits s.topology ⟨l.planeId, l.allocatedMemoryBytes⟩ := by
  unfold endCredits
  cases hl : s.leases.get? id with
  | none => exact iff_of_true trivial fun l hl => by cases hl
  | some l =>
    dsimp only
    cases ha : l.isActive with
    | false =>
      refine iff_of_true trivial fun m hm hma => ?_
      cases hm
      rw [ha] at hma
      cases hma
    | true =>
      constructor
      · rintro ⟨hfit, -⟩ m hm - - -
        cases hm
        exact hfit
      · intro hover
        refine ⟨?_, trivial⟩
        by_cases hsmall : l.allocatedMemoryBytes.toNat ≤ 2 ^ 63
        · exact h.capped.creditFits hsmall
        · -- below emergency no active lease is that large
          have hprio : l.priority = .emergencyTriage := by
            by_contra hne
            have := h.leases id l hl ha hne
            omega
          exact hover l rfl ha hprio (not_le.mp hsmall)

theorem Bounded.noOverflow_iff (h : Bounded s) (op : LeaseOp) :
    NoOverflow s op ↔ OversizedFits s op := by
  cases op with
  | acquire env req =>
    refine iff_of_true (h.capped.along_creditFits _ fun c hc => ?_) trivial
    obtain ⟨l, hl, ha, rfl, hend | ⟨env', req', -, hlt⟩⟩ := mem_credits hc
    · rcases hend with hend | hend <;> cases hend
    · refine (h.leases l.id l hl ha fun he => ?_).le
      exact LeasePriority.emergency_not_lt _ (he ▸ hlt)
  | release id => exact h.noOverflow_end id
  | revoke id => exact h.noOverflow_end id
  | yield id => exact iff_of_true trivial trivial
  | freeze id => exact iff_of_true trivial trivial
  | thaw id => exact iff_of_true trivial trivial

/-- No overflow in memory credits: from a topology with totals below `2 ^ 63`
and `available ≤ total`, no credit of a run of lease operations with any sizes
and priorities reaches `2 ^ 64` if and only if no active emergency lease of more
than `2 ^ 63` bytes is released or revoked while its plane, or for a UMA plane
the CPU plane, has too much left for the sum. -/
theorem credits_below_word_iff (hT : Capped T) (ops : List LeaseOp)
    (hfresh : Fresh LeaseOp.newIds [] ops) :
    Along stepLease NoOverflow (new T) ops ↔ Along stepLease OversizedFits (new T) ops := by
  have hstart : Tracked [] (new T) ∧ Bounded (new T) := by
    refine ⟨tracked_new T, hT, fun id l hl => ?_⟩
    rw [new, KeyedMap.get?_empty] at hl
    cases hl
  have hstep : ∀ used s (op : LeaseOp), Tracked used s ∧ Bounded s → (∀ n ∈ op.newIds, n ∉ used) →
      Tracked (op.newIds ++ used) (stepLease s op) ∧ Bounded (stepLease s op) :=
    fun used s op h hn => ⟨h.1.stepLease op hn, h.2.stepLease op (h.1.fresh hn)⟩
  constructor
  · exact along_fresh (fun used s => Tracked used s ∧ Bounded s)
      (fun used s op h hn _ => hstep used s op h hn)
      (fun used s op h hn => (h.2.noOverflow_iff op).mp) [] _ ops hstart hfresh
  · exact along_fresh (fun used s => Tracked used s ∧ Bounded s)
      (fun used s op h hn _ => hstep used s op h hn)
      (fun used s op h hn => (h.2.noOverflow_iff op).mpr) [] _ ops hstart hfresh

theorem gpuTopology_capped : Capped gpuTopology := by
  intro p hp
  rw [List.mem_singleton.mp hp]
  exact ⟨by decide, by decide⟩

/-- The plane has nothing left when `u64::MAX` bytes are given back. -/
def hugeRun : List LeaseOp :=
  [.acquire (sampleEnv 0) (sampleRequest .emergencyTriage 18446744073709551615 "gpu0"),
   .release (sampleId 0)]

theorem hugeRun_fits : Along stepLease OversizedFits (new gpuTopology) hugeRun := by
  refine ⟨trivial, fun l hl _ _ _ => ?_, trivial⟩
  cases hl
  decide

theorem credits_below_word_iff_hugeRun :
    Along stepLease OversizedFits (new gpuTopology) hugeRun ∧
      Along stepLease NoOverflow (new gpuTopology) hugeRun :=
  ⟨hugeRun_fits, (credits_below_word_iff gpuTopology_capped hugeRun ⟨by decide, by decide⟩).mpr
    hugeRun_fits⟩

/-- An emergency of five bytes, a forced one of `u64::MAX`, and both released. -/
def oversizedRun : List LeaseOp :=
  [.acquire (sampleEnv 0) (sampleRequest .emergencyTriage 5 "gpu0"),
   .acquire (sampleEnv 1) (sampleRequest .emergencyTriage 18446744073709551615 "gpu0"),
   .release (sampleId 0), .release (sampleId 1)]

/-- The second release adds `u64::MAX` to the five bytes of the first: the sum
wraps, and the plane ends with four bytes of ten. -/
theorem oversized_release_overflows :
    Capped gpuTopology ∧ Fresh LeaseOp.newIds [] oversizedRun ∧
      ¬ Along stepLease NoOverflow (new gpuTopology) oversizedRun ∧
      (exec stepLease (new gpuTopology) oversizedRun).topology.available "gpu0" = 4 :=
  ⟨gpuTopology_capped, ⟨by decide, by decide⟩, by decide, by decide⟩

end Inferenced.Arbiter
