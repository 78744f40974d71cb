import Inferenced.Arbiter.Planes
import Inferenced.Topology.Enclave

/-!
# The planes of a discovered topology

A listing of distinct device names gives planes with distinct ids, and no plane
starts with more memory than it has; the 75 percent of the CPU plane are
computed in floating point, where the rounding of a 64 bit number is far
smaller than the quarter that is left.
-/

namespace Inferenced
open Lib

structure Scan.Distinct (scan : Scan) : Prop where
  accel : (scan.accel.getD []).Nodup
  dri : ((scan.dri.getD []).map (·.fname)).Nodup

/-! ### Memory -/

theorem roundF64_le (n : ℕ) : roundF64 n ≤ n + n / 2 ^ 52 := by
  unfold roundF64
  split
  · omega
  · rename_i hbig
    have hne : n ≠ 0 := by omega
    have hlog : 52 ≤ n.log2 := (Nat.le_log2 hne).mpr (by omega)
    -- one unit in the last place is at most `n / 2 ^ 52`
    have hunit : 2 ^ (n.log2 - 52) ≤ n / 2 ^ 52 := by
      rw [Nat.le_div_iff_mul_le (by decide), ← pow_add, Nat.sub_add_cancel hlog]
      exact Nat.log2_self_le hne
    have hq := Nat.div_mul_le_self n (2 ^ (n.log2 - 52))
    dsimp only
    split
    · rw [Nat.succ_mul]
      omega
    · omega

theorem threeQuarters_le (n : UInt64) : threeQuarters n ≤ n := by
  have hn := n.toNat_lt
  have h₁ := roundF64_le n.toNat
  have h₂ := roundF64_le (3 * roundF64 n.toNat)
  have hle : roundF64 (3 * roundF64 n.toNat) / 4 ≤ n.toNat := by omega
  rw [UInt64.le_iff_toNat_le, threeQuarters, UInt64.toNat_ofNat_of_lt' (hle.trans_lt hn)]
  exact hle

def Covered (p : ComputePlane) : Prop := p.availableMemoryBytes ≤ p.totalMemoryBytes

theorem covered_drmPlane (totalRam availRam : UInt64) (e : DrmEntry) :
    Covered (drmPlane totalRam availRam e) := by
  unfold Covered drmPlane
  dsimp only
  split
  · show (if availRam ≤ _ then availRam else _) ≤ _
    split
    · assumption
    · exact UInt64.le_refl _
  · exact UInt64.le_refl _

theorem Covered.setAsideQuota {p : ComputePlane} (h : Covered p) : Covered (setAsideQuota p) := by
  unfold Covered Inferenced.setAsideQuota at *
  rw [UInt64.le_iff_toNat_le] at *
  simp only [toNat_saturatingSub]
  omega

theorem Covered.quarantine {p : ComputePlane} (h : Covered p) (drivers : List String) :
    Covered (quarantine drivers p) := by
  unfold Inferenced.quarantine
  split
  · exact h
  · exact h

theorem covered_assignTriageEnclave {planes : List ComputePlane} (h : ∀ p ∈ planes, Covered p) :
    ∀ p ∈ (assignTriageEnclave planes).2, Covered p := by
  intro p hp
  unfold assignTriageEnclave at hp
  split at hp
  · rcases mem_modifyFirst hp with hp | ⟨q, hq, -, rfl⟩
    · exact h p hp
    · exact h q hq
  · split at hp
    · rcases mem_modifyFirst hp with hp | ⟨q, hq, -, rfl⟩
      · exact h p hp
      · exact (h q hq).setAsideQuota
    · exact h p hp

/-! ### Ids -/

theorem ids_assignTriageEnclave (planes : List ComputePlane) :
    (assignTriageEnclave planes).2.map (·.id) = planes.map (·.id) :=
  map_assignTriageEnclave _ (fun _ => rfl) (fun _ => rfl) planes

theorem quarantine_id (drivers : List String) (p : ComputePlane) :
    (quarantine drivers p).id = p.id := by
  unfold quarantine
  split <;> rfl

theorem nodup_ids_npu {accel : Option (List String)} (hailo : Bool) (h : (accel.getD []).Nodup) :
    ((discoverNpuPlanes accel hailo).map (·.id)).Nodup := by
  unfold discoverNpuPlanes
  rw [List.map_append, List.nodup_append]
  refine ⟨?_, by cases hailo <;> decide, ?_⟩
  · rw [List.map_map]
    refine (h.filter _).map fun a b hab => ?_
    exact (String.append_right_inj "npu-").mp hab
  · intro a ha b hb hab
    obtain ⟨p, hp, rfl⟩ := List.mem_map.mp ha
    obtain ⟨name, hname, rfl⟩ := List.mem_map.mp hp
    obtain ⟨-, haccel⟩ := List.mem_filter.mp hname
    cases hailo with
    | false => cases hb
    | true =>
      obtain rfl := List.mem_singleton.mp hb
      have hname : name = "hailo0" := (String.append_right_inj "npu-").mp hab
      rw [hname] at haccel
      exact absurd haccel (by decide)

theorem append_ne_of_head {a b : String} (h : a.toList.head? ≠ b.toList.head?) (ha : a.toList ≠ [])
    (hb : b.toList ≠ []) (x y : String) : a ++ x ≠ b ++ y := by
  intro heq
  have hlist : a.toList ++ x.toList = b.toList ++ y.toList := by
    rw [← String.toList_append, ← String.toList_append, heq]
  have hhead := congrArg List.head? hlist
  rw [List.head?_append_of_ne_nil _ ha, List.head?_append_of_ne_nil _ hb] at hhead
  exact h hhead

theorem nodup_ids_drm {dri : Option (List DrmEntry)} (totalRam availRam : UInt64)
    (h : ((dri.getD []).map (·.fname)).Nodup) :
    ((discoverDrmPlanes dri totalRam availRam).map (·.id)).Nodup := by
  unfold discoverDrmPlanes
  rw [List.map_map]
  have hids : (fun e => (drmPlane totalRam availRam e).id) = ("drm-" ++ ·) ∘ (·.fname) := rfl
  show List.Nodup (List.map (fun e => (drmPlane totalRam availRam e).id) _)
  rw [hids, ← List.map_map]
  exact (h.sublist (List.filter_sublist.map _)).map fun a b hab =>
    (String.append_right_inj "drm-").mp hab

theorem id_of_mem_npu {accel : Option (List String)} {hailo : Bool} {p : ComputePlane}
    (h : p ∈ discoverNpuPlanes accel hailo) : ∃ x, p.id = "npu-" ++ x := by
  rcases List.mem_append.mp h with h | h
  · obtain ⟨name, -, rfl⟩ := List.mem_map.mp h
    exact ⟨name, rfl⟩
  · cases hailo with
    | true =>
      rw [List.mem_singleton.mp h]
      exact ⟨"hailo0", rfl⟩
    | false => cases h

theorem id_of_mem_drm {dri : Option (List DrmEntry)} {totalRam availRam : UInt64}
    {p : ComputePlane} (h : p ∈ discoverDrmPlanes dri totalRam availRam) :
    ∃ x, p.id = "drm-" ++ x := by
  obtain ⟨e, -, rfl⟩ := List.mem_map.mp h
  exact ⟨e.fname, rfl⟩

theorem discover_wellFormed (scan : Scan) (h : scan.Distinct) :
    (HardwareTopology.discover scan).WellFormed := by
  refine ⟨?_, covered_assignTriageEnclave fun p hp => ?_⟩
  · unfold HardwareTopology.Distinct HardwareTopology.discover
    dsimp only
    rw [ids_assignTriageEnclave, List.map_map]
    simp only [Function.comp_def, quarantine_id]
    rw [List.map_append, List.map_append, List.nodup_append, List.nodup_append]
    refine ⟨⟨nodup_ids_npu scan.hailo h.accel, nodup_ids_drm _ _ h.dri, ?_⟩,
      List.nodup_singleton _, ?_⟩
    · intro a ha b hb
      obtain ⟨p, hp, rfl⟩ := List.mem_map.mp ha
      obtain ⟨q, hq, rfl⟩ := List.mem_map.mp hb
      obtain ⟨x, hx⟩ := id_of_mem_npu hp
      obtain ⟨y, hy⟩ := id_of_mem_drm hq
      rw [hx, hy]
      exact append_ne_of_head (by decide) (by decide) (by decide) x y
    · intro a ha b hb
      rw [List.mem_singleton.mp hb]
      show a ≠ "cpu-" ++ "host"
      rcases List.mem_append.mp ha with ha | ha
      · obtain ⟨p, hp, rfl⟩ := List.mem_map.mp ha
        obtain ⟨x, hx⟩ := id_of_mem_npu hp
        rw [hx]
        exact append_ne_of_head (by decide) (by decide) (by decide) x _
      · obtain ⟨p, hp, rfl⟩ := List.mem_map.mp ha
        obtain ⟨x, hx⟩ := id_of_mem_drm hp
        rw [hx]
        exact append_ne_of_head (by decide) (by decide) (by decide) x _
  · obtain ⟨q, rfl, hq⟩ := mem_planes hp
    refine Covered.quarantine ?_ _
    rcases hq with hq | hq | rfl
    · rcases List.mem_append.mp hq with hq | hq
      · obtain ⟨name, -, rfl⟩ := List.mem_map.mp hq
        exact UInt64.le_refl _
      · split at hq
        · rw [List.mem_singleton.mp hq]
          exact UInt64.le_refl _
        · cases hq
    · obtain ⟨e, -, rfl⟩ := List.mem_map.mp hq
      exact covered_drmPlane _ _ e
    · exact threeQuarters_le _

end Inferenced
