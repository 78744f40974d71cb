import Inferenced.Peer

/-!
# Slices by path segment (peer.rs:69-90)

The slice of a peer is found among the segments of its cgroup path, the two
flags by a search in the whole path. A flag agrees with the segments unless a
segment has the name of the slice inside a longer name.
-/

namespace Inferenced
open Lib

def segmentsOf (cgroupPath : String) : List (List Char) := UnixPath.segments cgroupPath.toList

/-- Slice and flags are those of the segments. -/
structure BySegment (cgroupPath : String) : Prop where
  batch : (parseSliceAndFlags cgroupPath).2.2 = true ↔
    "ai-batch.slice".toList ∈ segmentsOf cgroupPath
  container : (parseSliceAndFlags cgroupPath).2.1 = true ↔
    "machine.slice".toList ∈ segmentsOf cgroupPath
  slice : (parseSliceAndFlags cgroupPath).1 =
    (((segmentsOf cgroupPath).find? isSlice).map String.ofList).getD "system.slice"

/-- A segment has the name inside it only if some segment is the name. -/
def NamedExactly (cgroupPath name : String) : Prop :=
  ∀ seg ∈ segmentsOf cgroupPath, name.toList <:+: seg → name.toList ∈ segmentsOf cgroupPath

theorem contains_iff_segment {name : String} (hname : '/' ∉ name.toList) (cgroupPath : String) :
    Text.contains cgroupPath.toList name.toList = true ↔
      ∃ seg ∈ segmentsOf cgroupPath, name.toList <:+: seg := by
  rw [Text.contains, decide_eq_true_eq]
  exact Text.infix_iff_piece hname cgroupPath.toList

theorem contains_iff_mem_iff {name : String} (hname : '/' ∉ name.toList) (cgroupPath : String) :
    (Text.contains cgroupPath.toList name.toList = true ↔ name.toList ∈ segmentsOf cgroupPath) ↔
      NamedExactly cgroupPath name := by
  rw [contains_iff_segment hname]
  constructor
  · intro h seg hseg hin
    exact h.mp ⟨seg, hseg, hin⟩
  · intro h
    constructor
    · rintro ⟨seg, hseg, hin⟩
      exact h seg hseg hin
    · intro hmem
      exact ⟨name.toList, hmem, List.infix_refl _⟩

theorem slice_of_segments {cgroupPath : String}
    (hcontainer : (parseSliceAndFlags cgroupPath).2.1 = true ↔
      "machine.slice".toList ∈ segmentsOf cgroupPath)
    (hbatch : (parseSliceAndFlags cgroupPath).2.2 = true ↔
      "ai-batch.slice".toList ∈ segmentsOf cgroupPath) :
    (parseSliceAndFlags cgroupPath).1 =
      (((segmentsOf cgroupPath).find? isSlice).map String.ofList).getD "system.slice" := by
  cases hfind : (segmentsOf cgroupPath).find? isSlice with
  | some seg =>
    have hfind' : (UnixPath.segments cgroupPath.toList).find? isSlice = some seg := hfind
    simp only [parseSliceAndFlags, hfind', Option.map_some, Option.getD_some]
  | none =>
    -- a flag would be that of a segment, which ends in `.slice`
    have hno : ∀ seg, isSlice seg = true → seg ∉ segmentsOf cgroupPath := fun seg hslice hmem =>
      absurd hslice (by simpa using List.find?_eq_none.mp hfind seg hmem)
    have hcontainer' : Text.contains cgroupPath.toList "machine.slice".toList = false :=
      Bool.eq_false_iff.mpr fun h => hno _ (by decide) (hcontainer.mp h)
    have hbatch' : Text.contains cgroupPath.toList "ai-batch.slice".toList = false :=
      Bool.eq_false_iff.mpr fun h => hno _ (by decide) (hbatch.mp h)
    have hfind' : (UnixPath.segments cgroupPath.toList).find? isSlice = none := hfind
    simp only [parseSliceAndFlags, hfind', hcontainer', hbatch', Bool.false_eq_true, if_false,
      Option.map_none, Option.getD_none]

/-- Slices by segment: slice and flags of a cgroup path are those of its segments
if and only if no segment has `machine.slice` or `ai-batch.slice` inside a longer
name, or there is also a segment of that very name. -/
theorem slice_by_segment_iff (cgroupPath : String) :
    BySegment cgroupPath ↔
      NamedExactly cgroupPath "machine.slice" ∧ NamedExactly cgroupPath "ai-batch.slice" := by
  have hmachine : '/' ∉ "machine.slice".toList := by decide
  have haiBatch : '/' ∉ "ai-batch.slice".toList := by decide
  have hcontainer := contains_iff_mem_iff hmachine cgroupPath
  have hbatch := contains_iff_mem_iff haiBatch cgroupPath
  constructor
  · intro h
    exact ⟨hcontainer.mp h.container, hbatch.mp h.batch⟩
  · rintro ⟨hc, hb⟩
    have hc' := hcontainer.mpr hc
    have hb' := hbatch.mpr hb
    exact ⟨hb', hc', slice_of_segments hc' hb'⟩

/-- A slice whose name ends in that of the batch slice. -/
theorem openai_batch_misclassified :
    parseSliceAndFlags "/user.slice/open-ai-batch.slice/chat.service" = ("user.slice", false, true) ∧
      ¬ BySegment "/user.slice/open-ai-batch.slice/chat.service" := by
  constructor
  · decide +kernel
  · intro h
    have hmem := h.batch.mp (by decide +kernel)
    exact absurd hmem (by decide +kernel)

end Inferenced
