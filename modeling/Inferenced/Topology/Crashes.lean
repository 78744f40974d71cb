import Inferenced.Lib.KeyedMap
import Inferenced.Lib.Utf8
import Inferenced.Topology.Discover
import Mathlib.Data.List.ReduceOption
import Mathlib.Data.List.Sort
import Mathlib.Data.String.Basic

/-!
# Crash logs (topology/pstore.rs:23-83)

A line names the first driver of a fixed order of which it has a signature, and
a log is read up to its first line that is not UTF-8. So a driver is reported
exactly if some line that is reached has a signature of it and of no driver
before it.
-/

namespace Inferenced
open Lib

/-- The drivers with their signatures, in the order of the tests. -/
def signatures : List (String × List String) :=
  [("amdgpu", ["amdgpu_job_timedout", "amdgpu: GPU reset"]),
   ("xe", ["xe: GPU reset", "xe 0000:"]),
   ("i915", ["drm/i915: GPU HANG", "i915: Resetting chip"]),
   ("nvidia", ["NVRM: Xid", "fallen off the bus"]),
   ("hailo", ["hailo: device reset failed", "hailo0: timeout"])]

def logLines (content : List UInt8) : List (List UInt8) := Text.lines 10 13 content

def decodeLine (line : List UInt8) : Option (List Char) :=
  (String.fromUTF8? ⟨line.toArray⟩).map (·.toList)

def Shows (line : List UInt8) (sigs : List String) : Prop :=
  ∃ s ∈ sigs, Utf8.ascii s.toList <:+: line

def ShowsDriver (line : List UInt8) (d : String) : Prop :=
  ∃ sigs, (d, sigs) ∈ signatures ∧ Shows line sigs

/-- The line has a signature of the driver, and none of the drivers that are
tested before. -/
def ShowsFirst (line : List UInt8) (d : String) : Prop :=
  ∃ before sigs after, signatures = before ++ (d, sigs) :: after ∧ Shows line sigs ∧
    ∀ e ∈ before, ¬ Shows line e.2

/-- Some line shows the driver first, and this line and those before it are
UTF-8. -/
def Reached (content : List UInt8) (d : String) : Prop :=
  ∃ before line after, logLines content = before ++ line :: after ∧
    (∀ l ∈ before ++ [line], (decodeLine l).isSome) ∧ ShowsFirst line d

def openedLogs (paths : List CrashDir) : List (List UInt8) :=
  paths.flatMap fun dir => ((dir.entries.getD []).filter (·.isCrashLog)).filterMap (·.content)

/-! ### One line -/

theorem isAscii_signatures : ∀ e ∈ signatures, ∀ s ∈ e.2, Utf8.IsAscii s.toList := by
  have hall : signatures.all (fun e => e.2.all fun s => decide (Utf8.IsAscii s.toList)) = true := by
    decide
  intro e he s hs
  exact of_decide_eq_true (List.all_eq_true.mp (List.all_eq_true.mp hall e he) s hs)

theorem map_find?_cons (p : String × List String → Bool) (e : String × List String)
    (table : List (String × List String)) :
    ((e :: table).find? p).map Prod.fst =
      if p e then some e.1 else (table.find? p).map Prod.fst := by
  rw [List.find?_cons]
  cases p e <;> rfl

-- one `if` of the source for each driver of the table
theorem hungDriver_eq (text : List Char) :
    hungDriver text =
      (signatures.find? fun e => e.2.any fun s => Text.contains text s.toList).map Prod.fst := by
  unfold hungDriver signatures
  simp only [map_find?_cons, List.find?_nil, Option.map_none, List.any_cons, List.any_nil, Bool.or_false]

theorem contains_iff_shows {line : List UInt8} {text : List Char} (h : decodeLine line = some text)
    {e : String × List String} (he : e ∈ signatures) :
    (e.2.any fun s => Text.contains text s.toList) = true ↔ Shows line e.2 := by
  obtain ⟨s, hs, rfl⟩ := Option.map_eq_some_iff.mp h
  rw [List.any_eq_true, Shows, ← Utf8.encode_of_fromUTF8? hs]
  refine exists_congr fun sig => and_congr_right fun hsig => ?_
  rw [Utf8.infix_encode_iff (isAscii_signatures e he sig hsig), Text.contains, decide_eq_true_eq]

theorem hungDriver_iff {line : List UInt8} {text : List Char} (h : decodeLine line = some text)
    (d : String) : hungDriver text = some d ↔ ShowsFirst line d := by
  rw [hungDriver_eq, Option.map_eq_some_iff]
  constructor
  · rintro ⟨⟨e, sigs⟩, hfind, rfl⟩
    obtain ⟨hsig, before, after, hsplit, hbefore⟩ := List.find?_eq_some_iff_append.mp hfind
    have hmem : ∀ x ∈ before ++ (e, sigs) :: after, x ∈ signatures := fun x hx => hsplit ▸ hx
    refine ⟨before, sigs, after, hsplit, ?_, fun x hx hshow => ?_⟩
    · exact (contains_iff_shows h (hmem _ (by simp))).mp hsig
    · have hno := hbefore x hx
      rw [(contains_iff_shows h (hmem x (List.mem_append_left _ hx))).mpr hshow] at hno
      cases hno
  · rintro ⟨before, sigs, after, hsplit, hshow, hbefore⟩
    have hmem : ∀ x ∈ before ++ (d, sigs) :: after, x ∈ signatures := fun x hx => hsplit ▸ hx
    refine ⟨(d, sigs), List.find?_eq_some_iff_append.mpr ⟨?_, before, after, hsplit, ?_⟩, rfl⟩
    · exact (contains_iff_shows h (hmem _ (by simp))).mpr hshow
    · intro x hx
      rw [Bool.not_eq_true', Bool.eq_false_iff, ne_eq,
        contains_iff_shows h (hmem x (List.mem_append_left _ hx))]
      exact hbefore x hx

theorem ShowsFirst.showsDriver {line : List UInt8} {d : String} (h : ShowsFirst line d) :
    ShowsDriver line d := by
  obtain ⟨before, sigs, after, hsplit, hshow, -⟩ := h
  exact ⟨sigs, hsplit ▸ List.mem_append_right _ (List.mem_cons_self ..), hshow⟩

/-! ### One log -/

theorem mem_takeWhile_iff {α : Type*} {p : α → Bool} {l : List α} {x : α} :
    x ∈ l.takeWhile p ↔
      ∃ before after, l = before ++ x :: after ∧ ∀ y ∈ before ++ [x], p y = true := by
  constructor
  · intro h
    obtain ⟨before, after, hsplit⟩ := List.append_of_mem h
    refine ⟨before, after ++ l.dropWhile p, ?_, fun y hy => ?_⟩
    · rw [← List.cons_append, ← List.append_assoc, ← hsplit, List.takeWhile_append_dropWhile]
    · have hall := List.all_takeWhile (p := p) (l := l)
      refine List.all_eq_true.mp hall y ?_
      rw [hsplit]
      simp only [List.mem_append, List.mem_cons] at hy ⊢
      tauto
  · rintro ⟨before, after, rfl, hall⟩
    rw [List.append_cons, List.takeWhile_append_of_pos hall]
    simp

theorem mem_crashLines {content : List UInt8} {text : List Char} :
    text ∈ crashLines content ↔
      ∃ before line after, logLines content = before ++ line :: after ∧
        (∀ l ∈ before, (decodeLine l).isSome) ∧ decodeLine line = some text := by
  have heq : crashLines content =
      (((logLines content).takeWhile fun l => (decodeLine l).isSome).map decodeLine).reduceOption := by
    rw [crashLines, List.takeWhile_map]
    rfl
  rw [heq, List.reduceOption_mem_iff, List.mem_map]
  simp only [mem_takeWhile_iff]
  constructor
  · rintro ⟨line, ⟨before, after, hsplit, hall⟩, htext⟩
    exact ⟨before, line, after, hsplit, fun l hl => hall l (List.mem_append_left _ hl), htext⟩
  · rintro ⟨before, line, after, hsplit, hall, htext⟩
    refine ⟨line, ⟨before, after, hsplit, fun l hl => ?_⟩, htext⟩
    rcases List.mem_append.mp hl with hl | hl
    · exact hall l hl
    · rw [List.mem_singleton.mp hl, htext]
      rfl

theorem mem_scanFileForGpuHangs {content : List UInt8} {d : String} :
    d ∈ scanFileForGpuHangs content ↔ Reached content d := by
  rw [scanFileForGpuHangs, List.mem_filterMap]
  simp only [mem_crashLines]
  constructor
  · rintro ⟨text, ⟨before, line, after, hsplit, hall, htext⟩, hd⟩
    refine ⟨before, line, after, hsplit, fun l hl => ?_, (hungDriver_iff htext d).mp hd⟩
    rcases List.mem_append.mp hl with hl | hl
    · exact hall l hl
    · rw [List.mem_singleton.mp hl, htext]
      rfl
  · rintro ⟨before, line, after, hsplit, hall, hfirst⟩
    obtain ⟨text, htext⟩ := Option.isSome_iff_exists.mp
      (hall line (List.mem_append_right _ (List.mem_singleton_self _)))
    exact ⟨text, ⟨before, line, after, hsplit, fun l hl => hall l (List.mem_append_left _ hl), htext⟩,
      (hungDriver_iff htext d).mpr hfirst⟩

theorem Reached.known {content : List UInt8} {d : String} (h : Reached content d) :
    d ∈ knownDrivers := by
  obtain ⟨-, line, -, -, -, hfirst⟩ := h
  obtain ⟨sigs, hmem, -⟩ := hfirst.showsDriver
  have hall : signatures.all (fun e => knownDrivers.contains e.1) = true := by decide
  exact List.contains_iff_mem.mp (List.all_eq_true.mp hall _ hmem)

/-! ### All logs -/

/-- The drivers as the code collects them: a set, listed in some order and then
sorted. -/
def collectedDrivers (order : IterOrder String) (paths : List CrashDir) : List String :=
  (order.order ((openedLogs paths).flatMap scanFileForGpuHangs).dedup).insertionSort (· ≤ ·)

theorem quarantinedDrivers_eq (paths : List CrashDir) :
    (analyzeDirectories paths).quarantinedDrivers =
      knownDrivers.filter fun d => ((openedLogs paths).flatMap scanFileForGpuHangs).contains d := by
  unfold analyzeDirectories openedLogs
  simp only [List.flatMap_map]

theorem mem_quarantinedDrivers {paths : List CrashDir} {d : String} :
    d ∈ (analyzeDirectories paths).quarantinedDrivers ↔ ∃ content ∈ openedLogs paths, Reached content d := by
  rw [quarantinedDrivers_eq, List.mem_filter, List.contains_iff_mem, List.mem_flatMap]
  simp only [mem_scanFileForGpuHangs]
  constructor
  · exact And.right
  · rintro ⟨content, hmem, hreached⟩
    exact ⟨hreached.known, content, hmem, hreached⟩

theorem sorted_quarantinedDrivers (paths : List CrashDir) :
    (analyzeDirectories paths).quarantinedDrivers.Pairwise (· < ·) := by
  have hknown : knownDrivers.Pairwise (· < ·) := by decide
  rw [quarantinedDrivers_eq]
  exact hknown.filter _

/-- Whatever order the set is listed in, the sorted list is the one of the
model. -/
theorem collectedDrivers_eq (order : IterOrder String) (paths : List CrashDir) :
    collectedDrivers order paths = (analyzeDirectories paths).quarantinedDrivers := by
  have hsorted := sorted_quarantinedDrivers paths
  have hperm : (collectedDrivers order paths).Perm (analyzeDirectories paths).quarantinedDrivers := by
    refine (List.perm_insertionSort _ _).trans ((order.perm _).trans ?_)
    refine (List.perm_ext_iff_of_nodup (List.nodup_dedup _) (hsorted.imp fun h => h.ne)).mpr fun d => ?_
    rw [List.mem_dedup, List.mem_flatMap, mem_quarantinedDrivers]
    simp only [mem_scanFileForGpuHangs]
  refine hperm.eq_of_pairwise' (r := (· ≤ ·)) ?_ (hsorted.imp fun h => h.le)
  exact List.pairwise_insertionSort _ _

/-- The drivers are sorted without duplicates, and they are those of which some
line of a log has a signature. -/
structure ExactScan (logs : List (List UInt8)) (drivers : List String) : Prop where
  sorted : drivers.Pairwise (· < ·)
  exact : ∀ d, d ∈ drivers ↔ ∃ content ∈ logs, ∃ line ∈ logLines content, ShowsDriver line d

/-- Crash scanning is complete and exact if and only if every driver of which a
line has a signature is shown by a line that is reached and that shows no driver
tested before. -/
theorem crash_scan_exact_iff (order : IterOrder String) (paths : List CrashDir) :
    collectedDrivers order paths = (analyzeDirectories paths).quarantinedDrivers ∧
    (ExactScan (openedLogs paths) (analyzeDirectories paths).quarantinedDrivers ↔
      ∀ d, ∀ content ∈ openedLogs paths, ∀ line ∈ logLines content, ShowsDriver line d →
        ∃ content ∈ openedLogs paths, Reached content d) := by
  refine ⟨collectedDrivers_eq order paths, fun h d content hc line hl hshow => ?_, fun h => ?_⟩
  · exact mem_quarantinedDrivers.mp ((h.exact d).mpr ⟨content, hc, line, hl, hshow⟩)
  · refine ⟨sorted_quarantinedDrivers paths, fun d => ?_⟩
    rw [mem_quarantinedDrivers]
    constructor
    · rintro ⟨content, hc, before, line, after, hsplit, -, hfirst⟩
      exact ⟨content, hc, line, hsplit ▸ List.mem_append_right _ (List.mem_cons_self ..),
        hfirst.showsDriver⟩
    · rintro ⟨content, hc, line, hl, hshow⟩
      exact h d content hc line hl hshow

/-- A log with two signatures on its first line, and a third behind a byte that
is not UTF-8. -/
def mixedCrash : List CrashDir :=
  [{ path := "/sys/fs/pstore"
     entries := some [{ name := "dmesg-efi-1"
                        content := some
                          (Utf8.ascii "amdgpu: GPU reset, NVRM: Xid\n".toList ++ [255, 10] ++
                            Utf8.ascii "hailo0: timeout\n".toList) }] }]

theorem mixedCrash_hides_drivers :
    (analyzeDirectories mixedCrash).quarantinedDrivers = ["amdgpu"] ∧
      (∃ content ∈ openedLogs mixedCrash,
        (∃ line ∈ logLines content, ShowsDriver line "nvidia") ∧
        ∃ line ∈ logLines content, ShowsDriver line "hailo") ∧
      ¬ ExactScan (openedLogs mixedCrash) (analyzeDirectories mixedCrash).quarantinedDrivers := by
  have hdrivers : (analyzeDirectories mixedCrash).quarantinedDrivers = ["amdgpu"] := by
    decide +kernel
  have hnvidia : ∃ line ∈ logLines (Utf8.ascii "amdgpu: GPU reset, NVRM: Xid\n".toList ++ [255, 10] ++
      Utf8.ascii "hailo0: timeout\n".toList), ShowsDriver line "nvidia" :=
    ⟨Utf8.ascii "amdgpu: GPU reset, NVRM: Xid".toList, by decide +kernel,
      ["NVRM: Xid", "fallen off the bus"], by decide, "NVRM: Xid", by decide, by decide +kernel⟩
  have hhailo : ∃ line ∈ logLines (Utf8.ascii "amdgpu: GPU reset, NVRM: Xid\n".toList ++ [255, 10] ++
      Utf8.ascii "hailo0: timeout\n".toList), ShowsDriver line "hailo" :=
    ⟨Utf8.ascii "hailo0: timeout".toList, by decide +kernel,
      ["hailo: device reset failed", "hailo0: timeout"], by decide, "hailo0: timeout", by decide,
      by decide +kernel⟩
  have hopened := List.mem_singleton_self (Utf8.ascii "amdgpu: GPU reset, NVRM: Xid\n".toList ++
    [255, 10] ++ Utf8.ascii "hailo0: timeout\n".toList)
  refine ⟨hdrivers, ⟨_, hopened, hnvidia, hhailo⟩, fun h => ?_⟩
  have hmem := (h.exact "hailo").mpr ⟨_, hopened, hhailo⟩
  rw [hdrivers] at hmem
  exact absurd hmem (by decide)

end Inferenced
