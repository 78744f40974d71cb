import Inferenced.Peer

/-!
# The cgroup freezer (crates/inferenced-core/src/freezer.rs)

Which directory of the cgroup hierarchy a freeze request reaches. Whether a
file exists is the answer of the file system at the time of the request.
-/

namespace Inferenced.Freezer
open Lib Lib.UnixPath

/-- `CGROUP_ROOT`. -/
def cgroupRoot : List Char := "/sys/fs/cgroup".toList

def freezeFile : List Char := "cgroup.freeze".toList

variable (fileExists : List Char → Bool)

/-- `resolve_freeze_path` (freezer.rs:61-85). -/
def resolveFreezePath (path : List Char) : List Char :=
  if isAbsolute path then
    if endsWith path freezeFile then path else join path freezeFile
  else
    let direct := join (join cgroupRoot path) freezeFile
    if fileExists direct then direct
    else match Text.splitOnce path '-' with
      | some (parent, _) =>
        let nested := join (join (join cgroupRoot (parent ++ ".slice".toList)) path) freezeFile
        if fileExists nested then nested else direct
      | none => direct

/-- The directory whose processes stop when `unit` is frozen. -/
def freezeDir (unit : String) : List (List Char) :=
  (components (resolveFreezePath fileExists unit.toList)).dropLast

/-- The directory of the cgroup `cgroupPath`. -/
def cgroupDir (cgroupPath : String) : List (List Char) :=
  components cgroupRoot ++ components cgroupPath.toList

/-- The parent slice below which a slice is looked for that has no directory
of its own below the root. -/
def nestedUnder (slice : List Char) : Option (List Char) :=
  if fileExists (join (join cgroupRoot slice) freezeFile) then none
  else match Text.splitOnce slice '-' with
    | some (parent, _) =>
      if fileExists (join (join (join cgroupRoot (parent ++ ".slice".toList)) slice) freezeFile) then
        some (parent ++ ".slice".toList)
      else none
    | none => none

variable {fileExists}

theorem isName_freezeFile : IsName freezeFile := ⟨by decide, by decide⟩

theorem isName_parentSlice {slice parent rest : List Char} (h : IsName slice)
    (hsplit : Text.splitOnce slice '-' = some (parent, rest)) : IsName (parent ++ ".slice".toList) := by
  unfold Text.splitOnce at hsplit
  split at hsplit
  · obtain ⟨rfl, -⟩ := Prod.mk.inj (Option.some.inj hsplit)
    refine isName_of_slice (fun hmem => ?_) (List.suffix_append _ _)
    rcases List.mem_append.mp hmem with hmem | hmem
    · exact h.noSlash (List.takeWhile_subset _ hmem)
    · exact absurd hmem (by decide)
  · cases hsplit

/-- The file that a unit name reaches: in the unit below the root, or below its
parent slice. -/
theorem components_resolveFreezePath {unit : List Char} (h : IsName unit) :
    components (resolveFreezePath fileExists unit) =
      components cgroupRoot ++ (nestedUnder fileExists unit).toList ++ [unit] ++ [freezeFile] := by
  have hdirect : components (join (join cgroupRoot unit) freezeFile) =
      components cgroupRoot ++ [unit] ++ [freezeFile] := by
    rw [components_join isName_freezeFile, components_join h]
  unfold resolveFreezePath nestedUnder
  rw [h.not_isAbsolute, if_neg Bool.false_ne_true]
  dsimp only
  split
  · exact hdirect
  · cases hsplit : Text.splitOnce unit '-' with
    | none => exact hdirect
    | some pr =>
      obtain ⟨parent, rest⟩ := pr
      dsimp only
      split
      · rw [components_join isName_freezeFile, components_join h,
          components_join (isName_parentSlice h hsplit)]
        rfl
      · exact hdirect

theorem freezeDir_of_isName {unit : String} (h : IsName unit.toList) :
    freezeDir fileExists unit =
      components cgroupRoot ++ (nestedUnder fileExists unit.toList).toList ++ [unit.toList] := by
  rw [freezeDir, components_resolveFreezePath h, List.dropLast_concat]

/-! ### Below the root -/

/-- The path leads below the cgroup root, and never up. -/
structure BelowRoot (path : List Char) : Prop where
  absolute : isAbsolute path = true
  below : ∃ rest, rest ≠ [] ∧ components path = components cgroupRoot ++ rest
  noParent : "..".toList ∉ components path

/-- A unit that is one component and not `..`. -/
structure IsUnit (unit : List Char) : Prop extends IsName unit where
  notParent : unit ≠ "..".toList

theorem isUnit_of_slice {seg : List Char} (hslash : '/' ∉ seg) (h : ".slice".toList <:+ seg) :
    IsUnit seg := by
  refine ⟨isName_of_slice hslash h, ?_⟩
  rintro rfl
  exact absurd h (by decide)

theorem nestedUnder_ne_parent {unit parent : List Char} (h : nestedUnder fileExists unit = some parent) :
    parent ≠ "..".toList := by
  unfold nestedUnder at h
  split at h
  · cases h
  · split at h
    · split at h
      · cases h
        intro hdots
        have hsuffix : ".slice".toList <:+ "..".toList := hdots ▸ List.suffix_append _ _
        exact absurd hsuffix (by decide)
      · cases h
    · cases h

theorem isAbsolute_resolveFreezePath {unit : List Char} (h : IsName unit) :
    isAbsolute (resolveFreezePath fileExists unit) = true := by
  have hroot : isAbsolute cgroupRoot = true := by decide
  have hdirect : isAbsolute (join (join cgroupRoot unit) freezeFile) = true :=
    isAbsolute_join (isAbsolute_join hroot)
  unfold resolveFreezePath
  rw [h.not_isAbsolute, if_neg Bool.false_ne_true]
  dsimp only
  split
  · exact hdirect
  · split
    · split
      · exact isAbsolute_join (isAbsolute_join (isAbsolute_join hroot))
      · exact hdirect
    · exact hdirect

/-- Whatever exists in the file system, freezing a unit writes below the root. -/
theorem belowRoot_resolveFreezePath (fileExists : List Char → Bool) {unit : List Char}
    (h : IsUnit unit) : BelowRoot (resolveFreezePath fileExists unit) := by
  have hcomps : components (resolveFreezePath fileExists unit) = _ := components_resolveFreezePath h.toIsName
  refine ⟨isAbsolute_resolveFreezePath h.toIsName, ?_, ?_⟩
  · rw [hcomps, List.append_assoc, List.append_assoc]
    exact ⟨_, by simp, rfl⟩
  · rw [hcomps]
    simp only [List.mem_append, List.mem_singleton, Option.mem_toList, not_or]
    refine ⟨⟨⟨by decide, fun hmem => nestedUnder_ne_parent hmem rfl⟩, fun hu => ?_⟩, by decide⟩
    exact h.notParent hu.symm

/-- The cgroup lies outside the directory that a slice name reaches: its path
does not begin with the slice, or with the parent slice and the slice where
these are nested. -/
def Outside (fileExists : List Char → Bool) (slice cgroupPath : String) : Prop :=
  match nestedUnder fileExists slice.toList with
  | none => (components cgroupPath.toList).head? ≠ some slice.toList
  | some parent => (components cgroupPath.toList).take 2 ≠ [parent, slice.toList]

theorem cons_prefix_iff {a : List Char} {l : List (List Char)} : [a] <+: l ↔ l.head? = some a := by
  cases l with
  | nil => simp
  | cons b l => simp [List.cons_prefix_cons, eq_comm]

theorem spared_iff_outside {slice cgroupPath : String} (h : IsName slice.toList) :
    ¬ freezeDir fileExists slice <+: cgroupDir cgroupPath ↔ Outside fileExists slice cgroupPath := by
  rw [freezeDir_of_isName h, cgroupDir, List.append_assoc, List.prefix_append_right_inj, Outside]
  cases nestedUnder fileExists slice.toList with
  | none => exact not_congr cons_prefix_iff
  | some parent =>
    refine not_congr ?_
    show [parent, slice.toList] <+: _ ↔ _
    rw [List.prefix_iff_eq_take]
    exact eq_comm

end Inferenced.Freezer
