import Inferenced.Lib.Text

/-! # Paths

`std::path` on Unix, on lists of characters. A path is compared by its
components: empty segments and `.` do not count, `..` is a component like any
other. -/

namespace Inferenced.Lib.UnixPath

def segments (path : List Char) : List (List Char) := path.splitOnP fun c => decide (c = '/')

/-- `Path::components` without the root. -/
def components (path : List Char) : List (List Char) :=
  (segments path).filter fun seg => decide (seg ≠ [] ∧ seg ≠ ['.'])

/-- `Path::is_absolute`. -/
def isAbsolute (path : List Char) : Bool := decide (path.head? = some '/')

/-- `Path::join`. -/
def join (base path : List Char) : List Char :=
  if isAbsolute path then path
  else if base = [] ∨ base.getLast? = some '/' then base ++ path
  else base ++ '/' :: path

/-- `Path::ends_with` for a path of one component. -/
def endsWith (path name : List Char) : Bool := decide ((components path).getLast? = some name)

/-- `Path::file_name` of a path in bytes: the last component, unless it is
`..`. -/
def fileName (path : List UInt8) : Option (List UInt8) :=
  ((path.splitOnP fun b => decide (b = 47)).filter fun seg => decide (seg ≠ [] ∧ seg ≠ [46])).getLast?.filter
    fun name => decide (name ≠ [46, 46])

/-- A name that is one component by itself. -/
structure IsName (name : List Char) : Prop where
  noSlash : '/' ∉ name
  proper : name ≠ [] ∧ name ≠ ['.']

theorem not_mem_of_mem_segments {path seg : List Char} (h : seg ∈ segments path) : '/' ∉ seg := by
  unfold segments at h
  induction path using Text.piece_induction '/' with
  | last l hl =>
    rw [Text.splitOnP_of_not_mem hl] at h
    rw [List.mem_singleton.mp h]
    exact hl
  | more l m hl ih =>
    rw [Text.splitOnP_append_sep hl] at h
    rcases List.mem_cons.mp h with rfl | h
    · exact hl
    · exact ih h

theorem components_slash (base path : List Char) :
    components (base ++ '/' :: path) = components base ++ components path := by
  unfold components segments
  rw [List.splitOnP_append_cons base path (decide_eq_true rfl), List.filter_append]

theorem IsName.components {name : List Char} (h : IsName name) : components name = [name] := by
  unfold UnixPath.components segments
  rw [Text.splitOnP_of_not_mem h.noSlash]
  exact List.filter_cons_of_pos (decide_eq_true h.proper)

theorem IsName.not_isAbsolute {name : List Char} (h : IsName name) : isAbsolute name = false :=
  decide_eq_false fun hhead => h.noSlash (List.mem_of_head? hhead)

theorem components_join {base name : List Char} (h : IsName name) :
    components (join base name) = components base ++ [name] := by
  unfold join
  rw [h.not_isAbsolute, if_neg Bool.false_ne_true]
  split
  · rename_i hbase
    rcases hbase with rfl | hlast
    · rw [List.nil_append, h.components]
      rfl
    · obtain ⟨front, rfl⟩ := List.getLast?_eq_some_iff.mp hlast
      -- the slash that is there already separates the two
      rw [List.append_assoc, List.singleton_append, components_slash, components_slash,
        h.components]
      rw [show UnixPath.components [] = [] from rfl, List.append_nil]
  · rw [components_slash, h.components]

theorem isAbsolute_join {base path : List Char} (h : isAbsolute base = true) :
    isAbsolute (join base path) = true := by
  have happend : ∀ rest, isAbsolute (base ++ rest) = true := by
    intro rest
    cases base with
    | nil => cases h
    | cons c base => exact h
  unfold join
  split
  · assumption
  · split
    · exact happend _
    · exact happend _

end Inferenced.Lib.UnixPath
