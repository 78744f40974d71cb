import Inferenced.Arbiter

/-!
# Which planes a lease is charged to

The lease operations write nothing of a plane but its availability: what is
left (`layout`) stays the same along a run. A lease on plane `q` is charged to
plane `p` when `p` is `q`, or when `q` is a UMA plane and `p` the CPU plane.
With distinct plane ids a debit or a credit for `q` moves exactly the
availabilities of the planes charged for `q`, once each.
-/

namespace Inferenced
open Lib

/-- A plane without its availability. -/
def ComputePlane.layout (p : ComputePlane) : ComputePlane := { p with availableMemoryBytes := 0 }

theorem ComputePlane.id_of_layout {p q : ComputePlane} (h : p.layout = q.layout) : p.id = q.id := by
  have : p.layout.id = q.layout.id := congrArg ComputePlane.id h
  exact this

namespace HardwareTopology

def layout (t : HardwareTopology) : List ComputePlane := t.planes.map (·.layout)

def Distinct (t : HardwareTopology) : Prop := (t.planes.map (·.id)).Nodup

instance (t : HardwareTopology) : Decidable t.Distinct := inferInstanceAs (Decidable (List.Nodup _))

/-- The start condition of a run: distinct plane ids, and no plane has more
memory available than it has. -/
structure WellFormed (t : HardwareTopology) : Prop where
  distinct : t.Distinct
  available_le : ∀ p ∈ t.planes, p.availableMemoryBytes ≤ p.totalMemoryBytes

variable {t t' : HardwareTopology}

/-! ### What the layout determines -/

theorem find?_layout (q : ComputePlane → Bool) (hq : ∀ p, q p.layout = q p) :
    (t.planes.find? q).map (·.layout) = t.layout.find? q := by
  simp only [layout, List.find?_map, Function.comp_def, hq]

theorem find?_congr (h : t'.layout = t.layout) (q : ComputePlane → Bool)
    (hq : ∀ p, q p.layout = q p) :
    (t'.planes.find? q).map (·.layout) = (t.planes.find? q).map (·.layout) := by
  rw [find?_layout q hq, find?_layout q hq, h]

theorem find?_view_congr {α : Type*} (h : t'.layout = t.layout) (q : ComputePlane → Bool)
    (hq : ∀ p, q p.layout = q p) (g : ComputePlane → α) (hg : ∀ p, g p.layout = g p) :
    (t'.planes.find? q).map g = (t.planes.find? q).map g := by
  have hcomp : ∀ u : HardwareTopology,
      (u.planes.find? q).map g = ((u.planes.find? q).map (·.layout)).map g := by
    intro u
    simp only [Option.map_map, Function.comp_def, hg]
  rw [hcomp t', hcomp t, find?_congr h q hq]

theorem find?_eq_none_congr (h : t'.layout = t.layout) (q : String) :
    t'.find? q = none ↔ t.find? q = none := by
  have := congrArg Option.isNone (find?_congr h (fun x => decide (x.id = q)) fun _ => rfl)
  simp only [Option.isNone_map] at this
  rw [← Option.isNone_iff_eq_none, ← Option.isNone_iff_eq_none]
  exact this ▸ Iff.rfl

theorem ids_of_layout (h : t'.layout = t.layout) :
    t'.planes.map (·.id) = t.planes.map (·.id) := by
  have hmap : ∀ u : HardwareTopology, u.planes.map (·.id) = u.layout.map (·.id) := by
    intro u
    simp only [layout, List.map_map]
    rfl
  rw [hmap t', hmap t, h]

theorem Distinct.congr (h : t'.layout = t.layout) (hd : t.Distinct) : t'.Distinct := by
  unfold Distinct
  rw [ids_of_layout h]
  exact hd

theorem isUma_congr (h : t'.layout = t.layout) (q : String) : t'.isUma q = t.isUma q := by
  unfold isUma find?
  rw [find?_view_congr h _ (fun _ => rfl) _ fun _ => rfl]

def cpuId? (t : HardwareTopology) : Option String := t.cpu?.map (·.id)

theorem cpuId?_congr (h : t'.layout = t.layout) : t'.cpuId? = t.cpuId? :=
  find?_view_congr h _ (fun _ => rfl) _ fun _ => rfl

theorem length_congr (h : t'.layout = t.layout) : t'.planes.length = t.planes.length := by
  have := congrArg List.length h
  simpa only [layout, List.length_map] using this

theorem planeIdAt_congr (h : t'.layout = t.layout) (idx : ℕ) : t'.planeIdAt idx = t.planeIdAt idx := by
  have hmap : ∀ u : HardwareTopology, u.planeIdAt idx = (u.layout[idx]?).elim "" (·.id) := by
    intro u
    simp only [planeIdAt, layout, List.getElem?_map]
    cases u.planes[idx]? <;> rfl
  rw [hmap t', hmap t, h]

def total (t : HardwareTopology) (p : String) : ℕ :=
  ((t.find? p).map (·.totalMemoryBytes.toNat)).getD 0

theorem total_congr (h : t'.layout = t.layout) (p : String) : t'.total p = t.total p := by
  unfold total find?
  rw [find?_view_congr h _ (fun _ => rfl) _ fun _ => rfl]

def available (t : HardwareTopology) (p : String) : ℕ :=
  ((t.find? p).map (·.availableMemoryBytes.toNat)).getD 0

/-- A lease on plane `q` is charged to plane `p`. -/
def charges (t : HardwareTopology) (q p : String) : Bool :=
  decide (q = p) || (t.isUma q && decide (t.cpuId? = some p))

theorem charges_congr (h : t'.layout = t.layout) (q p : String) :
    t'.charges q p = t.charges q p := by
  simp only [charges, isUma_congr h, cpuId?_congr h]

theorem charges_self (t : HardwareTopology) (p : String) : t.charges p p = true := by
  simp [charges]

/-! ### Lookup of a single plane -/

theorem find?_of_mem (hd : t.Distinct) {p : ComputePlane} (hp : p ∈ t.planes) :
    t.find? p.id = some p := by
  cases h : t.find? p.id with
  | none => exact absurd (List.find?_eq_none.mp h p hp) (by simp)
  | some q =>
    have hq : q.id = p.id := by simpa using List.find?_some h
    rw [List.inj_on_of_nodup_map hd (List.mem_of_find?_eq_some h) hp hq]

theorem available_of_mem (hd : t.Distinct) {p : ComputePlane} (hp : p ∈ t.planes) :
    t.available p.id = p.availableMemoryBytes.toNat := by
  simp only [available, find?_of_mem hd hp, Option.map_some, Option.getD_some]

theorem WellFormed.available_le_total (hw : t.WellFormed) (p : String) :
    t.available p ≤ t.total p := by
  unfold available total
  cases h : t.find? p with
  | none => exact Nat.le_refl _
  | some q =>
    have := hw.available_le q (List.mem_of_find?_eq_some h)
    rw [UInt64.le_iff_toNat_le] at this
    simpa using this

theorem available_lt (t : HardwareTopology) (p : String) : t.available p < 2 ^ 64 := by
  unfold available
  cases t.find? p with
  | none => simp
  | some q =>
    have := q.availableMemoryBytes.toNat_lt
    simpa using this

theorem available_at (hd : t.Distinct) {idx : ℕ} (hi : idx < t.planes.length) :
    (t.availableAt idx).toNat = t.available (t.planeIdAt idx) := by
  have hget : t.planes[idx]? = some t.planes[idx] := List.getElem?_eq_getElem hi
  have hmem : t.planes[idx] ∈ t.planes := List.getElem_mem hi
  simp only [availableAt, planeIdAt, hget, Option.elim_some]
  exact (available_of_mem hd hmem).symm

theorem cpuId?_ne_uma (hd : t.Distinct) {q : String} (hu : t.isUma q = true) :
    t.cpuId? ≠ some q := by
  intro hc
  obtain ⟨c, hcpu, hcq⟩ := Option.map_eq_some_iff.mp hc
  have hkind : c.kind = .cpuMatrixExtension := by
    have := List.find?_some hcpu
    simpa using this
  have hfind : t.find? q = some c := hcq ▸ find?_of_mem hd (List.mem_of_find?_eq_some hcpu)
  simp [isUma, hfind, hkind] at hu

/-- A topology without the availabilities of its planes. -/
def bare (t : HardwareTopology) : HardwareTopology := { t with planes := t.layout }

theorem layout_of_bare (h : t'.bare = t.bare) : t'.layout = t.layout :=
  congrArg HardwareTopology.planes h

/-- What `bare` leaves out are the availabilities. -/
theorem eq_of_bare_at (hb : t'.bare = t.bare) (ha : ∀ i, t'.availableAt i = t.availableAt i) :
    t' = t := by
  have hlay := layout_of_bare hb
  have hplanes : t'.planes = t.planes := by
    refine List.ext_getElem (length_congr hlay) fun i h₁ h₂ => ?_
    have hview : (t'.planes[i]).layout = (t.planes[i]).layout := by
      have hi := congrArg (·[i]?) hlay
      simp only [layout, List.getElem?_map, List.getElem?_eq_getElem h₁, List.getElem?_eq_getElem h₂,
        Option.map_some] at hi
      exact Option.some.inj hi
    have havail : (t'.planes[i]).availableMemoryBytes = (t.planes[i]).availableMemoryBytes := by
      have hi := ha i
      simpa only [availableAt, List.getElem?_eq_getElem h₁, List.getElem?_eq_getElem h₂,
        Option.elim_some] using hi
    calc t'.planes[i]
      _ = { (t'.planes[i]).layout with
            availableMemoryBytes := (t'.planes[i]).availableMemoryBytes } := rfl
      _ = { (t.planes[i]).layout with
            availableMemoryBytes := (t.planes[i]).availableMemoryBytes } := by rw [hview, havail]
      _ = t.planes[i] := rfl
  calc t'
    _ = { t'.bare with planes := t'.planes } := rfl
    _ = { t.bare with planes := t.planes } := by rw [hb, hplanes]
    _ = t := rfl

theorem eq_of_bare (hd : t.Distinct) (hb : t'.bare = t.bare)
    (ha : ∀ p, t'.available p = t.available p) : t' = t := by
  have hlay := layout_of_bare hb
  refine eq_of_bare_at hb fun i => UInt64.toNat_inj.mp ?_
  by_cases hi : i < t.planes.length
  · have hi' : i < t'.planes.length := (length_congr hlay).symm ▸ hi
    rw [available_at (hd.congr hlay) hi', available_at hd hi, planeIdAt_congr hlay]
    exact ha _
  · have hi' : ¬ i < t'.planes.length := (length_congr hlay).symm ▸ hi
    rw [availableAt, availableAt, List.getElem?_eq_none (Nat.not_lt.mp hi),
      List.getElem?_eq_none (Nat.not_lt.mp hi')]

/-! ### Updates of planes -/

theorem layout_modifyPlane (q : String) (f : ComputePlane → ComputePlane)
    (hf : ∀ p, (f p).layout = p.layout) : (t.modifyPlane q f).layout = t.layout :=
  map_modifyFirst _ f _ hf t.planes

theorem layout_modifyCpu (f : ComputePlane → ComputePlane) (hf : ∀ p, (f p).layout = p.layout) :
    (t.modifyCpu f).layout = t.layout :=
  map_modifyFirst _ f _ hf t.planes

theorem bare_modifyPlane (q : String) (f : ComputePlane → ComputePlane)
    (hf : ∀ p, (f p).layout = p.layout) : (t.modifyPlane q f).bare = t.bare := by
  unfold bare
  rw [layout_modifyPlane q f hf]
  rfl

theorem bare_modifyCpu (f : ComputePlane → ComputePlane) (hf : ∀ p, (f p).layout = p.layout) :
    (t.modifyCpu f).bare = t.bare := by
  unfold bare
  rw [layout_modifyCpu f hf]
  rfl

theorem find?_modifyPlane (hd : t.Distinct) (q : String) (f : ComputePlane → ComputePlane)
    (hf : ∀ p, (f p).layout = p.layout) (p : String) :
    (t.modifyPlane q f).find? p = if q = p then (t.find? p).map f else t.find? p := by
  have hid : ∀ x : ComputePlane, (f x).id = x.id := fun x => ComputePlane.id_of_layout (hf x)
  unfold find? modifyPlane
  rw [Lib.find?_modifyFirst ComputePlane.id _ f hid t.planes hd p]
  by_cases hqp : q = p
  · subst hqp
    simp only [if_true]
    cases h : t.planes.find? fun x => decide (x.id = q) with
    | none => simp
    | some x =>
      have hx : x.id = q := by simpa using List.find?_some h
      simp [hx]
  · rw [if_neg hqp, if_neg]
    intro he
    obtain ⟨x, hx, hxp⟩ := Option.map_eq_some_iff.mp he
    have hxq : x.id = q := by simpa using List.find?_some hx
    exact hqp (hxq.symm.trans hxp)

theorem find?_modifyCpu (hd : t.Distinct) (f : ComputePlane → ComputePlane)
    (hf : ∀ p, (f p).layout = p.layout) (p : String) :
    (t.modifyCpu f).find? p = if t.cpuId? = some p then (t.find? p).map f else t.find? p :=
  Lib.find?_modifyFirst ComputePlane.id _ f (fun x => ComputePlane.id_of_layout (hf x)) t.planes hd p

/-- One update of the plane `q` and, for a UMA plane, of the CPU plane updates
each charged plane once. -/
theorem find?_charged (hd : t.Distinct) (q : String) (f : ComputePlane → ComputePlane)
    (hf : ∀ p, (f p).layout = p.layout) (p : String) :
    (if t.isUma q then (t.modifyPlane q f).modifyCpu f else t.modifyPlane q f).find? p =
      if t.charges q p then (t.find? p).map f else t.find? p := by
  have hl := layout_modifyPlane (t := t) q f hf
  by_cases hu : t.isUma q = true
  · rw [if_pos hu, find?_modifyCpu (hd.congr hl) f hf, find?_modifyPlane hd q f hf,
      cpuId?_congr hl]
    by_cases hqp : q = p
    · have hne : t.cpuId? ≠ some p := hqp ▸ cpuId?_ne_uma hd hu
      simp [charges, hqp, hne]
    · simp [charges, hqp, hu]
  · rw [if_neg hu, find?_modifyPlane hd q f hf]
    simp [charges, hu]

/-! ### Updates by index

Without distinct ids a plane is known by its index only: an id stands for the
first plane that has it. -/

/-- Index of the plane that `find?` finds. -/
def idx? (t : HardwareTopology) (q : String) : Option ℕ := t.planes.findIdx? fun p => decide (p.id = q)

def cpuIdx? (t : HardwareTopology) : Option ℕ :=
  t.planes.findIdx? fun p => decide (p.kind = .cpuMatrixExtension)

/-- A lease on plane `q` is charged to the plane at index `i`. -/
def chargesAt (t : HardwareTopology) (q : String) (i : ℕ) : Bool :=
  decide (t.idx? q = some i) || (t.isUma q && decide (t.cpuIdx? = some i))

theorem findIdx?_congr (h : t'.layout = t.layout) (q : ComputePlane → Bool)
    (hq : ∀ p, q p.layout = q p) : t'.planes.findIdx? q = t.planes.findIdx? q := by
  have hmap : ∀ u : HardwareTopology, u.planes.findIdx? q = u.layout.findIdx? q := by
    intro u
    rw [layout, List.findIdx?_map]
    exact congrArg (List.findIdx? · _) (funext fun p => (hq p).symm)
  rw [hmap t', hmap t, h]

theorem chargesAt_congr (h : t'.layout = t.layout) (q : String) (i : ℕ) :
    t'.chargesAt q i = t.chargesAt q i := by
  unfold chargesAt idx? cpuIdx?
  rw [isUma_congr h, findIdx?_congr h _ fun _ => rfl, findIdx?_congr h _ fun _ => rfl]

theorem find?_eq_bind (t : HardwareTopology) (q : String) :
    t.find? q = (t.idx? q).bind (t.planes[·]?) := List.find?_eq_bind_findIdx?_getElem?

theorem cpu?_eq_bind (t : HardwareTopology) : t.cpu? = t.cpuIdx?.bind (t.planes[·]?) :=
  List.find?_eq_bind_findIdx?_getElem?

theorem getElem?_of_idx? {q : String} {i : ℕ} (h : t.idx? q = some i) :
    ∃ p, t.planes[i]? = some p ∧ p.id = q ∧ t.find? q = some p := by
  obtain ⟨hlt, hp, -⟩ := List.findIdx?_eq_some_iff_getElem.mp h
  refine ⟨t.planes[i], List.getElem?_eq_getElem hlt, by simpa using hp, ?_⟩
  rw [find?_eq_bind, h]
  exact List.getElem?_eq_getElem hlt

theorem getElem?_of_cpuIdx? {i : ℕ} (h : t.cpuIdx? = some i) :
    ∃ p, t.planes[i]? = some p ∧ p.kind = .cpuMatrixExtension ∧ t.cpu? = some p := by
  obtain ⟨hlt, hp, -⟩ := List.findIdx?_eq_some_iff_getElem.mp h
  refine ⟨t.planes[i], List.getElem?_eq_getElem hlt, by simpa using hp, ?_⟩
  rw [cpu?_eq_bind, h]
  exact List.getElem?_eq_getElem hlt

theorem idx?_ne_cpuIdx? {q : String} {i : ℕ} (hu : t.isUma q = true) (hi : t.idx? q = some i) :
    t.cpuIdx? ≠ some i := by
  intro hc
  obtain ⟨p, hp, -, hfind⟩ := getElem?_of_idx? hi
  obtain ⟨c, hcpu, hkind, -⟩ := getElem?_of_cpuIdx? hc
  obtain rfl : c = p := Option.some.inj (hcpu.symm.trans hp)
  simp [isUma, hfind, hkind] at hu

theorem getElem?_charged (q : String) (f : ComputePlane → ComputePlane)
    (hf : ∀ p, (f p).layout = p.layout) (i : ℕ) :
    (if t.isUma q then (t.modifyPlane q f).modifyCpu f else t.modifyPlane q f).planes[i]? =
      if t.chargesAt q i then (t.planes[i]?).map f else t.planes[i]? := by
  have hplane : (t.modifyPlane q f).planes[i]? =
      if t.idx? q = some i then (t.planes[i]?).map f else t.planes[i]? := getElem?_modifyFirst ..
  have hcpu : (t.modifyPlane q f).cpuIdx? = t.cpuIdx? :=
    findIdx?_congr (layout_modifyPlane q f hf) _ fun _ => rfl
  by_cases hu : t.isUma q = true
  · have hboth : ((t.modifyPlane q f).modifyCpu f).planes[i]? = if t.cpuIdx? = some i then
        ((t.modifyPlane q f).planes[i]?).map f else (t.modifyPlane q f).planes[i]? := by
      rw [← hcpu]
      exact getElem?_modifyFirst ..
    rw [if_pos hu, hboth, hplane]
    by_cases hi : t.idx? q = some i
    · simp [chargesAt, hi, idx?_ne_cpuIdx? hu hi]
    · simp [chargesAt, hi, hu]
  · rw [if_neg hu, hplane]
    simp [chargesAt, hu]

end HardwareTopology

namespace Arbiter
open HardwareTopology

variable {t : HardwareTopology}

theorem bare_charged (q : String) (f : ComputePlane → ComputePlane)
    (hf : ∀ p, (f p).layout = p.layout) :
    (if t.isUma q then (t.modifyPlane q f).modifyCpu f else t.modifyPlane q f).bare = t.bare := by
  split
  · rw [bare_modifyCpu f hf, bare_modifyPlane q f hf]
  · exact bare_modifyPlane q f hf

theorem layout_charged (q : String) (f : ComputePlane → ComputePlane)
    (hf : ∀ p, (f p).layout = p.layout) :
    (if t.isUma q then (t.modifyPlane q f).modifyCpu f else t.modifyPlane q f).layout =
      t.layout :=
  layout_of_bare (bare_charged q f hf)

theorem bare_restorePlaneMemory (q : String) (b : UInt64) :
    (restorePlaneMemory t q b).bare = t.bare :=
  bare_charged q _ fun _ => rfl

theorem bare_debitPlaneMemory (q : String) (b : UInt64) :
    (debitPlaneMemory t q b).bare = t.bare :=
  bare_charged q _ fun _ => rfl

@[simp] theorem layout_restorePlaneMemory (q : String) (b : UInt64) :
    (restorePlaneMemory t q b).layout = t.layout :=
  layout_charged q _ fun _ => rfl

@[simp] theorem layout_debitPlaneMemory (q : String) (b : UInt64) :
    (debitPlaneMemory t q b).layout = t.layout :=
  layout_charged q _ fun _ => rfl

theorem available_restorePlaneMemory (hd : t.Distinct) (q : String) (b : UInt64) (p : String) :
    (restorePlaneMemory t q b).available p =
      if t.charges q p then min ((t.available p + b.toNat) % 2 ^ 64) (t.total p)
      else t.available p := by
  have h := find?_charged hd q (·.credit b) (fun _ => rfl) p
  unfold available restorePlaneMemory
  rw [h]
  split
  · cases hp : t.find? p with
    | none => simp [total, hp]
    | some x => simp [total, hp, ComputePlane.credit, toNat_cappedAdd]
  · rfl

theorem available_debitPlaneMemory (hd : t.Distinct) (q : String) (b : UInt64) (p : String) :
    (debitPlaneMemory t q b).available p =
      if t.charges q p then t.available p - b.toNat else t.available p := by
  have h := find?_charged hd q (·.debit b) (fun _ => rfl) p
  unfold available debitPlaneMemory
  rw [h]
  split
  · cases hp : t.find? p with
    | none => simp
    | some x => simp [ComputePlane.debit, toNat_saturatingSub]
  · rfl

theorem getElem?_restorePlaneMemory (q : String) (b : UInt64) (i : ℕ) :
    (restorePlaneMemory t q b).planes[i]? =
      if t.chargesAt q i then (t.planes[i]?).map (·.credit b) else t.planes[i]? :=
  getElem?_charged q (·.credit b) (fun _ => rfl) i

theorem getElem?_debitPlaneMemory (q : String) (b : UInt64) (i : ℕ) :
    (debitPlaneMemory t q b).planes[i]? =
      if t.chargesAt q i then (t.planes[i]?).map (·.debit b) else t.planes[i]? :=
  getElem?_charged q (·.debit b) (fun _ => rfl) i

def totalAt (t : HardwareTopology) (idx : ℕ) : ℕ :=
  (t.planes[idx]?).elim 0 (·.totalMemoryBytes.toNat)

theorem totalAt_congr {t' : HardwareTopology} (h : t'.layout = t.layout) (idx : ℕ) :
    totalAt t' idx = totalAt t idx := by
  have hmap : ∀ u : HardwareTopology,
      totalAt u idx = (u.layout[idx]?).elim 0 (·.totalMemoryBytes.toNat) := by
    intro u
    simp only [totalAt, layout, List.getElem?_map]
    cases u.planes[idx]? <;> rfl
  rw [hmap t', hmap t, h]

theorem totalAt_lt (t : HardwareTopology) (idx : ℕ) : totalAt t idx < 2 ^ 64 := by
  unfold totalAt
  cases t.planes[idx]? with
  | none => simp
  | some p => exact p.totalMemoryBytes.toNat_lt

theorem availableAt_restorePlaneMemory (q : String) (b : UInt64) (idx : ℕ) :
    ((restorePlaneMemory t q b).availableAt idx).toNat =
      if t.chargesAt q idx then
        min (((t.availableAt idx).toNat + b.toNat) % 2 ^ 64) (totalAt t idx)
      else (t.availableAt idx).toNat := by
  unfold availableAt totalAt
  rw [getElem?_restorePlaneMemory]
  split
  · cases t.planes[idx]? with
    | none => simp
    | some x => simp [ComputePlane.credit, toNat_cappedAdd]
  · rfl

/-- The debit by index in `acquire_lease` is the debit of the plane's id. -/
theorem debitTarget_eq (hd : t.Distinct) {idx : ℕ} (hi : idx < t.planes.length) (b : UInt64) :
    debitTarget t idx b = debitPlaneMemory t (t.planeIdAt idx) b := by
  have hget : t.planes[idx]? = some t.planes[idx] := List.getElem?_eq_getElem hi
  have hid : t.planeIdAt idx = t.planes[idx].id := by simp [planeIdAt, hget]
  have hfind := find?_of_mem hd (List.getElem_mem hi)
  have huma : t.isUma (t.planeIdAt idx) =
      (t.planes[idx]?).elim false fun p => decide (p.kind = .integratedUma) := by
    rw [hid, hget]
    simp [isUma, hfind]
  have hmod : { t with planes := t.planes.modify idx (·.debit b) } =
      t.modifyPlane (t.planeIdAt idx) (·.debit b) := by
    rw [hid]
    simp only [modifyPlane]
    rw [modify_eq_modifyFirst ComputePlane.id _ t.planes hd idx _ hget]
  unfold debitTarget debitPlaneMemory
  rw [huma, hmod]

theorem layout_debitTarget (idx : ℕ) (b : UInt64) : (debitTarget t idx b).layout = t.layout := by
  have hmod : ({ t with planes := t.planes.modify idx (·.debit b) } : HardwareTopology).layout =
      t.layout := by
    simp only [layout]
    refine List.ext_getElem? fun j => ?_
    simp only [List.getElem?_map, List.getElem?_modify]
    cases t.planes[j]? with
    | none => rfl
    | some p =>
      simp only [Option.map_some]
      split <;> rfl
  unfold debitTarget
  dsimp only
  split
  · rw [layout_modifyCpu (·.debit b) fun _ => rfl, hmod]
  · exact hmod

end Arbiter

end Inferenced
