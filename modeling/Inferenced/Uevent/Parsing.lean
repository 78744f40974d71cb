import Inferenced.Lib.Utf8
import Inferenced.Uevent

/-!
# Parsing of kernel device events (netlink.rs:18-51)

`parse` keeps the subsystem and the device name beside the map while it goes
over the properties. They stay what the map has under `SUBSYSTEM` and `DEVNAME`,
and the map has for every key what the last assignment to it says. On what the
kernel sends, this is the list of properties it has encoded.
-/

namespace Inferenced.Uevent
open Lib

/-- The last of the segments that assign to the key assigns this value. -/
def LastValue (segs : List (List Char)) (key value : String) : Prop :=
  '=' ∉ key.toList ∧ ∃ before after, segs = before ++ (key.toList ++ '=' :: value.toList) :: after ∧
    ∀ w, key.toList ++ '=' :: w ∉ after

/-- The event has the properties that the segments assign. -/
structure Describes (u : Uevent) (segs : List (List Char)) : Prop where
  properties : ∀ key value, u.property? key = some value ↔ LastValue segs key value
  subsystem : u.subsystem = (u.property? "SUBSYSTEM").getD ""
  devname : u.devname = u.property? "DEVNAME"

variable {u : Uevent} {segs : List (List Char)} {a b p : List Char} {key value : String}

/-! ### One segment -/

theorem concat_eq_split {before after : List (List Char)} {q : List Char}
    (h : segs ++ [p] = before ++ q :: after) :
    (after = [] ∧ q = p) ∨ ∃ after', after = after' ++ [p] ∧ segs = before ++ q :: after' := by
  rcases List.eq_nil_or_concat' after with rfl | ⟨after', x, rfl⟩
  · obtain ⟨-, hlast⟩ := List.append_inj' h rfl
    exact Or.inl ⟨rfl, (List.singleton_inj.mp hlast).symm⟩
  · rw [← List.cons_append, ← List.append_assoc] at h
    obtain ⟨hfront, hlast⟩ := List.append_inj' h rfl
    rw [List.singleton_inj.mp hlast]
    exact Or.inr ⟨after', rfl, hfront⟩

theorem lastValue_concat_of_ne (h : '=' ∉ key.toList → ∀ w, key.toList ++ '=' :: w ≠ p) :
    LastValue (segs ++ [p]) key value ↔ LastValue segs key value := by
  refine and_congr_right fun hkey => ?_
  have h := h hkey
  constructor
  · rintro ⟨before, after, hsplit, hlast⟩
    rcases concat_eq_split hsplit with ⟨-, hp⟩ | ⟨after', rfl, hsegs⟩
    · exact absurd hp (h _)
    · exact ⟨before, after', hsegs, fun w hw => hlast w (List.mem_append_left _ hw)⟩
  · rintro ⟨before, after, rfl, hlast⟩
    refine ⟨before, after ++ [p], by simp, fun w hw => ?_⟩
    rcases List.mem_append.mp hw with hw | hw
    · exact hlast w hw
    · exact h w (List.mem_singleton.mp hw)

theorem lastValue_concat_self (ha : '=' ∉ a) :
    LastValue (segs ++ [a ++ '=' :: b]) (String.ofList a) value ↔ String.ofList b = value := by
  rw [LastValue, String.toList_ofList]
  constructor
  · rintro ⟨-, before, after, hsplit, hlast⟩
    rcases concat_eq_split hsplit with ⟨-, hp⟩ | ⟨after', rfl, -⟩
    · rw [← List.cons_injective.eq_iff.mp (List.append_cancel_left hp), String.ofList_toList]
    · exact absurd (List.mem_append_right _ (List.mem_singleton_self _)) (hlast b)
  · rintro rfl
    rw [String.toList_ofList]
    exact ⟨ha, segs, [], rfl, fun w hw => absurd hw List.not_mem_nil⟩

theorem property?_addProperty (h : Text.splitOnce p '=' = some (a, b)) (key : String) :
    (u.addProperty p).property? key =
      if key = String.ofList a then some (String.ofList b) else u.property? key := by
  simp only [addProperty, h, property?, KeyedMap.get?_insert]
  split <;> rfl

theorem split_inj {key : String} {w : List Char} (hkey : '=' ∉ key.toList) (ha : '=' ∉ a)
    (h : key.toList ++ '=' :: w = a ++ '=' :: b) : key = String.ofList a ∧ w = b := by
  have hsplit := Text.splitOnce_append hkey w
  rw [h, Text.splitOnce_append ha b] at hsplit
  cases hsplit
  exact ⟨String.ofList_toList.symm, rfl⟩

theorem Describes.addProperty (h : Describes u segs) (p : List Char) :
    Describes (u.addProperty p) (segs ++ [p]) := by
  cases hp : Text.splitOnce p '=' with
  | none =>
    have hsame : u.addProperty p = u := by simp only [Uevent.addProperty, hp]
    have hno : ∀ (key : String) w, key.toList ++ '=' :: w ≠ p := by
      rintro key w rfl
      have hmem : '=' ∈ key.toList ++ '=' :: w := List.mem_append_right _ (List.mem_cons_self ..)
      rw [Text.splitOnce, if_pos hmem] at hp
      cases hp
    rw [hsame]
    refine ⟨fun key value => ?_, h.subsystem, h.devname⟩
    rw [lastValue_concat_of_ne fun _ => hno key, h.properties]
  | some ab =>
    obtain ⟨a, b⟩ := ab
    obtain ⟨rfl, ha⟩ := Text.splitOnce_eq_some.mp hp
    have hname : ∀ name : String, (name = String.ofList a) = (a = name.toList) := fun name =>
      propext ⟨fun h => by rw [h, String.toList_ofList], fun h => by rw [h, String.ofList_toList]⟩
    refine ⟨fun key value => ?_, ?_, ?_⟩
    · rw [property?_addProperty hp]
      split
      · rename_i hkey
        rw [hkey, lastValue_concat_self ha, Option.some_inj]
      · rename_i hkey
        rw [lastValue_concat_of_ne fun heq w hw => hkey (split_inj heq ha hw).1, h.properties]
    · rw [property?_addProperty hp, Uevent.addProperty]
      simp only [hp, hname, h.subsystem]
      split <;> rfl
    · rw [property?_addProperty hp, Uevent.addProperty]
      simp only [hp, hname, h.devname]

theorem Describes.fillSubsystem (h : Describes u segs) : u.fillSubsystem = u := by
  rw [Uevent.fillSubsystem]
  split
  · rename_i hempty
    have hsub : (u.property? "SUBSYSTEM").getD u.subsystem = u.subsystem := by
      rw [hempty, ← h.subsystem, hempty]
    rw [hsub]
  · rfl

/-! ### The loop -/

theorem addProperty_header (u : Uevent) (p : List Char) :
    (u.addProperty p).action = u.action ∧ (u.addProperty p).devpath = u.devpath := by
  unfold Uevent.addProperty
  split
  · exact ⟨rfl, rfl⟩
  · exact ⟨rfl, rfl⟩

theorem describes_foldl (h : Describes u []) (props : List (List Char)) :
    Describes (props.foldl Uevent.addProperty u) props ∧
      (props.foldl Uevent.addProperty u).action = u.action ∧
      (props.foldl Uevent.addProperty u).devpath = u.devpath := by
  induction props using List.reverseRecOn with
  | nil => exact ⟨h, rfl, rfl⟩
  | append_singleton props p ih =>
    obtain ⟨hprops, haction, hdevpath⟩ := ih
    obtain ⟨haction', hdevpath'⟩ := addProperty_header (props.foldl Uevent.addProperty u) p
    rw [List.foldl_concat]
    exact ⟨hprops.addProperty p, haction'.trans haction, hdevpath'.trans hdevpath⟩

theorem parse_encode {text header devpath action : List Char} {later : List (List Char)}
    (hsegs : segments text = header :: later) (hheader : header = action ++ '@' :: devpath)
    (haction : '@' ∉ action) :
    ∃ u, parse (Utf8.encode text) = some u ∧ u.action = String.ofList action ∧
      u.devpath = String.ofList devpath ∧ Describes u later := by
  have hstart : Describes
      { action := String.ofList action, devpath := String.ofList devpath, subsystem := ""
        devname := none, properties := .empty } [] := by
    refine ⟨fun key value => ?_, rfl, rfl⟩
    simp [property?, LastValue]
  obtain ⟨hdesc, hact, hdev⟩ := describes_foldl hstart later
  refine ⟨_, ?_, hact, hdev, hdesc⟩
  simp only [parse, Utf8.fromUtf8_encode, Option.bind_some, hsegs, hheader,
    Text.splitOnce_append haction, Option.map_some, hdesc.fillSubsystem]

/-- The topology is renewed on a message whose last subsystem is one of compute
devices, with a look at the device name for `misc`. -/
theorem refreshes_iff {text header : List Char} {later : List (List Char)}
    (hsegs : segments text = header :: later) (hat : '@' ∈ header) :
    refreshes (Utf8.encode text) = true ↔
      LastValue later "SUBSYSTEM" "drm" ∨ LastValue later "SUBSYSTEM" "accel" ∨
        (LastValue later "SUBSYSTEM" "misc" ∧ ∃ name, LastValue later "DEVNAME" name ∧
          Text.contains name.toList "hailo".toList = true) ∨
        LastValue later "SUBSYSTEM" "kfd" := by
  obtain ⟨action, devpath, heq, haction⟩ := List.eq_append_cons_of_mem hat
  obtain ⟨u, hu, -, -, hdesc⟩ := parse_encode hsegs heq haction
  have hsubsystem (value : String) (hne : value ≠ "") :
      u.subsystem = value ↔ LastValue later "SUBSYSTEM" value := by
    rw [← hdesc.properties, hdesc.subsystem]
    cases u.property? "SUBSYSTEM" with
    | none => simp [hne.symm]
    | some v => simp
  have hdevname : (u.devname.elim false fun n => Text.contains n.toList "hailo".toList) = true ↔
      ∃ name, LastValue later "DEVNAME" name ∧ Text.contains name.toList "hailo".toList = true := by
    simp only [← hdesc.properties, hdesc.devname]
    cases u.property? "DEVNAME" <;> simp
  simp only [refreshes, hu, Option.elim_some, isComputeDevice, Bool.or_eq_true, Bool.and_eq_true,
    decide_eq_true_eq, hdevname, hsubsystem "drm" (by decide), hsubsystem "accel" (by decide),
    hsubsystem "misc" (by decide), hsubsystem "kfd" (by decide), or_assoc]

theorem parse_isSome {buf : List UInt8} (h : (parse buf).isSome = true) :
    ∃ text header later, Utf8.encode text = buf ∧ segments text = header :: later ∧ '@' ∈ header := by
  unfold parse at h
  cases htext : Text.fromUtf8 buf with
  | none =>
    rw [htext] at h
    cases h
  | some text =>
    rw [htext, Option.bind_some] at h
    cases hsegs : segments text with
    | nil =>
      rw [hsegs] at h
      cases h
    | cons header later =>
      rw [hsegs] at h
      refine ⟨text, header, later, Utf8.fromUtf8_eq_some.mp htext, hsegs, ?_⟩
      by_contra hno
      rw [Option.isSome_map, Text.splitOnce, if_neg hno] at h
      cases h

/-! ### The kernel's encoding -/

/-- `action@devpath` and the properties, each with its NUL. -/
def kernelText (action devpath : String) (props : List (String × String)) : List Char :=
  action.toList ++ '@' :: devpath.toList ++
    nul :: props.flatMap fun p => p.1.toList ++ '=' :: p.2.toList ++ [nul]

/-- The last of the properties with this key has this value. -/
def LastProperty (props : List (String × String)) (key value : String) : Prop :=
  ∃ before after, props = before ++ (key, value) :: after ∧ ∀ w, (key, w) ∉ after

theorem segments_append (hp : nul ∉ p) (hne : p ≠ []) (m : List Char) :
    segments (p ++ nul :: m) = p :: segments m := by
  rw [segments, Text.splitOnP_append_sep hp, List.filter_cons_of_pos (by simpa using hne)]
  rfl

theorem segments_props {props : List (String × String)}
    (h : ∀ p ∈ props, nul ∉ p.1.toList ∧ nul ∉ p.2.toList) :
    segments (props.flatMap fun p => p.1.toList ++ '=' :: p.2.toList ++ [nul]) =
      props.map fun p => p.1.toList ++ '=' :: p.2.toList := by
  induction props with
  | nil => rfl
  | cons p props ih =>
    obtain ⟨⟨hkey, hvalue⟩, hrest⟩ := List.forall_mem_cons.mp h
    have hp : nul ∉ p.1.toList ++ '=' :: p.2.toList := by
      rw [List.mem_append, List.mem_cons]
      rintro (h | h | h)
      · exact hkey h
      · exact absurd h (by decide)
      · exact hvalue h
    rw [List.flatMap_cons, List.append_assoc, List.singleton_append, segments_append hp (by simp),
      ih hrest, List.map_cons]

theorem lastValue_props {props : List (String × String)} (h : ∀ p ∈ props, '=' ∉ p.1.toList) :
    LastValue (props.map fun p => p.1.toList ++ '=' :: p.2.toList) key value ↔
      LastProperty props key value := by
  constructor
  · rintro ⟨hkey, before, after, hsplit, hlast⟩
    obtain ⟨before', rest, rfl, rfl, hrest⟩ := List.map_eq_append_iff.mp hsplit
    obtain ⟨p, after', rfl, hp, rfl⟩ := List.map_eq_cons_iff.mp hrest
    have hpkey : '=' ∉ p.1.toList := h p (by simp)
    obtain ⟨hk, hv⟩ := split_inj hpkey hkey hp
    rw [String.ofList_toList] at hk
    refine ⟨before', after', ?_, fun w hw => hlast w.toList (List.mem_map.mpr ⟨(key, w), hw, rfl⟩)⟩
    rw [← hk, ← String.toList_inj.mp hv]
  · rintro ⟨before, after, rfl, hlast⟩
    have hkey : '=' ∉ key.toList := h (key, value) (by simp)
    refine ⟨hkey, _, _, by rw [List.map_append, List.map_cons], fun w hw => ?_⟩
    obtain ⟨p, hp, heq⟩ := List.mem_map.mp hw
    have hpkey : '=' ∉ p.1.toList := h p (by simp [hp])
    obtain ⟨hk, -⟩ := split_inj hpkey hkey heq
    rw [String.ofList_toList] at hk
    exact hlast p.2 (by rw [← hk]; exact hp)

/-- Parsing of an event. A buffer is accepted if and only if it is UTF-8 and its
first segment that is not empty has an `@`; then every property has the value of
the last segment that assigns to it, and subsystem and device name are those of
the properties. What the kernel encodes is read back. -/
theorem uevent_parsed (buf : List UInt8) :
    ((parse buf).isSome = true ↔ ∃ text header later, Utf8.encode text = buf ∧
      segments text = header :: later ∧ '@' ∈ header) ∧
    (∀ u, parse buf = some u → ∃ text action devpath later, Utf8.encode text = buf ∧
      segments text = (action ++ '@' :: devpath) :: later ∧ '@' ∉ action ∧
      u.action = String.ofList action ∧ u.devpath = String.ofList devpath ∧ Describes u later) ∧
    ∀ (action devpath : String) (props : List (String × String)),
      '@' ∉ action.toList → nul ∉ action.toList → nul ∉ devpath.toList →
      (∀ p ∈ props, '=' ∉ p.1.toList ∧ nul ∉ p.1.toList ∧ nul ∉ p.2.toList) →
      buf = Utf8.encode (kernelText action devpath props) →
      ∃ u, parse buf = some u ∧ u.action = action ∧ u.devpath = devpath ∧
        ∀ key value, u.property? key = some value ↔ LastProperty props key value := by
  have hheader : ∀ {header : List Char}, '@' ∈ header →
      ∃ action devpath, header = action ++ '@' :: devpath ∧ '@' ∉ action :=
    fun h => List.eq_append_cons_of_mem h
  refine ⟨⟨parse_isSome, ?_⟩, fun u hu => ?_, ?_⟩
  · rintro ⟨text, header, later, rfl, hsegs, hat⟩
    obtain ⟨action, devpath, heq, haction⟩ := hheader hat
    obtain ⟨u, hu, -⟩ := parse_encode hsegs heq haction
    rw [hu]
    rfl
  · obtain ⟨text, header, later, rfl, hsegs, hat⟩ := parse_isSome (by rw [hu]; rfl)
    obtain ⟨action, devpath, rfl, haction⟩ := hheader hat
    obtain ⟨u', hu', hact, hdev, hdesc⟩ := parse_encode hsegs rfl haction
    obtain rfl : u' = u := Option.some.inj (hu'.symm.trans hu)
    exact ⟨text, action, devpath, later, rfl, hsegs, haction, hact, hdev, hdesc⟩
  · rintro action devpath props hat hact hdev hprops rfl
    have hnul : nul ∉ action.toList ++ '@' :: devpath.toList := by
      rw [List.mem_append, List.mem_cons]
      rintro (h | h | h)
      · exact hact h
      · exact absurd h (by decide)
      · exact hdev h
    have hsegs : segments (kernelText action devpath props) =
        (action.toList ++ '@' :: devpath.toList) ::
          props.map fun p => p.1.toList ++ '=' :: p.2.toList := by
      rw [kernelText, segments_append hnul (by simp), segments_props fun p hp => (hprops p hp).2]
    obtain ⟨u, hu, hact', hdev', hdesc⟩ := parse_encode hsegs rfl hat
    rw [String.ofList_toList] at hact' hdev'
    refine ⟨u, hu, hact', hdev', fun key value => ?_⟩
    rw [hdesc.properties, lastValue_props fun p hp => (hprops p hp).1]

end Inferenced.Uevent
