import Inferenced.Activation
import Mathlib.Data.List.Perm.Basic

/-!
# The slots of the adopted sockets (activation.rs:72-199)

A socket with a known basename overwrites its slot, one without fills the slot
of its position. So a slot ends up with the last socket that names it, and with
the one at its position only if no socket names it, in whatever order they come.
-/

namespace Inferenced.Activation
open Lib

inductive Slot where
  | varlink
  | sentry
  | gateway
  | fd
  deriving DecidableEq

def Slot.position : Slot → ℕ
  | .varlink => 0
  | .sentry => 1
  | .gateway => 2
  | .fd => 3

def SocketKind.slot : SocketKind → Slot
  | .varlink => .varlink
  | .sentry => .sentry
  | .fd => .fd
  | .gatewayUnix => .gateway

def GatewayListener.listener : GatewayListener → Listener
  | .tcp l => l
  | .unix l => l

def ActivatedSockets.get (s : ActivatedSockets) : Slot → Option Listener
  | .varlink => s.varlink
  | .sentry => s.sentry
  | .gateway => s.gateway.map GatewayListener.listener
  | .fd => s.fdServer

def Descriptor.classified (d : Descriptor) : Option Slot :=
  match d.addr with
  | some (.unix path) => (path.bind classifyUnixSocket).map SocketKind.slot
  | _ => none

def Descriptor.isTcp (d : Descriptor) : Bool := decide (d.addr = some .v4 ∨ d.addr = some .v6)

def Descriptor.names (d : Descriptor) (slot : Slot) : Bool :=
  decide (d.classified = some slot ∨ d.isTcp = true ∧ slot = .gateway)

/-- A Unix socket without a known basename. -/
def Descriptor.isUnclassified (d : Descriptor) : Bool :=
  match d.addr with
  | some (.unix path) => (path.bind classifyUnixSocket).isNone
  | _ => false

/-- The calls that `check_and_adopt_sockets` makes on the descriptor succeed. -/
def Descriptor.Succeeds (d : Descriptor) : Prop :=
  ∀ addr, d.addr = some addr → addr ≠ .other → d.nonblocking = true ∧ d.fromStd = true

/-- What a slot holds of a list of descriptors: the last one that names it; if
none does, the one at its position, if that is unclassified. -/
inductive Holds (l : List Descriptor) (slot : Slot) : Option Listener → Prop where
  | named (i : ℕ) (d : Descriptor) (hi : l[i]? = some d) (hd : d.names slot = true)
      (hlast : ∀ j e, i < j → l[j]? = some e → e.names slot = false) :
      Holds l slot (some ⟨sdListenFdsStart + i, d⟩)
  | positional (d : Descriptor) (hnone : ∀ e ∈ l, e.names slot = false)
      (hi : l[slot.position]? = some d) (hd : d.isUnclassified = true) :
      Holds l slot (some ⟨sdListenFdsStart + slot.position, d⟩)
  | vacant (hnone : ∀ e ∈ l, e.names slot = false)
      (hi : ∀ d, l[slot.position]? = some d → d.isUnclassified = false) : Holds l slot none

variable {d : Descriptor} {l : List Descriptor} {slot slot' : Slot} {held : Option Listener}
  {s : ActivatedSockets}

theorem names_of_unix {path : Option (List UInt8)} (h : d.addr = some (.unix path)) (slot : Slot) :
    d.names slot = decide ((path.bind classifyUnixSocket).map SocketKind.slot = some slot) := by
  simp [Descriptor.names, Descriptor.classified, Descriptor.isTcp, h]

theorem names_of_tcp (h : d.isTcp = true) (slot : Slot) : d.names slot = decide (slot = .gateway) := by
  have hclass : d.classified = none := by
    rcases of_decide_eq_true h with haddr | haddr <;> rw [Descriptor.classified, haddr]
  simp [Descriptor.names, hclass, h]

theorem names_of_ignored (h : d.addr = none ∨ d.addr = some .other) (slot : Slot) :
    d.names slot = false := by
  rcases h with haddr | haddr <;> simp [Descriptor.names, Descriptor.classified, Descriptor.isTcp, haddr]

theorem isUnclassified_iff :
    d.isUnclassified = true ↔ ∃ path, d.addr = some (.unix path) ∧ path.bind classifyUnixSocket = none := by
  unfold Descriptor.isUnclassified
  split
  · rename_i path haddr
    simp [haddr]
  · rename_i hno
    simp only [Bool.false_eq_true, false_iff]
    exact fun ⟨path, haddr, _⟩ => hno path haddr

theorem names_eq_false (h : d.isUnclassified = true) (slot : Slot) : d.names slot = false := by
  obtain ⟨path, haddr, hnone⟩ := isUnclassified_iff.mp h
  rw [names_of_unix haddr, hnone]
  rfl

theorem names_inj (h : d.names slot = true) (h' : d.names slot' = true) : slot = slot' := by
  by_cases htcp : d.isTcp = true
  · rw [names_of_tcp htcp, decide_eq_true_eq] at h h'
    rw [h, h']
  · -- only the basename is left
    have hclass {slot : Slot} (hslot : d.names slot = true) : d.classified = some slot := by
      rcases of_decide_eq_true hslot with hc | ⟨ht, -⟩
      · exact hc
      · exact absurd ht htcp
    exact Option.some.inj ((hclass h).symm.trans (hclass h'))

/-! ### One descriptor -/

theorem get_adoptByIndex (i : ℕ) (listener : Listener) (s : ActivatedSockets) (slot : Slot) :
    (adoptByIndex i listener s).get slot =
      if i = slot.position ∧ s.get slot = none then some listener else s.get slot := by
  unfold adoptByIndex
  split
  case h_5 h0 h1 h2 h3 =>
    cases slot <;> rw [if_neg] <;> rintro ⟨hi, -⟩
    · exact h0 hi
    · exact h1 hi
    · exact h2 hi
    · exact h3 hi
  all_goals
    cases slot <;> simp only [ActivatedSockets.get, Slot.position] <;> split <;>
      simp_all [GatewayListener.listener]

theorem get_adoptUnix (i : ℕ) (path : Option (List UInt8)) (listener : Listener)
    (s : ActivatedSockets) (slot : Slot) :
    (adoptUnix i path listener s).get slot =
      match path.bind classifyUnixSocket with
      | some kind => if kind.slot = slot then some listener else s.get slot
      | none => if i = slot.position ∧ s.get slot = none then some listener else s.get slot := by
  unfold adoptUnix
  cases path.bind classifyUnixSocket with
  | none => exact get_adoptByIndex i listener s slot
  | some kind => cases kind <;> cases slot <;> rfl

theorem listen_eq (h : d.Succeeds) {addr : SocketAddr} (haddr : d.addr = some addr)
    (hother : addr ≠ .other) (fd : ℕ) : d.listen fd = .ok ⟨fd, d⟩ := by
  obtain ⟨hn, hf⟩ := h addr haddr hother
  simp [Descriptor.listen, hn, hf]

theorem adopt_get (hd : d.Succeeds) (i : ℕ) (s : ActivatedSockets) :
    ∃ s', adopt i d s = .ok s' ∧ ∀ slot, s'.get slot =
      if d.names slot = true then some ⟨sdListenFdsStart + i, d⟩
      else if d.isUnclassified = true ∧ i = slot.position ∧ s.get slot = none then
        some ⟨sdListenFdsStart + i, d⟩
      else s.get slot := by
  unfold adopt
  cases haddr : d.addr with
  | none =>
    refine ⟨s, rfl, fun slot => ?_⟩
    simp [names_of_ignored (.inl haddr), Descriptor.isUnclassified, haddr]
  | some addr =>
    cases addr with
    | other =>
      refine ⟨s, rfl, fun slot => ?_⟩
      simp [names_of_ignored (.inr haddr), Descriptor.isUnclassified, haddr]
    | unix path =>
      refine ⟨_, by rw [listen_eq hd haddr (by simp)]; rfl, fun slot => ?_⟩
      rw [get_adoptUnix, names_of_unix haddr]
      cases hkind : path.bind classifyUnixSocket with
      | none => simp [Descriptor.isUnclassified, haddr, hkind]
      | some kind => simp [Descriptor.isUnclassified, haddr, hkind]
    | v4 =>
      refine ⟨_, by rw [listen_eq hd haddr (by simp)]; rfl, fun slot => ?_⟩
      rw [names_of_tcp (by simp [Descriptor.isTcp, haddr])]
      cases slot <;> simp [Descriptor.isUnclassified, haddr, ActivatedSockets.get,
        GatewayListener.listener]
    | v6 =>
      refine ⟨_, by rw [listen_eq hd haddr (by simp)]; rfl, fun slot => ?_⟩
      rw [names_of_tcp (by simp [Descriptor.isTcp, haddr])]
      cases slot <;> simp [Descriptor.isUnclassified, haddr, ActivatedSockets.get,
        GatewayListener.listener]

/-! ### The whole list -/

theorem adoptFrom_append (i : ℕ) (s : ActivatedSockets) (l : List Descriptor) (d : Descriptor) :
    adoptFrom i s (l ++ [d]) = (adoptFrom i s l).bind (adopt (i + l.length) d) := by
  induction l generalizing i s with
  | nil =>
    simp only [List.nil_append, adoptFrom, Except.bind, List.length_nil, Nat.add_zero]
    cases adopt i d s <;> rfl
  | cons e l ih =>
    simp only [List.cons_append, adoptFrom, List.length_cons]
    cases adopt i e s with
    | error err => rfl
    | ok s' =>
      simp only [Except.bind]
      rw [ih, Nat.add_right_comm, Nat.add_assoc]
      rfl

theorem Holds.concat_named (h : d.names slot = true) :
    Holds (l ++ [d]) slot (some ⟨sdListenFdsStart + l.length, d⟩) := by
  refine .named l.length d (by simp) h ?_
  intro j e hj he
  have hlt : j < (l ++ [d]).length := (List.getElem?_eq_some_iff.mp he).1
  simp at hlt
  omega

theorem names_concat_eq_false (hnone : ∀ e ∈ l, e.names slot = false) (hd : d.names slot = false) :
    ∀ e ∈ l ++ [d], e.names slot = false := by
  intro e he
  rcases List.mem_append.mp he with he | he
  · exact hnone e he
  · rwa [List.mem_singleton.mp he]

theorem getElem?_concat {i : ℕ} {e : Descriptor} (h : l[i]? = some e) : (l ++ [d])[i]? = some e := by
  have hi : i < l.length := (List.getElem?_eq_some_iff.mp h).1
  rwa [List.getElem?_append_left hi]

/-- A later descriptor that does not name the slot fills it only at its
position. -/
theorem Holds.concat_other (h : Holds l slot held) (hd : d.names slot = false) :
    Holds (l ++ [d]) slot
      (if d.isUnclassified = true ∧ l.length = slot.position ∧ held = none then
        some ⟨sdListenFdsStart + l.length, d⟩ else held) := by
  cases h with
  | named i e hi he hlast =>
    rw [if_neg (by simp)]
    refine .named i e (getElem?_concat hi) he ?_
    intro j e' hj he'
    rw [List.getElem?_append] at he'
    split at he'
    · exact hlast j e' hj he'
    · have hmem : e' ∈ [d] := List.mem_of_getElem? he'
      rwa [List.mem_singleton.mp hmem]
  | positional e hnone hi he =>
    rw [if_neg (by simp)]
    exact .positional e (names_concat_eq_false hnone hd) (getElem?_concat hi) he
  | vacant hnone hi =>
    split
    case isTrue h =>
      obtain ⟨hun, hpos, -⟩ := h
      rw [hpos]
      exact .positional d (names_concat_eq_false hnone hd) (by rw [← hpos]; simp) hun
    case isFalse h =>
      refine .vacant (names_concat_eq_false hnone hd) ?_
      intro e he
      rw [List.getElem?_append] at he
      split at he
      · exact hi e he
      · -- only the new descriptor can stand there, and it did not fill the slot
        have hlt := (List.getElem?_eq_some_iff.mp he).1
        have hmem : e ∈ [d] := List.mem_of_getElem? he
        rw [List.mem_singleton.mp hmem]
        rw [List.length_singleton] at hlt
        by_contra hun
        exact h ⟨by simpa using hun, by omega, rfl⟩

theorem adoptFrom_holds (l : List Descriptor) (hl : ∀ d ∈ l, d.Succeeds) :
    ∃ s, adoptFrom 0 {} l = .ok s ∧ ∀ slot, Holds l slot (s.get slot) := by
  induction l using List.reverseRecOn with
  | nil =>
    refine ⟨{}, rfl, fun slot => ?_⟩
    have hget : ActivatedSockets.get {} slot = none := by cases slot <;> rfl
    rw [hget]
    exact .vacant (by simp) (by simp)
  | append_singleton l d ih =>
    obtain ⟨s, hs, hholds⟩ := ih fun e he => hl e (List.mem_append_left _ he)
    obtain ⟨s', hs', hget⟩ := adopt_get (hl d (by simp)) l.length s
    refine ⟨s', ?_, fun slot => ?_⟩
    · rw [adoptFrom_append, hs, Nat.zero_add]
      exact hs'
    · rw [hget slot]
      by_cases hd : d.names slot = true
      · rw [if_pos hd]
        exact .concat_named hd
      · rw [if_neg hd]
        exact (hholds slot).concat_other (by simpa using hd)

theorem checkAndAdoptSockets_eq (env : ListenEnv) (fds : ℕ → Descriptor) :
    checkAndAdoptSockets env fds = adoptFrom 0 {} (inherited env fds) := by
  unfold checkAndAdoptSockets inherited
  cases isSocketActivated env <;> rfl

/-! ### The assignment -/

theorem Holds.holder {listener : Listener} (h : Holds l slot (some listener)) :
    ∃ i, listener.fd = sdListenFdsStart + i ∧ l[i]? = some listener.socket ∧
      (listener.socket.names slot = true ∨
        listener.socket.isUnclassified = true ∧ i = slot.position) := by
  cases h with
  | named i d hi hd hlast => exact ⟨i, rfl, hi, .inl hd⟩
  | positional d hnone hi hd => exact ⟨slot.position, rfl, hi, .inr ⟨hd, rfl⟩⟩

theorem Holds.slot_eq {listener listener' : Listener} (h : Holds l slot (some listener))
    (h' : Holds l slot' (some listener')) (hfd : listener.fd = listener'.fd) : slot = slot' := by
  obtain ⟨i, hi, hget, hkind⟩ := h.holder
  obtain ⟨j, hj, hget', hkind'⟩ := h'.holder
  have hij : i = j := by omega
  subst hij
  have hsocket : listener.socket = listener'.socket := Option.some.inj (hget.symm.trans hget')
  rw [← hsocket] at hkind'
  rcases hkind with hname | ⟨hun, hpos⟩ <;> rcases hkind' with hname' | ⟨hun', hpos'⟩
  · exact names_inj hname hname'
  · rw [names_eq_false hun'] at hname
    cases hname
  · rw [names_eq_false hun] at hname'
    cases hname'
  · have hpositions : slot.position = slot'.position := hpos.symm.trans hpos'
    cases slot <;> cases slot' <;> first | rfl | cases hpositions

theorem Holds.socket_eq (h : Holds l slot held) (hfilter : l.filter (·.names slot) = [d]) :
    held.map Listener.socket = some d := by
  have hd : d ∈ l.filter (·.names slot) := by simp [hfilter]
  cases h with
  | named i e hi he hlast =>
    have hmem : e ∈ l.filter (·.names slot) := List.mem_filter.mpr ⟨List.mem_of_getElem? hi, he⟩
    rw [hfilter, List.mem_singleton] at hmem
    rw [hmem]
    rfl
  | positional e hnone hi he =>
    obtain ⟨hmem, hname⟩ := List.mem_filter.mp hd
    rw [hnone d hmem] at hname
    cases hname
  | vacant hnone hi =>
    obtain ⟨hmem, hname⟩ := List.mem_filter.mp hd
    rw [hnone d hmem] at hname
    cases hname

theorem filter_names (htcp : ∀ d ∈ l, d.isTcp = false) (slot : Slot) :
    l.filter (·.names slot) = l.filter fun d => d.classified = some slot := by
  refine List.filter_congr fun d hd => ?_
  simp [Descriptor.names, htcp d hd]

/-- Socket activation: no descriptor is in two slots, every slot holds what
`Holds` says, and with one socket named for each slot the order does not
matter. -/
theorem slots_assigned (env : ListenEnv) (fds : ℕ → Descriptor)
    (hok : ∀ d ∈ inherited env fds, d.Succeeds) :
    ∃ s, checkAndAdoptSockets env fds = .ok s ∧
      (∀ slot slot' listener listener', s.get slot = some listener → s.get slot' = some listener' →
        listener.fd = listener'.fd → slot = slot') ∧
      (∀ slot, Holds (inherited env fds) slot (s.get slot)) ∧
      ((∀ slot, ((inherited env fds).filter fun d => d.classified = some slot).length = 1) →
        (∀ d ∈ inherited env fds, d.isTcp = false) →
        ∀ env' fds', (inherited env' fds').Perm (inherited env fds) →
          ∃ s', checkAndAdoptSockets env' fds' = .ok s' ∧
            ∀ slot, (s'.get slot).map Listener.socket = (s.get slot).map Listener.socket) := by
  obtain ⟨s, hs, hholds⟩ := adoptFrom_holds _ hok
  refine ⟨s, (checkAndAdoptSockets_eq env fds).trans hs, ?_, hholds, ?_⟩
  · intro slot slot' listener listener' hl hl' hfd
    have h := hholds slot
    have h' := hholds slot'
    rw [hl] at h
    rw [hl'] at h'
    exact h.slot_eq h' hfd
  · intro hone htcp env' fds' hperm
    obtain ⟨s', hs', hholds'⟩ := adoptFrom_holds (inherited env' fds') fun d hd =>
      hok d (hperm.mem_iff.mp hd)
    refine ⟨s', (checkAndAdoptSockets_eq env' fds').trans hs', fun slot => ?_⟩
    obtain ⟨d, hd⟩ := List.length_eq_one_iff.mp (hone slot)
    have hfilter := (filter_names htcp slot).trans hd
    have hfilter' : (inherited env' fds').filter (·.names slot) = [d] :=
      List.perm_singleton.mp (hfilter ▸ hperm.filter _)
    rw [(hholds slot).socket_eq hfilter, (hholds' slot).socket_eq hfilter']

def unixSocket (inode : UInt64) (path : String) : Descriptor :=
  ⟨inode, some (.unix (some path.toUTF8.toList)), true, true⟩

/-- The sockets of the unit, in another order and behind one of no known name. -/
def mixedFds : ℕ → Descriptor
  | 3 => unixSocket 1 "/run/systemd-inferenced/gateway-fd.sock"
  | 4 => unixSocket 2 "/run/systemd-inferenced/fd.sock"
  | 5 => unixSocket 3 "/run/syntrop/gateway.sock"
  | 6 => unixSocket 4 "/run/systemd-inferenced/sentry.sock"
  | 7 => unixSocket 5 "/run/systemd-inferenced/io.systemd.inferenced1"
  | _ => ⟨0, none, false, false⟩

def mixedEnv : ListenEnv := ⟨some "7", some "5", 7⟩

theorem slots_assigned_mixed :
    (∀ d ∈ inherited mixedEnv mixedFds, d.Succeeds) ∧
      ∃ s, checkAndAdoptSockets mixedEnv mixedFds = .ok s ∧
        (∀ slot, Holds (inherited mixedEnv mixedFds) slot (s.get slot)) ∧
        ∃ s', checkAndAdoptSockets mixedEnv (fun fd => mixedFds (10 - fd)) = .ok s' ∧
          ∀ slot, (s'.get slot).map Listener.socket = (s.get slot).map Listener.socket := by
  have hok : ∀ d ∈ inherited mixedEnv mixedFds, d.Succeeds := by
    have hflags : ∀ d ∈ inherited mixedEnv mixedFds, d.nonblocking = true ∧ d.fromStd = true := by
      decide +kernel
    exact fun d hd _ _ _ => hflags d hd
  obtain ⟨s, hs, -, hholds, hperm⟩ := slots_assigned mixedEnv mixedFds hok
  have hone (slot : Slot) :
      ((inherited mixedEnv mixedFds).filter fun d => d.classified = some slot).length = 1 := by
    cases slot <;> decide +kernel
  exact ⟨hok, s, hs, hholds, hperm hone (by decide +kernel) mixedEnv (fun fd => mixedFds (10 - fd))
    (by decide +kernel)⟩

end Inferenced.Activation
