import Inferenced.Varlink.Identity

/-!
# Demotion of batch peers

Whether a peer is a batch job is read off `/proc/<pid>/cgroup` (peer.rs:50-90):
of the file one read of 512 bytes is looked at, they have to be UTF-8 as a
whole, and of their lines the first that names a path counts. Everything else
falls back to the system slice, which is not demoted.
-/

namespace Inferenced.Varlink
open Lib Arbiter

def batchSlice : List Char := "ai-batch.slice".toList

/-- The line is `0::` and a path that is not blank. -/
def namesPath (line : List Char) : Bool :=
  Text.startsWith line "0::".toList && !(line.drop 3).all Text.isWhitespace

/-- The first 512 bytes are UTF-8, and the first of their lines that names a path
mentions the batch slice. -/
def BatchVisible (content : List UInt8) : Prop :=
  ∃ text line, Text.fromUtf8 (content.take 512) = some text ∧
    (Text.lines '\n' '\r' text).find? namesPath = some line ∧
    Text.contains line batchSlice = true

/-! ### The path that is read -/

theorem findSome?_of_find? {α β : Type*} {f : α → Option β} {q : α → Bool} {g : α → β}
    (hf : ∀ a, f a = if q a then some (g a) else none) (l : List α) :
    l.findSome? f = (l.find? q).map g := by
  induction l with
  | nil => rfl
  | cons a l ih =>
    rw [List.findSome?_cons, List.find?_cons, hf, ih]
    cases q a <;> rfl

theorem readCgroupPath_eq (content : List UInt8) :
    readCgroupPath content = (Text.fromUtf8 (content.take 512)).bind fun text =>
      ((Text.lines '\n' '\r' text).find? namesPath).map fun line =>
        String.ofList (Text.trim (line.drop 3)) := by
  unfold readCgroupPath
  refine congrArg _ (funext fun text => findSome?_of_find? (fun line => ?_) _)
  unfold Text.stripPrefix namesPath
  cases hp : Text.startsWith line "0::".toList with
  | false => rfl
  | true =>
    rw [if_pos rfl, Option.bind_some]
    show (if (Text.trim (line.drop 3)).isEmpty = true then none
      else some (String.ofList (Text.trim (line.drop 3)))) = _
    rw [Text.trim_isEmpty]
    cases (line.drop 3).all Text.isWhitespace <;> rfl

theorem batchSlice_printable (c : Char) (hc : c ∈ batchSlice) : Text.isWhitespace c = false := by
  have hall : (batchSlice.all fun c => !Text.isWhitespace c) = true := by decide
  simpa using List.all_eq_true.mp hall c hc

theorem contains_path {line : List Char} (h : namesPath line = true) :
    Text.contains (Text.trim (line.drop 3)) batchSlice = Text.contains line batchSlice := by
  rw [Text.contains_trim (by decide) batchSlice_printable]
  simp only [namesPath, Bool.and_eq_true, Text.startsWith, decide_eq_true_eq] at h
  obtain ⟨path, rfl⟩ := h.1
  simp only [Text.contains, decide_eq_decide]
  show batchSlice <:+: path ↔ batchSlice <:+: '0' :: ':' :: ':' :: path
  -- the slice begins with none of the three characters
  have hskip : ∀ (c : Char) (l : List Char), c ≠ 'a' → (batchSlice <:+: c :: l ↔ batchSlice <:+: l) := by
    intro c l hc
    rw [List.infix_cons_iff]
    refine or_iff_right fun hpre => hc ?_
    exact (List.cons_prefix_cons.mp hpre).1.symm
  rw [hskip _ _ (by decide), hskip _ _ (by decide), hskip _ _ (by decide)]

theorem isBatch_ofCgroup (pid uid gid : UInt32) (path : String) :
    (PeerInfo.ofCgroup pid uid gid path).isBatch = Text.contains path.toList batchSlice := rfl

theorem fromSocket_isBatch {pid : UInt32} (hpid : 0 < pid) (uid gid : UInt32) (content : List UInt8) :
    (PeerInfo.fromSocket pid uid gid (some content)).isBatch = true ↔ BatchVisible content := by
  unfold PeerInfo.fromSocket BatchVisible
  rw [if_pos hpid, isBatch_ofCgroup, Option.bind_some, readCgroupPath_eq]
  cases htext : Text.fromUtf8 (content.take 512) with
  | none =>
    refine iff_of_false (by decide) ?_
    rintro ⟨text, line, h, -⟩
    cases h
  | some text =>
    rw [Option.bind_some]
    cases hline : (Text.lines '\n' '\r' text).find? namesPath with
    | none =>
      refine iff_of_false (by decide) ?_
      rintro ⟨text', line, h, hline', -⟩
      cases h
      rw [hline] at hline'
      cases hline'
    | some line =>
      rw [Option.map_some, Option.getD_some, String.toList_ofList,
        contains_path (List.find?_some hline)]
      constructor
      · exact fun h => ⟨text, line, rfl, hline, h⟩
      · rintro ⟨text', line', h, hline', hc⟩
        cases h
        rw [hline] at hline'
        cases hline'
        exact hc

/-! ### The leases of the peer -/

/-- Every lease that `AcquireLease` grants to the peer has priority `Batch`. -/
def GrantedBatchOnly (peer : PeerInfo) : Prop :=
  ∀ (s : ArbiterState) (active : List LeaseId) (params : Option Json) (env : HandlerEnv)
    (lease : ComputeLease), s.leases.get? env.newId = none →
    (handleAcquireLease params s active (some peer) env).arbiter.leases.get? env.newId = some lease →
    lease.priority = .batch

theorem grantedBatchOnly {peer : PeerInfo} (h : peer.isBatch = true) : GrantedBatchOnly peer := by
  intro s active params env lease hn hl
  cases params with
  | none =>
    rw [show (handleAcquireLease none s active (some peer) env).arbiter = s from rfl, hn] at hl
    cases hl
  | some params =>
    rw [handleAcquireLease_arbiter] at hl
    exact (granted_priority hn hl).trans (acquireRequest_batch h params)

/-- A line `0::P` of the file whose path has the segment `ai-batch.slice`. -/
def HasBatchLine (content : List UInt8) : Prop :=
  ∃ line ∈ Text.lines 10 13 content, ∃ path,
    Text.stripPrefix line ("0::".toList.map Char.toUInt8) = some path ∧
    batchSlice.map Char.toUInt8 ∈ path.splitOnP fun b => decide (b = 47)

/-- Batch demotion: for every content of the file, the peer is recognised as a
batch job, with every lease it is granted of priority `Batch`, if and only if
the first 512 bytes are UTF-8 and the first of their lines that names a path
mentions the batch slice. -/
theorem batch_demotion_iff (pid uid gid : UInt32) (hpid : 0 < pid) (content : List UInt8) :
    ((PeerInfo.fromSocket pid uid gid (some content)).isBatch = true ∧
      GrantedBatchOnly (PeerInfo.fromSocket pid uid gid (some content))) ↔ BatchVisible content := by
  rw [← fromSocket_isBatch hpid uid gid content]
  exact ⟨fun h => h.1, fun h => ⟨h, grantedBatchOnly h⟩⟩

theorem batch_demotion_iff_job :
    (PeerInfo.fromSocket 42 0 0 (some ("0::/ai-batch.slice/job\n".toList.map Char.toUInt8))).isBatch =
      true := by
  refine ((batch_demotion_iff 42 0 0 (by decide) _).mpr ⟨"0::/ai-batch.slice/job\n".toList,
    "0::/ai-batch.slice/job".toList, ?_, ?_, ?_⟩).1
  · decide +kernel
  · decide
  · decide

def latin1Cgroup : List UInt8 := "0::/ai-batch.slice/".toList.map Char.toUInt8 ++ [0xE9, 10]

/-- The job is taken for a system service, and is granted the emergency lease it
asks for. -/
theorem latin1_job_not_demoted :
    HasBatchLine latin1Cgroup ∧
      (PeerInfo.fromSocket 42 0 0 (some latin1Cgroup)).isBatch = false ∧
      ¬ GrantedBatchOnly (PeerInfo.fromSocket 42 0 0 (some latin1Cgroup)) := by
  have hpeer : PeerInfo.fromSocket 42 0 0 (some latin1Cgroup) =
      PeerInfo.ofCgroup 42 0 0 "/system.slice" := by
    have hread : readCgroupPath latin1Cgroup = none := by
      have hdecode : Text.fromUtf8 (latin1Cgroup.take 512) = none := by decide +kernel
      rw [readCgroupPath, hdecode]
      rfl
    rw [PeerInfo.fromSocket, Option.bind_some, hread]
    rfl
  refine ⟨⟨"0::/ai-batch.slice/".toList.map Char.toUInt8 ++ [0xE9], by decide, _, rfl, by decide⟩,
    by rw [hpeer]; decide, fun h => ?_⟩
  rw [hpeer] at h
  have := h (new (sampleTopology [samplePlane "gpu0" .discreteGpu 10 10])) []
    (some (.object [("priority", .string "EmergencyTriage"), ("memory_bytes", .posInt 4)]))
    { toCallEnv := sampleEnv 0, modelOrder := IterOrder.stored, now := 0 } _ rfl rfl
  exact absurd this (by decide)

end Inferenced.Varlink
