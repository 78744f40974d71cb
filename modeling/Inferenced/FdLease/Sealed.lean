import Inferenced.FdLease

/-!
# What is sealed (fd_lease.rs:19-48)

The file is the data and zeros behind it as long as every `write` takes
something and the data fits into the declared size. A `write` that takes nothing
ends the copy without an error, and data beyond the declared size makes the file
longer.
-/

namespace Inferenced.FdLease

variable {write : ℕ → Except Errno ℕ} {data : List UInt8} {size call written n : ℕ}
  {file : MemFile}

/-- The data up to `written`, and zeros up to the size. -/
structure Copied (data : List UInt8) (size written : ℕ) (file : MemFile) : Prop where
  content : file.content = data.take written ++ List.replicate (size - written) 0
  offset : file.offset = written
  le : written ≤ data.length

theorem copied_truncate (data : List UInt8) (size : ℕ) :
    Copied data size 0 (MemFile.truncate {} size) := by
  refine ⟨?_, rfl, Nat.zero_le _⟩
  simp [MemFile.truncate]

theorem copied_write (h : Copied data size written file) (hn : n ≤ data.length - written) :
    Copied data size (written + n) (file.write ((data.drop written).take n)) := by
  have hle := h.le
  have hlen : ((data.drop written).take n).length = n := by simp; omega
  have htake : (data.take written).length = written := by simp; omega
  refine ⟨?_, ?_, by omega⟩
  · simp only [MemFile.write, h.offset, h.content, hlen]
    have hbefore : (data.take written ++ List.replicate (size - written) 0).take written =
        data.take written := by
      rw [List.take_append_of_le_length (by omega), List.take_of_length_le (by omega)]
    have hpad : written - (data.take written ++ List.replicate (size - written) (0 : UInt8)).length = 0 := by
      rw [List.length_append, htake]
      omega
    have hafter : (data.take written ++ List.replicate (size - written) 0).drop (written + n) =
        List.replicate (size - (written + n)) (0 : UInt8) := by
      rw [List.drop_append, List.drop_of_length_le (by omega), htake, List.drop_replicate]
      simp only [List.nil_append]
      congr 1
      omega
    rw [hbefore, hpad, hafter, List.take_add]
    simp
  · simp only [MemFile.write, h.offset, hlen]

/-- From `call` on, after calls that take `done` bytes, each of them some, the
kernel answers `r`. -/
inductive Answers (write : ℕ → Except Errno ℕ) : (call done : ℕ) → Except Errno ℕ → Prop where
  | here (call : ℕ) : Answers write call 0 (write call)
  | later {call n done : ℕ} {r : Except Errno ℕ} (hn : write call = .ok n) (hpos : 0 < n)
      (hrest : Answers write (call + 1) done r) : Answers write call (n + done) r

/-- The loop comes to every answer that is given before the data is written. -/
theorem copyLoop_answers {r : Except Errno ℕ} {done : ℕ} (h : Answers write call done r)
    (hfile : Copied data size written file) (hlt : written + done < data.length) :
    ∃ call' file', write call' = r ∧ Copied data size (written + done) file' ∧
      copyLoop write data call written file = copyLoop write data call' (written + done) file' := by
  induction h generalizing written file with
  | here call => exact ⟨call, file, rfl, hfile, rfl⟩
  | @later call n done r hn hpos hrest ih =>
    have hmin : min n (data.length - written) = n := by omega
    obtain ⟨call', file', hr, hcopied, hloop⟩ :=
      ih (copied_write hfile (n := n) (by omega)) (by omega)
    refine ⟨call', file', hr, by rwa [← Nat.add_assoc], ?_⟩
    rw [copyLoop, if_pos (by omega), hn]
    simp only [hmin]
    rw [if_neg (by omega), hloop, Nat.add_assoc]

theorem copyLoop_of_stops {done : ℕ} (h : Answers write call done (.ok 0))
    (hfile : Copied data size written file) (hlt : written + done < data.length) :
    ∃ file', copyLoop write data call written file = .ok file' ∧
      Copied data size (written + done) file' := by
  obtain ⟨call', file', hr, hcopied, hloop⟩ := copyLoop_answers h hfile hlt
  refine ⟨file', ?_, hcopied⟩
  rw [hloop, copyLoop, if_pos hlt, hr]
  simp

theorem copyLoop_of_fails {done : ℕ} {e : Errno} (h : Answers write call done (.error e))
    (hfile : Copied data size written file) (hlt : written + done < data.length) :
    copyLoop write data call written file = .error e := by
  obtain ⟨call', file', hr, -, hloop⟩ := copyLoop_answers h hfile hlt
  rw [hloop, copyLoop, if_pos hlt, hr]

theorem copyLoop_complete (hfile : Copied data size written file)
    (hstops : ∀ done, written + done < data.length → ¬ Answers write call done (.ok 0))
    (hfails : ∀ done e, written + done < data.length → ¬ Answers write call done (.error e)) :
    ∃ file', copyLoop write data call written file = .ok file' ∧
      Copied data size data.length file' := by
  fun_induction copyLoop write data call written file with
  | case1 call written file hlt e herror => exact absurd (herror ▸ .here call) (hfails 0 e hlt)
  | case2 call written file hlt count hcount n hn =>
    obtain rfl : count = 0 := by omega
    exact absurd (hcount ▸ .here call) (hstops 0 hlt)
  | case3 call written file hlt count hcount n hn ih =>
    have hcap : n ≤ data.length - written := Nat.min_le_right ..
    -- a later answer counts only if this call is not capped
    have hlater {done : ℕ} {r : Except Errno ℕ} (hroom : written + n + done < data.length)
        (h : Answers write (call + 1) done r) : Answers write call (n + done) r := by
      have hcount' : n = count := by omega
      rw [hcount']
      exact .later hcount (by omega) h
    refine ih (copied_write hfile hcap) ?_ ?_
    · exact fun done hroom h => hstops (n + done) (by omega) (hlater hroom h)
    · exact fun done e hroom h => hfails (n + done) e (by omega) (hlater hroom h)
  | case4 call written file hlt =>
    obtain rfl : written = data.length := by have := hfile.le; omega
    exact ⟨file, rfl, hfile⟩

/-! ### The sealed file -/

structure SealedExactly (file : MemFile) (data : List UInt8) (size : ℕ) : Prop where
  length : file.content.length = size
  content : ∃ zeros, file.content = data ++ List.replicate zeros 0

variable {env : KernelEnv} {name : String} {sizeBytes : UInt64}

/-- A system call that `create_sealed_memfd` makes fails. -/
inductive CallFails (env : KernelEnv) (name : String) (data : List UInt8) : Prop where
  | memfdCreate (e : Errno) (h : env.memfdCreate name = .error e)
  | ftruncate (e : Errno) (h : env.ftruncate = .error e)
  | write (done : ℕ) (e : Errno) (hlt : done < data.length)
      (h : Answers env.write 0 done (.error e))
  | seek (e : Errno) (h : env.seek = .error e)
  | addSeals (e : Errno) (h : env.addSeals = .error e)

theorem bind_eq_ok {α β : Type} {x : Except Errno α} {f : α → Except Errno β} {b : β} :
    (x >>= f) = .ok b ↔ ∃ a, x = .ok a ∧ f a = .ok b := by
  cases x with
  | error e => simp [bind, Except.bind]
  | ok a => simp [bind, Except.bind]

theorem createSealedMemfd_eq_ok :
    createSealedMemfd env name sizeBytes (some data) = .ok file ↔
      env.memfdCreate name = .ok () ∧ env.ftruncate = .ok () ∧
        ∃ f, copyLoop env.write data 0 0 (MemFile.truncate {} sizeBytes.toNat) = .ok f ∧
          env.seek = .ok () ∧ env.addSeals = .ok () ∧
          { f with offset := 0, seals := [.seal, .grow, .shrink, .write] } = file := by
  simp only [createSealedMemfd, bind_eq_ok, Unique.exists_iff, pure, Except.pure, Except.ok.injEq]

theorem sealed_of_not_fails (sizeBytes : UInt64) (h : ¬ CallFails env name data) :
    ∃ file, createSealedMemfd env name sizeBytes (some data) = .ok file ∧
      ∃ written, written ≤ data.length ∧
        file.content = data.take written ++ List.replicate (sizeBytes.toNat - written) 0 ∧
        (written < data.length → Answers env.write 0 written (.ok 0)) := by
  have hok {x : Except Errno Unit} (hx : ∀ e, x = .error e → CallFails env name data) : x = .ok () := by
    cases x with
    | error e => exact absurd (hx e rfl) h
    | ok => rfl
  have hstart := copied_truncate data sizeBytes.toNat
  have hseal {f : MemFile}
      (hf : copyLoop env.write data 0 0 (MemFile.truncate {} sizeBytes.toNat) = .ok f) :=
    createSealedMemfd_eq_ok.mpr
      ⟨hok .memfdCreate, hok .ftruncate, f, hf, hok .seek, hok .addSeals, rfl⟩
  by_cases hstops : ∃ done, done < data.length ∧ Answers env.write 0 done (.ok 0)
  · obtain ⟨done, hlt, hzero⟩ := hstops
    obtain ⟨f, hf, hcopied⟩ := copyLoop_of_stops hzero hstart (by omega)
    rw [Nat.zero_add] at hcopied
    exact ⟨_, hseal hf, done, hcopied.le, hcopied.content, fun _ => hzero⟩
  · obtain ⟨f, hf, hcopied⟩ := copyLoop_complete hstart
      (fun done hlt hzero => hstops ⟨done, by omega, hzero⟩)
      (fun done e hlt herror => h (.write done e (by omega) herror))
    exact ⟨_, hseal hf, data.length, hcopied.le, hcopied.content, fun hlt => absurd hlt (Nat.lt_irrefl _)⟩

theorem sealed_of_stops (hok : createSealedMemfd env name sizeBytes (some data) = .ok file) {done : ℕ}
    (hlt : done < data.length) (hzero : Answers env.write 0 done (.ok 0)) :
    file.content = data.take done ++ List.replicate (sizeBytes.toNat - done) 0 := by
  obtain ⟨-, -, f, hf, -, -, rfl⟩ := createSealedMemfd_eq_ok.mp hok
  obtain ⟨f', hf', hcopied⟩ := copyLoop_of_stops hzero (copied_truncate data sizeBytes.toNat) (by omega)
  obtain rfl : f' = f := Except.ok.inj (hf'.symm.trans hf)
  rw [Nat.zero_add] at hcopied
  exact hcopied.content

theorem not_sealed_of_fails (h : CallFails env name data) :
    createSealedMemfd env name sizeBytes (some data) ≠ .ok file := by
  intro hok
  obtain ⟨hcreate, htruncate, f, hf, hseek, hseals, -⟩ := createSealedMemfd_eq_ok.mp hok
  cases h with
  | memfdCreate e h => cases h.symm.trans hcreate
  | ftruncate e h => cases h.symm.trans htruncate
  | write done e hlt h =>
    have herror := copyLoop_of_fails h (copied_truncate data sizeBytes.toNat) (by omega)
    cases herror.symm.trans hf
  | seek e h => cases h.symm.trans hseek
  | addSeals e h => cases h.symm.trans hseals

/-- A copy that stopped is the data and zeros if there is room for the data and
only zeros are missing. -/
theorem sealedExactly_iff (hle : written ≤ data.length)
    (h : file.content = data.take written ++ List.replicate (size - written) 0) :
    SealedExactly file data size ↔ data.length ≤ size ∧ ∀ b ∈ data.drop written, b = 0 := by
  constructor
  · rintro ⟨hlen, zeros, hcontent⟩
    have hsize : data.length ≤ size := by
      rw [← hlen, hcontent, List.length_append]
      omega
    refine ⟨hsize, fun b hb => ?_⟩
    have hdrop := congrArg (List.drop written) (h.symm.trans hcontent)
    rw [List.drop_append_of_le_length (by simp; omega), List.drop_take_self, List.nil_append,
      List.drop_append_of_le_length hle] at hdrop
    have hmem : b ∈ List.replicate (size - written) (0 : UInt8) := by
      rw [hdrop]
      exact List.mem_append_left _ hb
    exact (List.mem_replicate.mp hmem).2
  · rintro ⟨hsize, hzero⟩
    refine ⟨?_, size - data.length, ?_⟩
    · rw [h]
      simp
      omega
    · have hrest : data.drop written = List.replicate (data.length - written) 0 :=
        List.eq_replicate_iff.mpr ⟨List.length_drop, hzero⟩
      have hsplit : size - written = (data.length - written) + (size - data.length) := by omega
      rw [h, hsplit, ← List.replicate_append_replicate, ← List.append_assoc, ← hrest,
        List.take_append_drop]

/-- Sealed content: what `create_sealed_memfd` seals is the data and zeros up to
the declared size if and only if a call fails, or the data fits and every byte
that is missing when a `write` takes nothing is zero. -/
theorem sealed_content_iff (env : KernelEnv) (name : String) (sizeBytes : UInt64) (data : List UInt8) :
    (∀ file, createSealedMemfd env name sizeBytes (some data) = .ok file →
        SealedExactly file data sizeBytes.toNat) ↔
      CallFails env name data ∨ data.length ≤ sizeBytes.toNat ∧
        ∀ done, done < data.length → Answers env.write 0 done (.ok 0) → ∀ b ∈ data.drop done, b = 0 := by
  by_cases hfails : CallFails env name data
  · refine ⟨fun _ => .inl hfails, fun _ file hok => ?_⟩
    exact absurd hok (not_sealed_of_fails hfails)
  · obtain ⟨file, hok, written, hle, hcontent, hstopped⟩ :=
      sealed_of_not_fails sizeBytes hfails
    constructor
    · intro h
      have hexact := h file hok
      refine .inr ⟨((sealedExactly_iff hle hcontent).mp hexact).1, fun done hlt hzero => ?_⟩
      exact ((sealedExactly_iff hlt.le (sealed_of_stops hok hlt hzero)).mp hexact).2
    · rintro (h | ⟨hsize, hzeros⟩) file' hok'
      · exact absurd h hfails
      · obtain rfl : file = file' := Except.ok.inj (hok.symm.trans hok')
        refine (sealedExactly_iff hle hcontent).mpr ⟨hsize, ?_⟩
        rcases Nat.lt_or_eq_of_le hle with hlt | rfl
        · exact hzeros written hlt (hstopped hlt)
        · simp

/-- `create_sealed_model` declares the length of the data, so only a `write` that
takes nothing spoils it. -/
theorem sealed_model (hlen : data.length < 2 ^ 64)
    (hwrites : ∀ done, done < data.length → ¬ Answers env.write 0 done (.ok 0))
    (hok : createSealedModel env name data = .ok file) : file.content = data := by
  have hsize : (UInt64.ofNat data.length).toNat = data.length := by simpa using hlen
  have hnot : ¬ CallFails env name data := fun h => not_sealed_of_fails h hok
  obtain ⟨file', hok', written, hle, hcontent, hstopped⟩ :=
    sealed_of_not_fails (UInt64.ofNat data.length) hnot
  obtain rfl : file' = file := Except.ok.inj (hok'.symm.trans hok)
  obtain rfl : written = data.length := by
    by_contra hne
    exact hwrites written (by omega) (hstopped (by omega))
  rw [hcontent, hsize, Nat.sub_self, List.take_length]
  exact List.append_nil data

def kernelWriting (counts : List ℕ) : KernelEnv :=
  ⟨fun _ => .ok (), .ok (), fun call => .ok (counts[call]?.getD 0), .ok (), .ok ()⟩

/-- A `write` that takes nothing, and data beyond the declared size. -/
theorem short_and_overlong_sealed :
    createSealedMemfd (kernelWriting [2, 0]) "model" 3 (some [1, 2, 3]) =
        .ok ⟨[1, 2, 0], 0, [.seal, .grow, .shrink, .write]⟩ ∧
      createSealedMemfd (kernelWriting [3]) "model" 2 (some [1, 2, 3]) =
        .ok ⟨[1, 2, 3], 0, [.seal, .grow, .shrink, .write]⟩ ∧
      ¬ (∀ (env : KernelEnv) (name : String) (sizeBytes : UInt64) (data : List UInt8) (file : MemFile),
        createSealedMemfd env name sizeBytes (some data) = .ok file →
          SealedExactly file data sizeBytes.toNat) := by
  have hshort : createSealedMemfd (kernelWriting [2, 0]) "model" 3 (some [1, 2, 3]) =
      .ok ⟨[1, 2, 0], 0, [.seal, .grow, .shrink, .write]⟩ := by
    simp [createSealedMemfd, copyLoop, kernelWriting, MemFile.truncate, MemFile.write, bind,
      Except.bind, pure, Except.pure]
  have hoverlong : createSealedMemfd (kernelWriting [3]) "model" 2 (some [1, 2, 3]) =
      .ok ⟨[1, 2, 3], 0, [.seal, .grow, .shrink, .write]⟩ := by
    simp [createSealedMemfd, copyLoop, kernelWriting, MemFile.truncate, MemFile.write, bind,
      Except.bind, pure, Except.pure]
  refine ⟨hshort, hoverlong, fun h => ?_⟩
  have hlen := (h _ _ _ _ _ hoverlong).length
  exact absurd hlen (by decide)

end Inferenced.FdLease
