import Inferenced.Arbiter
import Inferenced.Lib.Single
import Inferenced.Lib.Text

/-!
# Pressure stall information (crates/inferenced-core/src/psi.rs)

The kernel prints averages with two decimals; the daemon reads them as `f32`,
compares them with whole numbers and prints them again with two decimals.
`jsonText` stands for the text that the JSON library gives a number.
-/

namespace Inferenced.Psi
open Lib Lib.Binary Lib.Single

structure PsiEnv where
  /-- `SIMULATED_PSI` of the task. -/
  simulated : Option PressureLevel
  /-- `INFERENCED_SIMULATE_PSI`. -/
  simulatePsi : Option String
  /-- The text of a file that exists and can be read. -/
  read : String → Option (List Char)

/-- The rest of the first word `avg10=..` of a line. -/
def avg10Of (line : List Char) : Option (List Char) :=
  (Text.splitWhitespace line).findSome? fun part => Text.stripPrefix part "avg10=".toList

/-- `parse_psi_avg10` (psi.rs:103-122). -/
def parsePsiAvg10 (env : PsiEnv) (path linePrefix : String) : Option F32 :=
  (env.read path).bind fun content =>
    (((Text.lines '\n' '\r' content).filter fun line => Text.startsWith line linePrefix.toList).findSome?
      avg10Of).bind parseF32

/-- The level of the variable (psi.rs:70-79). -/
def simulatedLevel (sim : String) : Option PressureLevel :=
  let simLower := sim.toList.map Char.toLower
  if simLower = "critical".toList then some .critical
  else if simLower = "elevated".toList then some .elevated
  else if simLower = "normal".toList then some .normal
  else none

/-- psi.rs:86-92. -/
def levelOf (memSome memFull cpuSome ioSome : F32) : PressureLevel :=
  if above memFull 10 || above memSome 40 || above ioSome 50 then .critical
  else if above memSome 15 || above ioSome 20 || above cpuSome 60 then .elevated
  else .normal

section
variable (jsonText : F32 → String)

def readingOf (x : F32) : Reading := ⟨fixed2 x, jsonText x⟩

/-- A whole number as `f32`. -/
def whole (t : ℕ) : F32 := .finite false (t * 2 ^ 149)

def metrics (memSome memFull cpuSome ioSome : F32) (level : PressureLevel) : PressureMetrics :=
  { memorySomeAvg10 := readingOf jsonText memSome
    memoryFullAvg10 := readingOf jsonText memFull
    cpuSomeAvg10 := readingOf jsonText cpuSome
    ioSomeAvg10 := readingOf jsonText ioSome
    level }

/-- `from_level` (psi.rs:38-62). -/
def fromLevel : PressureLevel → PressureMetrics
  | .critical => metrics jsonText (whole 60) (whole 25) (whole 10) (whole 5) .critical
  | .elevated => metrics jsonText (whole 20) (whole 0) (whole 10) (whole 5) .elevated
  | .normal => metrics jsonText (whole 0) (whole 0) (whole 0) (whole 0) .normal

/-- `read_current` (psi.rs:65-101). -/
def readCurrent (env : PsiEnv) : PressureMetrics :=
  match env.simulated.or (env.simulatePsi.bind simulatedLevel) with
  | some level => fromLevel jsonText level
  | none =>
    let memSome := (parsePsiAvg10 env "/proc/pressure/memory" "some").getD (whole 0)
    let memFull := (parsePsiAvg10 env "/proc/pressure/memory" "full").getD (whole 0)
    let cpuSome := (parsePsiAvg10 env "/proc/pressure/cpu" "some").getD (whole 0)
    let ioSome := (parsePsiAvg10 env "/proc/pressure/io" "some").getD (whole 0)
    metrics jsonText memSome memFull cpuSome ioSome (levelOf memSome memFull cpuSome ioSome)

end

/-! ### The files of the kernel -/

/-- Averages in hundredths of a percent, and microseconds. -/
structure Stall where
  avg10 : ℕ
  avg60 : ℕ
  avg300 : ℕ
  total : ℕ
  percent : avg10 ≤ 10000

/-- "some avg10=0.00 avg60=0.00 avg300=0.00 total=0". -/
def Stall.line (name : String) (s : Stall) : List Char :=
  name.toList ++ ' ' :: ("avg10=".toList ++ decimalChars 2 s.avg10 ++ ' ' ::
    ("avg60=".toList ++ decimalChars 2 s.avg60 ++ " avg300=".toList ++ decimalChars 2 s.avg300 ++
      " total=".toList ++ decimalChars 0 s.total))

structure Resource where
  some : Stall
  full : Stall

def Resource.text (r : Resource) : List Char :=
  r.some.line "some" ++ '\n' :: (r.full.line "full" ++ ['\n'])

structure Kernel where
  memory : Resource
  cpu : Resource
  io : Resource

def Kernel.env (k : Kernel) (simulatePsi : Option String) : PsiEnv :=
  { simulated := none
    simulatePsi
    read := fun
      | "/proc/pressure/memory" => some k.memory.text
      | "/proc/pressure/cpu" => some k.cpu.text
      | "/proc/pressure/io" => some k.io.text
      | _ => none }

/-! ### Reading of the files -/

theorem decimal_bounds {digits n : ℕ} {c : Char} (h : c ∈ decimalChars digits n) :
    46 ≤ c.toNat ∧ c.toNat ≤ 57 := by
  rcases mem_decimalChars h with hdigit | rfl
  · have hbounds := isDigit_bounds hdigit
    omega
  · decide

theorem bounds_of_all {l : List Char} {low high : ℕ}
    (h : l.all (fun c => decide (low ≤ c.toNat ∧ c.toNat ≤ high)) = true) :
    ∀ c ∈ l, low ≤ c.toNat ∧ c.toNat ≤ high :=
  fun c hc => of_decide_eq_true (List.all_eq_true.mp h c hc)

theorem not_isWhitespace {c : Char} (h : 46 ≤ c.toNat ∧ c.toNat ≤ 122) : Text.isWhitespace c = false := by
  unfold Text.isWhitespace
  simp only [Bool.or_eq_false_iff, Bool.and_eq_false_iff, decide_eq_false_iff_not, beq_eq_false_iff_ne]
  omega

/-- The words of a text up to a blank and after it. -/
theorem splitWhitespace_append {word : List Char} (hne : word ≠ [])
    (h : ∀ c ∈ word, 46 ≤ c.toNat ∧ c.toNat ≤ 122) (rest : List Char) :
    Text.splitWhitespace (word ++ ' ' :: rest) = word :: Text.splitWhitespace rest := by
  have hword : word.splitOnP Text.isWhitespace = [word] :=
    List.splitOnP_eq_singleton fun c hc => not_isWhitespace (h c hc)
  have hkept : (!word.isEmpty) = true := by simpa using hne
  rw [Text.splitWhitespace, List.splitOnP_append_cons _ _ (by decide), hword, List.singleton_append]
  simp only [List.filter_cons, hkept, if_true, Text.splitWhitespace]

/-- The average is the second word of a line. -/
theorem avg10Of_line {name : String} (hne : name.toList ≠ [])
    (hname : ∀ c ∈ name.toList, 46 ≤ c.toNat ∧ c.toNat ≤ 122)
    (hword : ¬ "avg10=".toList <+: name.toList) (s : Stall) :
    avg10Of (s.line name) = some (decimalChars 2 s.avg10) := by
  have hvalue : ∀ c ∈ "avg10=".toList ++ decimalChars 2 s.avg10, 46 ≤ c.toNat ∧ c.toNat ≤ 122 := by
    intro c hc
    rcases List.mem_append.mp hc with hkey | hdecimal
    · exact bounds_of_all (l := "avg10=".toList) (by decide) c hkey
    · have hbounds := decimal_bounds hdecimal
      omega
  have hskip : Text.stripPrefix name.toList "avg10=".toList = none := by
    simp only [Text.stripPrefix, Text.startsWith, hword, decide_false, Bool.false_eq_true, if_false]
  have htake : Text.stripPrefix ("avg10=".toList ++ decimalChars 2 s.avg10) "avg10=".toList =
      some (decimalChars 2 s.avg10) := by
    simp only [Text.stripPrefix, Text.startsWith, List.prefix_append, decide_true, if_true,
      List.drop_left]
  rw [avg10Of, Stall.line, splitWhitespace_append hne hname,
    splitWhitespace_append (List.append_ne_nil_of_left_ne_nil (by decide) _) hvalue]
  simp only [List.findSome?_cons, hskip, htake]

/-- The lines have no line break in them. -/
theorem line_inline {name : String} (hname : ∀ c ∈ name.toList, 46 ≤ c.toNat ∧ c.toNat ≤ 122) (s : Stall) :
    ∀ c ∈ s.line name, 32 ≤ c.toNat := by
  have hdecimal : ∀ {digits n : ℕ}, ∀ c ∈ decimalChars digits n, 32 ≤ c.toNat := by
    intro digits n c hc
    have hbounds := decimal_bounds hc
    omega
  have hlow : ∀ c ∈ name.toList, 32 ≤ c.toNat := by
    intro c hc
    have hbounds := hname c hc
    omega
  have hword : ∀ {word : String}, word.toList.all (fun c => decide (32 ≤ c.toNat ∧ c.toNat ≤ 122)) = true →
      ∀ c ∈ word.toList, 32 ≤ c.toNat := fun h c hc => (bounds_of_all h c hc).1
  simp only [Stall.line, List.forall_mem_append, List.forall_mem_cons]
  exact ⟨hlow, by decide, ⟨hword (by decide), hdecimal⟩, by decide,
    ⟨⟨⟨⟨hword (by decide), hdecimal⟩, hword (by decide)⟩, hdecimal⟩, hword (by decide)⟩, hdecimal⟩

theorem not_mem_of_inline {l : List Char} (h : ∀ c ∈ l, 32 ≤ c.toNat) : '\n' ∉ l ∧ l.getLast? ≠ some '\r' := by
  constructor
  · intro hmem
    exact absurd (h _ hmem) (by decide)
  · intro hlast
    exact absurd (h _ (List.mem_of_getLast? hlast)) (by decide)

/-- The text of a file comes apart into its two lines. -/
theorem lines_text (r : Resource) :
    Text.lines '\n' '\r' r.text = [r.some.line "some", r.full.line "full"] := by
  obtain ⟨hsome, hsomeLast⟩ := not_mem_of_inline (@line_inline "some" (bounds_of_all (by decide)) r.some)
  obtain ⟨hfull, hfullLast⟩ := not_mem_of_inline (@line_inline "full" (bounds_of_all (by decide)) r.full)
  have hempty : (([] : List Char).splitOnP fun c => decide (c = '\n')) = [[]] := rfl
  rw [Text.lines, Resource.text, Text.splitOnP_append_sep hsome, Text.splitOnP_append_sep hfull, hempty]
  simp [hsomeLast, hfullLast]

theorem parsePsiAvg10_text {env : PsiEnv} {path : String} {r : Resource} (h : env.read path = some r.text) :
    parsePsiAvg10 env path "some" = some (.finite false (hundredths r.some.avg10)) ∧
      parsePsiAvg10 env path "full" = some (.finite false (hundredths r.full.avg10)) := by
  have hsomePercent := r.some.percent
  have hfullPercent := r.full.percent
  have hsome : avg10Of (r.some.line "some") = some (decimalChars 2 r.some.avg10) :=
    avg10Of_line (by decide) (bounds_of_all (by decide)) (by decide) r.some
  have hfull : avg10Of (r.full.line "full") = some (decimalChars 2 r.full.avg10) :=
    avg10Of_line (by decide) (bounds_of_all (by decide)) (by decide) r.full
  have hsomePrefix : Text.startsWith (r.some.line "some") "some".toList = true :=
    decide_eq_true (List.prefix_append ..)
  have hsomeOther : Text.startsWith (r.some.line "some") "full".toList = false := by
    simp [Text.startsWith, Stall.line, List.cons_prefix_cons]
  have hfullPrefix : Text.startsWith (r.full.line "full") "full".toList = true :=
    decide_eq_true (List.prefix_append ..)
  constructor
  · simp only [parsePsiAvg10, h, Option.bind_some, lines_text, List.filter_cons, hsomePrefix, if_true,
      List.findSome?_cons, hsome]
    exact parseF32_decimal (by omega)
  · simp only [parsePsiAvg10, h, Option.bind_some, lines_text, List.filter_cons, hsomeOther, hfullPrefix,
      if_true, Bool.false_eq_true, if_false, List.findSome?_cons, hfull]
    exact parseF32_decimal (by omega)

/-! ### The reading of a running kernel -/

section
variable (jsonText : F32 → String) (k : Kernel) {var : Option String}

/-- A percentage as the daemon holds it. -/
def percent (n : ℕ) : F32 := .finite false (hundredths n)

theorem readCurrent_kernel (hvar : var.bind simulatedLevel = none) :
    readCurrent jsonText (k.env var) =
      metrics jsonText (percent k.memory.some.avg10) (percent k.memory.full.avg10)
        (percent k.cpu.some.avg10) (percent k.io.some.avg10)
        (levelOf (percent k.memory.some.avg10) (percent k.memory.full.avg10)
          (percent k.cpu.some.avg10) (percent k.io.some.avg10)) := by
  have hsimulated : (k.env var).simulated.or ((k.env var).simulatePsi.bind simulatedLevel) = none := hvar
  have hmemory : (k.env var).read "/proc/pressure/memory" = some k.memory.text := rfl
  have hcpu : (k.env var).read "/proc/pressure/cpu" = some k.cpu.text := rfl
  have hio : (k.env var).read "/proc/pressure/io" = some k.io.text := rfl
  obtain ⟨hmemorySome, hmemoryFull⟩ := parsePsiAvg10_text hmemory
  rw [readCurrent, hsimulated]
  simp only [hmemorySome, hmemoryFull, (parsePsiAvg10_text hcpu).1, (parsePsiAvg10_text hio).1,
    Option.getD_some, percent]

theorem levelOf_percent {memSome memFull cpuSome ioSome : ℕ} (hmemSome : memSome ≤ 10000)
    (hmemFull : memFull ≤ 10000) (hcpuSome : cpuSome ≤ 10000) (hioSome : ioSome ≤ 10000) :
    levelOf (percent memSome) (percent memFull) (percent cpuSome) (percent ioSome) =
      if 1000 < memFull ∨ 4000 < memSome ∨ 5000 < ioSome then .critical
      else if 1500 < memSome ∨ 2000 < ioSome ∨ 6000 < cpuSome then .elevated
      else .normal := by
  have habove : ∀ {n t : ℕ}, n ≤ 10000 → t ≤ 127 → above (percent n) t = decide (100 * t < n) :=
    fun hn ht => above_hundredths (by omega) ht
  simp only [levelOf, habove hmemSome (show 40 ≤ 127 by decide), habove hmemSome (show 15 ≤ 127 by decide),
    habove hmemFull (show 10 ≤ 127 by decide), habove hcpuSome (show 60 ≤ 127 by decide),
    habove hioSome (show 50 ≤ 127 by decide), habove hioSome (show 20 ≤ 127 by decide), Nat.reduceMul,
    Bool.or_eq_true, decide_eq_true_eq, or_assoc]

theorem level_kernel (hvar : var.bind simulatedLevel = none) :
    (readCurrent jsonText (k.env var)).level =
      if 1000 < k.memory.full.avg10 ∨ 4000 < k.memory.some.avg10 ∨ 5000 < k.io.some.avg10 then .critical
      else if 1500 < k.memory.some.avg10 ∨ 2000 < k.io.some.avg10 ∨ 6000 < k.cpu.some.avg10 then .elevated
      else .normal := by
  rw [readCurrent_kernel jsonText k hvar]
  exact levelOf_percent k.memory.some.percent k.memory.full.percent k.cpu.some.percent k.io.some.percent

theorem busSaturationMessage_kernel (hvar : var.bind simulatedLevel = none) :
    Arbiter.busSaturationMessage (readCurrent jsonText (k.env var)) =
      "Memory bus saturated (PSI mem_some: " ++ decimalText 2 k.memory.some.avg10 ++ "%, mem_full: " ++
        decimalText 2 k.memory.full.avg10 ++ "%). Throttling." := by
  have hprinted : ∀ n, n ≤ 10000 → fixed2 (percent n) = decimalText 2 n :=
    fun n hn => fixed2_hundredths (by omega)
  have hsome : (readCurrent jsonText (k.env var)).memorySomeAvg10.fixed2 =
      decimalText 2 k.memory.some.avg10 := by
    rw [readCurrent_kernel jsonText k hvar]
    exact hprinted _ k.memory.some.percent
  have hfull : (readCurrent jsonText (k.env var)).memoryFullAvg10.fixed2 =
      decimalText 2 k.memory.full.avg10 := by
    rw [readCurrent_kernel jsonText k hvar]
    exact hprinted _ k.memory.full.percent
  unfold Arbiter.busSaturationMessage
  rw [hsome, hfull]

end

/-- Only the pressure gate of `acquire_lease` answers with this error. -/
theorem acquireLease_busSaturation (s : ArbiterState) (env : CallEnv) (req : LeaseRequest) (message : String) :
    (Arbiter.acquireLease s env req).result = .error (.busSaturation message) ↔
      (env.psi.level = .critical ∧ req.priority ≠ .emergencyTriage) ∧
        message = Arbiter.busSaturationMessage env.psi := by
  have hplane : Arbiter.targetPlaneIdx s.topology req ≠ .error (.busSaturation message) := by
    unfold Arbiter.targetPlaneIdx
    intro h
    repeat' split at h
    all_goals cases h
  unfold Arbiter.acquireLease
  split
  · rename_i hgate
    simp only [hgate, Except.error.injEq, Error.busSaturation.injEq, ne_eq, not_false_eq_true, and_self,
      true_and]
    exact eq_comm
  · rename_i hgate
    simp only [hgate, false_and, iff_false]
    cases htarget : Arbiter.targetPlaneIdx s.topology req with
    | error e =>
      rw [htarget] at hplane
      intro h
      cases h
      exact hplane rfl
    | ok idx =>
      simp only
      split
      · intro h
        cases h
      · intro h
        cases h

/-- A request is turned down for the pressure exactly when the averages that
the kernel prints are above the bounds, in hundredths of a percent, and the
message repeats the two of the memory digit by digit. -/
theorem throttled_iff_pressure (jsonText : F32 → String) (k : Kernel) {var : Option String}
    (hvar : var.bind simulatedLevel = none) (s : ArbiterState) (env : CallEnv) (req : LeaseRequest)
    (message : String) :
    (Arbiter.acquireLease s { env with psi := readCurrent jsonText (k.env var) } req).result =
        .error (.busSaturation message) ↔
      (1000 < k.memory.full.avg10 ∨ 4000 < k.memory.some.avg10 ∨ 5000 < k.io.some.avg10) ∧
        req.priority ≠ .emergencyTriage ∧
        message = "Memory bus saturated (PSI mem_some: " ++ decimalText 2 k.memory.some.avg10 ++
          "%, mem_full: " ++ decimalText 2 k.memory.full.avg10 ++ "%). Throttling." := by
  have hcritical : (readCurrent jsonText (k.env var)).level = .critical ↔
      1000 < k.memory.full.avg10 ∨ 4000 < k.memory.some.avg10 ∨ 5000 < k.io.some.avg10 := by
    rw [level_kernel jsonText k hvar]
    split
    · rename_i h
      simp only [h]
    · rename_i h
      simp only [h, iff_false]
      split
      · intro heq
        cases heq
      · intro heq
        cases heq
  rw [acquireLease_busSaturation, hcritical, busSaturationMessage_kernel jsonText k hvar, and_assoc]

def idleStall : Stall := ⟨0, 0, 0, 0, by decide⟩

/-- All tasks stalled for 10.01 percent of the time. -/
def stalledKernel : Kernel :=
  { memory := ⟨⟨3050, 0, 0, 0, by decide⟩, ⟨1001, 0, 0, 0, by decide⟩⟩
    cpu := ⟨idleStall, idleStall⟩
    io := ⟨idleStall, idleStall⟩ }

theorem throttled_iff_pressure_stalledKernel :
    (Arbiter.acquireLease (Arbiter.new (Arbiter.sampleTopology []))
        { Arbiter.sampleEnv 1 with psi := readCurrent fixed2 (stalledKernel.env (some "off")) }
        (Arbiter.sampleRequest .interactive 1 "cpu")).result =
      .error (.busSaturation
        "Memory bus saturated (PSI mem_some: 30.50%, mem_full: 10.01%). Throttling.") :=
  (throttled_iff_pressure fixed2 stalledKernel (by decide) _ _ _ _).mpr
    ⟨Or.inl (by decide), by decide, by decide⟩

end Inferenced.Psi
