import Inferenced.Session.Delivery

/-!
# Every request can be answered

A client that waits is not stuck: what it waits for is on its way or still to be
served, and the kernel, the task and the client itself can bring it to an end.
The one exception is a method that no handler knows and that is not reported.
-/

namespace Inferenced.Session
open Lib Lib.Runs Lib.Framing Varlink Client Arbiter

variable {toVec : Json → List UInt8} {fromSlice : List UInt8 → Option Json}
  {requestFromSlice : List UInt8 → Option VarlinkRequest} {replyToVec : VarlinkReply → List UInt8}
  {parseUuid : String → Option LeaseId} {s : State} {i : ℕ} {l : Link} {c : Conn}

/-- The answer is complete in the frames that the client has still to read. -/
def Due (l : Link) (pending : List VarlinkReply) : Prop :=
  match l.waiting with
  | .idle => False
  | .call => pending ≠ []
  | .stream messages => streamAnswer messages pending ≠ none

theorem streamAnswer_ne_none {frames : List VarlinkReply} (hne : frames ≠ []) (hterm : Terminated frames)
    (messages : List Json) : streamAnswer messages frames ≠ none := by
  induction frames generalizing messages with
  | nil => exact absurd rfl hne
  | cons r rest ih =>
    rw [streamAnswer]
    cases r.error with
    | some e => exact Option.some_ne_none _
    | none =>
      dsimp only
      split
      · rename_i hcont
        cases rest with
        | nil => exact absurd hcont hterm
        | cons next rest => exact ih (List.cons_ne_nil _ _) hterm.tail _
      · exact Option.some_ne_none _

/-- All bytes that are under way arrive at once. -/
theorem rest_deliver_all (r : BufReader UInt8) (bytes : List UInt8) (k : ℕ) :
    (receive r ((bytes.drop k).take bytes.length)).rest = r.rest ++ bytes.drop k := by
  rw [rest_receive, List.take_of_length_le]
  rw [List.length_drop]
  exact Nat.sub_le _ _

theorem drop_deliver_all (bytes : List UInt8) (k : ℕ) :
    bytes.drop (k + ((bytes.drop k).take bytes.length).length) = [] := by
  rw [List.drop_eq_nil_iff, List.length_take, List.length_drop]
  omega

/-! ### The client reads what is there -/

/-- The client can read its answer off the frames `pending`, and these are on
their way. -/
structure Owed (fromSlice : List UInt8 → Option Json) (replyToVec : VarlinkReply → List UInt8) (l : Link)
    (c : Conn) (pending : List VarlinkReply) : Prop where
  opened : l.closed = false
  carried : ∀ r ∈ pending, CarriesReply fromSlice replyToVec r
  due : Due l pending
  bytes : l.client.reader.rest ++ (replyBytes replyToVec c.sent).drop l.delivered =
    replyBytes replyToVec pending

theorem Due.ne_nil {pending : List VarlinkReply} (h : Due l pending) : pending ≠ [] := by
  rintro rfl
  rw [Due] at h
  cases hw : l.waiting with
  | idle => simp only [hw] at h
  | call =>
    simp only [hw] at h
    exact h rfl
  | stream messages =>
    simp only [hw] at h
    exact h rfl

/-- All that is under way arrives, and the client reads one frame. -/
def Link.round (fromSlice : List UInt8 → Option Json) (replyToVec : VarlinkReply → List UInt8) (c : Conn)
    (l : Link) : Link :=
  (l.deliverReply replyToVec c.sent (replyBytes replyToVec c.sent).length).read fromSlice

theorem Owed.round {pending : List VarlinkReply} (h : Owed fromSlice replyToVec l c pending) :
    (l.round fromSlice replyToVec c).asked = l.asked ∧
    ((l.round fromSlice replyToVec c).answers.length = l.answers.length + 1 ∨
      ∃ rest, rest.length < pending.length ∧
        (l.round fromSlice replyToVec c).answers.length = l.answers.length ∧
        Owed fromSlice replyToVec (l.round fromSlice replyToVec c) c rest) := by
  obtain ⟨hopen, hcarried, hdue, hbytes⟩ := h
  obtain ⟨r, rest, rfl⟩ := List.exists_cons_of_ne_nil hdue.ne_nil
  obtain ⟨hr, hrest⟩ := List.forall_mem_cons.mp hcarried
  -- the whole of `pending` is in the reader of the client
  generalize hl' : l.deliverReply replyToVec c.sent (replyBytes replyToVec c.sent).length = l'
  have harrived : l'.client.reader.rest = replyToVec r ++ 0 :: replyBytes replyToVec rest := by
    rw [← hl', Link.deliverReply, rest_deliver_all, hbytes]
    simp [replyBytes]
  have hlater : (replyBytes replyToVec c.sent).drop l'.delivered = [] := by
    rw [← hl']
    exact drop_deliver_all _ _
  have hready : Ready maxReply l'.client.reader :=
    Or.inl (by rw [harrived]; exact mem_take_frame hr.fits _)
  have hclosed : l'.closed = false := by rw [← hl']; exact hopen
  have hasked : l'.asked = l.asked := by rw [← hl']; rfl
  have hanswers : l'.answers.length = l.answers.length := by rw [← hl']; rfl
  have hwaiting : l'.waiting = l.waiting := by rw [← hl']; rfl
  obtain ⟨client, hread, hafter, -⟩ := readFrame_delim hr.noNul hr.fits harrived
  rw [Link.round, hl', Link.read, if_pos ⟨hclosed, hready⟩]
  rw [Due] at hdue
  cases hw : l.waiting with
  | idle => simp only [hw] at hdue
  | call =>
    rw [hwaiting, hw, hread]
    refine ⟨hasked, Or.inl ?_⟩
    simp only [Link.answer, List.length_append, hanswers, List.length_singleton]
  | stream messages =>
    rw [hwaiting, hw]
    simp only [hw] at hdue
    dsimp only
    rw [streamTurn_frame hr hread]
    rw [streamAnswer] at hdue
    have hdone : ∀ a, (l'.answer client a).answers.length = l.answers.length + 1 := by
      intro a
      simp only [Link.answer, List.length_append, hanswers, List.length_singleton]
    cases herror : r.error with
    | some e => exact ⟨hasked, Or.inl (hdone _)⟩
    | none =>
      dsimp only
      by_cases hcont : r.continues = some true
      · rw [herror, if_pos hcont] at hdue
        rw [if_pos hcont]
        refine ⟨hasked, Or.inr ⟨rest, Nat.lt_succ_self _, hanswers, hclosed, hrest, hdue, ?_⟩⟩
        dsimp only
        rw [hafter, hlater, List.append_nil]
      · rw [if_neg hcont]
        exact ⟨hasked, Or.inl (hdone _)⟩

/-! ### Runs -/

/-- The kernel hands on bytes of link `i`, its task serves in `env`, or its client
reads. -/
def Op.Brings (i : ℕ) (env : HandlerEnv) : Op → Prop
  | .deliverRequest j _ | .deliverReply j _ | .read j => j = i
  | .serve j env' _ => j = i ∧ env' = env
  | _ => False

def Op.isServe : Op → Bool
  | .serve .. => true
  | _ => false

/-- The steps of `Link.round`. -/
def readRound (replyToVec : VarlinkReply → List UInt8) (c : Conn) (i : ℕ) : List Op :=
  [.deliverReply i (replyBytes replyToVec c.sent).length, .read i]

theorem readRound_brings (replyToVec : VarlinkReply → List UInt8) (c : Conn) (i : ℕ) (env : HandlerEnv) :
    (∀ op ∈ readRound replyToVec c i, op.Brings i env) ∧
      (readRound replyToVec c i).countP Op.isServe = 0 := by
  refine ⟨fun op hop => ?_, rfl⟩
  rcases List.mem_pair.mp hop with rfl | rfl <;> exact rfl

theorem exec_readRound (toVec : Json → List UInt8) (fromSlice : List UInt8 → Option Json)
    (requestFromSlice : List UInt8 → Option VarlinkRequest) (replyToVec : VarlinkReply → List UInt8)
    (parseUuid : String → Option LeaseId) (hl : s.links[i]? = some l) (hc : s.daemon.conns[i]? = some c) :
    (exec (step toVec fromSlice requestFromSlice replyToVec parseUuid) s (readRound replyToVec c i)).daemon =
      s.daemon ∧
    (exec (step toVec fromSlice requestFromSlice replyToVec parseUuid) s
      (readRound replyToVec c i)).links[i]? = some (l.round fromSlice replyToVec c) := by
  simp only [exec, readRound, List.foldl_cons, List.foldl_nil, step, hc]
  refine ⟨trivial, ?_⟩
  simp only [List.getElem?_modify, hl, if_true]
  rfl

/-- The client can read on until it has its answer. -/
theorem Owed.completes {pending : List VarlinkReply} (h : Owed fromSlice replyToVec l c pending)
    (hl : s.links[i]? = some l) (hc : s.daemon.conns[i]? = some c) (env : HandlerEnv) :
    ∃ more, ((∀ op ∈ more, op.Brings i env) ∧ more.countP Op.isServe = 0) ∧
      Along (step toVec fromSlice requestFromSlice replyToVec parseUuid)
        (Carried toVec fromSlice requestFromSlice replyToVec parseUuid) s more ∧
      ∃ l', (exec (step toVec fromSlice requestFromSlice replyToVec parseUuid) s more).links[i]? = some l' ∧
        l'.asked = l.asked ∧ l'.answers.length = l.answers.length + 1 := by
  -- on the number of frames that are still to be read
  induction hn : pending.length using Nat.strong_induction_on generalizing s l pending with
  | _ n ih =>
    obtain ⟨hdaemon, hround⟩ := exec_readRound toVec fromSlice requestFromSlice replyToVec parseUuid hl hc
    have hcarried : Along (step toVec fromSlice requestFromSlice replyToVec parseUuid)
        (Carried toVec fromSlice requestFromSlice replyToVec parseUuid) s (readRound replyToVec c i) :=
      ⟨trivial, trivial, trivial⟩
    have hbrings := readRound_brings replyToVec c i env
    obtain ⟨hasked, hone | ⟨rest, hlt, hsame, howed⟩⟩ := h.round
    · exact ⟨readRound replyToVec c i, hbrings, hcarried, _, hround, hasked, hone⟩
    · obtain ⟨more, hown, hmore, l', hl', hasked', hanswers'⟩ :=
        ih rest.length (hn ▸ hlt) howed hround (hdaemon.symm ▸ hc) rfl
      refine ⟨readRound replyToVec c i ++ more, ⟨List.forall_mem_append.mpr ⟨hbrings.1, hown.1⟩, ?_⟩,
        (along_append ..).mpr ⟨hcarried, hmore⟩, l', ?_, hasked'.trans hasked, ?_⟩
      · rw [List.countP_append, hbrings.2, hown.2]
      · rw [exec_append]
        exact hl'
      · rw [hanswers', hsame]

/-! ### The task serves what is there -/

/-- A client that waits has one request that is not answered, the last one. -/
theorem LinkOk.waits (h : LinkOk toVec fromSlice requestFromSlice replyToVec l c) (hopen : l.closed = false)
    (hwaits : l.answers.length < l.asked.length) :
    l.asked.length = l.answers.length + 1 ∧
      (l.served.length = l.answers.length ∨ l.served.length = l.asked.length) := by
  obtain ⟨-, pending, -, hexpect, -⟩ := h.opened hopen
  rw [Expecting] at hexpect
  cases hw : l.waiting with
  | idle =>
    simp only [hw] at hexpect
    omega
  | call =>
    simp only [hw] at hexpect
    obtain ⟨a, -, -, hcount, ⟨hlate, -⟩ | ⟨hserved, -⟩⟩ := hexpect
    · exact ⟨hcount, Or.inl hlate⟩
    · exact ⟨hcount, Or.inr hserved⟩
  | stream messages =>
    simp only [hw] at hexpect
    obtain ⟨a, -, -, hcount, ⟨hlate, -⟩ | ⟨hserved, -⟩⟩ := hexpect
    · exact ⟨hcount, Or.inl hlate⟩
    · exact ⟨hcount, Or.inr hserved⟩

theorem LinkOk.owed (h : LinkOk toVec fromSlice requestFromSlice replyToVec l c) (hopen : l.closed = false)
    {a : Asked} (ha : l.asked[l.answers.length]? = some a) (hreported : ¬ Unreported a.method)
    (hserved : l.served.length = l.asked.length) :
    ∃ pending, Owed fromSlice replyToVec l c pending := by
  have hwaits : l.answers.length < l.asked.length := (List.getElem?_eq_some_iff.mp ha).1
  obtain ⟨-, pending, hcarried, hexpect, hbytes⟩ := h.opened hopen
  refine ⟨pending, hopen, hcarried, ?_, hbytes⟩
  rw [Expecting] at hexpect
  rw [Due]
  have hframes : ∀ {q : Asked} {frames}, l.asked[l.answers.length]? = some q →
      l.served[l.answers.length]? = some (q.request, frames) → frames ≠ [] := by
    intro q frames hq hframes hnil
    obtain rfl : a = q := Option.some.inj (ha.symm.trans hq)
    exact hreported ((h.proper _ (List.mem_of_getElem? hframes)).unanswered.mp hnil)
  cases hw : l.waiting with
  | idle =>
    simp only [hw] at hexpect
    omega
  | call =>
    simp only [hw] at hexpect ⊢
    obtain ⟨q, hq, -, -, ⟨hlate, -⟩ | ⟨-, hlast⟩⟩ := hexpect
    · omega
    · exact hframes hq hlast
  | stream messages =>
    simp only [hw] at hexpect ⊢
    obtain ⟨q, hq, -, -, ⟨hlate, -⟩ | ⟨-, -, frames, hlast, hanswer⟩⟩ := hexpect
    · omega
    · rw [hanswer]
      have hproper := h.proper _ (List.mem_of_getElem? hlast)
      exact streamAnswer_ne_none (hframes hq hlast) hproper.terminated []

/-- All that is under way to the task arrives, and the task serves the request. -/
def serveRound (l : Link) (i : ℕ) (env : HandlerEnv) : List Op :=
  [.deliverRequest i l.client.sent.length, .serve i env true]

theorem serveRound_brings (l : Link) (i : ℕ) (env : HandlerEnv) :
    (∀ op ∈ serveRound l i env, op.Brings i env) ∧ (serveRound l i env).countP Op.isServe = 1 := by
  refine ⟨fun op hop => ?_, rfl⟩
  rcases List.mem_pair.mp hop with rfl | rfl
  · exact rfl
  · exact ⟨rfl, rfl⟩

theorem exec_serveRound (parseUuid : String → Option LeaseId)
    (h : Ok toVec fromSlice requestFromSlice replyToVec s) (hl : s.links[i]? = some l)
    (hc : s.daemon.conns[i]? = some c) (hopen : l.closed = false) (hlate : l.served.length < l.asked.length) (env : HandlerEnv) :
    ∃ l' c', (exec (step toVec fromSlice requestFromSlice replyToVec parseUuid) s
        (serveRound l i env)).links[i]? = some l' ∧
      (exec (step toVec fromSlice requestFromSlice replyToVec parseUuid) s
        (serveRound l i env)).daemon.conns[i]? = some c' ∧
      l'.closed = false ∧ l'.asked = l.asked ∧ l'.answers = l.answers ∧
      l'.served.length = l.served.length + 1 := by
  have hok := h.links i l c hl hc
  have hphase := (hok.opened hopen).serving
  have hdelivered := hok.deliverRequest l.client.sent.length
  generalize hl₁ : l.deliverRequest l.client.sent.length = l₁ at hdelivered
  have hready : Ready maxFrame l₁.reader := by
    obtain ⟨a, rest, hdrop⟩ := List.exists_cons_of_ne_nil
      (mt List.drop_eq_nil_iff.mp (Nat.not_le_of_lt hlate))
    have ha := hok.carried a (List.mem_of_mem_drop (hdrop ▸ List.mem_cons_self ..))
    refine Or.inl ?_
    rw [← hl₁, Link.deliverRequest, rest_deliver_all, hok.requests, hdrop]
    simp only [requestBytes, List.flatMap_cons, List.append_assoc, List.singleton_append]
    exact mem_take_frame ha.fits _
  obtain ⟨a, -, hparse, -⟩ := hdelivered.next hready
  have hl₁' : (s.links.modify i (Link.deliverRequest l.client.sent.length))[i]? = some l₁ := by
    simp only [List.getElem?_modify, hl, if_true, ← hl₁]
    rfl
  simp only [exec, serveRound, List.foldl_cons, List.foldl_nil, step, hl₁', hc, hphase, hready, true_and,
    if_true, State.serve, hparse, Option.map_some, Option.toList_some, Varlink.step, Daemon.handle]
  refine ⟨_, _, (getElem?_set_of_getElem? hl₁' hl₁').trans (congrArg some (if_pos rfl)),
    (getElem?_set_of_getElem? hc hc).trans (congrArg some (if_pos rfl)), ?_, ?_, ?_, ?_⟩
  · rw [← hl₁]
    exact hopen
  · rw [← hl₁]
    rfl
  · rw [← hl₁]
    rfl
  · rw [← hl₁]
    exact List.length_append

/-- A request that no frame is written for has no answer. -/
theorem LinkOk.reported (h : LinkOk toVec fromSlice requestFromSlice replyToVec l c) {j : ℕ} {a : Asked}
    (ha : l.asked[j]? = some a) (hj : j < l.answers.length) : ¬ Unreported a.method := by
  intro hu
  obtain ⟨q, frames, hq, hserved, hanswer⟩ := h.answers j _ (List.getElem?_eq_getElem hj)
  obtain rfl : a = q := Option.some.inj (ha.symm.trans hq)
  obtain rfl : frames = [] := (h.proper _ (List.mem_of_getElem? hserved)).unanswered.mpr hu
  cases hkind : a.kind with
  | call =>
    rw [hkind] at hanswer
    cases hanswer
  | stream =>
    rw [hkind] at hanswer
    cases hanswer

theorem answerable_of_ok (h : Ok toVec fromSlice requestFromSlice replyToVec s) (hl : s.links[i]? = some l)
    (hopen : l.closed = false) {a : Asked} (ha : l.asked[l.answers.length]? = some a)
    (hreported : ¬ Unreported a.method) {env : HandlerEnv}
    (hserve : Carried toVec fromSlice requestFromSlice replyToVec parseUuid s (.serve i env true)) :
    ∃ more, ((∀ op ∈ more, op.Brings i env) ∧ more.countP Op.isServe ≤ 1) ∧
      Along (step toVec fromSlice requestFromSlice replyToVec parseUuid)
        (Carried toVec fromSlice requestFromSlice replyToVec parseUuid) s more ∧
      ∃ l', (exec (step toVec fromSlice requestFromSlice replyToVec parseUuid) s more).links[i]? = some l' ∧
        l'.asked = l.asked ∧ l'.answers.length = l.answers.length + 1 := by
  obtain ⟨c, hc⟩ := h.conn hl
  have hlink := h.links i l c hl hc
  obtain ⟨hcount, hlate | hserved⟩ := hlink.waits hopen (List.getElem?_eq_some_iff.mp ha).1
  · have hround : Along (step toVec fromSlice requestFromSlice replyToVec parseUuid)
        (Carried toVec fromSlice requestFromSlice replyToVec parseUuid) s (serveRound l i env) := by
      refine ⟨trivial, fun l' c' a' hl' hc' ha' => ?_, trivial⟩
      simp only [step, List.getElem?_modify, hl, if_true] at hl'
      cases hl'
      exact hserve l c' a' hl hc' ha'
    obtain ⟨l', c', hl', hc', hopen', hasked, hanswers, hcount'⟩ :=
      exec_serveRound parseUuid h hl hc hopen (by omega) env
    have hok' : Ok toVec fromSlice requestFromSlice replyToVec _ :=
      exec_inv_along _ (fun _ op hop h => h.step op hop) _ (serveRound l i env) h hround
    obtain ⟨pending, howed⟩ := (hok'.links i l' c' hl' hc').owed hopen' (by rw [hasked, hanswers]; exact ha)
      hreported (by rw [hasked]; omega)
    obtain ⟨more, hown, hmore, l'', hl'', hasked', hanswers'⟩ := howed.completes hl' hc' env
    have hbrings := serveRound_brings l i env
    refine ⟨serveRound l i env ++ more, ⟨List.forall_mem_append.mpr ⟨hbrings.1, hown.1⟩, ?_⟩,
      (along_append ..).mpr ⟨hround, hmore⟩, l'', ?_, hasked'.trans hasked, ?_⟩
    · rw [List.countP_append, hbrings.2, hown.2]
    · rw [exec_append]
      exact hl''
    · rw [hanswers', hanswers]
  · obtain ⟨pending, howed⟩ := hlink.owed hopen ha hreported hserved
    obtain ⟨more, hown, hrest⟩ := howed.completes hl hc env
    exact ⟨more, ⟨hown.1, hown.2.trans_le (Nat.zero_le 1)⟩, hrest⟩

/-- Behind the run `ops` the run goes on with `more`, and the client then has one
answer more than `l` has. -/
def AnsweredBy (toVec : Json → List UInt8) (fromSlice : List UInt8 → Option Json)
    (requestFromSlice : List UInt8 → Option VarlinkRequest) (replyToVec : VarlinkReply → List UInt8)
    (parseUuid : String → Option LeaseId) (T : HardwareTopology) (ops : List Op) (i : ℕ) (l : Link)
    (more : List Op) : Prop :=
  Along (step toVec fromSlice requestFromSlice replyToVec parseUuid)
      (Carried toVec fromSlice requestFromSlice replyToVec parseUuid) (start T) (ops ++ more) ∧
    ∃ l', (exec (step toVec fromSlice requestFromSlice replyToVec parseUuid) (start T)
        (ops ++ more)).links[i]? = some l' ∧
      l'.asked = l.asked ∧ l'.answers.length = l.answers.length + 1

/-- No client waits for ever by itself: from every state that the clients, their
connections and the other users of the arbiter come to, if every message has no
NUL, is below its limit of 1 MiB and is read back as it was written (also what the
task would write now), and no client asks for more behind a `call` of the stream,
then a client with its end open is answered after some deliveries on its link, at
most one step of its task and some of its own reads, just when its request is not
for a method that no handler knows and no error is written for. Such a request is
never answered, however the run goes on. -/
theorem waiting_client_answerable_iff (toVec : Json → List UInt8) (fromSlice : List UInt8 → Option Json)
    (requestFromSlice : List UInt8 → Option VarlinkRequest) (replyToVec : VarlinkReply → List UInt8)
    (parseUuid : String → Option LeaseId) (T : HardwareTopology) (ops : List Op)
    (hcarried : Along (step toVec fromSlice requestFromSlice replyToVec parseUuid)
      (Carried toVec fromSlice requestFromSlice replyToVec parseUuid) (start T) ops)
    (i : ℕ) (l : Link)
    (hl : (exec (step toVec fromSlice requestFromSlice replyToVec parseUuid) (start T) ops).links[i]? =
      some l)
    (hopen : l.closed = false) (a : Asked) (ha : l.asked[l.answers.length]? = some a) (env : HandlerEnv)
    (hserve : Carried toVec fromSlice requestFromSlice replyToVec parseUuid
      (exec (step toVec fromSlice requestFromSlice replyToVec parseUuid) (start T) ops)
      (.serve i env true)) :
    ((∃ more, ((∀ op ∈ more, op.Brings i env) ∧ more.countP Op.isServe ≤ 1) ∧
        AnsweredBy toVec fromSlice requestFromSlice replyToVec parseUuid T ops i l more) ↔
      ¬ Unreported a.method) ∧
    ((∃ more, AnsweredBy toVec fromSlice requestFromSlice replyToVec parseUuid T ops i l more) →
      ¬ Unreported a.method) := by
  have hok : ∀ ops, Along (step toVec fromSlice requestFromSlice replyToVec parseUuid)
      (Carried toVec fromSlice requestFromSlice replyToVec parseUuid) (start T) ops →
      Ok toVec fromSlice requestFromSlice replyToVec
        (exec (step toVec fromSlice requestFromSlice replyToVec parseUuid) (start T) ops) := fun ops =>
    exec_inv_along _ (fun _ op hop h => h.step op hop) _ ops (ok_start T)
  have hnever : (∃ more, AnsweredBy toVec fromSlice requestFromSlice replyToVec parseUuid T ops i l more) →
      ¬ Unreported a.method := by
    rintro ⟨more, hmore, l', hl', hasked, hanswers⟩
    obtain ⟨c', hc'⟩ := (hok _ hmore).conn hl'
    exact ((hok _ hmore).links i l' c' hl' hc').reported (hasked ▸ ha) (by omega)
  refine ⟨⟨fun ⟨more, _, hanswered⟩ => hnever ⟨more, hanswered⟩, fun hreported => ?_⟩, hnever⟩
  obtain ⟨more, hown, hmore, l', hl', hrest⟩ :=
    answerable_of_ok (hok ops hcarried) hl hopen ha hreported hserve
  refine ⟨more, hown, (along_append ..).mpr ⟨hcarried, hmore⟩, l', ?_, hrest⟩
  rw [exec_append]
  exact hl'

/-- The request has been written and no byte of it has arrived. -/
def askedRun : List Op := [.connect none, .ask 0 yieldAsked]

theorem carried_askedRun :
    Along (step yieldToVec refusalFromSlice yieldFromSlice refusalToVec fun _ => none)
      (Carried yieldToVec refusalFromSlice yieldFromSlice refusalToVec fun _ => none)
      (start gpuTopology) askedRun :=
  ((along_append (start gpuTopology) askedRun (refusedRun.drop 2)).mp carried_refusedRun).1

theorem waiting_client_answerable_iff_askedRun :
    ¬ Unreported yieldAsked.method ∧
      ∃ l, (exec (step yieldToVec refusalFromSlice yieldFromSlice refusalToVec fun _ => none)
          (start gpuTopology) askedRun).links[0]? = some l ∧ l.asked = [yieldAsked] ∧ l.answers.length = 0 ∧
        ∃ more, ((∀ op ∈ more, op.Brings 0 sampleHandlerEnv) ∧ more.countP Op.isServe ≤ 1) ∧
          AnsweredBy yieldToVec refusalFromSlice yieldFromSlice refusalToVec (fun _ => none) gpuTopology
            askedRun 0 l more := by
  have hreported : ¬ Unreported yieldAsked.method := by decide
  refine ⟨hreported, _, rfl, rfl, rfl, ?_⟩
  refine (waiting_client_answerable_iff yieldToVec refusalFromSlice yieldFromSlice refusalToVec
    (fun _ => none) gpuTopology askedRun carried_askedRun 0 _ rfl rfl yieldAsked rfl sampleHandlerEnv
    ?_).1.mpr hreported
  intro l c a hl hc ha r hr
  cases hl
  cases hc
  cases ha
  have hframes : r ∈ [invalidParameter "lease_id"] := hr
  rw [List.mem_singleton.mp hframes]
  exact ⟨by decide, by decide, rfl⟩

end Inferenced.Session
