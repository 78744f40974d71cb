import Inferenced.Lib.Runs
import Inferenced.Varlink.Listener

/-!
# One step of the daemon

Seen from the arbiter a step performs one lease operation or none
(`step_books`); seen from a connection it is one of the changes of
`ConnChange`.
-/

namespace Inferenced.Varlink
open Lib Lib.Runs Arbiter

variable {parseUuid : String → Option LeaseId} {d : Daemon} {op : DaemonOp} {id : LeaseId}

/-- What a step is, and the lease operation that it performs. -/
inductive StepCase (parseUuid : String → Option LeaseId) (d : Daemon) (op : DaemonOp) : Prop where
  | idle (h : step parseUuid d op = d) (ho : d.leaseOp parseUuid op = none)
  | accepted (peer : Option PeerInfo) (hop : op = .accept peer)
      (h : step parseUuid d op =
        { d with conns := d.conns ++ [{ peer, activeLeases := [], phase := .serving, sent := [], granted := [] }] })
      (ho : d.leaseOp parseUuid op = none)
  | ended (conn : ℕ) (c : Conn) (hc : d.conns[conn]? = some c)
      (hop : (∃ env written, op = .frame conn none env written) ∨ op = .hangup conn)
      (h : step parseUuid d op = { d with conns := d.conns.set conn { c with phase := .reclaiming } })
      (ho : d.leaseOp parseUuid op = none)
  | handled (conn : ℕ) (c : Conn) (req : VarlinkRequest) (env : HandlerEnv) (written : Bool)
      (hc : d.conns[conn]? = some c) (hop : op = .frame conn (some req) env written)
      (h : step parseUuid d op = d.handle parseUuid conn c req env written)
      (ho : d.leaseOp parseUuid op = req.leaseOp parseUuid c.peer env)
  | reclaimed (conn : ℕ) (c : Conn) (id : LeaseId) (rest : List LeaseId)
      (hc : d.conns[conn]? = some c) (hphase : c.phase = .reclaiming)
      (hlist : c.activeLeases = id :: rest)
      (h : step parseUuid d op =
        { d with
          arbiter := (releaseLease d.arbiter id).state
          conns := d.conns.set conn { c with activeLeases := rest } })
      (ho : d.leaseOp parseUuid op = some (.release id))
  | finished (conn : ℕ) (c : Conn) (hc : d.conns[conn]? = some c) (hphase : c.phase = .reclaiming)
      (hlist : c.activeLeases = [])
      (h : step parseUuid d op = { d with conns := d.conns.set conn { c with phase := .finished } })
      (ho : d.leaseOp parseUuid op = none)

theorem step_case (parseUuid : String → Option LeaseId) (d : Daemon) (op : DaemonOp) :
    StepCase parseUuid d op := by
  cases op with
  | accept peer => exact .accepted peer rfl rfl rfl
  | frame conn request env written =>
    cases hc : d.conns[conn]? with
    | none => exact .idle (by simp only [step, hc]) (by simp only [Daemon.leaseOp, hc])
    | some c =>
      by_cases hserving : c.phase = .serving
      · cases request with
        | none =>
          refine .ended conn c hc (Or.inl ⟨env, written, rfl⟩) ?_ ?_
          · simp only [step, hc, if_pos hserving]
          · simp only [Daemon.leaseOp, hc, if_pos hserving, Option.bind_none]
        | some req =>
          refine .handled conn c req env written hc rfl ?_ ?_
          · simp only [step, hc, if_pos hserving]
          · simp only [Daemon.leaseOp, hc, if_pos hserving, Option.bind_some]
      · refine .idle ?_ ?_
        · simp only [step, hc, if_neg hserving]
        · simp only [Daemon.leaseOp, hc, if_neg hserving]
  | hangup conn =>
    cases hc : d.conns[conn]? with
    | none => exact .idle (by simp only [step, hc]) rfl
    | some c =>
      by_cases hserving : c.phase = .serving
      · refine .ended conn c hc (Or.inr rfl) ?_ rfl
        simp only [step, hc, if_pos hserving]
      · refine .idle ?_ rfl
        simp only [step, hc, if_neg hserving]
  | reclaim conn =>
    cases hc : d.conns[conn]? with
    | none => exact .idle (by simp only [step, hc]) (by simp only [Daemon.leaseOp, hc])
    | some c =>
      by_cases hphase : c.phase = .reclaiming
      · cases hlist : c.activeLeases with
        | nil =>
          refine .finished conn c hc hphase hlist ?_ ?_
          · simp only [step, hc, if_pos hphase, Daemon.reclaimNext, hlist]
          · simp only [Daemon.leaseOp, hc, if_pos hphase, hlist, List.head?_nil, Option.map_none]
        | cons id rest =>
          refine .reclaimed conn c id rest hc hphase hlist ?_ ?_
          · simp only [step, hc, if_pos hphase, Daemon.reclaimNext, hlist]
          · simp only [Daemon.leaseOp, hc, if_pos hphase, hlist, List.head?_cons, Option.map_some]
      · refine .idle ?_ ?_
        · simp only [step, hc, if_neg hphase]
        · simp only [Daemon.leaseOp, hc, if_neg hphase]

theorem step_books (parseUuid : String → Option LeaseId) (d : Daemon) (op : DaemonOp) :
    SameBooks (step parseUuid d op).arbiter (stepOption d.arbiter (d.leaseOp parseUuid op)) ∧
      (step parseUuid d op).frozen =
        d.frozen ++ frozenUnits (opEffects d.arbiter (d.leaseOp parseUuid op)) := by
  have hidle : SameBooks d.arbiter (stepOption d.arbiter none) ∧
      d.frozen = d.frozen ++ frozenUnits (opEffects d.arbiter none) :=
    ⟨SameBooks.refl _, (List.append_nil _).symm⟩
  cases step_case parseUuid d op with
  | idle h ho => rw [h, ho]; exact hidle
  | accepted peer hop h ho => rw [h, ho]; exact hidle
  | ended conn c hc hop h ho => rw [h, ho]; exact hidle
  | finished conn c hc hphase hlist h ho => rw [h, ho]; exact hidle
  | reclaimed conn c id rest hc hphase hlist h ho =>
    rw [h, ho]
    exact ⟨SameBooks.refl _, (List.append_nil _).symm⟩
  | handled conn c req env written hc hop h ho =>
    have hperforms : Performs d.arbiter c.activeLeases
        (serve parseUuid req d.arbiter c.activeLeases c.peer env)
        (req.leaseOp parseUuid c.peer env) := serve_performs req _ _ _ _
    rw [h, ho]
    refine ⟨hperforms.books, ?_⟩
    show d.frozen ++ frozenUnits (serve parseUuid req d.arbiter c.activeLeases c.peer env).effects = _
    rw [hperforms.effects]

theorem newIds_leaseOp {lop : LeaseOp} (h : d.leaseOp parseUuid op = some lop) :
    ∀ n ∈ lop.newIds, n ∈ op.newIds := by
  have hmethod : ∀ (m : Method) (params : Option Json) (peer : Option PeerInfo) (env : HandlerEnv),
      m.leaseOp parseUuid params peer env = some lop → ∀ n ∈ lop.newIds, n = env.newId := by
    intro m params peer env h n hn
    cases m <;> simp only [Method.leaseOp, reduceCtorEq, Option.map_eq_some_iff] at h
    case acquireLease =>
      obtain ⟨p, -, rfl⟩ := h
      exact List.mem_singleton.mp hn
    all_goals
      obtain ⟨j, -, rfl⟩ := h
      cases hn
  cases step_case parseUuid d op with
  | idle _ ho => rw [h] at ho; cases ho
  | accepted peer hop _ ho => rw [h] at ho; cases ho
  | ended conn c hc hop _ ho => rw [h] at ho; cases ho
  | finished conn c hc hphase hlist _ ho => rw [h] at ho; cases ho
  | reclaimed conn c id rest hc hphase hlist _ ho =>
    rw [h] at ho
    cases ho
    intro n hn
    cases hn
  | handled conn c req env written hc hop _ ho =>
    rw [h] at ho
    subst hop
    unfold VarlinkRequest.leaseOp at ho
    split at ho
    · cases ho
    · obtain ⟨m, -, hm⟩ := Option.bind_eq_some_iff.mp ho.symm
      exact fun n hn => List.mem_singleton.mpr (hmethod m _ _ env hm n hn)

/-- What a step does to the connection `i`. -/
inductive ConnChange (parseUuid : String → Option LeaseId) (d : Daemon) (op : DaemonOp) (i : ℕ)
    (c' : Conn) : Prop where
  | kept (h : d.conns[i]? = some c')
  | opened (hop : op = .accept c'.peer) (hgranted : c'.granted = []) (hphase : c'.phase = .serving)
  | ended (c : Conn) (h : d.conns[i]? = some c) (hgranted : c'.granted = c.granted)
      (hlist : c'.activeLeases = c.activeLeases)
      (hphase : c'.phase = .finished → c'.activeLeases = [])
  | handled (c : Conn) (h : d.conns[i]? = some c)
      (hgranted : c'.granted = c.granted ++ grantedIds d.arbiter (d.leaseOp parseUuid op))
      (hlist : c'.activeLeases = listAfter d.arbiter c.activeLeases (d.leaseOp parseUuid op))
      (hphase : c'.phase ≠ .finished)
  | reclaimed (c : Conn) (id : LeaseId) (h : d.conns[i]? = some c)
      (hop : d.leaseOp parseUuid op = some (.release id)) (hgranted : c'.granted = c.granted)
      (hlist : c.activeLeases = id :: c'.activeLeases) (hphase : c'.phase ≠ .finished)

theorem step_conn {i : ℕ} {c' : Conn} (h : (step parseUuid d op).conns[i]? = some c') :
    ConnChange parseUuid d op i c' := by
  cases step_case parseUuid d op with
  | idle hstep ho =>
    rw [hstep] at h
    exact .kept h
  | accepted peer hop hstep ho =>
    rw [hstep] at h
    rcases lt_or_ge i d.conns.length with hi | hi
    · rw [List.getElem?_append_left hi] at h
      exact .kept h
    · rw [List.getElem?_append_right hi] at h
      obtain ⟨-, rfl⟩ : i - d.conns.length = 0 ∧ _ := by
        rw [List.getElem?_singleton] at h
        split at h
        · exact ⟨‹_›, Option.some.inj h⟩
        · cases h
      exact .opened hop rfl rfl
  | ended conn c hc hop hstep ho =>
    rw [hstep] at h
    rcases getElem?_set_cases h with ⟨rfl, rfl⟩ | h
    · exact .ended c hc rfl rfl fun hf => by cases hf
    · exact .kept h
  | handled conn c req env written hc hop hstep ho =>
    rw [hstep] at h
    rcases getElem?_set_cases h with ⟨rfl, rfl⟩ | h
    · refine .handled c hc (by rw [ho]) ?_ ?_
      · rw [ho]
        exact (serve_performs req d.arbiter c.activeLeases c.peer env).list
      · dsimp only
        split <;> decide
    · exact .kept h
  | reclaimed conn c id rest hc hphase hlist hstep ho =>
    rw [hstep] at h
    rcases getElem?_set_cases h with ⟨rfl, rfl⟩ | h
    · exact .reclaimed c id hc ho rfl hlist (by rw [hphase]; decide)
    · exact .kept h
  | finished conn c hc hphase hlist hstep ho =>
    rw [hstep] at h
    rcases getElem?_set_cases h with ⟨rfl, rfl⟩ | h
    · exact .ended c hc rfl rfl fun _ => hlist
    · exact .kept h

structure Conn.Later (c c' : Conn) : Prop where
  peer : c'.peer = c.peer
  granted : ∀ id ∈ c.granted, id ∈ c'.granted

theorem Conn.Later.refl (c : Conn) : c.Later c := ⟨rfl, fun _ h => h⟩

theorem step_grows (parseUuid : String → Option LeaseId) (op : DaemonOp) {i : ℕ} {c : Conn}
    (h : d.conns[i]? = some c) :
    ∃ c', (step parseUuid d op).conns[i]? = some c' ∧ c.Later c' := by
  -- an update of another or of this connection that keeps what was granted
  have hset : ∀ {j : ℕ} {b : Conn} (a : Conn), d.conns[j]? = some b →
      b.Later a → ∃ c', (d.conns.set j a)[i]? = some c' ∧ c.Later c' := by
    intro j b a hb hlater
    refine ⟨_, getElem?_set_of_getElem? hb h, ?_⟩
    split
    · rename_i hij
      subst hij
      rw [hb] at h
      cases h
      exact hlater
    · exact Conn.Later.refl c
  cases step_case parseUuid d op with
  | idle hstep ho =>
    rw [hstep]
    exact ⟨c, h, Conn.Later.refl c⟩
  | accepted peer hop hstep ho =>
    rw [hstep]
    refine ⟨c, ?_, Conn.Later.refl c⟩
    rw [List.getElem?_append_left (List.getElem?_eq_some_iff.mp h).1]
    exact h
  | ended conn b hc hop hstep ho =>
    rw [hstep]
    exact hset _ hc ⟨rfl, fun _ hid => hid⟩
  | handled conn b req env written hc hop hstep ho =>
    rw [hstep]
    exact hset _ hc ⟨rfl, fun _ hid => List.mem_append_left _ hid⟩
  | reclaimed conn b id rest hc hphase hlist hstep ho =>
    rw [hstep]
    exact hset _ hc ⟨rfl, fun _ hid => hid⟩
  | finished conn b hc hphase hlist hstep ho =>
    rw [hstep]
    exact hset _ hc ⟨rfl, fun _ hid => hid⟩

theorem step_peer {i : ℕ} {c' : Conn} (h : (step parseUuid d op).conns[i]? = some c') :
    (∃ c, d.conns[i]? = some c ∧ c'.peer = c.peer) ∨ op = .accept c'.peer := by
  have hold : ∀ c, d.conns[i]? = some c → ∃ c, d.conns[i]? = some c ∧ c'.peer = c.peer := by
    intro c hc
    obtain ⟨b, hb, hlater⟩ := step_grows parseUuid op hc
    rw [h] at hb
    cases hb
    exact ⟨c, hc, hlater.peer⟩
  cases step_conn h with
  | kept hc => exact Or.inl (hold _ hc)
  | opened hop _ _ => exact Or.inr hop
  | ended c hc _ _ _ => exact Or.inl (hold c hc)
  | handled c hc _ _ _ => exact Or.inl (hold c hc)
  | reclaimed c j hc _ _ _ _ => exact Or.inl (hold c hc)

/-- An acquisition is asked for on a connection, in the name of its peer, and
what is granted is put on record there. -/
theorem leaseOp_acquire {env : CallEnv} {req : LeaseRequest}
    (h : d.leaseOp parseUuid op = some (.acquire env req)) :
    ∃ (i : ℕ) (c : Conn) (params : Json), d.conns[i]? = some c ∧ req = acquireRequest params c.peer ∧
      ∃ c', (step parseUuid d op).conns[i]? = some c' ∧
        ∀ id ∈ grantedIds d.arbiter (d.leaseOp parseUuid op), id ∈ c'.granted := by
  cases step_case parseUuid d op with
  | idle _ ho => rw [h] at ho; cases ho
  | accepted peer hop _ ho => rw [h] at ho; cases ho
  | ended conn c hc hop _ ho => rw [h] at ho; cases ho
  | finished conn c hc hphase hlist _ ho => rw [h] at ho; cases ho
  | reclaimed conn c id rest hc hphase hlist _ ho => rw [h] at ho; cases ho
  | handled conn c r henv written hc hop hstep ho =>
    have hr : r.leaseOp parseUuid c.peer henv = some (.acquire env req) := ho.symm.trans h
    obtain ⟨params, hreq⟩ : ∃ params, req = acquireRequest params c.peer := by
      unfold VarlinkRequest.leaseOp at hr
      split at hr
      · cases hr
      · obtain ⟨m, -, hm⟩ := Option.bind_eq_some_iff.mp hr
        cases m <;> simp only [Method.leaseOp, reduceCtorEq, Option.map_eq_some_iff,
          and_false, exists_false] at hm
        obtain ⟨p, -, hp⟩ := hm
        cases hp
        exact ⟨p, rfl⟩
    rw [hstep, ho]
    refine ⟨conn, c, params, hc, hreq, _,
      (getElem?_set_of_getElem? hc hc).trans (congrArg some (if_pos rfl)), fun id hid => ?_⟩
    exact List.mem_append_right _ hid

theorem step_records (h : id ∈ grantedIds d.arbiter (d.leaseOp parseUuid op)) :
    ∃ (i : ℕ) (c' : Conn), (step parseUuid d op).conns[i]? = some c' ∧ id ∈ c'.granted := by
  cases ho : d.leaseOp parseUuid op with
  | none => rw [ho] at h; cases h
  | some o =>
    cases o with
    | acquire env req =>
      obtain ⟨i, c, params, -, -, c', hc', hall⟩ := leaseOp_acquire ho
      exact ⟨i, c', hc', hall id h⟩
    | _ => rw [ho] at h; cases h

end Inferenced.Varlink
