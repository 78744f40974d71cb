import Inferenced.Gateway.Stream

/-!
# The answers of the gateway (gateway/handlers.rs:49-213)

What the status of an answer says about the lease of its request.
-/

namespace Inferenced.Gateway
open Lib Lib.Runs Arbiter Varlink

variable {g : GatewayState} {op : GatewayOp}

/-! ### The handler of a request -/

/-- What a handler keeps when it runs on, its task runs on or the server drops
it. -/
structure Kept (I : Handler → Prop) : Prop where
  poll : ∀ h s env, I h → I (h.poll s env).2
  pollTask : ∀ h s createdAt delivered, I h → I (h.pollTask s createdAt delivered).2
  cancel : ∀ h, I h → I h.cancel

theorem Kept.step {I : Handler → Prop} (hkept : Kept I) {i : ℕ} {h : Handler} (hh : g.handlers[i]? = some h)
    (hI : I h) (op : GatewayOp) : ∃ h', (step g op).handlers[i]? = some h' ∧ I h' := by
  have hset : ∀ {j : ℕ} {b : Handler} (f : Handler → Handler) (a : ArbiterState), g.handlers[j]? = some b →
      I (f h) → ∃ h', (g.update j (a, f b)).handlers[i]? = some h' ∧ I h' := by
    intro j b f a hb hf
    refine ⟨_, getElem?_set_of_getElem? hb hh, ?_⟩
    split
    · rename_i hij
      subst hij
      rw [hb] at hh
      cases hh
      exact hf
    · exact hI
  cases op with
  | request authorization endpoint =>
    exact ⟨h, (List.getElem?_append_left (List.getElem?_eq_some_iff.mp hh).1).trans hh, hI⟩
  | poll j env =>
    simp only [Gateway.step]
    cases hj : g.handlers[j]? with
    | none => exact ⟨h, hh, hI⟩
    | some b =>
      exact hset (fun c => (c.poll g.arbiter env).2) (b.poll g.arbiter env).1 hj (hkept.poll h _ env hI)
  | pollTask j createdAt delivered =>
    simp only [Gateway.step]
    cases hj : g.handlers[j]? with
    | none => exact ⟨h, hh, hI⟩
    | some b =>
      exact hset (fun c => (c.pollTask g.arbiter createdAt delivered).2)
        (b.pollTask g.arbiter createdAt delivered).1 hj (hkept.pollTask h _ createdAt delivered hI)
  | cancel j =>
    simp only [Gateway.step]
    cases hj : g.handlers[j]? with
    | none => exact ⟨h, hh, hI⟩
    | some b => exact hset Handler.cancel g.arbiter hj (hkept.cancel h hI)
  | other o => exact ⟨h, hh, hI⟩
  | setRegistry registry => exact ⟨h, hh, hI⟩

def Response.status : Response → ℕ
  | .json status _ => status
  | .ndjson status => status

/-- An answer to this very request. -/
def Job.Fits (job : Job) (response : Response) : Prop :=
  match job.answer with
  | .stream _ => response = .ndjson 200
  | _ => ∃ env, response = job.response env

theorem Job.Fits.status {job : Job} {response : Response} (h : job.Fits response) : response.status = 200 := by
  unfold Job.Fits at h
  split at h
  · rw [h]
    rfl
  · obtain ⟨env, rfl⟩ := h
    unfold Job.response
    split <;> rfl

variable {authorized : Bool} {job : Job}

variable {used : List LeaseId}

end Inferenced.Gateway
