import Inferenced.Gateway

/-!
# The gateway token (crates/inferenced-daemon/src/creds.rs, main.rs:123-132)

`load_credential` takes line ends off the end of the configured token;
`check_auth` takes whitespace off both ends of the presented one and compares
the two. A configured token with a space at an end is matched by no request.
-/

namespace Inferenced.Gateway
open Lib

/-- The environment of the process: the files of `$CREDENTIALS_DIRECTORY`, if
that is set, and the other variables. -/
structure CredEnv where
  credentials : Option (String → Option (List UInt8))
  vars : String → Option String

/-- `load_credential` (creds.rs:11-21). -/
def loadCredential (env : CredEnv) (name : String) : Option String :=
  env.credentials.bind fun file =>
    ((file name).bind Text.fromUtf8).map fun content =>
      String.ofList (content.rdropWhile fun c => c = '\r' || c = '\n')

/-- `resolve_secret` (creds.rs:33-35). -/
def resolveSecret (env : CredEnv) (envVar credName : String) : Option String :=
  (loadCredential env credName).or (env.vars envVar)

/-- The wiring of `main` (main.rs:124-125). -/
def apiToken (env : CredEnv) : Option String :=
  (resolveSecret env "INFERENCED_API_TOKEN" "gateway_api_token").or (loadCredential env "api_token")

/-- HTTP delivers a field value without the blanks around it. -/
def deliver (value : String) : String :=
  let isBlank := fun c : Char => c = ' ' || c = '\t'
  String.ofList ((value.toList.dropWhile isBlank).rdropWhile isBlank)

/-- The value without one `Bearer ` in front of it and without outer whitespace. -/
def presented (value : List Char) : List Char :=
  Text.trim ((Text.stripPrefix value "Bearer ".toList).getD value)

def Printable (text : List Char) : Prop := ∀ c ∈ text, 32 ≤ c.toNat ∧ c.toNat ≤ 126

instance (text : List Char) : Decidable (Printable text) :=
  List.decidableBAll (fun c : Char => 32 ≤ c.toNat ∧ c.toNat ≤ 126) text

/-- The token `t` opens the gateway, and nothing else does. -/
structure TokenWorks (configured : Option String) (t : String) : Prop where
  accepted : checkAuth (some (deliver ("Bearer " ++ t))) configured = true
  only : ∀ authorization, checkAuth authorization configured = true →
    ∃ value, authorization = some value ∧ presented value.toList = Text.trim t.toList

variable {env : CredEnv} {t : String}

theorem checkAuth_iff {authorization : Option String} :
    checkAuth authorization (some t) = true ↔
      ∃ value, authorization = some value ∧ presented value.toList = t.toList := by
  unfold checkAuth presented
  cases authorization with
  | none => simp only [Bool.false_eq_true, reduceCtorEq, false_and, exists_false]
  | some value => simp only [decide_eq_true_eq, Option.some.injEq, exists_eq_left']

theorem apiToken_eq (hload : loadCredential env "gateway_api_token" = some t ∨
      resolveSecret env "INFERENCED_API_TOKEN" "gateway_api_token" = none ∧
        loadCredential env "api_token" = some t) : apiToken env = some t := by
  rcases hload with hload | ⟨hnone, hload⟩
  · simp [apiToken, resolveSecret, hload]
  · simp [apiToken, hnone, hload]

theorem presented_deliver (hne : t ≠ "") (hlast : ∀ c, t.toList.getLast? = some c → c ≠ ' ' ∧ c ≠ '\t') :
    presented (deliver ("Bearer " ++ t)).toList = Text.trim t.toList := by
  have hlist : t.toList ≠ [] := fun h => hne (String.toList_eq_nil_iff.mp h)
  have hsame : deliver ("Bearer " ++ t) = "Bearer " ++ t := by
    rw [deliver, Text.strip_eq_self_iff.mpr ⟨?_, ?_⟩, String.ofList_toList]
    · intro c hc
      rw [String.toList_append] at hc
      obtain rfl : 'B' = c := Option.some.inj hc
      decide
    · intro c hc
      rw [String.toList_append, List.getLast?_append_of_ne_nil _ hlist] at hc
      simpa using hlast c hc
  rw [hsame, presented, String.toList_append, Text.stripPrefix, Text.startsWith,
    if_pos (decide_eq_true (List.prefix_append _ _)), Option.getD_some, List.drop_left]

theorem isWhitespace_eq_false {c : Char} (h : 32 ≤ c.toNat ∧ c.toNat ≤ 126) (hc : c ≠ ' ') :
    Text.isWhitespace c = false := by
  have hne : c.toNat ≠ 32 := fun hn => hc (Char.toNat_inj.mp hn)
  simp only [Text.isWhitespace, Bool.or_eq_false_iff, Bool.and_eq_false_iff, decide_eq_false_iff_not,
    beq_eq_false_iff_ne]
  omega

/-- The gateway token: a token of a credential file that is made of visible
characters and spaces opens the gateway, and nothing else does, if and only if
there is no space at its ends. -/
theorem token_works_iff (env : CredEnv) (t : String)
    (hload : loadCredential env "gateway_api_token" = some t ∨
      resolveSecret env "INFERENCED_API_TOKEN" "gateway_api_token" = none ∧
        loadCredential env "api_token" = some t)
    (hne : t ≠ "") (hchars : Printable t.toList) :
    TokenWorks (apiToken env) t ↔
      t.toList.head? ≠ some ' ' ∧ t.toList.getLast? ≠ some ' ' := by
  rw [apiToken_eq hload]
  constructor
  · intro h
    obtain ⟨value, -, hvalue⟩ := checkAuth_iff.mp h.accepted
    have htrim : Text.trim t.toList = t.toList := by
      rw [← hvalue, presented, Text.trim_trim]
    obtain ⟨hhead, hlast⟩ := Text.strip_eq_self_iff.mp htrim
    exact ⟨fun hc => absurd (hhead _ hc) (by decide), fun hc => absurd (hlast _ hc) (by decide)⟩
  · rintro ⟨hhead, hlast⟩
    have htrim : Text.trim t.toList = t.toList := Text.strip_eq_self_iff.mpr
      ⟨fun c hc => isWhitespace_eq_false (hchars c (List.mem_of_head? hc)) fun h => hhead (h ▸ hc),
        fun c hc => isWhitespace_eq_false (hchars c (List.mem_of_getLast? hc)) fun h => hlast (h ▸ hc)⟩
    have haccepted : checkAuth (some (deliver ("Bearer " ++ t))) (some t) = true := by
      refine checkAuth_iff.mpr ⟨_, rfl, (presented_deliver hne fun c hc => ?_).trans htrim⟩
      refine ⟨fun h => hlast (h ▸ hc), fun h => ?_⟩
      have hlow := (hchars c (List.mem_of_getLast? hc)).1
      rw [h] at hlow
      exact absurd hlow (by decide)
    refine ⟨haccepted, fun authorization hauth => ?_⟩
    obtain ⟨value, hvalue, heq⟩ := checkAuth_iff.mp hauth
    exact ⟨value, hvalue, heq.trans htrim.symm⟩

def credentialFile (content : String) : CredEnv where
  credentials := some fun name =>
    if name = "gateway_api_token" then some content.toUTF8.toList else none
  vars := fun _ => none

theorem token_works_plain :
    loadCredential (credentialFile "super_secret_token_12345\n") "gateway_api_token" =
        some "super_secret_token_12345" ∧
      TokenWorks (apiToken (credentialFile "super_secret_token_12345\n")) "super_secret_token_12345" := by
  have hload : loadCredential (credentialFile "super_secret_token_12345\n") "gateway_api_token" =
      some "super_secret_token_12345" := by decide +kernel
  exact ⟨hload, (token_works_iff _ _ (.inl hload) (by decide) (by decide)).mpr (by decide)⟩

theorem spaced_token_refused :
    loadCredential (credentialFile " secret \n") "gateway_api_token" = some " secret " ∧
      Printable " secret ".toList ∧
      checkAuth (some (deliver ("Bearer " ++ " secret "))) (apiToken (credentialFile " secret \n")) =
        false ∧
      ¬ TokenWorks (apiToken (credentialFile " secret \n")) " secret " := by
  have hrefused : checkAuth (some (deliver ("Bearer " ++ " secret ")))
      (apiToken (credentialFile " secret \n")) = false := by decide +kernel
  refine ⟨by decide +kernel, by decide, hrefused, fun h => ?_⟩
  have haccepted := h.accepted
  rw [hrefused] at haccepted
  cases haccepted

end Inferenced.Gateway
