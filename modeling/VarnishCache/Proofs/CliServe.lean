import VarnishCache.CliServe

/-!
# Authentication of a CLI session

A table is looked at only if its level is not above that of the session, in dispatch and in help, and only `mcf_auth`
raises the level of the session. Here-documents are for sessions that are authenticated already.
-/

namespace VarnishCache.Proofs

variable {authResponse : List UInt8 → List UInt8 → List UInt8} {env : CliEnv} {cli cli' : CliSess}

/-- Case does not matter in a response. -/
def Right (a b : List UInt8) : Prop := strcaseEq a b = true

structure CliInv (authResponse : List UInt8 → List UInt8 → List UInt8) (cli : CliSess) : Prop where
  first : AuthFirst authResponse Right cli.trace
  challenge : cli.auth = 0 → lastChallenge cli.trace = some cli.challenge
  given : cli.auth ≠ 0 → AuthGiven authResponse Right cli.trace

lemma authGiven_append {trace : List CliEvent} (h : AuthGiven authResponse Right trace) (rest : List CliEvent) :
    AuthGiven authResponse Right (trace ++ rest) := by
  obtain ⟨pre, post, av, env, secret, c, rfl, hsecret, hc, hright⟩ := h
  exact ⟨pre, post ++ rest, av, env, secret, c, by simp, hsecret, hc, hright⟩

/-- An event is added. -/
lemma authFirst_concat {trace : List CliEvent} {e : CliEvent} (h : AuthFirst authResponse Right trace)
    (he : ∀ level func av env, e = .call level func av env → mcfNoauth < level → AuthGiven authResponse Right trace) :
    AuthFirst authResponse Right (trace ++ [e]) := by
  intro pre post level func av env heq hlevel
  rcases List.eq_nil_or_concat post with rfl | ⟨post', last, rfl⟩
  · obtain ⟨rfl, hlast⟩ := List.append_inj' heq rfl
    exact he level func av env (List.singleton_injective hlast) hlevel
  · rw [List.concat_eq_append, ← List.cons_append, ← List.append_assoc] at heq
    obtain ⟨rfl, -⟩ := List.append_inj' heq rfl
    exact h pre post' level func av env rfl hlevel

lemma lastChallenge_call (trace : List CliEvent) (level : Nat) (func : CliFunc) (av : List (List UInt8)) (env : CliEnv) :
    lastChallenge (trace ++ [.call level func av env]) = lastChallenge trace := by
  simp [lastChallenge]

lemma lastChallenge_challenge (trace : List CliEvent) (c : List UInt8) :
    lastChallenge (trace ++ [.challenge c]) = some c := by
  simp [lastChallenge]

lemma CliInv.call (h : CliInv authResponse cli) {level : Nat} (hlevel : ¬ cli.auth < level) (func : CliFunc)
    (av : List (List UInt8)) (env : CliEnv) : CliInv authResponse (cli.log (.call level func av env)) where
  first := by
    refine authFirst_concat h.first ?_
    intro level' _ _ _ heq hpos
    cases heq
    exact h.given (by omega)
  challenge := by
    intro h0
    rw [CliSess.log, lastChallenge_call]
    exact h.challenge h0
  given := fun hne => authGiven_append (h.given hne) _

lemma CliInv.mgtCliChallenge (h : CliInv authResponse cli) : CliInv authResponse (cli.mgtCliChallenge env) where
  first := authFirst_concat h.first (fun _ _ _ _ heq => by cases heq)
  challenge := fun _ => lastChallenge_challenge _ _
  given := fun hne => authGiven_append (h.given hne) _

/-- A function is called with its level, and it is `mcf_auth`. -/
lemma CliInv.mcfAuth (h : CliInv authResponse cli) {level : Nat} (hlevel : ¬ cli.auth < level) (av : List (List UInt8)) :
    CliInv authResponse ((cli.log (.call level .auth av env)).mcfAuth authResponse env av) := by
  have hcall := h.call hlevel .auth av env
  unfold CliSess.mcfAuth
  split
  next => exact hcall
  next => exact hcall
  next secret hsecret =>
    split
    next hright =>
      have hgiven : AuthGiven authResponse Right (cli.log (.call level .auth av env)).trace := by
        by_cases h0 : cli.auth = 0
        · obtain rfl : level = 0 := by omega
          exact ⟨cli.trace, [], av, env, secret, cli.challenge, rfl, hsecret, h.challenge h0, hright⟩
        · exact hcall.given h0
      refine ⟨?_, fun h0 => absurd (show mcfAuthed = 0 from h0) (by decide), fun _ => authGiven_append hgiven _⟩
      refine authFirst_concat hcall.first ?_
      intro _ _ _ _ _ _
      exact hgiven
    next => exact hcall.mgtCliChallenge

/-! ## Help -/

lemma CliInv.helpTable (h : CliInv authResponse cli) {level : Nat} (hlevel : ¬ cli.auth < level) (av : List (List UInt8))
    (clp : List CliProto) :
    CliInv authResponse (CliSess.helpTable env level av clp cli) ∧
      (CliSess.helpTable env level av clp cli).auth = cli.auth := by
  induction clp generalizing cli with
  | nil => exact ⟨h, rfl⟩
  | cons cp clp ih =>
    rw [CliSess.helpTable]
    split
    · exact ih h hlevel
    · split
      · exact ih (h.call hlevel cp.func av env) hlevel
      · exact ih h hlevel

lemma CliInv.helpAll (h : CliInv authResponse cli) (av : List (List UInt8)) (funcs : List (Nat × List CliProto)) :
    CliInv authResponse (CliSess.helpAll env av funcs cli) := by
  induction funcs generalizing cli with
  | nil => exact h
  | cons q funcs ih =>
    rw [CliSess.helpAll]
    split
    next => exact ih h
    next hlevel => exact ih (h.helpTable hlevel av q.2).1

lemma CliInv.helpFind (h : CliInv authResponse cli) {level : Nat} (hlevel : ¬ cli.auth < level) (av : List (List UInt8))
    {clp : List CliProto} (hfind : CliSess.helpFind env level av clp cli = some cli') : CliInv authResponse cli' := by
  induction clp with
  | nil => cases hfind
  | cons cp clp ih =>
    rw [CliSess.helpFind] at hfind
    split at hfind
    next =>
      cases hfind
      exact h
    next =>
      split at hfind
      next =>
        cases hfind
        exact h.call hlevel cp.func av env
      next => exact ih hfind

lemma CliInv.helpOne (h : CliInv authResponse cli) (av : List (List UInt8)) (funcs : List (Nat × List CliProto)) :
    CliInv authResponse (CliSess.helpOne env av funcs cli) := by
  induction funcs with
  | nil => exact h
  | cons q funcs ih =>
    rw [CliSess.helpOne]
    split
    next => exact ih
    next hlevel =>
      cases hfind : CliSess.helpFind env q.1 av q.2 cli with
      | none => exact ih
      | some cli1 => exact h.helpFind hlevel av hfind

lemma CliInv.vclsFuncHelp (h : CliInv authResponse cli) (av : List (List UInt8)) :
    CliInv authResponse (cli.vclsFuncHelp env av) := by
  unfold CliSess.vclsFuncHelp
  split
  · exact h.helpAll av cliFuncs
  · split
    · exact h.helpAll av cliFuncs
    · exact h.helpOne av cliFuncs

/-! ## Dispatch -/

lemma CliInv.callFunc (h : CliInv authResponse cli) {level : Nat} (hlevel : ¬ cli.auth < level) (func : CliFunc)
    (av : List (List UInt8)) : CliInv authResponse (cli.callFunc authResponse env level func av) := by
  have hcall := h.call hlevel func av env
  cases func with
  | help => exact hcall.vclsFuncHelp av
  | auth => exact h.mcfAuth hlevel av
  | close => exact ⟨hcall.first, hcall.challenge, hcall.given⟩
  | _ => exact hcall

lemma CliInv.clsDispatch (h : CliInv authResponse cli) {level : Nat} (hlevel : ¬ cli.auth < level) {clp : List CliProto}
    {av : List (List UInt8)} (hdis : cli.clsDispatch authResponse env level clp av = some cli') :
    CliInv authResponse cli' := by
  unfold CliSess.clsDispatch at hdis
  split at hdis
  next => cases hdis
  next cp _ =>
    split at hdis
    next =>
      cases hdis
      exact h
    next =>
      split at hdis
      next =>
        cases hdis
        exact h
      next =>
        cases hdis
        exact h.callFunc hlevel cp.func av

lemma CliInv.dispatchAll (h : CliInv authResponse cli) (av : List (List UInt8)) (funcs : List (Nat × List CliProto)) :
    CliInv authResponse (CliSess.dispatchAll authResponse env av funcs cli) := by
  induction funcs with
  | nil => exact h
  | cons q funcs ih =>
    rw [CliSess.dispatchAll]
    split
    next => exact ih
    next hlevel =>
      cases hdis : cli.clsDispatch authResponse env q.1 q.2 av with
      | none => exact ih
      | some cli1 => exact h.clsDispatch hlevel hdis

lemma CliInv.clsVlu2 (h : CliInv authResponse cli) (av : Option (List (List UInt8))) :
    CliInv authResponse (cli.clsVlu2 authResponse env av) := by
  unfold CliSess.clsVlu2
  cases av with
  | none => exact ⟨h.first, h.challenge, h.given⟩
  | some av =>
    simp only
    split
    · have hd : CliInv authResponse (CliSess.dispatchAll authResponse env av cliFuncs cli) := h.dispatchAll av cliFuncs
      exact ⟨hd.first, hd.challenge, hd.given⟩
    · exact ⟨h.first, h.challenge, h.given⟩

lemma CliInv.clsVlu (h : CliInv authResponse cli) {line : List UInt8}
    (hvlu : cli.clsVlu authResponse env line = some cli') :
    CliInv authResponse cli' := by
  unfold CliSess.clsVlu at hvlu
  split at hvlu
  next =>
    simp only at hvlu
    split at hvlu
    next =>
      cases hvlu
      exact h
    next =>
      split at hvlu
      next => cases hvlu
      next =>
        cases hvlu
        exact h.clsVlu2 none
      next av _ =>
        split at hvlu
        next =>
          cases hvlu
          exact h.clsVlu2 (some av)
        next =>
          cases hvlu
          exact ⟨h.first, h.challenge, h.given⟩
  next av doc _ =>
    split at hvlu
    next =>
      cases hvlu
      exact ⟨h.first, h.challenge, h.given⟩
    next =>
      cases hvlu
      have hdone : CliInv authResponse { cli with argv := none } := ⟨h.first, h.challenge, h.given⟩
      exact hdone.clsVlu2 (some (av.take (av.length - 2) ++ [doc]))

/-! ## Sessions -/

lemma CliInv.run (h : CliInv authResponse cli) {lines : List (List UInt8 × CliEnv)}
    (hrun : cli.run authResponse lines = some cli') : CliInv authResponse cli' := by
  induction lines generalizing cli with
  | nil =>
    cases hrun
    exact h
  | cons line lines ih =>
    rw [CliSess.run] at hrun
    split at hrun
    next =>
      cases hrun
      exact h
    next =>
      obtain ⟨cli1, hvlu, hrest⟩ := Option.bind_eq_some_iff.mp hrun
      exact ih (h.clsVlu hvlu) hrest

lemma cliInv_setup (challenge : List UInt8) : CliInv authResponse (.setup challenge) := by
  refine ⟨?_, fun _ => rfl, fun hne => absurd rfl hne⟩
  intro pre post level func av env heq _
  have hmem : CliEvent.call level func av env ∈ (CliSess.setup challenge).trace := by
    rw [heq]
    simp
  cases List.mem_singleton.mp hmem

/-- Whatever lines a session behind a secret gets, it calls no function of a higher level before an `auth` command whose
argument is, case apart, the response to the challenge issued last. -/
theorem cli_auth_first {challenge : List UInt8} {lines : List (List UInt8 × CliEnv)}
    (hrun : (CliSess.setup challenge).run authResponse lines = some cli) : AuthFirst authResponse Right cli.trace :=
  ((cliInv_setup challenge).run hrun).first

def sampleChallenge : List UInt8 := bytes "aaaaaaaaaaaaaaaaaaaaaaaaaaaaaaaa\n"

/-- `VCLI_AuthResponse` for one secret and one challenge. -/
def sampleResponse (secret challenge : List UInt8) : List UInt8 :=
  if secret = bytes "secret\n" ∧ challenge = sampleChallenge then
    bytes "74591f8ab8f4ea14c1f257192bd65c61f65b546ef7bb856afe0fbb0b20987014"
  else []

def sampleEnv : CliEnv := { secretFile := some (some (bytes "secret\n")), random := [], close := false }

/-- The right response and another command. -/
theorem cli_auth_first_status : ∃ cli, (CliSess.setup sampleChallenge).run sampleResponse
      [(bytes "auth 74591f8ab8f4ea14c1f257192bd65c61f65b546ef7bb856afe0fbb0b20987014", sampleEnv),
        (bytes "status", sampleEnv)] =
        some cli ∧ cli.auth = mcfAuthed ∧ AuthFirst sampleResponse Right cli.trace := by
  have hrun : ((CliSess.setup sampleChallenge).run sampleResponse
      [(bytes "auth 74591f8ab8f4ea14c1f257192bd65c61f65b546ef7bb856afe0fbb0b20987014", sampleEnv),
        (bytes "status", sampleEnv)]).any (fun cli => cli.auth = mcfAuthed) = true := by decide +kernel
  obtain ⟨cli, hcli, hauth⟩ := (Option.any_eq_true _ _).mp hrun
  exact ⟨cli, hcli, by simpa using hauth, cli_auth_first hcli⟩

def sampleUpper : List UInt8 := bytes "74591F8AB8F4EA14C1F257192BD65C61F65B546EF7BB856AFE0FBB0B20987014"

lemma sampleResponse_ne (secret c : List UInt8) : sampleResponse secret c ≠ sampleUpper := by
  unfold sampleResponse
  split
  · decide
  · decide

/-- Every `auth` command had the response in upper case, and a function of a higher level was called. -/
def sampleTaken (trace : List CliEvent) : Bool :=
  trace.any (fun e => match e with
    | .call level _ _ _ => 0 < level
    | .challenge _ => false) &&
  trace.all (fun e => match e with
    | .call _ .auth av _ => av.getD 1 [] = sampleUpper
    | _ => true)

lemma not_authFirst_of_taken {trace : List CliEvent} (h : sampleTaken trace = true) :
    ¬ AuthFirst sampleResponse (fun a b => a = b) trace := by
  intro hfirst
  rw [sampleTaken, Bool.and_eq_true, List.any_eq_true, List.all_eq_true] at h
  obtain ⟨⟨e, he, hlevel⟩, hall⟩ := h
  cases e with
  | challenge c => cases hlevel
  | call level func av env =>
    obtain ⟨pre, post, rfl⟩ := List.append_of_mem he
    obtain ⟨pre', post', av', env', secret, c, rfl, -, -, hright⟩ :=
      hfirst pre post level func av env rfl (by simpa using hlevel)
    have hav := hall (.call mcfNoauth .auth av' env') (by simp)
    rw [decide_eq_true_eq] at hav
    exact sampleResponse_ne secret c (hright.trans hav)

/-- The response in upper case, which is not equal to it, is taken. -/
theorem cli_auth_upper_case : ∃ cli, (CliSess.setup sampleChallenge).run sampleResponse
      [(bytes "auth " ++ sampleUpper, sampleEnv)] = some cli ∧
        ¬ AuthFirst sampleResponse (fun a b => a = b) cli.trace := by
  have hrun : ((CliSess.setup sampleChallenge).run sampleResponse [(bytes "auth " ++ sampleUpper, sampleEnv)]).any
      (fun cli => sampleTaken cli.trace) = true := by decide +kernel
  obtain ⟨cli, hcli, htaken⟩ := (Option.any_eq_true _ _).mp hrun
  exact ⟨cli, hcli, not_authFirst_of_taken htaken⟩

end VarnishCache.Proofs
