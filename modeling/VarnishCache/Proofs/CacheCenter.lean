import VarnishCache.Proofs.CacheCenterFit
import VarnishCache.Proofs.CacheCenterRefs

/-!
# Whole sessions

A request, and an include, comes to `cnt_done`, is parked, or fails an assertion after finitely many steps: the restarts
left and the place of the step in a request go down, and below them the includes left and their depth. With what holds at
the steps, and where the references are, this gives what a session does from the acceptor on.
-/

namespace VarnishCache.Proofs

open Cnt

variable {p : CntParams} {env : Nat → CntEnv} {st st' : Cnt} {n m : Nat} {fs : List CntFrame}

/-- Where a request or an include with the includes `fs` around it comes to rest. -/
def Rest (fs : List CntFrame) (st : Cnt) : Prop :=
  st.pc = .parked ∨ st.pc = .waiter ∨ st.pc = .gone ∨ st.pc = .run ∧ st.step = .done ∧ st.frames = fs

/-- From the state after `n` steps on, the session comes to rest, or an assertion fails. -/
def Settles (p : CntParams) (env : Nat → CntEnv) (fs : List CntFrame) (n : Nat) : Prop :=
  ∃ m, Cnt.accepted.runs p env (n + m) = none ∨ ∃ st, Cnt.accepted.runs p env (n + m) = some st ∧ Rest fs st

lemma Settles.of_rest (h : Cnt.accepted.runs p env n = some st) (hrest : Rest fs st) : Settles p env fs n :=
  ⟨0, Or.inr ⟨st, h, hrest⟩⟩

lemma Settles.of_later (h : Settles p env fs (n + m)) : Settles p env fs n := by
  obtain ⟨k, hk⟩ := h
  refine ⟨m + k, ?_⟩
  rw [← Nat.add_assoc]
  exact hk

/-- It is enough to look at what the next step does. -/
lemma Settles.of_next (h : Cnt.accepted.runs p env n = some st)
    (hnext : ∀ st', Cnt.accepted.runs p env (n + 1) = some st' → Move p st st' → Settles p env fs (n + 1)) :
    Settles p env fs n := by
  cases hstep : st.next p (env n) with
  | none =>
    refine ⟨1, Or.inl ?_⟩
    rw [Cnt.runs, h]
    exact hstep
  | some st' =>
    have hst' : Cnt.accepted.runs p env (n + 1) = some st' := by
      rw [Cnt.runs, h]
      exact hstep
    exact (hnext st' hst' (next_move hstep)).of_later

/-! ## What comes after a position -/

lemma Move.of_written (h : Move p st st') (hpc : st.pc = .write 0) :
    st'.pc = .run ∧ st'.step = .done ∧ st'.frames = st.frames := by
  cases h with
  | written pc pc' step' recvs frames => exact ⟨pc', step', frames⟩
  | _ => simp_all

lemma Move.of_include (h : Move p st st') (hpc : st.pc = .write (n + 1)) :
    st'.pc = .write n ∧ st'.frames = st.frames ∨
      st'.pc = .run ∧ st.frames.length < p.maxEsiDepth ∧ ∃ f, f.left = n ∧ st'.frames = f :: st.frames := by
  cases h with
  | skip k pc pc' restarts recvs frames =>
    rw [hpc] at pc
    cases pc
    exact Or.inl ⟨pc', frames⟩
  | push k f pc pc' step' restarts recvs deep frames left kept obj =>
    rw [hpc] at pc
    cases pc
    exact Or.inr ⟨pc', deep, f, left, frames⟩
  | _ => simp_all

/-- An include that is done goes back to the delivery that it is part of. -/
lemma Move.of_done {f : CntFrame} (h : Move p st st') (hpc : st.pc = .run) (hstep : st.step = .done)
    (hframes : st.frames = f :: fs) :
    st'.pc = .write f.left ∧ st'.frames = fs ∨ st'.pc = .waiter ∨ st'.pc = .gone := by
  cases h with
  | pop g pc step frames pc' restarts recvs =>
    rw [hframes] at frames
    obtain ⟨rfl, rfl⟩ := List.cons.inj frames
    exact Or.inl ⟨pc', rfl⟩
  | leave pc pc' step restarts recvs frames => exact Or.inr pc'
  | down pc pc' later restarts recvs frames =>
    have hlow := later.1
    rw [hstep] at hlow
    exact absurd hlow (Nat.not_lt_zero _)
  | _ => simp_all [restarter]

/-- A step of a request restarts, goes on to a later step, or ends the request. -/
lemma Move.of_request (h : Move p st st') (hpc : st.pc = .run) (hstep : st.step ≠ .done) :
    (st'.pc = .run ∧ st'.frames = st.frames ∧
      (st'.step = .done ∨ st'.step = .recv ∧ st'.restarts = st.restarts + 1 ∨
        st'.restarts = st.restarts ∧ rank st'.step < rank st.step)) ∨
    (∃ k, st'.pc = .write k ∧ st'.frames = st.frames) ∨ st'.pc = .parked ∨ st'.pc = .waiter ∨ st'.pc = .gone := by
  cases h with
  | down pc pc' later restarts recvs frames =>
    rcases restarts with hsame | hdone
    · exact Or.inl ⟨pc', frames, Or.inr (Or.inr ⟨hsame, later.1⟩)⟩
    · exact Or.inl ⟨pc', frames, Or.inl hdone⟩
  | restart pc pc' step step' left restarts recvs frames =>
    exact Or.inl ⟨pc', frames, Or.inr (Or.inl ⟨step', restarts⟩)⟩
  | recv pc pc' step low left step' restarts recvs frames =>
    exact Or.inl ⟨pc', frames, Or.inr (Or.inr ⟨restarts, by rw [step]; exact low⟩)⟩
  | start pc pc' step step' restarts recvs frames =>
    refine Or.inl ⟨pc', frames, Or.inr (Or.inr ⟨restarts.2.trans restarts.1.symm, ?_⟩)⟩
    rw [step]
    rcases step' with hs | hs | hs <;> rw [hs] <;> decide
  | deliver k pc pc' step restarts recvs frames => exact Or.inr (Or.inl ⟨k, pc', frames⟩)
  | park pc pc' step step' restarts recvs frames => exact Or.inr (Or.inr (Or.inl pc'))
  | leave pc pc' step restarts recvs frames => exact Or.inr (Or.inr (Or.inr pc'))
  | _ => simp_all

/-! ## A request comes to an end -/

lemma rank_lt (s : Stp) : rank s < 16 := by
  cases s <;> decide

/-- What is left of a request: its restarts, and below them the steps that come later. -/
def remaining (p : CntParams) (st : Cnt) : Nat := (p.maxRestarts - st.restarts) * 16 + rank st.step

/-- A request comes to rest where its delivery does. -/
lemma settles_request
    (hwrite : ∀ k n st, Cnt.accepted.runs p env n = some st → st.frames = fs → st.pc = .write k → Settles p env fs n)
    (d : Nat) : ∀ n st, Cnt.accepted.runs p env n = some st → st.frames = fs → st.pc = .run → remaining p st < d →
      Settles p env fs n := by
  induction d with
  | zero =>
    intro n st _ _ _ hd
    exact absurd hd (Nat.not_lt_zero _)
  | succ d ih =>
    intro n st h hframes hpc hd
    by_cases hdone : st.step = .done
    · exact .of_rest h (Or.inr (Or.inr (Or.inr ⟨hpc, hdone, hframes⟩)))
    refine .of_next h ?_
    intro st' hst' hmove
    rcases hmove.of_request hpc hdone with ⟨hpc', hframes', hcase⟩ | ⟨k, hpc', hframes'⟩ | hout
    · have hframes' := hframes'.trans hframes
      rcases hcase with hs | ⟨hs, hrestarts⟩ | ⟨hrestarts, hlow⟩
      · exact .of_rest hst' (Or.inr (Or.inr (Or.inr ⟨hpc', hs, hframes'⟩)))
      · refine ih (n + 1) st' hst' hframes' hpc' ?_
        have hrank := rank_lt st'.step
        have hle := (((runs_budget hst').run hpc').recv hs).2
        unfold remaining at hd ⊢
        omega
      · refine ih (n + 1) st' hst' hframes' hpc' ?_
        unfold remaining at hd ⊢
        rw [hrestarts]
        omega
    · exact hwrite k (n + 1) st' hst' (hframes'.trans hframes) hpc'
    · exact .of_rest hst' (by unfold Rest; tauto)

/-- A delivery comes to rest: includes that are too deep are skipped, and the others come to rest. -/
lemma settles_write
    (hrequest : ∀ f n st, Cnt.accepted.runs p env n = some st → st.frames = f :: fs → fs.length < p.maxEsiDepth →
      st.pc = .run → Settles p env (f :: fs) n)
    (k : Nat) : ∀ n st, Cnt.accepted.runs p env n = some st → st.frames = fs → st.pc = .write k → Settles p env fs n := by
  induction k with
  | zero =>
    intro n st h hframes hpc
    refine .of_next h ?_
    intro st' hst' hmove
    obtain ⟨hpc', hstep', hframes'⟩ := hmove.of_written hpc
    exact .of_rest hst' (Or.inr (Or.inr (Or.inr ⟨hpc', hstep', hframes'.trans hframes⟩)))
  | succ k ih =>
    intro n st h hframes hpc
    refine .of_next h ?_
    intro st' hst' hmove
    rcases hmove.of_include hpc with ⟨hpc', hframes'⟩ | ⟨hpc', hdeep, f, hleft, hframes'⟩
    · exact ih (n + 1) st' hst' (hframes'.trans hframes) hpc'
    · rw [hframes] at hdeep hframes'
      obtain ⟨m, hm⟩ := hrequest f (n + 1) st' hst' hframes' hdeep hpc'
      refine Settles.of_later (m := m) ?_
      rcases hm with hnone | ⟨mid, hmid, hrest⟩
      · exact ⟨0, Or.inl hnone⟩
      · rcases hrest with hs | hs | hs | ⟨hs, hdone, hfs⟩
        · exact .of_rest hmid (Or.inl hs)
        · exact .of_rest hmid (Or.inr (Or.inl hs))
        · exact .of_rest hmid (Or.inr (Or.inr (Or.inl hs)))
        · refine .of_next hmid ?_
          intro st'' hst'' hmove'
          rcases hmove'.of_done hs hdone hfs with ⟨hpc'', hframes''⟩ | hout
          · exact ih _ st'' hst'' hframes'' (by rw [hpc'', hleft])
          · exact .of_rest hst'' (Or.inr (hout.imp_right Or.inl))

lemma settles_level
    (hrequest : ∀ f n st, Cnt.accepted.runs p env n = some st → st.frames = f :: fs → fs.length < p.maxEsiDepth →
      st.pc = .run → Settles p env (f :: fs) n)
    (h : Cnt.accepted.runs p env n = some st) (hframes : st.frames = fs) (hpc : st.pc = .run ∨ ∃ k, st.pc = .write k) :
    Settles p env fs n := by
  rcases hpc with hpc | ⟨k, hpc⟩
  · exact settles_request (settles_write hrequest) _ n st h hframes hpc (Nat.lt_succ_self _)
  · exact settles_write hrequest k n st h hframes hpc

/-- The induction is on how deep includes can still go. -/
lemma settles_depth (d : Nat) : ∀ fs n st, Cnt.accepted.runs p env n = some st → st.frames = fs →
    p.maxEsiDepth ≤ fs.length + d → (st.pc = .run ∨ ∃ k, st.pc = .write k) → Settles p env fs n := by
  induction d with
  | zero =>
    intro fs n st h hframes hdepth hpc
    refine settles_level ?_ h hframes hpc
    intro f n st _ _ hdeep
    exact absurd hdepth (Nat.not_le_of_lt hdeep)
  | succ d ih =>
    intro fs n st h hframes hdepth hpc
    refine settles_level ?_ h hframes hpc
    intro f n st hst hfs _ hrun
    refine ih (f :: fs) n st hst hfs ?_ (Or.inl hrun)
    rw [List.length_cons]
    omega

lemma settles (h : Cnt.accepted.runs p env n = some st) (hpc : st.pc = .run ∨ ∃ k, st.pc = .write k) :
    Settles p env st.frames n :=
  settles_depth p.maxEsiDepth st.frames n st h rfl (Nat.le_add_left _ _) hpc

/-! ## Cycles -/

/-- Within a request, or an include with the includes `fs` around it. -/
def InRequest (fs : List CntFrame) (st : Cnt) : Prop :=
  st.pc = .run ∧ st.frames = fs ∧ st.step ≠ .done

/-- Within a request the restarts go up, or the steps go on to later ones. -/
lemma request_lex
    (hbetween : ∀ i st, n ≤ i → i ≤ n + m → Cnt.accepted.runs p env i = some st → InRequest fs st)
    (h : Cnt.accepted.runs p env n = some st) (h' : Cnt.accepted.runs p env (n + m) = some st') (hm : 0 < m) :
    st.restarts < st'.restarts ∨ st'.restarts = st.restarts ∧ rank st'.step < rank st.step := by
  induction m generalizing st' with
  | zero => exact absurd hm (Nat.lt_irrefl 0)
  | succ m ih =>
    obtain ⟨mid, hmid, hnext⟩ := Option.bind_eq_some_iff.mp h'
    obtain ⟨hpc, -, hdone⟩ := hbetween (n + m) mid (Nat.le_add_right n m) (Nat.le_succ _) hmid
    obtain ⟨hpc', -, hdone'⟩ := hbetween (n + m + 1) st' (by omega) le_rfl h'
    have hlast : mid.restarts < st'.restarts ∨ st'.restarts = mid.restarts ∧ rank st'.step < rank mid.step := by
      rcases (next_move hnext).of_request hpc hdone with ⟨-, -, hs | ⟨-, hs⟩ | hs⟩ | ⟨k, hs, -⟩ | hs
      · exact absurd hs hdone'
      · exact Or.inl (hs ▸ Nat.lt_succ_self _)
      · exact Or.inr hs
      · rw [hpc'] at hs
        cases hs
      · rw [hpc'] at hs
        rcases hs with hs | hs | hs <;> cases hs
    rcases Nat.eq_zero_or_pos m with hzero | hpos
    · subst hzero
      have heq : mid = st := Option.some.inj (hmid.symm.trans h)
      rw [← heq]
      exact hlast
    · have hih := ih (fun i st hi hi' => hbetween i st hi (Nat.le_succ_of_le hi')) hmid hpos
      omega

/-- The restarts of a session are bounded. -/
structure RestartsBounded (p : CntParams) (env : Nat → CntEnv) : Prop where
  recvs : ∀ n st, Cnt.accepted.runs p env n = some st → st.recvs ≤ p.maxRestarts + 1
  cycle : ∀ n m fs st st', Cnt.accepted.runs p env n = some st → Cnt.accepted.runs p env (n + m + 1) = some st' →
    (∀ i st, n ≤ i → i ≤ n + m + 1 → Cnt.accepted.runs p env i = some st → InRequest fs st) → st'.step = st.step →
    st.restarts < st'.restarts
  ends : ∀ n st, Cnt.accepted.runs p env n = some st → (st.pc = .run ∨ ∃ k, st.pc = .write k) →
    ∃ m st', Cnt.accepted.runs p env (n + m) = some st' ∧ Rest st.frames st'

theorem restarts_bounded (h : SoundRun p env Cnt.accepted) : RestartsBounded p env := by
  refine ⟨?_, ?_, ?_⟩
  · intro n st hst
    exact (runs_budget hst).recvs
  · intro n m fs st st' hst hst' hbetween hstep
    rcases request_lex hbetween hst hst' (Nat.succ_pos m) with hlt | ⟨-, hlt⟩
    · exact hlt
    · rw [hstep] at hlt
      exact absurd hlt (Nat.lt_irrefl _)
  · intro n st hst hpc
    obtain ⟨m, hnone | hrest⟩ := settles hst hpc
    · obtain ⟨st', hst', -⟩ := runs_fit fit_accepted h (n + m)
      rw [hnone] at hst'
      cases hst'
    · obtain ⟨st', hst', hrest⟩ := hrest
      exact ⟨m, st', hst', hrest⟩

/-- A backend response that VCL restarts from `vcl_fetch`, each time. -/
def fetchRestarts : CntEnv where
  recv := ⟨.lookup, by decide⟩
  pipe := ⟨.pipe, by decide⟩
  pass := ⟨.pass, by decide⟩
  miss := ⟨.fetch, by decide⟩
  hit := ⟨.deliver, by decide⟩
  fetch := ⟨.restart, by decide⟩
  deliver := ⟨.deliver, by decide⟩
  error := ⟨.deliver, by decide⟩
  unblocked := false
  rx := .complete
  pipelined := false
  linger := true
  dissected := .ok
  connClose := false
  expect := false
  head := false
  lookup := .busy
  nbusyobj := false
  backend := true
  fetchHdr := .ok
  fetchHdr' := .ok
  close := false
  contentLength := true
  bodyNone := false
  doEsi := false
  doGzip := false
  doGunzip := false
  doStream := false
  storage := false
  contentEncoding := .none
  badVary := false
  shortlived := false
  newObject := true
  cond := false
  bodyFailed := false
  eofMode := false
  includes := 0
  writeFailed := false

def defaultParams : CntParams where
  maxRestarts := 4
  maxEsiDepth := 5
  gzipSupport := true

lemma fetchRestarts_sound (p : CntParams) (st : Cnt) : Sound p fetchRestarts st := by
  intro _
  refine ⟨?_, ?_, ?_, ?_, ?_, ?_⟩
  · intro _ h
    cases h
  · intro _ h
    cases h
  · intro _ h
    cases h
  · intro _ h
    cases h
  · intro _
    exact ⟨rfl, fun _ => rfl⟩
  · intro _ h
    cases h

/-- The response is restarted twice, and then streamed. -/
def fetchStreams (n : Nat) : CntEnv :=
  if n < 12 then fetchRestarts else { fetchRestarts with fetch := ⟨.deliver, by decide⟩, doStream := true }

lemma fetchStreams_sound (p : CntParams) (n : Nat) (st : Cnt) : Sound p (fetchStreams n) st := by
  unfold fetchStreams
  split
  · exact fetchRestarts_sound p st
  · exact fetchRestarts_sound p st

theorem restarts_bounded_fetch :
    SoundRun defaultParams fetchStreams Cnt.accepted ∧ RestartsBounded defaultParams fetchStreams ∧
      ∃ st, Cnt.accepted.runs defaultParams fetchStreams 16 = some st ∧ st.step = .fetchbody ∧ st.restarts = 2 := by
  have h : SoundRun defaultParams fetchStreams Cnt.accepted := fun n st _ => fetchStreams_sound _ n st
  exact ⟨h, restarts_bounded h, _, rfl, rfl, rfl⟩

/-- `vcl_recv` passes and `vcl_pass` restarts. -/
def passRestarts : CntEnv := { fetchRestarts with recv := ⟨.pass, by decide⟩, pass := ⟨.restart, by decide⟩ }

lemma runs_none (h : st.runs p env n = none) (m : Nat) : st.runs p env (n + m) = none := by
  induction m with
  | zero => exact h
  | succ m ih =>
    rw [← Nat.add_assoc, Cnt.runs, ih]
    rfl

theorem pass_restart_stuck : ¬ RestartsBounded defaultParams (fun _ => passRestarts) := by
  intro h
  have hpass : ∃ st, Cnt.accepted.runs defaultParams (fun _ => passRestarts) 5 = some st ∧
      st.pc = .run ∧ st.step = .pass := by
    refine ⟨_, rfl, ?_, ?_⟩
    · rfl
    · rfl
  have hnone : Cnt.accepted.runs defaultParams (fun _ => passRestarts) 6 = none := rfl
  obtain ⟨st, hst, hpc, hstep⟩ := hpass
  obtain ⟨m, st', hst', hrest⟩ := h.ends 5 st hst (Or.inl hpc)
  cases m with
  | zero =>
    rw [hst] at hst'
    cases hst'
    rcases hrest with hs | hs | hs | ⟨-, hs, -⟩
    · rw [hpc] at hs
      cases hs
    · rw [hpc] at hs
      cases hs
    · rw [hpc] at hs
      cases hs
    · rw [hstep] at hs
      cases hs
  | succ m =>
    rw [show 5 + (m + 1) = 6 + m by omega, runs_none hnone m] at hst'
    cases hst'

/-! ## Hygiene -/

/-- What the steps assert of the fetch and of the object when they begin. -/
structure EntryAsserts (st : Cnt) : Prop where
  fetch : st.step = .fetch →
    st.vbc = false ∧ st.hContentLength = false ∧ st.doClose = false ∧ st.storageHint = false ∧ st.obj = none ∧
      st.objcore.all (·.busy) = true
  fetchbody : st.step = .fetchbody → st.vfp = false ∧ (st.handling = .hitForPass ∨ st.handling = .deliver)
  prepresp : st.step = .prepresp → st.obj.isSome = true
  deliver : st.step = .deliver → st.obj.isSome = true ∧ st.objcore = none
  error : st.step = .error → st.obj = none ∧ st.objcore = none
  done : st.step = .done → st.obj = none ∧ st.objcore = none ∧ st.vbc = false

/-- What `wrk_thread_real` asserts after a session, and no trace of a fetch. -/
structure WorkerClean (st : Cnt) : Prop extends NoFetch st where
  bereq : st.bereq = false
  resp : st.resp = false

/-- No assertion of a session fails, and each step finds what it asserts. -/
structure Hygienic (p : CntParams) (env : Nat → CntEnv) : Prop where
  runs : ∀ n, ∃ st, Cnt.accepted.runs p env n = some st
  entry : ∀ n st, Cnt.accepted.runs p env n = some st → st.pc = .run → EntryAsserts st
  worker : ∀ n st, Cnt.accepted.runs p env n = some st → st.frames = [] →
    (st.pc = .parked ∨ st.pc = .waiter ∨ st.pc = .gone) → WorkerClean st

lemma Fit.entry (h : Fit st) (hpc : st.pc = .run) : EntryAsserts st := by
  refine ⟨?_, ?_, ?_, ?_, ?_, ?_⟩
  · intro hs
    obtain ⟨hno, hfetch, -⟩ := h.at hpc hs
    exact ⟨hno.vbc, hno.hContentLength, hno.doClose, hno.storageHint, hfetch.obj, hfetch.busy⟩
  · intro hs
    obtain ⟨-, -, hvfp, hhandling⟩ := h.at hpc hs
    exact ⟨hvfp, hhandling⟩
  · intro hs
    have hfit : if st.doStream then Streaming st else Answer st := h.at hpc hs
    split at hfit
    · have hobj := hfit.obj
      cases ho : st.obj with
      | none =>
        rw [ho] at hobj
        cases hobj
      | some o => rfl
    · exact hfit.obj
  · intro hs
    have hfit : Answer st := h.at hpc hs
    exact ⟨hfit.obj, hfit.objcore⟩
  · intro hs
    obtain ⟨hask, -⟩ := h.at hpc hs
    exact ⟨hask.obj, hask.objcore⟩
  · intro hs
    obtain ⟨hno, hobj, hoc, -⟩ := h.at hpc hs
    exact ⟨hobj, hoc, hno.vbc⟩

lemma Fit.worker (h : Fit st) (hframes : st.frames = []) (hpc : st.pc = .parked ∨ st.pc = .waiter ∨ st.pc = .gone) :
    WorkerClean st := by
  rcases hpc with hpc | hpc | hpc
  · obtain ⟨-, hask, hbereq, -⟩ := h.parked hpc
    exact ⟨hask.toNoFetch, hbereq, hask.quiet hframes⟩
  · have hfresh := h.waiter hpc
    exact ⟨hfresh.toNoFetch, hfresh.bereq, hfresh.resp⟩
  · obtain ⟨hno, hbereq, hresp⟩ := h.gone hpc
    exact ⟨hno, hbereq, hresp⟩

theorem session_hygiene (h : SoundRun p env Cnt.accepted) : Hygienic p env := by
  have hfit : ∀ n st, Cnt.accepted.runs p env n = some st → Fit st := by
    intro n st hst
    obtain ⟨st', hst', hfit⟩ := runs_fit fit_accepted h n
    rw [hst] at hst'
    cases hst'
    exact hfit
  refine ⟨?_, ?_, ?_⟩
  · intro n
    obtain ⟨st, hst, -⟩ := runs_fit fit_accepted h n
    exact ⟨st, hst⟩
  · intro n st hst hpc
    exact (hfit n st hst).entry hpc
  · intro n st hst hframes hpc
    exact (hfit n st hst).worker hframes hpc

theorem session_hygiene_fetch :
    SoundRun defaultParams fetchStreams Cnt.accepted ∧ Hygienic defaultParams fetchStreams ∧
      ∃ st, Cnt.accepted.runs defaultParams fetchStreams 18 = some st ∧ st.step = .streambody ∧ st.vbc = true := by
  have h : SoundRun defaultParams fetchStreams Cnt.accepted := fun n st _ => fetchStreams_sound _ n st
  exact ⟨h, session_hygiene h, _, rfl, rfl, rfl⟩

/-- `vcl_miss` restarts. -/
def missRestarts : CntEnv := { fetchRestarts with miss := ⟨.restart, by decide⟩ }

theorem miss_restart_incompl : ¬ Hygienic defaultParams (fun _ => missRestarts) := by
  intro h
  have hnone : Cnt.accepted.runs defaultParams (fun _ => missRestarts) 7 = none := rfl
  obtain ⟨st, hst⟩ := h.runs 7
  rw [hnone] at hst
  cases hst

/-! ## References -/

/-- Each reference is held in one place or was given back, once; `cnt_done` finds none; and there is an end. -/
structure RefsReleased (p : CntParams) (env : Nat → CntEnv) : Prop where
  once : ∀ n st, Cnt.accepted.runs p env n = some st → ∀ r < st.nref,
    Released r (history st.ledger r) ∨ ∃ b, (r, b) ∈ heldRefs st ∧ Holding r b (history st.ledger r)
  place : ∀ n st, Cnt.accepted.runs p env n = some st → ((heldRefs st).map Prod.fst).Nodup
  done : ∀ n st, Cnt.accepted.runs p env n = some st → st.pc = .run → st.step = .done → st.obj = none ∧ st.objcore = none
  all : ∀ n st, Cnt.accepted.runs p env n = some st → st.pc = .run → st.step = .done → st.frames = [] →
    ∀ r < st.nref, Released r (history st.ledger r)
  ends : ∀ n st, Cnt.accepted.runs p env n = some st → (st.pc = .run ∨ ∃ k, st.pc = .write k) →
    Settles p env st.frames n

lemma Balanced.once {k : RefBook} (h : Balanced k) {r : Nat} (hr : r < k.nref) :
    Released r (history k.ledger r) ∨ ∃ b, (r, b) ∈ k.held ∧ Holding r b (history k.ledger r) := by
  by_cases hmem : r ∈ k.held.map Prod.fst
  · obtain ⟨x, hx, rfl⟩ := List.mem_map.mp hmem
    exact Or.inr ⟨x.2, hx, h.held x hx⟩
  · exact Or.inl (h.out r hr hmem)

theorem refs_released (h : KeptRun p env Cnt.accepted) : RefsReleased p env := by
  have hdone : ∀ n st, Cnt.accepted.runs p env n = some st → st.pc = .run → st.step = .done →
      st.obj = none ∧ st.objcore = none := by
    intro n st hst hpc hstep
    have hown := (runs_own h hst).1
    exact ⟨hown.obj_none hpc hstep rfl, hown.objcore_none hpc hstep rfl⟩
  refine ⟨?_, ?_, hdone, ?_, fun n st => settles⟩
  · intro n st hst r hr
    exact (runs_own h hst).1.book.once hr
  · intro n st hst
    exact (runs_own h hst).1.book.nodup
  · intro n st hst hpc hstep hframes r hr
    obtain ⟨hobj, hoc⟩ := hdone n st hst hpc hstep
    refine (runs_own h hst).1.book.out r hr ?_
    simp [refBook, heldRefs, hobj, hoc, hframes]

theorem refs_released_fetch :
    KeptRun defaultParams (fun _ => fetchRestarts) Cnt.accepted ∧ RefsReleased defaultParams (fun _ => fetchRestarts) := by
  have h : KeptRun defaultParams (fun _ => fetchRestarts) Cnt.accepted := by
    intro n st _ _ _ hnew
    cases hnew
  exact ⟨h, refs_released h⟩

/-- A miss is fetched, and the storage has no space for an object. -/
def outOfObjects : CntEnv := { fetchRestarts with fetch := ⟨.deliver, by decide⟩, newObject := false }

theorem out_of_objects_leak : ¬ RefsReleased defaultParams (fun _ => outOfObjects) := by
  intro h
  have hleak : ∃ st, Cnt.accepted.runs defaultParams (fun _ => outOfObjects) 10 = some st ∧ st.pc = .run ∧
      st.step = .done ∧ st.objcore ≠ none := by
    refine ⟨_, rfl, rfl, rfl, ?_⟩
    intro hs
    cases hs
  obtain ⟨st, hst, hpc, hstep, hoc⟩ := hleak
  exact hoc (h.done 10 st hst hpc hstep).2

end VarnishCache.Proofs
