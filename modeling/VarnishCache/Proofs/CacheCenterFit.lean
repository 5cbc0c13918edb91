import VarnishCache.Proofs.CacheCenterMoves

/-!
# The assertions of the steps

What the fields of a session and its worker are at each step. A step from such a state does not fail an assertion,
where it meets `Sound`: VCL does not return what `cnt_miss`, `cnt_pass`, `cnt_pipe` and an include cannot do,
`cnt_fetchbody` gets to its object, and a filtered stream is not restarted.
-/

namespace VarnishCache.Proofs

open Cnt

variable {p : CntParams} {e : CntEnv} {st st' : Cnt}

/-- What a step has to meet. -/
def Sound (p : CntParams) (e : CntEnv) (st : Cnt) : Prop :=
  st.pc = .run →
    (st.step = .miss → e.miss.val ≠ .restart) ∧ (st.step = .pass → e.pass.val ≠ .restart) ∧
    (st.step = .pipe → e.pipe.val ≠ .error) ∧
    (st.step = .recv → e.recv.val = .pipe → st.restarts < p.maxRestarts → st.frames = []) ∧
    (st.step = .fetchbody → e.newObject = true ∧ (st.objcore.isSome = true → e.badVary = false)) ∧
    (st.step = .prepresp → e.deliver.val = .restart → st.restarts < p.maxRestarts → st.doStream = true → st.vfp = false)

instance : Decidable (Sound p e st) := by
  unfold Sound
  infer_instance

/-! ## The states at the steps -/

/-- No fetch is under way. -/
structure NoFetch (st : Cnt) : Prop where
  vbc : st.vbc = false
  doClose : st.doClose = false
  hContentLength : st.hContentLength = false
  storageHint : st.storageHint = false
  vfp : st.vfp = false
  beresp : st.beresp = false

/-- Between requests. -/
structure Fresh (st : Cnt) : Prop extends NoFetch st where
  obj : st.obj = none
  objcore : st.objcore = none
  bereq : st.bereq = false
  director : st.director = false
  vcl : st.vcl = false
  xid : st.xid = false
  frames : st.frames = []
  resp : st.resp = false
  restarts : st.restarts = 0
  flags : st.flagsClear = true

/-- A request without an object. -/
structure Asking (st : Cnt) : Prop extends NoFetch st where
  obj : st.obj = none
  objcore : st.objcore = none
  vcl : st.vcl = true
  quiet : st.frames = [] → st.resp = false

/-- A request that has a busy objcore, or passes. -/
structure Fetching (st : Cnt) : Prop where
  obj : st.obj = none
  busy : st.objcore.all (·.busy) = true
  nbusyobj : st.objcore.isSome = true → st.nbusyobj = false
  vcl : st.vcl = true
  director : st.director = true
  quiet : st.frames = [] → st.resp = false

/-- An object to be delivered, and no fetch. -/
structure Answer (st : Cnt) : Prop extends NoFetch st where
  obj : st.obj.isSome = true
  objcore : st.objcore = none
  vcl : st.vcl = true
  bereq : st.bereq = false

/-- An object to be delivered while it is fetched. -/
structure Streaming (st : Cnt) : Prop where
  obj : st.obj.any CntObj.passOrBusy = true
  nbusyobj : ∀ oc, st.obj = some (.core oc) → st.nbusyobj = false
  objcore : st.objcore = none
  vcl : st.vcl = true
  vbc : st.vbc = true
  director : st.director = true
  storageHint : st.storageHint = false
  frames : st.frames = []
  wantbody : st.wantbody = true

def FitAt : Stp → Cnt → Prop
  | .first, st | .wait, st | .start, st => Fresh st
  | .recv, st => Asking st ∧ st.bereq = false ∧ st.director = false
  | .lookup, st => Asking st ∧ st.bereq = false ∧ st.director = true ∧ st.flagsClear = true
  | .pipe, st => Asking st ∧ st.director = true ∧ st.frames = []
  | .pass, st => Asking st ∧ st.director = true ∧ st.flagsClear = true
  | .error, st => Asking st ∧ st.bereq = false
  | .done, st =>
    NoFetch st ∧ st.obj = none ∧ st.objcore = none ∧ st.bereq = false ∧ (st.frames ≠ [] → st.vcl = true) ∧
      (st.frames = [] → st.resp = false)
  | .miss, st => NoFetch st ∧ Fetching st ∧ st.objcore.isSome = true ∧ st.flagsClear = true
  | .fetch, st => NoFetch st ∧ Fetching st ∧ st.flagsClear = true
  | .fetchbody, st =>
    Fetching st ∧ st.vbc = true ∧ st.vfp = false ∧ (st.handling = .hitForPass ∨ st.handling = .deliver)
  | .hit, st =>
    Answer st ∧ st.director = true ∧ st.flagsClear = true ∧ (st.frames = [] → st.resp = false) ∧
      ∃ oc, st.obj = some (.core oc) ∧ oc.pass = false
  | .prepresp, st => if st.doStream then Streaming st else Answer st
  | .streambody, st => Streaming st
  | .deliver, st => Answer st

structure Fit (st : Cnt) : Prop where
  vary : st.hashObjhead = st.varyB
  frames : ∀ f ∈ st.frames, f.obj.isSome = true
  run : st.pc = .run → FitAt st.step st
  write : ∀ n, st.pc = .write n → Answer st
  parked : st.pc = .parked → st.step = .lookup ∧ FitAt .lookup st
  queued : st.pc = .queued → st.step = .first ∧ Fresh st
  waiter : st.pc = .waiter → Fresh st
  gone : st.pc = .gone → NoFetch st ∧ st.bereq = false ∧ st.resp = false

/-- What stays in a step: the reservation for `Vary`, and the includes around. -/
def Around (st : Cnt) : Prop := st.hashObjhead = st.varyB ∧ ∀ f ∈ st.frames, f.obj.isSome = true

lemma Fit.around (h : Fit st) : Around st := ⟨h.vary, h.frames⟩

lemma Fit.at {s : Stp} (h : Fit st) (hpc : st.pc = .run) (hstep : st.step = s) : FitAt s st := by
  rw [← hstep]
  exact h.run hpc

lemma Fit.of_run (s : Stp) (haround : Around st) (hpc : st.pc = .run) (hstep : st.step = s) (h : FitAt s st) :
    Fit st := by
  refine ⟨haround.1, haround.2, ?_, ?_, ?_, ?_, ?_, ?_⟩
  · intro _
    rw [hstep]
    exact h
  all_goals
    rw [hpc]
    intros
    contradiction

lemma NoFetch.of_eq (h : NoFetch st) (h1 : st'.vbc = st.vbc) (h2 : st'.doClose = st.doClose)
    (h3 : st'.hContentLength = st.hContentLength) (h4 : st'.storageHint = st.storageHint) (h5 : st'.vfp = st.vfp)
    (h6 : st'.beresp = st.beresp) : NoFetch st' :=
  ⟨h1.trans h.vbc, h2.trans h.doClose, h3.trans h.hContentLength, h4.trans h.storageHint, h5.trans h.vfp,
    h6.trans h.beresp⟩

/-! ## What the steps call -/

lemma Answer.hshDeref {c : Cnt} (h : c.obj.isSome = true) :
    ∃ b l, c.hshDeref = some { c with obj := none, nbusyobj := b, ledger := l } := by
  cases hobj : c.obj with
  | none =>
    rw [hobj] at h
    cases h
  | some o =>
    cases o with
    | anon r => exact ⟨c.nbusyobj, .deref r :: c.ledger, by simp [Cnt.hshDeref, hobj]⟩
    | core oc => exact ⟨c.nbusyobj || oc.busy, .deref oc.ref :: c.ledger, by simp [Cnt.hshDeref, hobj]⟩

/-- A new object takes over the busy objcore, if there is one. -/
lemma Fetching.stvNewObject (h : Fetching st) :
    ∃ o r l, st.stvNewObject = { st with obj := some o, objcore := none, nref := r, ledger := l } ∧
      o.passOrBusy = true ∧ ∀ oc, o = .core oc → st.nbusyobj = false := by
  cases hoc : st.objcore with
  | none =>
    refine ⟨.anon st.nref, st.nref + 1, .get st.nref false :: st.ledger, ?_, rfl, ?_⟩
    · simp only [Cnt.stvNewObject, hoc]
    · intro oc h
      cases h
  | some oc =>
    have hb := h.busy
    have hn := h.nbusyobj (by rw [hoc]; rfl)
    rw [hoc] at hb
    refine ⟨.core oc, st.nref, st.ledger, ?_, hb, fun _ _ => hn⟩
    simp only [Cnt.stvNewObject, hoc]

/-- An object that is busy or has no objcore can be dropped. -/
lemma hshDrop_eq {c : Cnt} {o : CntObj} (hobj : c.obj = some o) (hbusy : o.passOrBusy = true)
    (hn : ∀ oc, o = .core oc → c.nbusyobj = false) :
    ∃ b l, c.hshDrop = some { c with obj := none, nbusyobj := b, ledger := l } := by
  cases o with
  | anon r =>
    refine ⟨c.nbusyobj, .deref r :: c.ledger, ?_⟩
    simp only [Cnt.hshDrop, Cnt.hshDeref, hobj]
  | core oc =>
    have hb : oc.busy = true := hbusy
    refine ⟨true, .deref oc.ref :: .unbusy oc.ref :: c.ledger, ?_⟩
    simp [Cnt.hshDrop, Cnt.hshUnbusy, Cnt.hshDeref, hobj, hb, hn oc rfl]

lemma hshDerefOc_eq (st : Cnt) : ∃ b l, st.hshDerefOc = { st with objcore := none, nbusyobj := b, ledger := l } := by
  cases hoc : st.objcore with
  | none =>
    refine ⟨st.nbusyobj, st.ledger, ?_⟩
    rw [Cnt.hshDerefOc, hoc]
    dsimp only
    rw [← hoc]
  | some oc =>
    refine ⟨st.nbusyobj || oc.busy, .deref oc.ref :: st.ledger, ?_⟩
    rw [Cnt.hshDerefOc, hoc]

/-! ## The steps keep their assertions -/

lemma leave_fit (h : Fresh st) (haround : Around st) : ∃ st', st.leave .waiter = some st' ∧ Fit st' := by
  refine ⟨{ st with pc := .waiter }, ?_, haround.1, haround.2, ?_, ?_, ?_, ?_, ?_, ?_⟩
  · simp [Cnt.leave, h.flags, h.bereq, h.beresp, h.resp, h.storageHint]
  · intro hpc
    cases hpc
  · intro n hpc
    cases hpc
  · intro hpc
    cases hpc
  · intro hpc
    cases hpc
  · intro _
    exact ⟨h.toNoFetch.of_eq rfl rfl rfl rfl rfl rfl, h.obj, h.objcore, h.bereq, h.director, h.vcl, h.xid, h.frames,
      h.resp, h.restarts, h.flags⟩
  · intro hpc
    cases hpc

/-- A session between requests, at another step. -/
lemma Fresh.fit (s : Stp) (h : Fresh st) (haround : Around st) (hpc : st.pc = .run)
    (hfit : ∀ st, Fresh st → FitAt s st) :
    Fit { st with step := s } :=
  .of_run s haround hpc rfl (hfit _ ⟨h.toNoFetch.of_eq rfl rfl rfl rfl rfl rfl, h.obj, h.objcore, h.bereq, h.director,
    h.vcl, h.xid, h.frames, h.resp, h.restarts, h.flags⟩)

lemma Fresh.done (h : Fresh st) : FitAt .done st :=
  ⟨h.toNoFetch, h.obj, h.objcore, h.bereq, fun hne => absurd h.frames hne, fun _ => h.resp⟩

lemma cntWait_fit (hpc : st.pc = .run) (h : Fresh st) (haround : Around st) :
    ∃ st', st.cntWait e = some st' ∧ Fit st' := by
  unfold Cnt.cntWait
  rw [if_pos (by simp [h.vcl, h.obj, h.xid])]
  cases e.rx with
  | incomplete => exact leave_fit h haround
  | complete => exact ⟨_, rfl, h.fit .start haround hpc (fun _ => id)⟩
  | failed =>
    refine ⟨_, rfl, .of_run .done haround hpc rfl (Fresh.done ?_)⟩
    exact ⟨h.toNoFetch.of_eq rfl rfl rfl rfl rfl rfl, h.obj, h.objcore, h.bereq, h.director, h.vcl, h.xid, h.frames,
      h.resp, h.restarts, h.flags⟩

lemma cntFirst_fit (hpc : st.pc = .run) (h : Fresh st) (haround : Around st) :
    ∃ st', st.cntFirst = some st' ∧ Fit st' := by
  unfold Cnt.cntFirst
  rw [if_pos (by simp [h.xid, h.restarts])]
  exact ⟨_, rfl, h.fit .wait haround hpc (fun _ => id)⟩

lemma cntStart_fit (hpc : st.pc = .run) (h : Fresh st) (haround : Around st) :
    ∃ st', st.cntStart e = some st' ∧ Fit st' := by
  unfold Cnt.cntStart
  rw [if_pos (by simp [h.vcl, h.obj, h.restarts])]
  dsimp only
  have hask : ∀ st', NoFetch st' → st'.obj = st.obj → st'.objcore = st.objcore → st'.vcl = true → st'.resp = st.resp →
      Asking st' := by
    intro st' hno hobj hoc hvcl hresp
    exact ⟨hno, hobj.trans h.obj, hoc.trans h.objcore, hvcl, fun _ => hresp.trans h.resp⟩
  have hno : ∀ st', st'.vbc = st.vbc → st'.doClose = st.doClose → st'.hContentLength = st.hContentLength →
      st'.storageHint = st.storageHint → st'.vfp = st.vfp → st'.beresp = st.beresp → NoFetch st' := by
    intro st' h1 h2 h3 h4 h5 h6
    exact h.toNoFetch.of_eq h1 h2 h3 h4 h5 h6
  cases e.dissected with
  | junk =>
    refine ⟨_, rfl, .of_run .done haround hpc rfl ⟨hno _ rfl rfl rfl rfl rfl rfl, h.obj, h.objcore, h.bereq, ?_, ?_⟩⟩
    · intro _
      rfl
    · intro _
      exact h.resp
  | status =>
    exact ⟨_, rfl, .of_run .error haround hpc rfl ⟨hask _ (hno _ rfl rfl rfl rfl rfl rfl) rfl rfl rfl rfl, h.bereq⟩⟩
  | ok =>
    cases e.expect with
    | true =>
      exact ⟨_, rfl, .of_run .error haround hpc rfl ⟨hask _ (hno _ rfl rfl rfl rfl rfl rfl) rfl rfl rfl rfl, h.bereq⟩⟩
    | false =>
      exact ⟨_, rfl, .of_run .recv haround hpc rfl ⟨hask _ (hno _ rfl rfl rfl rfl rfl rfl) rfl rfl rfl rfl, h.bereq,
        h.director⟩⟩

lemma recv_cases (r : VclMet.Ret .recv) : r.val = .error ∨ r.val = .pass ∨ r.val = .pipe ∨ r.val = .lookup := by
  simpa [VclMet.returns] using r.2

/-- A request with other fields that have nothing to do with fetching. -/
lemma Asking.of_eq (h : Asking st) (hno : NoFetch st') (hobj : st'.obj = st.obj) (hoc : st'.objcore = st.objcore)
    (hvcl : st'.vcl = st.vcl) (hresp : st'.resp = st.resp) (hframes : st'.frames = st.frames) : Asking st' := by
  refine ⟨hno, hobj.trans h.obj, hoc.trans h.objcore, hvcl.trans h.vcl, ?_⟩
  rw [hframes, hresp]
  exact h.quiet

lemma cntRecv_fit (hpc : st.pc = .run) (h : FitAt .recv st) (haround : Around st)
    (hsound : e.recv.val = .pipe → st.restarts < p.maxRestarts → st.frames = []) :
    ∃ st', st.cntRecv p e = some st' ∧ Fit st' := by
  obtain ⟨hask, hbereq, hdir⟩ := h
  unfold Cnt.cntRecv
  rw [if_pos (by simp [hask.vcl, hask.obj, hdir])]
  dsimp only
  split
  · exact ⟨_, rfl, .of_run .error haround hpc rfl
      ⟨hask.of_eq (hask.toNoFetch.of_eq rfl rfl rfl rfl rfl rfl) rfl rfl rfl rfl rfl, hbereq⟩⟩
  · rename_i hleft
    rcases recv_cases e.recv with hr | hr | hr | hr
    · rw [hr]
      exact ⟨_, rfl, .of_run .error haround hpc rfl
        ⟨hask.of_eq (hask.toNoFetch.of_eq rfl rfl rfl rfl rfl rfl) rfl rfl rfl rfl rfl, hbereq⟩⟩
    · rw [hr]
      exact ⟨_, rfl, .of_run .pass haround hpc rfl
        ⟨hask.of_eq (hask.toNoFetch.of_eq rfl rfl rfl rfl rfl rfl) rfl rfl rfl rfl rfl, rfl, rfl⟩⟩
    · have hframes := hsound hr (Nat.lt_of_not_le hleft)
      rw [hr]
      dsimp only
      rw [if_pos (by simp [Cnt.clearFlags, hframes])]
      exact ⟨_, rfl, .of_run .pipe haround hpc rfl
        ⟨hask.of_eq (hask.toNoFetch.of_eq rfl rfl rfl rfl rfl rfl) rfl rfl rfl rfl rfl, rfl, hframes⟩⟩
    · rw [hr]
      exact ⟨_, rfl, .of_run .lookup haround hpc rfl
        ⟨hask.of_eq (hask.toNoFetch.of_eq rfl rfl rfl rfl rfl rfl) rfl rfl rfl rfl rfl, hbereq, rfl, rfl⟩⟩

lemma cntPipe_fit (hpc : st.pc = .run) (h : FitAt .pipe st) (haround : Around st) (hsound : e.pipe.val ≠ .error) :
    ∃ st', st.cntPipe e = some st' ∧ Fit st' := by
  obtain ⟨hask, hdir, hframes⟩ := h
  have hr : e.pipe.val = .pipe := by
    have hmem := e.pipe.2
    simp only [VclMet.returns, List.mem_cons, List.not_mem_nil, or_false] at hmem
    exact hmem.resolve_left hsound
  unfold Cnt.cntPipe
  rw [if_pos (by simp [hask.vcl, hdir]), hr]
  refine ⟨_, rfl, .of_run .done haround hpc rfl ⟨?_, hask.obj, hask.objcore, rfl, fun hne => absurd hframes hne,
    hask.quiet⟩⟩
  exact ⟨rfl, by simp [hask.doClose], hask.hContentLength, hask.storageHint, hask.vfp, hask.beresp⟩

lemma cntPass_fit (hpc : st.pc = .run) (h : FitAt .pass st) (haround : Around st) (hsound : e.pass.val ≠ .restart) :
    ∃ st', st.cntPass e = some st' ∧ Fit st' := by
  obtain ⟨hask, hdir, hflags⟩ := h
  have hr : e.pass.val = .error ∨ e.pass.val = .pass := by
    have hmem := e.pass.2
    simp only [VclMet.returns, List.mem_cons, List.not_mem_nil, or_false] at hmem
    rcases hmem with hr | hr | hr
    · exact Or.inl hr
    · exact absurd hr hsound
    · exact Or.inr hr
  unfold Cnt.cntPass
  rw [if_pos (by simp [hask.vcl, hask.obj])]
  dsimp only
  rcases hr with hr | hr
  · rw [hr]
    exact ⟨_, rfl, .of_run .error haround hpc rfl
      ⟨hask.of_eq (hask.toNoFetch.of_eq rfl rfl rfl rfl rfl rfl) rfl rfl rfl rfl rfl, rfl⟩⟩
  · rw [hr]
    refine ⟨_, rfl, .of_run .fetch haround hpc rfl ⟨hask.toNoFetch.of_eq rfl rfl rfl rfl rfl rfl, ?_, hflags⟩⟩
    refine ⟨hask.obj, ?_, ?_, hask.vcl, hdir, hask.quiet⟩
    · simp [hask.objcore]
    · simp [hask.objcore]

lemma cntMiss_fit (hpc : st.pc = .run) (h : FitAt .miss st) (haround : Around st) (hsound : e.miss.val ≠ .restart) :
    ∃ st', st.cntMiss e = some st' ∧ Fit st' := by
  obtain ⟨hno, hfetch, hsome, hflags⟩ := h
  have hr : e.miss.val = .error ∨ e.miss.val = .pass ∨ e.miss.val = .fetch := by
    have hmem := e.miss.2
    simp only [VclMet.returns, List.mem_cons, List.not_mem_nil, or_false] at hmem
    rcases hmem with hr | hr | hr
    · exact Or.inl hr
    · exact absurd hr hsound
    · exact Or.inr hr
  unfold Cnt.cntMiss
  rw [if_pos (by simp [hfetch.vcl, hfetch.obj, hsome])]
  dsimp only
  obtain ⟨b, l, hderef⟩ := hshDerefOc_eq { st with bereq := true, handling := e.miss }
  rcases hr with hr | hr | hr
  · rw [hr, ← hr, hderef]
    dsimp only
    rw [hr]
    refine ⟨_, rfl, .of_run .error haround hpc rfl ⟨⟨hno.of_eq rfl rfl rfl rfl rfl rfl, hfetch.obj, rfl, hfetch.vcl,
      hfetch.quiet⟩, rfl⟩⟩
  · rw [hr, ← hr, hderef]
    dsimp only
    rw [hr]
    refine ⟨_, rfl, .of_run .pass haround hpc rfl ⟨⟨hno.of_eq rfl rfl rfl rfl rfl rfl, hfetch.obj, rfl, hfetch.vcl,
      hfetch.quiet⟩, hfetch.director, hflags⟩⟩
  · rw [hr]
    refine ⟨_, rfl, .of_run .fetch haround hpc rfl ⟨hno.of_eq rfl rfl rfl rfl rfl rfl, ?_, hflags⟩⟩
    exact ⟨hfetch.obj, hfetch.busy, hfetch.nbusyobj, hfetch.vcl, hfetch.director, hfetch.quiet⟩

lemma cntHit_fit (hpc : st.pc = .run) (h : FitAt .hit st) (haround : Around st) :
    ∃ st', st.cntHit e = some st' ∧ Fit st' := by
  obtain ⟨hans, hdir, hflags, hquiet, oc, hobj, hpass⟩ := h
  have hstream : st.doStream = false := by
    have hf := hflags
    simp only [Cnt.flagsClear, Bool.and_eq_true, Bool.not_eq_true'] at hf
    exact hf.1.1.1.1.1
  have hr : e.hit.val = .error ∨ e.hit.val = .restart ∨ e.hit.val = .pass ∨ e.hit.val = .deliver := by
    simpa [VclMet.returns] using e.hit.2
  obtain ⟨b, l, hderef⟩ := Answer.hshDeref (c := { st with handling := e.hit }) hans.obj
  have hask : ∀ s : Stp, Asking { st with
      handling := e.hit, obj := none, nbusyobj := b, ledger := l, objcore := none, step := s } := by
    intro s
    exact ⟨hans.toNoFetch.of_eq rfl rfl rfl rfl rfl rfl, rfl, rfl, hans.vcl, hquiet⟩
  unfold Cnt.cntHit
  split
  · rename_i oc' hobj'
    obtain rfl : oc' = oc := by
      rw [hobj] at hobj'
      cases hobj'
      rfl
    rw [if_pos (by simp [hans.vcl, hpass, hstream])]
    dsimp only
    rcases hr with hr | hr | hr | hr
    · simp only [hr] at hderef hask ⊢
      rw [hderef]
      exact ⟨_, rfl, .of_run .error haround hpc rfl ⟨hask .error, hans.bereq⟩⟩
    · simp only [hr] at hderef hask ⊢
      rw [hderef]
      exact ⟨_, rfl, .of_run .recv haround hpc rfl ⟨(hask .recv).of_eq
        (hans.toNoFetch.of_eq rfl rfl rfl rfl rfl rfl) rfl rfl rfl rfl rfl, hans.bereq, rfl⟩⟩
    · simp only [hr] at hderef hask ⊢
      rw [hderef]
      exact ⟨_, rfl, .of_run .pass haround hpc rfl ⟨hask .pass, hdir, hflags⟩⟩
    · simp only [hr]
      refine ⟨_, if_pos (by simp [hans.bereq, hans.beresp]), .of_run .prepresp haround hpc rfl ?_⟩
      simp only [FitAt, hstream]
      exact ⟨hans.toNoFetch.of_eq rfl rfl rfl rfl rfl rfl, hans.obj, hans.objcore, hans.vcl, hans.bereq⟩
  · rename_i hne
    exact absurd hobj (hne oc)

lemma cntLookup_fit (hpc : st.pc = .run) (hstep : st.step = .lookup) (h : FitAt .lookup st) (haround : Around st) :
    ∃ st', st.cntLookup e = some st' ∧ Fit st' := by
  obtain ⟨hask, hbereq, hdir, hflags⟩ := h
  unfold Cnt.cntLookup
  rw [if_pos (by simp [hask.vcl, hdir, hask.objcore, haround.1])]
  cases e.lookup with
  | park =>
    have hparked : Fit { st with nbusyobj := true, hashObjhead := true, varyB := true, pc := .parked } := by
      refine ⟨rfl, haround.2, ?_, ?_, ?_, ?_, ?_, ?_⟩
      · intro hn
        cases hn
      · intro n hn
        cases hn
      · intro _
        exact ⟨hstep, hask.of_eq (hask.toNoFetch.of_eq rfl rfl rfl rfl rfl rfl) rfl rfl rfl rfl rfl, hbereq, hdir, hflags⟩
      all_goals
        intro hn
        cases hn
    dsimp only
    split
    · rename_i hempty
      have hresp := hask.quiet (List.isEmpty_iff.mp hempty)
      refine ⟨_, ?_, hparked⟩
      unfold Cnt.leave
      rw [if_pos]
      simp only [Bool.and_eq_true, Bool.not_eq_true']
      exact ⟨⟨⟨⟨hflags, hbereq⟩, hask.beresp⟩, hresp⟩, hask.storageHint⟩
    · exact ⟨_, if_pos hflags, hparked⟩
  | busy =>
    refine ⟨_, rfl, .of_run .miss ⟨rfl, haround.2⟩ hpc rfl ⟨hask.toNoFetch.of_eq rfl rfl rfl rfl rfl rfl, ?_, rfl, hflags⟩⟩
    exact ⟨hask.obj, rfl, fun _ => rfl, hask.vcl, hdir, hask.quiet⟩
  | hit pass =>
    cases pass with
    | true =>
      exact ⟨_, rfl, .of_run .pass ⟨rfl, haround.2⟩ hpc rfl
        ⟨⟨hask.toNoFetch.of_eq rfl rfl rfl rfl rfl rfl, rfl, rfl, hask.vcl, hask.quiet⟩, hdir, hflags⟩⟩
    | false =>
      refine ⟨_, rfl, .of_run .hit ⟨rfl, haround.2⟩ hpc rfl ⟨?_, hdir, hflags, hask.quiet, _, rfl, rfl⟩⟩
      exact ⟨hask.toNoFetch.of_eq rfl rfl rfl rfl rfl rfl, rfl, hask.objcore, hask.vcl, hbereq⟩

/-- After a failed fetch. -/
lemma Fetching.cleanup {c : Cnt} (h : Fetching c) (hvbc : c.vbc = false) (hclose : c.doClose = false)
    (hvfp : c.vfp = false) :
    Asking c.fetchCleanup ∧ c.fetchCleanup.bereq = false ∧ c.fetchCleanup.director = false := by
  obtain ⟨b, l, hderef⟩ := hshDerefOc_eq c
  unfold Cnt.fetchCleanup
  rw [hderef]
  exact ⟨⟨⟨hvbc, hclose, rfl, rfl, hvfp, rfl⟩, h.obj, rfl, h.vcl, h.quiet⟩, rfl, rfl⟩

lemma fetchCleanup_around (h : Around st) : Around st.fetchCleanup := by
  obtain ⟨b, l, hderef⟩ := hshDerefOc_eq st
  unfold Cnt.fetchCleanup
  rw [hderef]
  exact h

lemma fetchHdr_fit {c : Cnt} (h : Fetching c) (r : FetchHdrRes) :
    c.fetchHdr r = some { c with vbc := decide (r = .ok) } := by
  unfold Cnt.fetchHdr
  rw [if_pos]
  simp only [Bool.and_eq_true]
  exact ⟨⟨h.director, by rw [h.obj]; rfl⟩, h.busy⟩

lemma fetchReturn_fit (hpc : st.pc = .run) (h : Fetching st) (haround : Around st) (hvbc : st.vbc = true)
    (hvfp : st.vfp = false) (hhandling : st.handling = e.fetch.val) : ∃ st', st.fetchReturn e = some st' ∧ Fit st' := by
  have hr : e.fetch.val = .error ∨ e.fetch.val = .restart ∨ e.fetch.val = .hitForPass ∨ e.fetch.val = .deliver := by
    simpa [VclMet.returns] using e.fetch.2
  have hclosed : st.vdiCloseFd = some { st with vbc := false, doClose := false } := if_pos hvbc
  obtain ⟨hask, hbereq, hdir⟩ := Fetching.cleanup (c := { st with vbc := false, doClose := false })
    ⟨h.obj, h.busy, h.nbusyobj, h.vcl, h.director, h.quiet⟩ rfl rfl hvfp
  have hplace := fetchCleanup_place { st with vbc := false, doClose := false }
  have haround' : Around (Cnt.fetchCleanup { st with vbc := false, doClose := false }) := fetchCleanup_around haround
  unfold Cnt.fetchReturn
  rcases hr with hr | hr | hr | hr
  · rw [hr, hclosed]
    refine ⟨_, rfl, .of_run .error haround' (hplace.pc.trans hpc) rfl ⟨?_, hbereq⟩⟩
    exact hask.of_eq (hask.toNoFetch.of_eq rfl rfl rfl rfl rfl rfl) rfl rfl rfl rfl rfl
  · rw [hr, hclosed]
    refine ⟨_, rfl, .of_run .recv haround' (hplace.pc.trans hpc) rfl ⟨?_, hbereq, hdir⟩⟩
    exact hask.of_eq (hask.toNoFetch.of_eq rfl rfl rfl rfl rfl rfl) rfl rfl rfl rfl rfl
  · rw [hr] at hhandling ⊢
    refine ⟨_, rfl, .of_run .fetchbody haround hpc rfl ⟨?_, hvbc, hvfp, Or.inl hhandling⟩⟩
    refine ⟨h.obj, ?_, ?_, h.vcl, h.director, h.quiet⟩
    · have hb := h.busy
      cases hoc : st.objcore with
      | none => rfl
      | some oc =>
        rw [hoc] at hb
        exact hb
    · intro hsome
      refine h.nbusyobj ?_
      rwa [Option.isSome_map] at hsome
  · rw [hr] at hhandling ⊢
    refine ⟨_, if_pos h.busy, .of_run .fetchbody haround hpc rfl ⟨?_, hvbc, hvfp, Or.inr hhandling⟩⟩
    exact ⟨h.obj, h.busy, h.nbusyobj, h.vcl, h.director, h.quiet⟩

lemma cntFetch_fit (hpc : st.pc = .run) (h : FitAt .fetch st) (haround : Around st) :
    ∃ st', st.cntFetch e = some st' ∧ Fit st' := by
  obtain ⟨hno, hfetch, hflags⟩ := h
  have hesi : st.doEsi = false := by
    have hf := hflags
    simp only [Cnt.flagsClear, Bool.and_eq_true, Bool.not_eq_true'] at hf
    exact hf.1.1.1.1.2
  have hhdr : ∀ v r, Cnt.fetchHdr r { st with beresp := true, vbc := v } =
      some { st with beresp := true, vbc := decide (r = .ok) } := by
    intro v r
    exact fetchHdr_fit (c := { st with beresp := true, vbc := v })
      ⟨hfetch.obj, hfetch.busy, hfetch.nbusyobj, hfetch.vcl, hfetch.director, hfetch.quiet⟩ r
  obtain ⟨v, hv⟩ : ∃ v, (if e.fetchHdr = .retry then
      Cnt.fetchHdr e.fetchHdr' { st with beresp := true, vbc := decide (e.fetchHdr = .ok) }
      else some { st with beresp := true, vbc := decide (e.fetchHdr = .ok) }) =
        some { st with beresp := true, vbc := v } := by
    split
    · exact ⟨_, hhdr _ _⟩
    · exact ⟨_, rfl⟩
  unfold Cnt.cntFetch
  rw [if_pos (by simp [hfetch.vcl, hfetch.director, hno.vbc, hno.hContentLength, hno.doClose, hno.storageHint]),
    hhdr st.vbc e.fetchHdr, Option.bind_some, hv, Option.bind_some]
  cases v with
  | false =>
    obtain ⟨hask, hbereq, -⟩ := Fetching.cleanup (c := { st with beresp := true, vbc := false })
      ⟨hfetch.obj, hfetch.busy, hfetch.nbusyobj, hfetch.vcl, hfetch.director, hfetch.quiet⟩ rfl hno.doClose hno.vfp
    have hplace := fetchCleanup_place { st with beresp := true, vbc := false }
    refine ⟨_, rfl, .of_run .error (fetchCleanup_around haround) (hplace.pc.trans hpc) rfl ⟨?_, hbereq⟩⟩
    exact hask.of_eq (hask.toNoFetch.of_eq rfl rfl rfl rfl rfl rfl) rfl rfl rfl rfl rfl
  | true =>
    rw [if_neg (by simp), if_neg (by simp [hesi])]
    refine fetchReturn_fit ?_ ?_ ?_ ?_ ?_ ?_
    · exact hpc
    · exact ⟨hfetch.obj, hfetch.busy, hfetch.nbusyobj, hfetch.vcl, hfetch.director, hfetch.quiet⟩
    · exact haround
    · rfl
    · exact hno.vfp
    · rfl

lemma fetchbodyObject_fit (hpc : st.pc = .run) (h : Fetching st) (haround : Around st) (hvbc : st.vbc = true)
    (hstream : st.doStream = true → st.frames = [] ∧ st.wantbody = true) :
    ∃ st', st.fetchbodyObject e = some st' ∧ Fit st' := by
  obtain ⟨o, r, l, hnew, hbusy, hn⟩ := h.stvNewObject
  unfold Cnt.fetchbodyObject
  rw [hnew]
  dsimp only
  rw [if_pos (by simpa using hbusy)]
  split
  · rename_i hs
    simp only [Bool.and_eq_true] at hs
    obtain ⟨hframes, hbody⟩ := hstream hs.1
    refine ⟨_, rfl, .of_run .prepresp haround hpc rfl ?_⟩
    simp only [FitAt, hs.1, hs.2, Bool.and_self, if_true]
    refine ⟨hbusy, ?_, rfl, h.vcl, hvbc, h.director, rfl, hframes, hbody⟩
    intro oc hoc
    exact hn oc (Option.some.inj hoc)
  · rename_i hs
    rw [Bool.not_eq_true] at hs
    have hfetch : Cnt.fetchBody { st with
        obj := some o, objcore := none, nref := r, ledger := l, storageHint := false,
        doStream := st.doStream && !e.cond } =
        some { st with
          obj := some o, objcore := none, nref := r, ledger := l, storageHint := false, doStream := st.doStream && !e.cond,
          vbc := false, doClose := false, vfp := true } := by
      unfold Cnt.fetchBody
      rw [if_pos (by simp [h.director, hvbc, hbusy])]
    rw [hfetch, Option.bind_some]
    split
    · obtain ⟨b, l', hdrop⟩ := hshDrop_eq (c := { st with
        obj := some o, objcore := none, nref := r, ledger := l, storageHint := false, doStream := st.doStream && !e.cond,
        vbc := false, doClose := false, hContentLength := false, bereq := false, beresp := false, vfp := false })
        rfl hbusy hn
      rw [hdrop]
      exact ⟨_, rfl, .of_run .error haround hpc rfl
        ⟨⟨⟨rfl, rfl, rfl, rfl, rfl, rfl⟩, rfl, rfl, h.vcl, h.quiet⟩, rfl⟩⟩
    · cases o with
      | anon r' =>
        refine ⟨_, rfl, .of_run .prepresp haround hpc rfl ?_⟩
        simp only [FitAt, hs]
        exact ⟨⟨rfl, rfl, rfl, rfl, rfl, rfl⟩, rfl, rfl, h.vcl, rfl⟩
      | core oc =>
        have hb : oc.busy = true := hbusy
        simp only [Cnt.hshUnbusy, hb, hn oc rfl, Bool.not_false, Bool.and_self, if_true]
        refine ⟨_, rfl, .of_run .prepresp haround hpc rfl ?_⟩
        simp only [FitAt, hs]
        exact ⟨⟨rfl, rfl, rfl, rfl, rfl, rfl⟩, rfl, rfl, h.vcl, rfl⟩

lemma cntFetchbody_fit (hpc : st.pc = .run) (h : FitAt .fetchbody st) (haround : Around st) (hnew : e.newObject = true)
    (hvary : st.objcore.isSome = true → e.badVary = false) : ∃ st', st.cntFetchbody p e = some st' ∧ Fit st' := by
  obtain ⟨hfetch, hvbc, hvfp, hhandling⟩ := h
  have hboth : ¬ ((st.fetchFilter p e).doGzip && (st.fetchFilter p e).doGunzip) = true := by
    cases e.contentEncoding <;> simp_all [Cnt.fetchFilter]
  have hbad : ¬ ((st.fetchFilter p e).objcore.isSome && e.badVary) = true := by
    intro hand
    rw [Bool.and_eq_true] at hand
    rw [hvary hand.1] at hand
    cases hand.2
  unfold Cnt.cntFetchbody
  rw [if_pos (by rcases hhandling with hh | hh <;> simp [hh, hvfp])]
  dsimp only
  rw [if_neg hboth, if_neg hbad, if_pos hnew]
  refine fetchbodyObject_fit hpc ?_ haround hvbc ?_
  · exact ⟨hfetch.obj, hfetch.busy, hfetch.nbusyobj, hfetch.vcl, hfetch.director, hfetch.quiet⟩
  · intro hs
    simp only [Cnt.fetchFilter, Bool.and_eq_true, List.isEmpty_iff] at hs
    exact ⟨hs.1.1.2, hs.1.2⟩

lemma cntStreambody_fit (hpc : st.pc = .run) (h : FitAt .streambody st) (haround : Around st) :
    ∃ st', st.cntStreambody e = some st' ∧ Fit st' := by
  obtain ⟨hbusy, hn, hoc, hvcl, hvbc, hdir, hhint, hframes, hbody⟩ := h
  obtain ⟨o, hobj⟩ : ∃ o, st.obj = some o := by
    cases hobj : st.obj with
    | none =>
      rw [hobj] at hbusy
      cases hbusy
    | some o => exact ⟨o, rfl⟩
  rw [hobj] at hbusy hn
  have hdone : ∀ (o' : CntObj) (b dc : Bool) (l : List RefEv), ∃ st', (Cnt.hshDeref { st with
      obj := some o', nbusyobj := b, ledger := l, doclose := dc, vbc := false, doClose := false, hContentLength := false,
      bereq := false, beresp := false, vfp := false }).map (fun st => { st with
        director := false, restarts := 0, fd := st.fd && !e.writeFailed, resp := false, step := .done }) = some st' ∧
      Fit st' := by
    intro o' b dc l
    obtain ⟨b', l', hderef⟩ := Answer.hshDeref (c := { st with
      obj := some o', nbusyobj := b, ledger := l, doclose := dc, vbc := false, doClose := false, hContentLength := false,
      bereq := false, beresp := false, vfp := false }) rfl
    rw [hderef]
    exact ⟨_, rfl, .of_run .done haround hpc rfl
      ⟨⟨rfl, rfl, rfl, hhint, rfl, rfl⟩, rfl, hoc, rfl, fun hne => absurd hframes hne, fun _ => rfl⟩⟩
  unfold Cnt.cntStreambody
  rw [if_pos (by simp [hframes, hbody])]
  have hfetch : st.fetchBody = some { st with vbc := false, doClose := false, vfp := true } := by
    unfold Cnt.fetchBody
    rw [if_pos (by simpa [hdir, hvbc, hobj] using hbusy)]
  rw [hfetch, Option.bind_some]
  dsimp only
  split
  · have hcase := hdone o st.nbusyobj true st.ledger
    rw [← hobj] at hcase
    exact hcase
  · rw [hobj]
    cases o with
    | anon r =>
      have hcase := hdone (.anon r) st.nbusyobj st.doclose st.ledger
      exact hcase
    | core oc =>
      have hb : oc.busy = true := hbusy
      simp only [Cnt.hshUnbusy, hb, hn oc rfl, Bool.not_false, Bool.and_self, if_true]
      exact hdone (.core { oc with busy := false }) true st.doclose (.unbusy oc.ref :: st.ledger)

lemma cntPrepresp_fit (hpc : st.pc = .run) (h : FitAt .prepresp st) (haround : Around st)
    (hsound : e.deliver.val = .restart → st.restarts < p.maxRestarts → st.doStream = true → st.vfp = false) :
    ∃ st', st.cntPrepresp p e = some st' ∧ Fit st' := by
  have hr : e.deliver.val = .restart ∨ e.deliver.val = .deliver := by
    simpa [VclMet.returns] using e.deliver.2
  unfold Cnt.cntPrepresp
  cases hs : st.doStream with
  | true =>
    simp only [FitAt, hs, if_true] at h
    obtain ⟨hbusy, hn, hoc, hvcl, hvbc, hdir, hhint, hframes, hbody⟩ := h
    obtain ⟨o, hobj⟩ : ∃ o, st.obj = some o := by
      cases hobj : st.obj with
      | none =>
        rw [hobj] at hbusy
        cases hbusy
      | some o => exact ⟨o, rfl⟩
    have hsend : Fit { st with
        doclose := st.doclose || e.eofMode, resp := true, handling := e.deliver,
        step := .streambody, doStream := true } :=
      .of_run .streambody haround hpc rfl ⟨hbusy, hn, hoc, hvcl, hvbc, hdir, hhint, hframes, hbody⟩
    have hasserts : (st.vcl && (!true || st.obj.any CntObj.passOrBusy) && st.obj.isSome) = true := by
      simp only [Bool.and_eq_true, Bool.or_eq_true]
      exact ⟨⟨hvcl, Or.inr hbusy⟩, by rw [hobj]; rfl⟩
    rw [if_pos hasserts]
    simp only [if_true]
    rcases hr with hr | hr
    · rw [hr] at hsend ⊢
      dsimp only
      split
      · exact ⟨_, rfl, hsend⟩
      · rename_i hleft
        have hvfp := hsound hr (Nat.lt_of_not_le hleft) hs
        rw [hobj] at hbusy hn
        have hclosed : Cnt.vdiCloseFd { st with
            doclose := st.doclose || e.eofMode, resp := true, handling := .restart, doStream := true } = some { st with
              doclose := st.doclose || e.eofMode, resp := true, handling := .restart, doStream := true, vbc := false,
              doClose := false } := if_pos hvbc
        obtain ⟨b, l, hdrop⟩ := hshDrop_eq (o := o) (c := { st with
          doclose := st.doclose || e.eofMode, resp := true, handling := .restart, doStream := true, vbc := false,
          doClose := false }) hobj hbusy (fun oc hoc => hn oc (congrArg some hoc))
        rw [hclosed, Option.bind_some, hdrop]
        exact ⟨_, rfl, .of_run .recv haround hpc rfl
          ⟨⟨⟨rfl, rfl, rfl, hhint, hvfp, rfl⟩, rfl, hoc, hvcl, fun _ => rfl⟩, rfl, rfl⟩⟩
    · rw [hr] at hsend ⊢
      exact ⟨_, rfl, hsend⟩
  | false =>
    simp only [FitAt, hs] at h
    have hsend : Fit { st with
        doclose := st.doclose || e.eofMode, resp := true, handling := e.deliver, step := .deliver, doStream := false } :=
      .of_run .deliver haround hpc rfl
        ⟨h.toNoFetch.of_eq rfl rfl rfl rfl rfl rfl, h.obj, h.objcore, h.vcl, h.bereq⟩
    rw [if_pos (by simp [h.vcl, h.obj])]
    dsimp only
    rcases hr with hr | hr
    · rw [hr] at hsend ⊢
      dsimp only
      split
      · exact ⟨_, rfl, hsend⟩
      · obtain ⟨b, l, hderef⟩ := Answer.hshDeref (c := { st with
          doclose := st.doclose || e.eofMode, resp := true, handling := .restart, doStream := false }) h.obj
        simp only [Bool.false_eq_true, if_false]
        rw [hderef]
        exact ⟨_, rfl, .of_run .recv haround hpc rfl
          ⟨⟨⟨h.vbc, h.doClose, rfl, h.storageHint, h.vfp, rfl⟩, rfl, h.objcore, h.vcl, fun _ => rfl⟩, rfl, rfl⟩⟩
    · rw [hr] at hsend ⊢
      exact ⟨_, rfl, hsend⟩

lemma Answer.fit_write {n : Nat} (h : Answer st) (haround : Around st) (hpc : st.pc = .write n) : Fit st := by
  refine ⟨haround.1, haround.2, ?_, fun _ _ => h, ?_, ?_, ?_, ?_⟩
  all_goals
    rw [hpc]
    intro hn
    cases hn

lemma cntDeliver_fit (h : FitAt .deliver st) (haround : Around st) : ∃ st', st.cntDeliver e = some st' ∧ Fit st' := by
  have hans : Answer st := h
  refine ⟨_, if_pos hans.obj, Answer.fit_write (n := e.includes) ?_ haround rfl⟩
  exact ⟨hans.toNoFetch.of_eq rfl rfl rfl rfl rfl rfl, hans.obj, hans.objcore, hans.vcl, hans.bereq⟩

lemma cntDeliverEnd_fit (h : Answer st) (haround : Around st) : ∃ st', st.cntDeliverEnd e = some st' ∧ Fit st' := by
  obtain ⟨b, l, hderef⟩ := Answer.hshDeref h.obj
  unfold Cnt.cntDeliverEnd
  rw [hderef]
  exact ⟨_, rfl, .of_run .done haround rfl rfl ⟨h.toNoFetch.of_eq rfl rfl rfl rfl rfl rfl, rfl, h.objcore, h.bereq,
    fun _ => h.vcl, fun _ => rfl⟩⟩

lemma vedInclude_fit (h : Answer st) (haround : Around st) (left : Nat) : Fit (st.vedInclude p left) := by
  unfold Cnt.vedInclude
  split
  · refine Answer.fit_write (n := left) ?_ haround rfl
    exact ⟨h.toNoFetch.of_eq rfl rfl rfl rfl rfl rfl, h.obj, h.objcore, h.vcl, h.bereq⟩
  · refine .of_run .recv ⟨haround.1, ?_⟩ rfl rfl ⟨⟨h.toNoFetch.of_eq rfl rfl rfl rfl rfl rfl, rfl, h.objcore, h.vcl, ?_⟩,
      h.bereq, rfl⟩
    · intro f hf
      rcases List.mem_cons.mp hf with rfl | hf
      · exact h.obj
      · exact haround.2 f hf
    · intro hnil
      cases hnil

lemma cntError_fit (hpc : st.pc = .run) (h : FitAt .error st) (haround : Around st) :
    ∃ st', st.cntError p e = some st' ∧ Fit st' := by
  obtain ⟨hask, hbereq⟩ := h
  unfold Cnt.cntError
  dsimp only
  have hnone : st.clearFlags.obj.isNone = true := by
    simp [Cnt.clearFlags, hask.obj]
  cases hnew : e.newObject with
  | false =>
    refine ⟨_, if_pos (by simp [hnone]), .of_run .done haround hpc rfl ?_⟩
    exact ⟨⟨hask.vbc, hask.doClose, rfl, hask.storageHint, hask.vfp, rfl⟩, hask.obj, hask.objcore, rfl, fun _ => hask.vcl,
      hask.quiet⟩
  | true =>
    rw [if_neg (by simp)]
    simp only [hnone, if_true]
    have hobj : Cnt.stvNewObject { st.clearFlags with nbusyobj := true } = { st.clearFlags with
        nbusyobj := true, obj := some (.anon st.nref), nref := st.nref + 1,
        ledger := .get st.nref false :: st.ledger } := by
      simp only [Cnt.stvNewObject, Cnt.clearFlags, hask.objcore]
    rw [hobj]
    split
    · obtain ⟨b, l, hdrop⟩ := hshDrop_eq (o := .anon st.nref) (c := { st.clearFlags with
        nbusyobj := true, obj := some (.anon st.nref), nref := st.nref + 1, ledger := .get st.nref false :: st.ledger,
        handling := e.error }) rfl rfl (by simp)
      rw [hdrop]
      exact ⟨_, rfl, .of_run .recv haround hpc rfl ⟨⟨hask.toNoFetch.of_eq rfl rfl rfl rfl rfl rfl, rfl, hask.objcore,
        hask.vcl, hask.quiet⟩, hbereq, rfl⟩⟩
    · refine ⟨_, rfl, .of_run .prepresp haround hpc rfl ?_⟩
      exact ⟨hask.toNoFetch.of_eq rfl rfl rfl rfl rfl rfl, rfl, hask.objcore, hask.vcl, rfl⟩

lemma cntDone_fit (hpc : st.pc = .run) (h : FitAt .done st) (haround : Around st) :
    ∃ st', st.cntDone e = some st' ∧ Fit st' := by
  obtain ⟨hno, hobj, hoc, hbereq, hvcl, hresp⟩ := h
  unfold Cnt.cntDone
  rw [if_pos (by simp [hobj, hno.vbc])]
  cases hframes : st.frames with
  | cons f fs =>
    have haround' := haround.2
    rw [hframes] at haround'
    have hvcl' := hvcl (by rw [hframes]; simp)
    simp only [Cnt.clearFlags, hframes]
    refine ⟨_, rfl, Answer.fit_write (n := f.left) ?_ ⟨haround.1, ?_⟩ rfl⟩
    · exact ⟨hno.of_eq rfl rfl rfl rfl rfl rfl, haround' f List.mem_cons_self, hoc, hvcl', hbereq⟩
    · intro g hg
      exact haround' g (List.mem_cons_of_mem _ hg)
  | nil =>
    have hresp' := hresp hframes
    obtain ⟨end', hend⟩ : ∃ a : Cnt, a = { st.clearFlags with
      director := false, restarts := 0, xid := false, vcl := false, fd := st.fd && !st.doclose } := ⟨_, rfl⟩
    have hfresh : Fresh end' := by
      rw [hend]
      exact ⟨hno.of_eq rfl rfl rfl rfl rfl rfl, hobj, hoc, hbereq, rfl, rfl, rfl, hframes, hresp', rfl, rfl⟩
    have haround' : Around end' := by
      rw [hend]
      exact haround
    have hpc' : end'.pc = .run := by
      rw [hend]
      exact hpc
    have hgone : ∃ st', end'.leave .gone = some st' ∧ Fit st' := by
      refine ⟨{ end' with pc := .gone }, ?_, haround'.1, haround'.2, ?_, ?_, ?_, ?_, ?_, ?_⟩
      · simp [Cnt.leave, hfresh.flags, hfresh.bereq, hfresh.beresp, hfresh.resp, hfresh.storageHint]
      · intro hn
        cases hn
      · intro n hn
        cases hn
      · intro hn
        cases hn
      · intro hn
        cases hn
      · intro hn
        cases hn
      · intro _
        exact ⟨hfresh.toNoFetch.of_eq rfl rfl rfl rfl rfl rfl, hfresh.bereq, hfresh.resp⟩
    have hrest : ∃ st', (if end'.fd = true then
        if e.pipelined = true then some { end' with step := .start }
        else if e.linger = true then some { end' with step := .wait } else end'.leave .waiter
        else end'.leave .gone) = some st' ∧ Fit st' := by
      split
      · split
        · exact ⟨_, rfl, hfresh.fit .start haround' hpc' (fun _ => id)⟩
        · split
          · exact ⟨_, rfl, hfresh.fit .wait haround' hpc' (fun _ => id)⟩
          · exact leave_fit hfresh haround'
      · exact hgone
    rw [hend] at hrest
    simp only [Cnt.clearFlags, hframes] at hrest ⊢
    exact hrest

lemma dispatch_fit (hpc : st.pc = .run) (h : Fit st) (hsound : Sound p e st) :
    ∃ st', st.dispatch p e = some st' ∧ Fit st' := by
  obtain ⟨hmiss, hpass, hpipe, hrecv, hbody, hprep⟩ := hsound hpc
  have haround := h.around
  unfold Cnt.dispatch
  split
  next hs => exact cntWait_fit hpc (h.at hpc hs) haround
  next hs => exact cntFirst_fit hpc (h.at hpc hs) haround
  next hs => exact cntRecv_fit hpc (h.at hpc hs) haround (hrecv hs)
  next hs => exact cntStart_fit hpc (h.at hpc hs) haround
  next hs => exact cntPipe_fit hpc (h.at hpc hs) haround (hpipe hs)
  next hs => exact cntPass_fit hpc (h.at hpc hs) haround (hpass hs)
  next hs => exact cntLookup_fit hpc hs (h.at hpc hs) haround
  next hs => exact cntMiss_fit hpc (h.at hpc hs) haround (hmiss hs)
  next hs => exact cntHit_fit hpc (h.at hpc hs) haround
  next hs => exact cntFetch_fit hpc (h.at hpc hs) haround
  next hs => exact cntFetchbody_fit hpc (h.at hpc hs) haround (hbody hs).1 (hbody hs).2
  next hs => exact cntStreambody_fit hpc (h.at hpc hs) haround
  next hs => exact cntPrepresp_fit hpc (h.at hpc hs) haround (hprep hs)
  next hs => exact cntDeliver_fit (h.at hpc hs) haround
  next hs => exact cntError_fit hpc (h.at hpc hs) haround
  next hs => exact cntDone_fit hpc (h.at hpc hs) haround

lemma enter_some {c : Cnt} (hstep : (c.step = .first ∨ c.step = .start) ∨ c.step = .lookup)
    (hflags : c.flagsClear = true) :
    c.enter = some { c with pc := .run } := by
  unfold Cnt.enter
  rw [if_pos]
  rcases hstep with (hs | hs) | hs <;> simp [hs, hflags]

lemma Fresh.wrkSession (h : Fresh st) (haround : Around st) (hstep : st.step = .first ∨ st.step = .start) :
    ∃ st', st.wrkSession e = some st' ∧ Fit st' := by
  have hfresh : Fresh { st with storageHint := false, nbusyobj := e.nbusyobj, pc := .run } :=
    ⟨⟨h.vbc, h.doClose, h.hContentLength, rfl, h.vfp, h.beresp⟩, h.obj, h.objcore, h.bereq, h.director, h.vcl, h.xid,
      h.frames, h.resp, h.restarts, h.flags⟩
  unfold Cnt.wrkSession
  rw [enter_some (c := { st with storageHint := false, nbusyobj := e.nbusyobj }) (Or.inl hstep) h.flags, Option.map_some]
  refine ⟨_, rfl, ?_⟩
  split
  · refine .of_run .done haround rfl rfl (Fresh.done ?_)
    exact ⟨hfresh.toNoFetch.of_eq rfl rfl rfl rfl rfl rfl, h.obj, h.objcore, h.bereq, h.director, h.vcl, h.xid, h.frames,
      h.resp, h.restarts, h.flags⟩
  · rcases hstep with hs | hs
    · exact .of_run .first haround rfl hs hfresh
    · exact .of_run .start haround rfl hs hfresh

lemma resume_fit (hstep : st.step = .lookup) (h : FitAt .lookup st) (haround : Around st) :
    ∃ st', (if st.frames.isEmpty then st.wrkSession e else st.enter) = some st' ∧ Fit st' := by
  obtain ⟨hask, hbereq, hdir, hflags⟩ := h
  split
  · unfold Cnt.wrkSession
    rw [enter_some (c := { st with storageHint := false, nbusyobj := e.nbusyobj }) (Or.inr hstep) hflags, Option.map_some]
    refine ⟨_, rfl, ?_⟩
    rw [if_neg (by simp [hstep])]
    exact .of_run .lookup haround rfl hstep ⟨⟨⟨hask.vbc, hask.doClose, hask.hContentLength, rfl, hask.vfp, hask.beresp⟩,
      hask.obj, hask.objcore, hask.vcl, hask.quiet⟩, hbereq, hdir, hflags⟩
  · refine ⟨_, enter_some (Or.inr hstep) hflags, .of_run .lookup haround rfl hstep ?_⟩
    exact ⟨hask.of_eq (hask.toNoFetch.of_eq rfl rfl rfl rfl rfl rfl) rfl rfl rfl rfl rfl, hbereq, hdir, hflags⟩

/-- A sound step fails no assertion, and leaves the session as the next one needs it. -/
theorem next_fit (h : Fit st) (hsound : Sound p e st) : ∃ st', st.next p e = some st' ∧ Fit st' := by
  unfold Cnt.next
  split
  next hpc => exact dispatch_fit hpc h hsound
  next hpc => exact cntDeliverEnd_fit (h.write 0 hpc) h.around
  next left hpc => exact ⟨_, rfl, vedInclude_fit (h.write _ hpc) h.around left⟩
  next hpc => exact resume_fit (h.parked hpc).1 (h.parked hpc).2 h.around
  next hpc => exact (h.queued hpc).2.wrkSession h.around (Or.inl (h.queued hpc).1)
  next hpc =>
    have hfresh := h.waiter hpc
    refine Fresh.wrkSession ?_ h.around (Or.inr rfl)
    exact ⟨hfresh.toNoFetch.of_eq rfl rfl rfl rfl rfl rfl, hfresh.obj, hfresh.objcore, hfresh.bereq, hfresh.director,
      hfresh.vcl, hfresh.xid, hfresh.frames, hfresh.resp, hfresh.restarts, hfresh.flags⟩
  next hpc => exact ⟨st, rfl, h⟩

lemma fit_accepted : Fit Cnt.accepted := by
  refine ⟨rfl, by simp [Cnt.accepted], ?_, ?_, ?_, ?_, ?_, ?_⟩
  · intro hn
    cases hn
  · intro n hn
    cases hn
  · intro hn
    cases hn
  · intro _
    exact ⟨rfl, ⟨rfl, rfl, rfl, rfl, rfl, rfl⟩, rfl, rfl, rfl, rfl, rfl, rfl, rfl, rfl, rfl, rfl⟩
  · intro hn
    cases hn
  · intro hn
    cases hn

/-- Every step of a run meets the condition. -/
def SoundRun (p : CntParams) (env : Nat → CntEnv) (st : Cnt) : Prop :=
  ∀ n st', st.runs p env n = some st' → Sound p (env n) st'

lemma runs_fit {env : Nat → CntEnv} (h : Fit st) (hsound : SoundRun p env st) (n : Nat) :
    ∃ st', st.runs p env n = some st' ∧ Fit st' := by
  induction n with
  | zero => exact ⟨st, rfl, h⟩
  | succ n ih =>
    obtain ⟨mid, hmid, hfit⟩ := ih
    obtain ⟨st', hst', hfit'⟩ := next_fit hfit (hsound n mid hmid)
    refine ⟨st', ?_, hfit'⟩
    rw [Cnt.runs, hmid]
    exact hst'

end VarnishCache.Proofs
