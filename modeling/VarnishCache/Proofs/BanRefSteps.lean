import VarnishCache.Proofs.BanThreads
import VarnishCache.Proofs.BanInsert

/-!
# Steps on bans and objcores

Every step keeps the books of the bans and the order among threads.
-/

namespace VarnishCache.Proofs

open VarnishCache BanState BanRefState RefCount

variable {re : String → String → Bool} {st st' : BanRefState} {x t : Nat} {o : BanOc}

structure BanRefInv (st : BanRefState) : Prop where
  book : BanBooked st
  threads : BanThreads st

/-- Who is going to write `oc->ban` keeps others off. -/
lemma BanThreads.late_held (hi : BanThreads st) {l : BanLate} (hl : st.late x = some l) :
    ∃ o, st.core.ocs x = some o ∧ o.busy = false ∧ ((∃ h, HeldOc st h x o) ∨ o.onHead = false ∧ st.loading x = true) := by
  rcases hi.late x l hl with ⟨h, c, hc, rfl, -⟩ | ⟨t, p, ht, hp⟩
  · obtain ⟨o, a, hat⟩ := hi.check h c hc
    exact ⟨o, hat.held.oc, hat.held.idle, Or.inl ⟨h, hat.held⟩⟩
  · obtain ⟨o, hat⟩ := hi.load t p x ht (by rw [hp]; rfl)
    exact ⟨o, hat.oc, hat.idle, Or.inr ⟨hat.offHead, hat.loading⟩⟩

/-- No thread works on the objcore: it is busy, or its objhead is free or left behind. -/
def Untouched (st : BanRefState) (x : Nat) : Prop :=
  ∀ o, st.core.ocs x = some o → o.busy = true ∨ (st.loading x = false ∧ ∀ h, ¬ HeldOc st h x o)

/-- Nothing is to be written for such an objcore. -/
lemma BanThreads.late_none (hi : BanThreads st) (hx : Untouched st x) : st.late x = none := by
  cases hl : st.late x with
  | none => rfl
  | some l =>
    obtain ⟨o, ho, hbusy, hcase⟩ := hi.late_held hl
    rcases hx o ho with hb | ⟨hload, hheld⟩
    · rw [hb] at hbusy
      cases hbusy
    · rcases hcase with ⟨h, hh⟩ | ⟨-, hl⟩
      · exact (hheld h hh).elim
      · rw [hload] at hl
        cases hl

/-- One objcore changes, and bans may. -/
structure OcStep (x : Nat) (v : Option BanOc) (st st' : BanRefState) : Prop where
  first : st'.core.first = st.core.first
  last : st'.core.last = st.core.last
  hunts : st'.core.hunts = st.core.hunts
  ocs : st'.core.ocs = Function.update st.core.ocs x v
  mtx : st'.core.mtx = st.core.mtx
  sess : st'.core.sess = st.core.sess
  lurker : st'.core.lurker = st.core.lurker
  late : st'.late = st.late
  silos : st'.silos = st.silos
  loading : st'.loading = st.loading

lemma OcStep.threads {v : Option BanOc} (h : OcStep x v st st') (hx : Untouched st x) : ThreadStep none st st' where
  first := h.first.ge
  respects :=
    { mtx := by
        intro oh hd hm _
        rw [h.mtx]
        exact hm
      oc := by
        intro y p hd hp hon hidle hm _
        rw [h.ocs]
        by_cases hy : y = x
        · subst hy
          rcases hx p hp with hb | ⟨-, hheld⟩
          · rw [hb] at hidle
            cases hidle
          · exact (hheld hd ⟨hp, hon, hidle, hm⟩).elim
        · rw [Function.update_of_ne hy]
          exact hp }
  sess := fun s _ => by rw [h.sess]
  lurker := fun _ => h.lurker
  late := fun y _ => by rw [h.late]
  silos := h.silos
  loads := by
    intro y p hp hidle hl
    rw [h.ocs]
    by_cases hy : y = x
    · subst hy
      rcases hx p hp with hb | ⟨hload, -⟩
      · rw [hb] at hidle
        cases hidle
      · rw [hload] at hl
        cases hl
    · rw [Function.update_of_ne hy]
      exact hp
  loading := h.loading

/-- A step that no session, purge or lurker does to objects of its own. -/
lemma ThreadStep.none_threads (h : ThreadStep none st st') (hi : BanThreads st) : BanThreads st' := by
  refine h.threads hi ?_ ?_ ?_ ?_ ?_
  · intro s σ hs
    cases hs
  · intro hd c hs
    cases hs
  · intro hs
    cases hs
  · intro hs
    cases hs
  · intro hd c l hs
    cases hs

lemma banPtr_update {v : Option BanOc} {l : Option BanLate} (hocs : st'.core.ocs = Function.update st.core.ocs x v)
    (hlate : st'.late = Function.update st.late x l) :
    banPtr st' = Function.update (banPtr st) x (v.bind (fun o => lateBan l o.ban)) := by
  funext y
  by_cases hy : y = x
  · subst hy
    rw [Function.update_self, banPtr, hocs, hlate, Function.update_self, Function.update_self]
  · rw [Function.update_of_ne hy, banPtr, hocs, hlate, Function.update_of_ne hy, Function.update_of_ne hy]
    rfl

/-- The objcore changes its ban, and the books with it. -/
lemma BanRefInv.change {v : Option BanOc} (hi : BanRefInv st) (h : OcStep x v st st') (hx : Untouched st x)
    (hbook : BanBook st.core.first st.core.last st'.core.ban (Function.update (banPtr st) x (v.bind BanOc.ban))
      st.core.hunts (tailOf st)) : BanRefInv st' := by
  have hlate := hi.threads.late_none hx
  have hptr : banPtr st' = Function.update (banPtr st) x (v.bind BanOc.ban) :=
    banPtr_update (l := none) h.ocs (by rw [h.late, ← hlate, Function.update_eq_self])
  refine ⟨?_, (h.threads hx).none_threads hi.threads⟩
  have htail : tailOf st' = tailOf st := by
    funext t
    rw [tailOf, h.silos]
    rfl
  unfold BanBooked
  rw [hptr, h.first, h.last, h.hunts, htail]
  exact hbook

/-- The objcore stays with its ban. -/
lemma BanRefInv.keep {v : Option BanOc} (hi : BanRefInv st) (h : OcStep x v st st') (hx : Untouched st x)
    (hv : v.bind BanOc.ban = (st.core.ocs x).bind BanOc.ban)
    (hban : ∀ a, (st'.core.ban a).refcount = (st.core.ban a).refcount ∧
      (st'.core.ban a).objcore.Perm (st.core.ban a).objcore) : BanRefInv st' := by
  have hlate := hi.threads.late_none hx
  have hptr : banPtr st x = v.bind BanOc.ban := by
    rw [hv, banPtr, hlate]
    rfl
  refine hi.change h hx ?_
  rw [← hptr, Function.update_eq_self]
  exact hi.book.congr hban

/-- Objcores and threads stay as they are. -/
lemma refInv_of_book (hi : BanRefInv st) (hfirst : st.core.first ≤ st'.core.first) (hocs : st'.core.ocs = st.core.ocs)
    (hmtx : st'.core.mtx = st.core.mtx) (hsess : st'.core.sess = st.core.sess)
    (hlurker : st'.core.lurker = st.core.lurker) (hlate : st'.late = st.late) (hsilos : st'.silos = st.silos)
    (hloading : st'.loading = st.loading)
    (hbook : BanBook st'.core.first st'.core.last st'.core.ban (banPtr st) st'.core.hunts (tailOf st)) :
    BanRefInv st' := by
  have hstep : ThreadStep none st st' :=
    { first := hfirst
      respects :=
        { mtx := fun oh h hm _ => by rw [hmtx]; exact hm
          oc := fun y p h hp _ _ _ _ => by rw [hocs]; exact hp }
      sess := fun s _ => by rw [hsess]
      lurker := fun _ => hlurker
      late := fun y _ => by rw [hlate]
      silos := hsilos
      loads := fun y p hp _ _ => by rw [hocs]; exact hp
      loading := hloading }
  have hptr : banPtr st' = banPtr st := by
    funext y
    rw [banPtr, hocs, hlate]
    rfl
  have htail : tailOf st' = tailOf st := by
    funext t
    rw [tailOf, hsilos]
    rfl
  refine ⟨?_, hstep.none_threads hi.threads⟩
  unfold BanBooked
  rw [hptr, htail]
  exact hbook

lemma banInsert_refInv (hi : BanRefInv st) (spec : List BanTest) (dups : Bool) (t0 : Int) :
    BanRefInv (st.banInsert spec dups t0) := by
  have hnew : BanBook (st.core.first + 1) st.core.last (inserted st.core spec).ban (banPtr st) st.core.hunts
      (tailOf st) := hi.book.insert rfl rfl
  have horder := hi.book.order
  cases dups with
  | false => exact refInv_of_book hi (Nat.le_succ _) rfl rfl rfl rfl rfl rfl rfl hnew
  | true =>
    refine refInv_of_book hi (Nat.le_succ _) rfl rfl rfl rfl rfl rfl rfl ?_
    refine hnew.hunting (b := st.core.first + 1) (by omega) le_rfl ?_
    intro a
    change ((hunting (inserted st.core spec) (st.core.first + 1)).ban a).refcount = _ ∧
      ((hunting (inserted st.core spec) (st.core.first + 1)).ban a).objcore = _
    rw [hunting_ban]
    by_cases ha : a = st.core.last
    · subst ha
      exact ⟨by simp [inserted], by simp [inserted]⟩
    · rw [if_neg ha, if_neg (by exact ha)]
      exact ⟨rfl, rfl⟩

lemma banHunt_refInv (hi : BanRefInv st) {p : Nat × Nat} {core : BanState} (h : st.core.banHunt p = some core) :
    BanRefInv { st with core := core } := by
  have hban := banHunt_ban h
  unfold banHunt at h
  split at h
  · cases h
  rename_i hp
  push Not at hp
  cases h
  refine refInv_of_book hi le_rfl rfl rfl rfl rfl rfl rfl rfl (hi.book.hunted hp ?_)
  intro a
  obtain ⟨-, -, hobj, -, href⟩ := hban a
  exact ⟨href, hobj⟩

lemma create_refInv (hi : BanRefInv st) {oh : Nat} {core : BanState} (h : st.core.create x oh = some core) :
    BanRefInv { st with core := core } := by
  unfold BanState.create at h
  split at h
  · cases h
  rename_i hx
  push Not at hx
  have hnone : st.core.ocs x = none := by simpa using hx.1
  cases h
  refine hi.keep (x := x) ⟨rfl, rfl, rfl, rfl, rfl, rfl, rfl, rfl, rfl, rfl⟩ ?_ (by rw [hnone]; rfl)
    (fun a => ⟨rfl, .rfl⟩)
  intro p hp
  rw [hnone] at hp
  cases hp

lemma untouched_busy (ho : st.core.ocs x = some o) (hb : o.busy = true) : Untouched st x := by
  intro p hp
  rw [ho] at hp
  cases hp
  exact Or.inl hb

lemma hshUnbusy_refInv (hi : BanRefInv st) {http : BanHttp} {core : BanState}
    (h : st.core.hshUnbusy x http = some core) :
    BanRefInv { st with core := core } := by
  obtain ⟨o, ho, h⟩ := Option.bind_eq_some_iff.mp h
  split at h
  · cases h
  rename_i hcond
  push Not at hcond
  cases h
  exact hi.keep (x := x) ⟨rfl, rfl, rfl, rfl, rfl, rfl, rfl, rfl, rfl, rfl⟩
    (untouched_busy ho (by simpa using hcond.1)) (by rw [ho]; rfl) (fun a => ⟨rfl, .rfl⟩)

lemma unlink_refInv (hi : BanRefInv st) (hload : st.loading x = false) {core : BanState}
    (h : st.core.unlink x = some core) : BanRefInv { st with core := core } := by
  obtain ⟨o, ho, h⟩ := Option.bind_eq_some_iff.mp h
  split at h
  · cases h
  rename_i hfree
  cases h
  refine hi.keep (x := x) ⟨rfl, rfl, rfl, rfl, rfl, rfl, rfl, rfl, rfl, rfl⟩ ?_ (by rw [ho]; rfl)
    (fun a => ⟨rfl, .rfl⟩)
  intro p hp
  rw [ho] at hp
  cases hp
  refine Or.inr ⟨hload, ?_⟩
  intro h hh
  rw [hh.mtx] at hfree
  exact hfree rfl

lemma banDestroyObj_refInv (hi : BanRefInv st) (hload : st.loading x = false) {core : BanState}
    (h : st.core.banDestroyObj x = some core) : BanRefInv { st with core := core } := by
  obtain ⟨o, ho, h⟩ := Option.bind_eq_some_iff.mp h
  split at h
  · cases h
  rename_i hoff
  have hx : Untouched st x := by
    intro p hp
    rw [ho] at hp
    cases hp
    refine Or.inr ⟨hload, ?_⟩
    intro h hh
    exact hoff hh.onHead
  have hptr : banPtr st x = o.ban := by
    rw [banPtr, ho, hi.threads.late_none hx]
    rfl
  cases hban : o.ban with
  | none =>
    simp only [hban] at h
    cases h
    exact hi.keep (x := x) ⟨rfl, rfl, rfl, rfl, rfl, rfl, rfl, rfl, rfl, rfl⟩ hx (by rw [ho]; exact hban.symm)
      (fun a => ⟨rfl, .rfl⟩)
  | some a =>
    simp only [hban] at h
    cases h
    exact hi.change (x := x) ⟨rfl, rfl, rfl, rfl, rfl, rfl, rfl, rfl, rfl, rfl⟩ hx
      (hi.book.detach (hptr.trans hban) (detaches_setBan rfl rfl rfl))

lemma newObject_refInv (hi : BanRefInv st) {e : Exp} (h : st.newObject x e = some st') : BanRefInv st' := by
  obtain ⟨core, hnew, rfl⟩ := Option.map_eq_some_iff.mp h
  obtain ⟨o, ho, hnew⟩ := Option.bind_eq_some_iff.mp hnew
  split at hnew
  · cases hnew
  rename_i hcond
  push Not at hcond
  have hx : Untouched st x := untouched_busy ho (by simpa using hcond.1)
  have hptr : banPtr st x = none := by
    rw [banPtr, ho, hi.threads.late_none hx]
    simpa [lateBan] using hcond.2
  cases hnew
  have hatt : Attaches st.core.first x st.core.ban (st.core.setBan st.core.first
      (fun b => { b with refcount := b.refcount + 1, objcore := b.objcore ++ [x] })).ban := attaches_setBan rfl rfl rfl
  exact hi.change (x := x) ⟨rfl, rfl, rfl, rfl, rfl, rfl, rfl, rfl, rfl, rfl⟩ hx
    (hi.book.attach hptr hi.book.order le_rfl hatt)

/-- The check that is going to write `oc->ban` is the one that has the mutex. -/
lemma BanThreads.late_check (hi : BanThreads st) {hd : BanHolder} (hh : HeldOc st hd x o) {l : BanLate}
    (hl : st.late x = some l) : ∃ c, st.check hd = some c ∧ c.oc = x ∧ ∀ b, l = .move b → b = c.b0 := by
  rcases hi.late x l hl with ⟨h2, c, hc, rfl, hb⟩ | ⟨t, p, ht, hp⟩
  · obtain ⟨o2, a, hat⟩ := hi.check h2 c hc
    have heq := Option.some.inj (hat.held.oc.symm.trans hh.oc)
    have hm := hat.held.mtx
    rw [heq, hh.mtx] at hm
    cases hm
    exact ⟨c, hc, rfl, hb⟩
  · obtain ⟨o2, hl2⟩ := hi.load t p x ht (by rw [hp]; rfl)
    have heq := Option.some.inj (hl2.oc.symm.trans hh.oc)
    have hoff := hl2.offHead
    rw [heq, hh.onHead] at hoff
    cases hoff

/-- A step of `hd` that does not change what is to be written. -/
lemma BanRefInv.act (hi : BanRefInv st) {hd : BanHolder} (hstep : ThreadStep (some hd) st st')
    (hlate : st'.late = st.late)
    (hbook : BanBooked st')
    (hsess : ∀ s σ, hd = .sess s → st'.core.sess s = some σ → st'.core.mtx σ.objhead = some (.sess s))
    (hcheck : ∀ c, st'.check hd = some c → ∃ o a, CheckAt st' hd c o a)
    (hgot : hd = .lurker → ∀ b b0 x, st'.core.lurker = .got b b0 x →
      ∃ o, HeldOc st' .lurker x o ∧ o.ban = some b ∧ st.late x = none)
    (hlurk : hd = .lurker → ∀ b b0 c, st'.core.lurker = .checking b b0 c →
      ∃ o, st'.core.ocs c.oc = some o ∧ o.ban = some b)
    (hgo : ∀ c, st.check hd = some c → st.late c.oc = none ∨
      ∃ c', st'.check hd = some c' ∧ c'.oc = c.oc ∧ c'.b0 = c.b0) : BanRefInv st' := by
  refine ⟨hbook, hstep.threads hi.threads ?_ ?_ ?_ ?_ ?_⟩
  · intro s σ hs hσ
    exact hsess s σ (Option.some.inj hs).symm hσ
  · intro h2 c hs hc
    cases hs
    exact hcheck c hc
  · intro hs b b0 x hx
    rw [hlate]
    exact hgot (Option.some.inj hs).symm b b0 x hx
  · intro hs
    exact hlurk (Option.some.inj hs).symm
  · intro h2 c l hs hc hl
    cases hs
    rw [hlate] at hl
    rcases hgo c hc with hnone | ⟨c', hc', hoc, hb0⟩
    · rw [hnone] at hl
      cases hl
    · obtain ⟨o, a, hat⟩ := hi.threads.check _ c hc
      obtain ⟨c2, hc2, -, hb⟩ := hi.threads.late_check hat.held hl
      cases hc.symm.trans hc2
      exact ⟨c', hc', hoc, fun b hbl => by rw [hb b hbl, hb0]⟩

/-- A session locks or unlocks an objhead, or goes on with its lookup. -/
structure SessMove (s : Nat) (st st' : BanRefState) : Prop where
  first : st'.core.first = st.core.first
  last : st'.core.last = st.core.last
  ban : st'.core.ban = st.core.ban
  hunts : st'.core.hunts = st.core.hunts
  ocs : st'.core.ocs = st.core.ocs
  mtx : ∀ oh h, st.core.mtx oh = some h → h ≠ .sess s → st'.core.mtx oh = some h
  sess : ∀ u, u ≠ s → st'.core.sess u = st.core.sess u
  lurker : st'.core.lurker = st.core.lurker
  late : st'.late = st.late
  silos : st'.silos = st.silos
  loading : st'.loading = st.loading

lemma SessMove.book {s : Nat} (h : SessMove s st st') (hi : BanBooked st) : BanBooked st' := by
  have hptr : banPtr st' = banPtr st := by
    funext y
    rw [banPtr, h.ocs, h.late]
    rfl
  have htail : tailOf st' = tailOf st := by
    funext t
    rw [tailOf, h.silos]
    rfl
  unfold BanBooked
  rw [hptr, htail, h.first, h.last, h.ban, h.hunts]
  exact hi

lemma SessMove.step {s : Nat} (h : SessMove s st st') : ThreadStep (some (.sess s)) st st' where
  first := h.first.ge
  respects :=
    { mtx := fun oh hd hm hne => h.mtx oh hd hm (fun heq => hne (by rw [heq]))
      oc := fun y p hd hp _ _ _ _ => by rw [h.ocs]; exact hp }
  sess := fun u hu => h.sess u (fun heq => hu (by rw [heq]))
  lurker := fun _ => h.lurker
  late := fun y _ => by rw [h.late]
  silos := h.silos
  loads := fun y p hp _ _ => by rw [h.ocs]; exact hp
  loading := h.loading

lemma BanRefInv.sess (hi : BanRefInv st) {s : Nat} (h : SessMove s st st')
    (hsess : ∀ σ, st'.core.sess s = some σ → st'.core.mtx σ.objhead = some (.sess s))
    (hcheck : ∀ σ c, st'.core.sess s = some σ → σ.check = some c → ∃ o a, CheckAt st' (.sess s) c o a)
    (hgo : ∀ c, st.check (.sess s) = some c → ∃ c', st'.check (.sess s) = some c' ∧ c'.oc = c.oc ∧ c'.b0 = c.b0) :
    BanRefInv st' := by
  refine hi.act h.step h.late (h.book hi.book) ?_ ?_ ?_ ?_ (fun c hc => Or.inr (hgo c hc))
  · intro u σ hu hσ
    cases hu
    exact hsess σ hσ
  · intro c hc
    obtain ⟨σ, hσ, hc⟩ := Option.bind_eq_some_iff.mp hc
    exact hcheck σ c hσ hc
  · intro hs
    cases hs
  · intro hs
    cases hs

lemma lock_refInv (hi : BanRefInv st) {s oh : Nat} {req : BanHttp} {core : BanState}
    (h : st.core.lock s oh req = some core) : BanRefInv { st with core := core } := by
  unfold BanState.lock at h
  split at h
  · cases h
  rename_i hcond
  push Not at hcond
  cases h
  have hs : st.core.sess s = none := by simpa using hcond.1
  have hfree : st.core.mtx oh = none := by simpa using hcond.2
  refine hi.sess (s := s) ⟨rfl, rfl, rfl, rfl, rfl, ?_, ?_, rfl, rfl, rfl, rfl⟩ ?_ ?_ ?_
  · intro oh' h' hm _
    have hne : oh' ≠ oh := by
      rintro rfl
      rw [hfree] at hm
      cases hm
    simpa [BanState.setSess, BanState.setMtx, hne] using hm
  · intro u hu
    simp [BanState.setSess, hu, BanState.setMtx]
  · intro σ hσ
    simp only [BanState.setSess, Function.update_self, Option.some.injEq] at hσ
    subst hσ
    simp [BanState.setSess, BanState.setMtx]
  · intro σ c hσ hc
    simp only [BanState.setSess, Function.update_self, Option.some.injEq] at hσ
    subst hσ
    cases hc
  · intro c hc
    simp [BanRefState.check, hs] at hc

lemma unlock_refInv (hi : BanRefInv st) {s : Nat} {core : BanState} (h : st.core.unlock s = some core) :
    BanRefInv { st with core := core } := by
  obtain ⟨σ, hσ, h⟩ := Option.bind_eq_some_iff.mp h
  split at h
  · cases h
  rename_i hnone
  cases h
  refine hi.sess (s := s) ⟨rfl, rfl, rfl, rfl, rfl, ?_, ?_, rfl, rfl, rfl, rfl⟩ ?_ ?_ ?_
  · intro oh' h' hm hne
    have hoh : oh' ≠ σ.objhead := by
      rintro rfl
      rw [hi.threads.sess s σ hσ] at hm
      exact hne (Option.some.inj hm).symm
    simpa [BanState.setSess, BanState.setMtx, hoh] using hm
  · intro u hu
    simp [BanState.setSess, hu, BanState.setMtx]
  · intro τ hτ
    simp [BanState.setSess] at hτ
  · intro τ c hτ
    simp [BanState.setSess] at hτ
  · intro c hc
    simp only [BanRefState.check, hσ, Option.bind_some] at hc
    rw [hc] at hnone
    exact (hnone rfl).elim

/-- The session goes on to check `c`. -/
lemma setCheck_refInv (hi : BanRefInv st) {s : Nat} {σ : BanSess} (hσ : st.core.sess s = some σ) {c : BanCheck} {a : Nat}
    (hat : CheckAt st (.sess s) c o a) (hgo : ∀ c0, σ.check = some c0 → c.oc = c0.oc ∧ c.b0 = c0.b0) :
    BanRefInv { st with core := st.core.setSess s (some { σ with check := some c }) } := by
  refine hi.sess (s := s) ⟨rfl, rfl, rfl, rfl, rfl, fun oh h hm _ => hm, ?_, rfl, rfl, rfl, rfl⟩ ?_ ?_ ?_
  · intro u hu
    simp [BanState.setSess, hu]
  · intro τ hτ
    simp only [BanState.setSess, Function.update_self, Option.some.injEq] at hτ
    subst hτ
    exact hi.threads.sess s σ hσ
  · intro τ c' hτ hc'
    simp only [BanState.setSess, Function.update_self, Option.some.injEq] at hτ
    subst hτ
    cases hc'
    exact ⟨o, a, ⟨hat.held.oc, hat.held.onHead, hat.held.idle, hat.held.mtx⟩,
      hat.ban, hat.newer, hat.low, hat.high, hat.front⟩
  · intro c0 hc0
    simp only [BanRefState.check, hσ, Option.bind_some] at hc0
    obtain ⟨hoc, hb0⟩ := hgo c0 hc0
    refine ⟨c, ?_, hoc, hb0⟩
    simp [BanRefState.check, BanState.setSess]

lemma CheckAt.walk {hd : BanHolder} {c c' : BanCheck} {a : Nat} {req : BanHttp} (hat : CheckAt st hd c o a)
    (hw : st.core.checkWalk re req c = some c') : CheckAt st hd c' o a ∧ c'.oc = c.oc ∧ c'.b0 = c.b0 := by
  obtain ⟨o', ho, -, hne, hcases⟩ := checkWalk_cases hw
  obtain rfl := Option.some.inj (hat.held.oc.symm.trans ho)
  have hab : a < c.b := by
    refine lt_of_le_of_ne hat.low ?_
    rintro rfl
    exact hne hat.ban
  have hlow := hat.low
  have hhigh := hat.high
  have hdown : ∀ n, CheckAt st hd { c with b := c.b - 1, skipped := n } o a := by
    intro n
    exact ⟨hat.held, hat.ban, hat.newer, by change a ≤ c.b - 1; omega, by change c.b - 1 ≤ c.b0; omega, hat.front⟩
  rcases hcases with ⟨-, rfl⟩ | ⟨-, -, -, rfl⟩ | ⟨-, -, rfl⟩ | ⟨-, -, rfl⟩ | rfl
  · exact ⟨hdown c.skipped, rfl, rfl⟩
  · exact ⟨hdown c.skipped, rfl, rfl⟩
  · exact ⟨hdown (c.skipped + 1), rfl, rfl⟩
  · exact ⟨hdown c.skipped, rfl, rfl⟩
  · exact ⟨⟨hat.held, hat.ban, hat.newer, hat.low, hat.high, hat.front⟩, rfl, rfl⟩

/-- The start of `ban_check_object` on an object that has a ban. -/
lemma CheckAt.begin (hi : BanRefInv st) {hd : BanHolder} {hasReq : Bool} {c : BanCheck} {a : Nat} (hh : HeldOc st hd x o)
    (hlate : st.late x = none) (hban : o.ban = some a) (hc : st.core.checkBegin hasReq x o = some c) :
    CheckAt st hd c o a ∧ c.oc = x := by
  have hptr : banPtr st x = some a := by
    rw [banPtr, hh.oc, hlate]
    exact hban
  obtain ⟨-, hle⟩ := hi.book.inList x a hptr
  unfold checkBegin at hc
  split at hc
  · cases hc
  rename_i hne
  cases hc
  have hlt : a < st.core.first := by
    refine lt_of_le_of_ne hle ?_
    rintro rfl
    exact hne hban
  exact ⟨⟨hh, hban, hlt, hle, le_rfl, le_rfl⟩, rfl⟩

lemma lookupBegin_refInv (hi : BanRefInv st) {s : Nat} {core : BanState} {v : Option BanVerdict}
    (h : st.core.lookupBegin s x = some (core, v)) : BanRefInv { st with core := core } := by
  obtain ⟨σ, hσ, h⟩ := Option.bind_eq_some_iff.mp h
  obtain ⟨o, ho, h⟩ := Option.bind_eq_some_iff.mp h
  split at h
  · cases h
  rename_i hcond
  push Not at hcond
  obtain ⟨hnone, hhead, hon, hbusy, hban⟩ := hcond
  have hh : HeldOc st (.sess s) x o := by
    refine ⟨ho, by simpa using hon, by simpa using hbusy, ?_⟩
    rw [hhead]
    exact hi.threads.sess s σ hσ
  have hnocheck : st.check (.sess s) = none := by
    simp only [BanRefState.check, hσ, Option.bind_some]
    simpa using hnone
  have hlate : st.late x = none := by
    cases hl : st.late x with
    | none => rfl
    | some l =>
      obtain ⟨c, hc, -⟩ := hi.threads.late_check hh hl
      rw [hnocheck] at hc
      cases hc
  obtain ⟨a, ha⟩ := Option.ne_none_iff_exists'.mp hban
  cases hb : st.core.checkBegin true x o with
  | none =>
    simp only [hb] at h
    cases h
    exact hi
  | some c =>
    simp only [hb] at h
    cases h
    obtain ⟨hat, hoc⟩ := CheckAt.begin hi hh hlate ha hb
    refine setCheck_refInv hi hσ hat ?_
    intro c0 hc0
    rw [hc0] at hnone
    exact (hnone rfl).elim

lemma lookupWalk_refInv (hi : BanRefInv st) {s : Nat} {core : BanState} (h : st.core.lookupWalk re s = some core) :
    BanRefInv { st with core := core } := by
  obtain ⟨σ, hσ, h⟩ := Option.bind_eq_some_iff.mp h
  obtain ⟨c, hc, h⟩ := Option.bind_eq_some_iff.mp h
  obtain ⟨c', hw, h⟩ := Option.bind_eq_some_iff.mp h
  cases h
  obtain ⟨o, a, hat⟩ := hi.threads.check (.sess s) c (by simp only [BanRefState.check, hσ, Option.bind_some, hc])
  obtain ⟨hat', hoc, hb0⟩ := hat.walk hw
  refine setCheck_refInv hi hσ hat' ?_
  intro c0 hc0
  rw [hc] at hc0
  cases hc0
  exact ⟨hoc, hb0⟩

end VarnishCache.Proofs
