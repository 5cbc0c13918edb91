import VarnishCache.Proofs.BanBook

/-!
# Who works on an objcore

A session or the lurker that is in `ban_check_object` has the mutex of the objhead, so no other thread changes the
objcore. An objcore that a silo thread is loading is on no objhead yet. What is still to be written for an objcore is
known by one of the two.
-/

namespace VarnishCache.Proofs

open VarnishCache BanState BanRefState

variable {re : String → String → Bool} {st st' : BanRefState} {x t : Nat}

/-- The ban an objcore belongs to once all that is to be written is written. -/
def lateBan : Option BanLate → Option Nat → Option Nat
  | none, b => b
  | some (.move b), _ => some b
  | some .clear, _ => none
  | some .null, _ => none

def banPtr (st : BanRefState) (x : Nat) : Option Nat := (st.core.ocs x).bind (fun o => lateBan (st.late x) o.ban)

def tailOf (st : BanRefState) (t : Nat) : Option Nat := (st.silos t).map BanSilo.tail

def BanBooked (st : BanRefState) : Prop :=
  BanBook st.core.first st.core.last st.core.ban (banPtr st) st.core.hunts (tailOf st)

/-- The object of an objhead whose mutex `h` has. -/
structure HeldOc (st : BanRefState) (h : BanHolder) (x : Nat) (o : BanOc) : Prop where
  oc : st.core.ocs x = some o
  onHead : o.onHead = true
  idle : o.busy = false
  mtx : st.core.mtx o.objhead = some h

structure CheckAt (st : BanRefState) (h : BanHolder) (c : BanCheck) (o : BanOc) (a : Nat) : Prop where
  held : HeldOc st h c.oc o
  ban : o.ban = some a
  newer : a < c.b0
  low : a ≤ c.b
  high : c.b ≤ c.b0
  front : c.b0 ≤ st.core.first

def loadOc : BanLoad → Option Nat
  | .no => none
  | .walking x _ _ => some x
  | .storing x => some x
  | .stored x => some x

/-- How far `smp_load_seg` is with an objcore. -/
def LoadPhase (st : BanRefState) (p : BanSilo) (x : Nat) (o : BanOc) : Prop :=
  match p.load with
  | .no => True
  | .walking _ _ b => o.ban = none ∧ st.late x = none ∧ p.tail ≤ b ∧ b ≤ st.core.first
  | .storing _ => o.ban = none ∧ ∃ b, st.late x = some (.move b)
  | .stored _ => (∃ a, o.ban = some a) ∧ st.late x = none

structure LoadAt (st : BanRefState) (p : BanSilo) (x : Nat) (o : BanOc) : Prop where
  oc : st.core.ocs x = some o
  offHead : o.onHead = false
  idle : o.busy = false
  loading : st.loading x = true
  phase : LoadPhase st p x o

structure BanThreads (st : BanRefState) : Prop where
  sess : ∀ s σ, st.core.sess s = some σ → st.core.mtx σ.objhead = some (.sess s)
  check : ∀ h c, st.check h = some c → ∃ o a, CheckAt st h c o a
  got : ∀ b b0 x, st.core.lurker = .got b b0 x → ∃ o, HeldOc st .lurker x o ∧ o.ban = some b ∧ st.late x = none
  lurk : ∀ b b0 c, st.core.lurker = .checking b b0 c → ∃ o, st.core.ocs c.oc = some o ∧ o.ban = some b
  late : ∀ x l, st.late x = some l → (∃ h c, st.check h = some c ∧ c.oc = x ∧ ∀ b, l = .move b → b = c.b0) ∨
    ∃ t p, st.silos t = some p ∧ p.load = .storing x
  load : ∀ t p x, st.silos t = some p → loadOc p.load = some x → ∃ o, LoadAt st p x o
  unborn : ∀ x, st.loading x = true → ∃ o, st.core.ocs x = some o ∧ o.onHead = false ∧ o.busy = false
  alone : ∀ t u p q x, st.silos t = some p → st.silos u = some q → loadOc p.load = some x → loadOc q.load = some x →
    t = u

/-- What all threads but `actor` see of a step that no silo thread does. -/
structure ThreadStep (actor : Option BanHolder) (st st' : BanRefState) : Prop where
  first : st.core.first ≤ st'.core.first
  respects : Respects actor st.core st'.core
  sess : ∀ s, some (BanHolder.sess s) ≠ actor → st'.core.sess s = st.core.sess s
  lurker : some BanHolder.lurker ≠ actor → st'.core.lurker = st.core.lurker
  late : ∀ x, (∀ h c, some h = actor → st.check h = some c → c.oc ≠ x) → st'.late x = st.late x
  silos : st'.silos = st.silos
  loads : ∀ x o, st.core.ocs x = some o → o.busy = false → st.loading x = true → st'.core.ocs x = some o
  loading : st'.loading = st.loading

lemma ThreadStep.check {actor : Option BanHolder} (h : ThreadStep actor st st') {hd : BanHolder}
    (hne : some hd ≠ actor) :
    st'.check hd = st.check hd := by
  cases hd with
  | sess s => simp only [BanRefState.check, h.sess s hne]
  | lurker => simp only [BanRefState.check, h.lurker hne]

lemma ThreadStep.held {actor : Option BanHolder} (h : ThreadStep actor st st') {hd : BanHolder} (hne : some hd ≠ actor)
    {o : BanOc} (hh : HeldOc st hd x o) : HeldOc st' hd x o :=
  ⟨h.respects.oc x o hd hh.oc hh.onHead hh.idle hh.mtx hne, hh.onHead, hh.idle, h.respects.mtx _ _ hh.mtx hne⟩

/-- An objcore that is being loaded is not in a check. -/
lemma BanThreads.load_ne (hi : BanThreads st) {h : BanHolder} {c : BanCheck} (hc : st.check h = some c) {p : BanSilo}
    {o : BanOc} (hl : LoadAt st p x o) : c.oc ≠ x := by
  rintro rfl
  obtain ⟨o', a, hat⟩ := hi.check h c hc
  have heq := Option.some.inj (hat.held.oc.symm.trans hl.oc)
  have hon := hat.held.onHead
  rw [heq, hl.offHead] at hon
  cases hon

lemma ThreadStep.threads {actor : Option BanHolder} (h : ThreadStep actor st st') (hi : BanThreads st)
    (hsess : ∀ s σ, some (BanHolder.sess s) = actor → st'.core.sess s = some σ → st'.core.mtx σ.objhead = some (.sess s))
    (hcheck : ∀ hd c, some hd = actor → st'.check hd = some c → ∃ o a, CheckAt st' hd c o a)
    (hgot : some BanHolder.lurker = actor → ∀ b b0 x, st'.core.lurker = .got b b0 x →
      ∃ o, HeldOc st' .lurker x o ∧ o.ban = some b ∧ st'.late x = none)
    (hlurk : some BanHolder.lurker = actor → ∀ b b0 c, st'.core.lurker = .checking b b0 c →
      ∃ o, st'.core.ocs c.oc = some o ∧ o.ban = some b)
    (hlate : ∀ hd c l, some hd = actor → st.check hd = some c → st'.late c.oc = some l →
      ∃ c', st'.check hd = some c' ∧ c'.oc = c.oc ∧ ∀ b, l = .move b → b = c'.b0) : BanThreads st' where
  sess := by
    intro s σ hσ
    by_cases hs : some (BanHolder.sess s) = actor
    · exact hsess s σ hs hσ
    · rw [h.sess s hs] at hσ
      exact h.respects.mtx _ _ (hi.sess s σ hσ) hs
  check := by
    intro hd c hc
    by_cases hs : some hd = actor
    · exact hcheck hd c hs hc
    · rw [h.check hs] at hc
      obtain ⟨o, a, hat⟩ := hi.check hd c hc
      exact ⟨o, a, h.held hs hat.held, hat.ban, hat.newer, hat.low, hat.high, hat.front.trans h.first⟩
  got := by
    intro b b0 x hl
    by_cases hs : some BanHolder.lurker = actor
    · exact hgot hs b b0 x hl
    · rw [h.lurker hs] at hl
      obtain ⟨o, hh, hb, hlt⟩ := hi.got b b0 x hl
      refine ⟨o, h.held hs hh, hb, ?_⟩
      rw [h.late, hlt]
      rintro hd c hact hc rfl
      obtain ⟨o', a, hat⟩ := hi.check hd c hc
      have heq := Option.some.inj (hat.held.oc.symm.trans hh.oc)
      have hm := hat.held.mtx
      rw [heq, hh.mtx] at hm
      exact hs (hm.trans hact)
  lurk := by
    intro b b0 c hl
    by_cases hs : some BanHolder.lurker = actor
    · exact hlurk hs b b0 c hl
    · rw [h.lurker hs] at hl
      obtain ⟨o, ho, hb⟩ := hi.lurk b b0 c hl
      obtain ⟨o', a, hat⟩ := hi.check .lurker c (by simp only [BanRefState.check, hl])
      have heq := Option.some.inj (hat.held.oc.symm.trans ho)
      exact ⟨o', (h.held hs hat.held).oc, by rw [heq]; exact hb⟩
  late := by
    intro x l hl
    by_cases hown : ∃ hd c, some hd = actor ∧ st.check hd = some c ∧ c.oc = x
    · obtain ⟨hd, c, hs, hc, rfl⟩ := hown
      obtain ⟨c', hc', hoc, hb⟩ := hlate hd c l hs hc hl
      exact Or.inl ⟨hd, c', hc', hoc, hb⟩
    · push Not at hown
      rw [h.late x (fun hd c hs hc => hown hd c hs hc)] at hl
      rcases hi.late x l hl with ⟨hd, c, hc, hoc, hb⟩ | ⟨t, p, ht, hp⟩
      · have hs : some hd ≠ actor := fun hs => hown hd c hs hc hoc
        exact Or.inl ⟨hd, c, by rw [h.check hs]; exact hc, hoc, hb⟩
      · exact Or.inr ⟨t, p, by rw [h.silos]; exact ht, hp⟩
  load := by
    intro t p x ht hp
    rw [h.silos] at ht
    obtain ⟨o, hl⟩ := hi.load t p x ht hp
    have hlt : st'.late x = st.late x := h.late x (fun hd c _ hc => hi.load_ne hc hl)
    refine ⟨o, h.loads x o hl.oc hl.idle hl.loading, hl.offHead, hl.idle, by rw [h.loading]; exact hl.loading, ?_⟩
    have hph := hl.phase
    unfold LoadPhase at hph ⊢
    rw [hlt]
    split at hph
    · trivial
    · exact ⟨hph.1, hph.2.1, hph.2.2.1, hph.2.2.2.trans h.first⟩
    · exact hph
    · exact hph
  unborn := by
    intro x hl
    rw [h.loading] at hl
    obtain ⟨o, ho, hoff, hidle⟩ := hi.unborn x hl
    exact ⟨o, h.loads x o ho hidle hl, hoff, hidle⟩
  alone := by
    intro t u p q x
    rw [h.silos]
    exact hi.alone t u p q x

end VarnishCache.Proofs
