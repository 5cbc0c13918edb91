import VarnishCache.Ban

/-!
# The invariant of the ban list

Every ban between the front of the list and the ban of an object either does not match the object or is
still going to be tested: it is not gone, or a newer duplicate of it is not. The lurker tags an object
with its pass number only after it has tested it against all bans of the pass.
-/

namespace VarnishCache.Proofs

open VarnishCache BanState

variable {re : String → String → Bool} {st st' : BanState}

/-- A ban that has no test of the request gives the same answer for every request. -/
lemma banEvaluate_noReq {spec : List BanTest} (h : spec.any (fun t => t.arg1.isReq) = false) (o r r' : BanHttp) :
    banEvaluate re spec o r = banEvaluate re spec o r' := by
  unfold banEvaluate
  refine Bool.eq_iff_iff.mpr ?_
  simp only [List.all_eq_true]
  refine forall₂_congr (fun t ht => ?_)
  have hreq : t.arg1.isReq = false := by simpa using List.any_eq_false.mp h t ht
  cases harg : t.arg1 with
  | reqUrl => simp [harg, BanArg.isReq] at hreq
  | reqHttp name => simp [harg, BanArg.isReq] at hreq
  | objHttp name => simp [BanTest.holds, harg]
  | objStatus => simp [BanTest.holds, harg]

/-- Objcore `x` is `o` and is attached to ban `a`. -/
def Att (st : BanState) (x : Nat) (o : BanOc) (a : Nat) : Prop := st.ocs x = some o ∧ o.ban = some a

/-- No request makes ban `B` match the object. -/
def Harmless (re : String → String → Bool) (st : BanState) (B : Nat) (http : BanHttp) : Prop :=
  (st.ban B).req = false ∧ ∀ r, banEvaluate re (st.ban B).spec http r = false

structure BanWf (st : BanState) : Prop where
  last : 1 ≤ st.last
  order : st.last ≤ st.first
  attached : ∀ x a, x ∈ (st.ban a).objcore ↔ ∃ o, Att st x o a
  nodup : ∀ a, (st.ban a).objcore.Nodup
  inList : ∀ x o a, Att st x o a → st.last ≤ a ∧ a ≤ st.first
  refs : ∀ a, (st.ban a).refcount = (st.ban a).objcore.length + st.hunts.countP (fun p => p.2 = a)
  hunts : ∀ p ∈ st.hunts, p.2 = st.last ∧ st.last < p.1 ∧ p.1 ≤ st.first
  newborn : ∀ x o, st.ocs x = some o → o.ban = none → o.busy = true → o.lurk = 0

/-- Ban `B`, which is gone, need not be tested on the object. -/
def Covered (re : String → String → Bool) (st : BanState) (o : BanOc) (B : Nat) : Prop :=
  (o.busy = false ∧ Harmless re st B o.http) ∨
    ∃ B', B < B' ∧ B' ≤ st.first ∧ (st.ban B').spec = (st.ban B).spec ∧ (st.ban B').gone = false

def Guarded (re : String → String → Bool) (st : BanState) : Prop :=
  ∀ x o a, Att st x o a → ∀ B, a < B → B ≤ st.first → (st.ban B).gone = true → Covered re st o B

/-- What a lookup knows of ban `B`, which is gone. -/
def Settled (re : String → String → Bool) (st : BanState) (o : BanOc) (r : BanHttp) (b0 B : Nat) : Prop :=
  banEvaluate re (st.ban B).spec o.http r = false ∨
    ∃ B', B < B' ∧ B' ≤ b0 ∧ (st.ban B').spec = (st.ban B).spec ∧ (st.ban B').gone = false

/-- A check in progress on `o`, which is attached to ban `a`. -/
structure LookupAt (re : String → String → Bool) (st : BanState) (σ : BanSess) (c : BanCheck) (o : BanOc) (a : Nat) :
    Prop where
  hasReq : c.hasReq = true
  att : Att st c.oc o a
  head : o.objhead = σ.objhead
  onHead : o.onHead = true
  idle : o.busy = false
  newer : a < c.b0
  low : a ≤ c.b
  high : c.b ≤ c.b0
  front : c.b0 ≤ st.first
  walked : ∀ B, c.b < B → B ≤ c.b0 → banEvaluate re (st.ban B).spec o.http σ.req = false
  settled : ∀ B, a < B → B ≤ c.b0 → (st.ban B).gone = true → Settled re st o σ.req c.b0 B

def LookupOk (re : String → String → Bool) (st : BanState) (σ : BanSess) : Prop :=
  ∀ c, σ.check = some c → ∃ o a, LookupAt re st σ c o a

structure BanSessOk (re : String → String → Bool) (st : BanState) : Prop where
  lock : ∀ s σ, st.sess s = some σ → st.mtx σ.objhead = some (.sess s)
  lookup : ∀ s σ, st.sess s = some σ → LookupOk re st σ

/-- The tags. `q` is the number of the pass before, whose newest ban was `β`. -/
structure Tags (st : BanState) (q β : Nat) : Prop where
  pass : st.pass ≠ 0
  other : q ≠ st.pass
  front : β ≤ st.first
  ocs : ∀ x o a, Att st x o a → o.lurk ≠ 0 → o.lurk = st.pass ∨ (o.lurk = q ∧ a ≤ β)
  gone : ∀ B, st.last ≤ B → B ≤ β → (st.ban B).req = false → (st.ban B).gone = true
  bans : ∀ B, st.last ≤ B → B ≤ st.first → (st.ban B).lurk ≠ 0 → (st.ban B).req = false

/-- No tag of the current pass is in use before the pass has found its bans. -/
def Unused (st : BanState) : Prop := ∀ x o a, Att st x o a → o.lurk ≠ st.pass

/-- The bans that are tagged and not gone are those of the pass, `b0` and older. -/
def TaggedUpTo (st : BanState) (b0 : Nat) : Prop :=
  ∀ B, st.last ≤ B → B ≤ st.first → (st.ban B).lurk ≠ 0 → (st.ban B).gone = false → (st.ban B).lurk = st.pass ∧ B ≤ b0

/-- The lurker is at ban `b` of a pass. -/
structure PassAt (re : String → String → Bool) (st : BanState) (b b0 : Nat) : Prop where
  low : st.last ≤ b
  high : b ≤ b0
  front : b0 ≤ st.first
  done : ∀ x o a, Att st x o a → a < b → o.lurk = st.pass
  tested : ∀ x o a, Att st x o a → o.lurk = st.pass → a ≤ b ∧ o.busy = false ∧
    ∀ T, a < T → T ≤ b0 → (st.ban T).gone = false → (st.ban T).req = false → Harmless re st T o.http
  shape : b < b0 → (st.ban b).objcore.Pairwise
    (fun x y => ∀ o o', st.ocs x = some o → st.ocs y = some o' → o.lurk = st.pass → o'.lurk = st.pass)
  marked : ∀ B, st.last ≤ B → B < b → (st.ban B).req = false → (st.ban B).gone = true
  tagged : TaggedUpTo st b0

/-- The lurker holds objcore `x` of ban `b`. -/
structure GotAt (st : BanState) (b x : Nat) (o : BanOc) : Prop where
  att : Att st x o b
  lurk : o.lurk = 0
  idle : o.busy = false
  onHead : o.onHead = true
  mtx : st.mtx o.objhead = some .lurker

structure LurkCheckAt (re : String → String → Bool) (st : BanState) (b b0 : Nat) (c : BanCheck) (o : BanOc) : Prop where
  hasReq : c.hasReq = false
  newer : b < c.b0
  pass : b0 ≤ c.b0
  low : b ≤ c.b
  high : c.b ≤ c.b0
  front : c.b0 ≤ st.first
  walked : ∀ T, c.b < T → T ≤ c.b0 → (st.ban T).gone = false → (st.ban T).req = false → Harmless re st T o.http
  asked : c.skipped = 0 → ∀ T, c.b < T → T ≤ c.b0 → (st.ban T).gone = false → (st.ban T).req = false

def LurkPhase (re : String → String → Bool) (st : BanState) (β : Nat) : BanLurker → Prop
  | .idle => Unused st ∧ TaggedUpTo st 0
  | .tagging b b0 => Unused st ∧ b ≤ st.first ∧ TaggedUpTo st (b0.getD 0) ∧
    ∀ k, b0 = some k → b < k ∧ st.last ≤ k ∧ β < k ∧ k ≤ st.first
  | .working b b0 => β < b0 ∧ PassAt re st b b0
  | .got b b0 x => β < b0 ∧ PassAt re st b b0 ∧ ∃ o, GotAt st b x o
  | .checking b b0 c => β < b0 ∧ PassAt re st b b0 ∧ ∃ o, GotAt st b c.oc o ∧ LurkCheckAt re st b b0 c o

structure BanInv (re : String → String → Bool) (st : BanState) : Prop where
  wf : BanWf st
  sess : BanSessOk re st
  guarded : Guarded re st
  lurk : ∃ q β, Tags st q β ∧ LurkPhase re st β st.lurker

/-- Bans keep their tests, and a ban that is gone stays so. -/
structure BanFrame (st st' : BanState) : Prop where
  first : st.first ≤ st'.first
  last : st'.last = st.last
  spec : ∀ B, B ≤ st.first → (st'.ban B).spec = (st.ban B).spec
  gone : ∀ B, B ≤ st.first → (st.ban B).gone = true → (st'.ban B).gone = true
  fresh : ∀ B, st.first < B → B ≤ st'.first → (st'.ban B).gone = false

/-- No ban gets a tag. -/
def Untags (st st' : BanState) : Prop :=
  ∀ B, B ≤ st'.first → (st'.ban B).lurk = 0 ∨ (B ≤ st.first ∧ (st'.ban B).lurk = (st.ban B).lurk)

lemma BanFrame.req (h : BanFrame st st') {B : Nat} (hB : B ≤ st.first) : (st'.ban B).req = (st.ban B).req := by
  simp only [Ban.req, h.spec B hB]

lemma Harmless.frame {B : Nat} {http : BanHttp} (h : Harmless re st B http) (hf : BanFrame st st') (hB : B ≤ st.first) :
    Harmless re st' B http := by
  unfold Harmless
  rw [hf.req hB, hf.spec B hB]
  exact h

/-- An object after a step: where it was, moved up without a tag, or new at the front. -/
def Follows (st st' : BanState) : Prop :=
  ∀ x o' a', Att st' x o' a' →
    (∃ o, Att st x o a' ∧ o'.lurk = o.lurk ∧ (o.busy = false → o'.busy = false ∧ o'.http = o.http)) ∨
    (∃ o a, Att st x o a ∧ a < a' ∧ o.lurk = 0 ∧ o'.lurk = 0 ∧ (o.busy = false → o'.busy = false ∧ o'.http = o.http)) ∨
    (st.first = a' ∧ o'.lurk = 0)

/-- An object after a step: it has not moved down, and has not changed unless it was busy, or it is new at the front. -/
def Keeps (st st' : BanState) : Prop :=
  ∀ x o' a', Att st' x o' a' →
    (∃ o a, Att st x o a ∧ a ≤ a' ∧ (o.busy = false → o'.busy = false ∧ o'.http = o.http)) ∨ st.first ≤ a'

lemma Follows.keeps (h : Follows st st') : Keeps st st' := by
  intro x o' a' hatt
  rcases h x o' a' hatt with ⟨o, h1, -, h3⟩ | ⟨o, a, h1, h2, -, -, h3⟩ | ⟨h1, -⟩
  · exact Or.inl ⟨o, a', h1, le_rfl, h3⟩
  · exact Or.inl ⟨o, a, h1, h2.le, h3⟩
  · exact Or.inr h1.le

/-- A list of objects after a step: it is shorter, or an object came from below or is new at the front. -/
def Lists (st st' : BanState) : Prop :=
  ∀ a, (st'.ban a).objcore.Sublist (st.ban a).objcore ∨ (∃ x o a0, Att st x o a0 ∧ a0 < a ∧ o.lurk = 0) ∨ st.first ≤ a

/-- What `actor` leaves alone: objects of objheads that others have locked. -/
structure Respects (actor : Option BanHolder) (st st' : BanState) : Prop where
  mtx : ∀ oh h, st.mtx oh = some h → some h ≠ actor → st'.mtx oh = some h
  oc : ∀ x o h, st.ocs x = some o → o.onHead = true → o.busy = false → st.mtx o.objhead = some h → some h ≠ actor →
    st'.ocs x = some o

lemma Covered.frame {o o' : BanOc} {B : Nat} (hf : BanFrame st st') (hB : B ≤ st.first)
    (hkeep : o.busy = false → o'.busy = false ∧ o'.http = o.http)
    (hnew : ∀ B', B < B' → B' ≤ st.first → (st.ban B').gone = false → (st'.ban B').gone = true → Covered re st' o' B')
    (h : Covered re st o B) : Covered re st' o' B := by
  rcases h with ⟨hbusy, hharm⟩ | ⟨B', h1, h2, h3, h4⟩
  · obtain ⟨hb, hh⟩ := hkeep hbusy
    refine Or.inl ⟨hb, ?_⟩
    rw [hh]
    exact hharm.frame hf hB
  · by_cases hg : (st'.ban B').gone = true
    · have hspec : (st'.ban B').spec = (st'.ban B).spec := by rw [hf.spec B' h2, hf.spec B hB, h3]
      rcases hnew B' h1 h2 h4 hg with ⟨hb, hharm⟩ | ⟨B'', k1, k2, k3, k4⟩
      · refine Or.inl ⟨hb, ?_⟩
        unfold Harmless Ban.req at hharm ⊢
        rwa [hspec] at hharm
      · exact Or.inr ⟨B'', h1.trans k1, k2, k3.trans hspec, k4⟩
    · exact Or.inr ⟨B', h1, h2.trans hf.first, by rw [hf.spec B' h2, hf.spec B hB, h3], by simpa using hg⟩

lemma Guarded.frame (h : Guarded re st) (hf : BanFrame st st') (hkeeps : Keeps st st')
    (hnew : ∀ x o a o' B, Att st x o a → (o.busy = false → o'.busy = false ∧ o'.http = o.http) → a < B → B ≤ st.first →
      (st.ban B).gone = false → (st'.ban B).gone = true → Covered re st' o' B) : Guarded re st' := by
  have hold : ∀ x o a o' B, Att st x o a → (o.busy = false → o'.busy = false ∧ o'.http = o.http) → a < B →
      B ≤ st'.first → (st'.ban B).gone = true → Covered re st' o' B := by
    intro x o a o' B hatt hkeep haB hB hg
    have hB1 : B ≤ st.first := by
      by_contra hlt
      have := hf.fresh B (Nat.not_le.mp hlt) hB
      rw [hg] at this
      cases this
    by_cases hg0 : (st.ban B).gone = true
    · exact Covered.frame hf hB1 hkeep (fun B' h1 h2 h3 h4 => hnew x o a o' B' hatt hkeep (haB.trans h1) h2 h3 h4)
        (h x o a hatt B haB hB1 hg0)
    · exact hnew x o a o' B hatt hkeep haB hB1 (by simpa using hg0) hg
  intro x o' a' hatt B haB hB hg
  rcases hkeeps x o' a' hatt with ⟨o, a, h1, h2, h3⟩ | h1
  · exact hold x o a o' B h1 h3 (h2.trans_lt haB) hB hg
  · have := hf.fresh B (h1.trans_lt haB) hB
    rw [hg] at this
    cases this

/-- A lookup in progress does not notice a step that respects its lock, if the bans that go are settled. -/
lemma LookupAt.frame {σ : BanSess} {c : BanCheck} {o : BanOc} {a : Nat} (h : LookupAt re st σ c o a)
    (hf : BanFrame st st') (hoc : st'.ocs c.oc = some o)
    (hnew : ∀ B, a < B → B ≤ c.b0 → (st.ban B).gone = false → (st'.ban B).gone = true → Settled re st' o σ.req c.b0 B) :
    LookupAt re st' σ c o a := by
  refine ⟨h.hasReq, ⟨hoc, h.att.2⟩, h.head, h.onHead, h.idle, h.newer, h.low, h.high, h.front.trans hf.first,
    ?_, ?_⟩
  · intro B h1 h2
    rw [hf.spec B (h2.trans h.front)]
    exact h.walked B h1 h2
  · intro B h1 h2 hg
    have hB := h2.trans h.front
    by_cases hg0 : (st.ban B).gone = true
    · rcases h.settled B h1 h2 hg0 with hs | ⟨B', k1, k2, k3, k4⟩
      · refine Or.inl ?_
        rw [hf.spec B hB]
        exact hs
      · have hspec : (st'.ban B').spec = (st'.ban B).spec := by
          rw [hf.spec B' (k2.trans h.front), hf.spec B hB, k3]
        by_cases hg' : (st'.ban B').gone = true
        · rcases hnew B' (h1.trans k1) k2 k4 hg' with hs | ⟨B'', m1, m2, m3, m4⟩
          · refine Or.inl ?_
            rwa [hspec] at hs
          · exact Or.inr ⟨B'', k1.trans m1, m2, m3.trans hspec, m4⟩
        · exact Or.inr ⟨B', k1, k2, hspec, by simpa using hg'⟩
    · exact hnew B h1 h2 (by simpa using hg0) hg

lemma Tags.frame {q β : Nat} (h : Tags st q β) (hf : BanFrame st st') (hun : Untags st st') (hfol : Follows st st')
    (hpass : st'.pass = st.pass) : Tags st' q β := by
  refine ⟨by rw [hpass]; exact h.pass, by rw [hpass]; exact h.other, h.front.trans hf.first, ?_, ?_, ?_⟩
  · intro x o' a' hatt hl
    rw [hpass]
    rcases hfol x o' a' hatt with ⟨o, h1, h2, -⟩ | ⟨o, a, -, -, -, h4, -⟩ | ⟨-, h2⟩
    · rw [h2] at hl ⊢
      exact h.ocs x o a' h1 hl
    · exact absurd h4 hl
    · exact absurd h2 hl
  · intro B h1 h2 hr
    rw [hf.last] at h1
    have hB := h2.trans h.front
    rw [hf.req hB] at hr
    exact hf.gone B hB (h.gone B h1 h2 hr)
  · intro B h1 h2 hl
    rw [hf.last] at h1
    rcases hun B h2 with h3 | ⟨h3, h4⟩
    · exact absurd h3 hl
    · rw [hf.req h3]
      rw [h4] at hl
      exact h.bans B h1 h3 hl

lemma Unused.frame (h : Unused st) (hfol : Follows st st') (hpass : st'.pass = st.pass) (h0 : st.pass ≠ 0) :
    Unused st' := by
  intro x o' a' hatt
  rw [hpass]
  rcases hfol x o' a' hatt with ⟨o, h1, h2, -⟩ | ⟨o, a, -, -, -, h4, -⟩ | ⟨-, h2⟩
  · rw [h2]
    exact h x o a' h1
  · rw [h4]
    exact h0.symm
  · rw [h2]
    exact h0.symm

lemma TaggedUpTo.frame {b0 : Nat} (h : TaggedUpTo st b0) (hf : BanFrame st st') (hun : Untags st st')
    (hpass : st'.pass = st.pass) : TaggedUpTo st' b0 := by
  intro B h1 h2 hl hg
  rw [hf.last] at h1
  rcases hun B h2 with h3 | ⟨h3, h4⟩
  · exact absurd h3 hl
  · rw [h4] at hl ⊢
    rw [hpass]
    refine h B h1 h3 hl ?_
    by_contra hg0
    rw [hf.gone B h3 (by simpa using hg0)] at hg
    cases hg

lemma PassAt.frame {b b0 : Nat} (h : PassAt re st b b0) (hwf : BanWf st) (hwf' : BanWf st') (hf : BanFrame st st')
    (hun : Untags st st') (hfol : Follows st st') (hlists : Lists st st') (hpass : st'.pass = st.pass)
    (h0 : st.pass ≠ 0) : PassAt re st' b b0 := by
  have hfront := h.front
  have hb : b ≤ st.first := h.high.trans hfront
  refine ⟨by rw [hf.last]; exact h.low, h.high, h.front.trans hf.first, ?_, ?_, ?_, ?_, h.tagged.frame hf hun hpass⟩
  · intro x o' a' hatt hlt
    rw [hpass]
    rcases hfol x o' a' hatt with ⟨o, h1, h2, -⟩ | ⟨o, a, h1, h2, h3, -, -⟩ | ⟨h1, -⟩
    · rw [h2]
      exact h.done x o a' h1 hlt
    · exact absurd ((h.done x o a h1 (h2.trans hlt)).symm.trans h3) h0
    · omega
  · intro x o' a' hatt hl
    rw [hpass] at hl
    rcases hfol x o' a' hatt with ⟨o, h1, h2, h3⟩ | ⟨o, a, -, -, -, h4, -⟩ | ⟨-, h2⟩
    · rw [h2] at hl
      obtain ⟨k1, k2, k3⟩ := h.tested x o a' h1 hl
      obtain ⟨hb', hh⟩ := h3 k2
      refine ⟨k1, hb', fun T m1 m2 m3 m4 => ?_⟩
      have hT := m2.trans h.front
      rw [hf.req hT] at m4
      rw [hh]
      refine (k3 T m1 m2 ?_ m4).frame hf hT
      by_contra hg0
      rw [hf.gone T hT (by simpa using hg0)] at m3
      cases m3
    · exact absurd (hl.symm.trans h4) h0
    · exact absurd (hl.symm.trans h2) h0
  · intro hlt
    rcases hlists b with hs | ⟨x, o, a0, h1, h2, h3⟩ | h1
    · have hmem : ∀ x o', x ∈ (st'.ban b).objcore → st'.ocs x = some o' → ∃ o, st.ocs x = some o ∧ o'.lurk = o.lurk := by
        intro x o' hx ho'
        obtain ⟨o1, ho1, hob⟩ := (hwf'.attached x b).mp hx
        have e : o1 = o' := Option.some.inj (ho1.symm.trans ho')
        subst e
        obtain ⟨o2, ho2, hob2⟩ := (hwf.attached x b).mp (hs.subset hx)
        rcases hfol x o1 b ⟨ho1, hob⟩ with ⟨o, k1, k2, -⟩ | ⟨o, a, k1, k2, -⟩ | ⟨k1, -⟩
        · exact ⟨o, k1.1, k2⟩
        · have e : o = o2 := Option.some.inj (k1.1.symm.trans ho2)
          subst e
          have := Option.some.inj (k1.2.symm.trans hob2)
          omega
        · omega
      refine ((h.shape hlt).sublist hs).imp_of_mem (fun {x y} hx hy hxy o o' ho ho' hl => ?_)
      obtain ⟨p, hp, hpl⟩ := hmem x o hx ho
      obtain ⟨p', hp', hpl'⟩ := hmem y o' hy ho'
      rw [hpass] at hl ⊢
      rw [hpl']
      exact hxy p p' hp hp' (hpl ▸ hl)
    · exact absurd ((h.done x o a0 h1 h2).symm.trans h3) h0
    · omega
  · intro B h1 h2 hr
    rw [hf.last] at h1
    have hB : B ≤ st.first := by omega
    rw [hf.req hB] at hr
    exact hf.gone B hB (h.marked B h1 h2 hr)

lemma GotAt.frame {b x : Nat} {o : BanOc} (h : GotAt st b x o) {actor : Option BanHolder} (hr : Respects actor st st')
    (hactor : actor ≠ some .lurker) : GotAt st' b x o :=
  ⟨⟨hr.oc x o _ h.att.1 h.onHead h.idle h.mtx hactor.symm, h.att.2⟩, h.lurk, h.idle, h.onHead,
    hr.mtx _ _ h.mtx hactor.symm⟩

lemma LurkCheckAt.frame {b b0 : Nat} {c : BanCheck} {o : BanOc} (h : LurkCheckAt re st b b0 c o) (hf : BanFrame st st') :
    LurkCheckAt re st' b b0 c o := by
  have hgone : ∀ T, T ≤ c.b0 → (st'.ban T).gone = false → (st.ban T).gone = false := by
    intro T h2 h3
    by_contra hg0
    rw [hf.gone T (h2.trans h.front) (by simpa using hg0)] at h3
    cases h3
  refine ⟨h.hasReq, h.newer, h.pass, h.low, h.high, h.front.trans hf.first,
    fun T h1 h2 h3 h4 => ?_, fun h0 T h1 h2 h3 => ?_⟩
  · have hT := h2.trans h.front
    rw [hf.req hT] at h4
    exact (h.walked T h1 h2 (hgone T h2 h3) h4).frame hf hT
  · rw [hf.req (h2.trans h.front)]
    exact h.asked h0 T h1 h2 (hgone T h2 h3)

/-- A step of a session, as the others see it. -/
structure SessStep (actor : Option BanHolder) (st st' : BanState) : Prop where
  wf : BanWf st'
  frame : BanFrame st st'
  untags : Untags st st'
  follows : Follows st st'
  lists : Lists st st'
  pass : st'.pass = st.pass
  lurker : st'.lurker = st.lurker
  respects : Respects actor st st'
  actor : actor ≠ some .lurker

lemma SessStep.lurk {actor : Option BanHolder} (h : SessStep actor st st') (hi : BanInv re st) :
    ∃ q β, Tags st' q β ∧ LurkPhase re st' β st'.lurker := by
  obtain ⟨q, β, htags, hphase⟩ := hi.lurk
  refine ⟨q, β, htags.frame h.frame h.untags h.follows h.pass, ?_⟩
  rw [h.lurker]
  have hpass : ∀ b b0, PassAt re st b b0 → PassAt re st' b b0 := fun b b0 hp =>
    hp.frame hi.wf h.wf h.frame h.untags h.follows h.lists h.pass htags.pass
  cases hl : st.lurker with
  | idle =>
    rw [hl] at hphase
    exact ⟨hphase.1.frame h.follows h.pass htags.pass, hphase.2.frame h.frame h.untags h.pass⟩
  | tagging b b0 =>
    rw [hl] at hphase
    obtain ⟨h1, h2, h3, h4⟩ := hphase
    refine ⟨h1.frame h.follows h.pass htags.pass, h2.trans h.frame.first, h3.frame h.frame h.untags h.pass,
      fun k hk => ?_⟩
    obtain ⟨k0, k1, k2, k3⟩ := h4 k hk
    exact ⟨k0, by rw [h.frame.last]; exact k1, k2, k3.trans h.frame.first⟩
  | working b b0 =>
    rw [hl] at hphase
    exact ⟨hphase.1, hpass b b0 hphase.2⟩
  | got b b0 x =>
    rw [hl] at hphase
    obtain ⟨h1, h2, o, h3⟩ := hphase
    exact ⟨h1, hpass b b0 h2, o, h3.frame h.respects h.actor⟩
  | checking b b0 c =>
    rw [hl] at hphase
    obtain ⟨h1, h2, o, h3, h4⟩ := hphase
    exact ⟨h1, hpass b b0 h2, o, h3.frame h.respects h.actor, h4.frame h.frame⟩

/-- The lookups of the others after a step in which the bans that go are settled for them. -/
lemma BanSessOk.other {actor : Option BanHolder} (h : BanSessOk re st) (hf : BanFrame st st')
    (hr : Respects actor st st')
    {t : Nat} {σ : BanSess} (hσ : st.sess t = some σ) (hactor : some (BanHolder.sess t) ≠ actor)
    (hnew : ∀ c o a B, σ.check = some c → LookupAt re st σ c o a → a < B → B ≤ c.b0 → (st.ban B).gone = false →
      (st'.ban B).gone = true → Settled re st' o σ.req c.b0 B) :
    st'.mtx σ.objhead = some (.sess t) ∧ LookupOk re st' σ := by
  have hl := h.lock t σ hσ
  refine ⟨hr.mtx _ _ hl hactor, fun c hc => ?_⟩
  obtain ⟨o, a, hat⟩ := h.lookup t σ hσ c hc
  refine ⟨o, a, hat.frame hf ?_ (fun B h1 h2 h3 h4 => hnew c o a B hc hat h1 h2 h3 h4)⟩
  refine hr.oc c.oc o (.sess t) hat.att.1 hat.onHead hat.idle ?_ hactor
  rw [hat.head]
  exact hl

/-- A step of a session that lets no ban go. -/
lemma SessStep.inv {actor : Option BanHolder} (h : SessStep actor st st') (hi : BanInv re st)
    (hgone : ∀ B, B ≤ st.first → (st'.ban B).gone = (st.ban B).gone)
    (hsess : ∀ t, some (BanHolder.sess t) ≠ actor → st'.sess t = st.sess t)
    (hown : ∀ t σ, some (BanHolder.sess t) = actor → st'.sess t = some σ →
      st'.mtx σ.objhead = some (.sess t) ∧ LookupOk re st' σ) : BanInv re st' := by
  have hno : ∀ B, B ≤ st.first → (st.ban B).gone = false → (st'.ban B).gone = true → False := by
    intro B hB h1 h2
    rw [hgone B hB, h1] at h2
    cases h2
  have hall : ∀ t σ, st'.sess t = some σ → st'.mtx σ.objhead = some (.sess t) ∧ LookupOk re st' σ := by
    intro t σ hσ
    by_cases ht : some (BanHolder.sess t) = actor
    · exact hown t σ ht hσ
    · rw [hsess t ht] at hσ
      exact hi.sess.other h.frame h.respects hσ ht
        (fun c o a B _ hat _ h2 h3 h4 => (hno B (h2.trans hat.front) h3 h4).elim)
  refine ⟨h.wf, ⟨fun t σ hσ => (hall t σ hσ).1, fun t σ hσ => (hall t σ hσ).2⟩, ?_, h.lurk hi⟩
  exact hi.guarded.frame h.frame h.follows.keeps (fun x o a o' B _ _ _ h2 h3 h4 => (hno B h2 h3 h4).elim)

end VarnishCache.Proofs
