import VarnishCache.CritBitLookup
import VarnishCache.Proofs.CritBitMap

/-!
# Concurrent lookups are sound
-/

namespace VarnishCache.Proofs

open VarnishCache CritBit

/-- The objhead has been put into the tree, now or earlier. -/
def Entered (σ : HcbSystem) (oh : Nat) : Prop := (σ.refcnt oh).isSome ∧ ¬ σ.Private oh

/-- The nodes `pub` have been linked in, now or earlier; a walk may hold a pointer to any of them. -/
def GoodPtr (σ : HcbSystem) (pub : Nat → Prop) : Ptr → Prop
  | .null => False
  | .node oh => Entered σ oh
  | .y i => pub i

/-- The session holds a prepared node and an objhead with the digest it looks for. -/
def InHand (σ : HcbSystem) (s : Nat) : Prop :=
  ∃ noh, σ.nobjhead s = some noh ∧ σ.hcb.digestOf noh = some (σ.digest s) ∧ (σ.nhashpriv s).isSome

def SessOk (σ : HcbSystem) (pub : Nat → Prop) (s : Nat) : LookupPc → Prop
  | .idle => True
  | .walk pp => InHand σ s ∧ (pp = .null ∨ GoodPtr σ pub pp)
  | .lock => InHand σ s
  | .found oh => InHand σ s ∧ Entered σ oh ∧ σ.hcb.digestOf oh = some (σ.digest s)
  | .inserted oh => Entered σ oh ∧ σ.hcb.digestOf oh = some (σ.digest s) ∧ ∃ u, σ.refcnt oh = some u ∧ σ.refs oh < u

/-- An objhead is in a session's hand with its first reference, in the tree with a positive count or
with the deref that counted down to zero still to come, out of the tree with count zero, or not there. -/
structure HeadOk (σ : HcbSystem) (ot : Option HTrie) (oh : Nat) : Prop where
  hand : σ.Private oh → σ.refcnt oh = some 1 ∧ oh ∉ leavesOf ot ∧ σ.mtx oh = false ∧ σ.refs oh = 0
  live : oh ∈ leavesOf ot → ¬ σ.Private oh ∧ ∃ u, σ.refcnt oh = some u ∧ (0 < u ↔ σ.mtx oh = false)
  gone : ¬ σ.Private oh → (σ.refcnt oh).isSome → oh ∉ leavesOf ot → σ.refcnt oh = some 0 ∧ σ.mtx oh = false
  refs : ∀ u, σ.refcnt oh = some u → σ.refs oh ≤ u
  blank : σ.refcnt oh = none → σ.mtx oh = false ∧ σ.refs oh = 0

structure LookupInv (σ : HcbSystem) (ot : Option HTrie) (pub : Nat → Prop) : Prop where
  holds : Holds σ.hcb ot
  heads : ∀ oh, HeadOk σ ot oh
  handOwn : ∀ s s' oh, σ.nobjhead s = some oh → σ.nobjhead s' = some oh → s = s'
  priv : ∀ s i, σ.nhashpriv s = some i → (σ.hcb.ys i).isSome ∧ ¬ pub i
  privOwn : ∀ s s' i, σ.nhashpriv s = some i → σ.nhashpriv s' = some i → s = s'
  names : ∀ i ∈ namesOf ot, pub i
  nodes : ∀ i, pub i → ∃ y, σ.hcb.ys i = some y ∧ HcbYOk y ∧ ∀ b, GoodPtr σ pub (y.leaf b)
  sess : ∀ s, SessOk σ pub s (σ.pc s)
  insOwn : ∀ s s' oh, σ.pc s = .inserted oh → σ.pc s' = .inserted oh → s = s'

variable {σ σ' : HcbSystem} {ot ot' : Option HTrie} {pub pub' : Nat → Prop}

lemma GoodPtr.mono (he : ∀ oh, Entered σ oh → Entered σ' oh) (hp : ∀ i, pub i → pub' i) {p : Ptr}
    (h : GoodPtr σ pub p) : GoodPtr σ' pub' p := by
  cases p with
  | null => exact h
  | node oh => exact he oh h
  | y i => exact hp i h

/-- What a session relies on survives the steps of the others. -/
lemma SessOk.mono {s : Nat} {pc : LookupPc} (h : SessOk σ pub s pc) (hh : InHand σ s → InHand σ' s)
    (he : ∀ oh, Entered σ oh → Entered σ' oh ∧ σ'.hcb.digestOf oh = σ.hcb.digestOf oh)
    (hp : ∀ i, pub i → pub' i) (hd : σ'.digest s = σ.digest s)
    (hr : ∀ oh u, pc = .inserted oh → σ.refcnt oh = some u → σ.refs oh < u →
      ∃ u', σ'.refcnt oh = some u' ∧ σ'.refs oh < u') : SessOk σ' pub' s pc := by
  cases pc with
  | idle => trivial
  | walk pp => exact ⟨hh h.1, h.2.imp id (GoodPtr.mono (fun oh ho => (he oh ho).1) hp)⟩
  | lock => exact hh h
  | found oh =>
    obtain ⟨h1, h2, h3⟩ := h
    exact ⟨hh h1, (he oh h2).1, by rw [(he oh h2).2, h3, hd]⟩
  | inserted oh =>
    obtain ⟨h1, h2, u, hu, hlt⟩ := h
    exact ⟨(he oh h1).1, by rw [(he oh h1).2, h2, hd], hr oh u rfl hu hlt⟩

/-- A step that only moves the session's own program counter. -/
lemma LookupInv.setPc (h : LookupInv σ ot pub) {s : Nat} {pc : LookupPc} (hpc : SessOk σ pub s pc)
    (hins : ∀ oh, pc ≠ .inserted oh) : LookupInv (σ.setPc s pc) ot pub := by
  refine ⟨h.holds, fun oh => ⟨(h.heads oh).hand, (h.heads oh).live, (h.heads oh).gone, (h.heads oh).refs,
    (h.heads oh).blank⟩, h.handOwn, h.priv, h.privOwn, h.names, h.nodes, ?_, ?_⟩
  · intro s'
    by_cases hs : s' = s
    · subst hs
      simp only [HcbSystem.setPc, Function.update_self]
      exact hpc.mono id (fun _ ho => ⟨ho, rfl⟩) (fun _ hi => hi) rfl (fun _ u _ hu hlt => ⟨u, hu, hlt⟩)
    · simp only [HcbSystem.setPc, Function.update_of_ne hs]
      exact (h.sess s').mono id (fun _ ho => ⟨ho, rfl⟩) (fun _ hi => hi) rfl (fun _ u _ hu hlt => ⟨u, hu, hlt⟩)
  · intro s1 s2 oh h1 h2
    have key : ∀ s', (σ.setPc s pc).pc s' = .inserted oh → σ.pc s' = .inserted oh := by
      intro s' hs'
      by_cases hs : s' = s
      · subst hs
        simp only [HcbSystem.setPc, Function.update_self] at hs'
        exact absurd hs' (hins oh)
      · simpa only [HcbSystem.setPc, Function.update_of_ne hs] using hs'
    exact h.insOwn s1 s2 oh (key s1 h1) (key s2 h2)

lemma LookupInv.entered (h : LookupInv σ ot pub) {oh : Nat} (ho : oh ∈ leavesOf ot) : Entered σ oh := by
  obtain ⟨hp, u, hu, -⟩ := (h.heads oh).live ho
  exact ⟨by rw [hu]; rfl, hp⟩

lemma HeadOk.congr {oh : Nat} (h : HeadOk σ ot oh) (hr : σ'.refcnt oh = σ.refcnt oh) (hm : σ'.mtx oh = σ.mtx oh)
    (hrefs : σ'.refs oh = σ.refs oh) (hp : σ'.Private oh ↔ σ.Private oh)
    (hl : oh ∈ leavesOf ot' ↔ oh ∈ leavesOf ot) : HeadOk σ' ot' oh := by
  refine ⟨?_, ?_, ?_, ?_, ?_⟩
  · rw [hp, hr, hm, hrefs, hl]
    exact h.hand
  · rw [hp, hr, hm, hl]
    exact h.live
  · rw [hp, hr, hm, hl]
    exact h.gone
  · rw [hr, hrefs]
    exact h.refs
  · rw [hr, hm, hrefs]
    exact h.blank

lemma LookupInv.goodPtr_origo (h : LookupInv σ ot pub) : σ.hcb.origo = .null ∨ GoodPtr σ pub σ.hcb.origo := by
  cases ot with
  | none => exact Or.inl (h.holds.empty rfl)
  | some t =>
    refine Or.inr ?_
    have hrep := h.holds.rep t rfl
    cases t with
    | leaf oh =>
      rw [hrep.1]
      exact h.entered (List.mem_singleton.mpr rfl)
    | node i c l r =>
      rw [hrep.1]
      exact h.names i List.mem_cons_self

lemma digestOf_setOh_of_ne {m : Hcb} {oh b : Nat} {o : ObjHead} (hb : b ≠ oh) :
    (m.setOh oh o).digestOf b = m.digestOf b := by
  simp [Hcb.digestOf, Hcb.setOh, Function.update_of_ne hb]

lemma holds_setOh {m : Hcb} (h : Holds m ot) {oh : Nat} {o : ObjHead}
    (hd : oh ∈ leavesOf ot → m.digestOf oh = some o.digest) : Holds (m.setOh oh o) ot := by
  refine h.frame rfl (fun _ _ => rfl) (fun b ob hb hbm => ?_)
  by_cases hbo : b = oh
  · subst hbo
    refine ⟨o, by simp [Hcb.setOh], ?_⟩
    simpa [Hcb.digestOf, hb] using (hd hbm).symm
  · exact ⟨ob, by simpa [Hcb.setOh, Function.update_of_ne hbo] using hb, rfl⟩

lemma refcnt_setOh_of_ne {oh b : Nat} {o : ObjHead} (hσ : σ'.hcb = σ.hcb.setOh oh o) (hb : b ≠ oh) :
    σ'.refcnt b = σ.refcnt b := by
  simp [HcbSystem.refcnt, hσ, Hcb.setOh, Function.update_of_ne hb]

/-- An objhead in hand is not one that has entered the tree. -/
lemma Entered.ne_hand {oh b s : Nat} (h : Entered σ b) (hs : σ.nobjhead s = some oh) : b ≠ oh := by
  rintro rfl
  exact h.2 ⟨s, hs⟩

/-- A node or an objhead is allocated: the invariant only has to be looked at there. -/
lemma LookupInv.preallocHead (h : LookupInv σ ot pub) (s : Nat) {oh : Nat} (ho : σ.hcb.ohs oh = none)
    (hpc : σ.pc s = .idle) : LookupInv (σ.preallocHead s oh) ot pub := by
  cases hs : σ.nobjhead s with
  | some noh => simpa [HcbSystem.preallocHead, hs] using h
  | none =>
    set σ1 : HcbSystem := { σ with
        hcb := σ.hcb.setOh oh { digest := fun _ => 0, refcnt := 1 }
        nobjhead := Function.update σ.nobjhead s (some oh) } with hσ1
    have hσ : σ.preallocHead s oh = σ1 := by simp [HcbSystem.preallocHead, hs, hσ1]
    rw [hσ]
    have hnone : σ.refcnt oh = none := by simp [HcbSystem.refcnt, ho]
    have hleaf : oh ∉ leavesOf ot := by
      intro hm
      obtain ⟨-, u, hu, -⟩ := (h.heads oh).live hm
      rw [hnone] at hu
      cases hu
    have hfree : ∀ s', σ.nobjhead s' ≠ some oh := by
      intro s' hs'
      have := ((h.heads oh).hand ⟨s', hs'⟩).1
      rw [hnone] at this
      cases this
    have hnob : ∀ s', s' ≠ s → σ1.nobjhead s' = σ.nobjhead s' := fun s' hss => Function.update_of_ne hss _ _
    have hpriv : ∀ b, b ≠ oh → (σ1.Private b ↔ σ.Private b) := by
      intro b hb
      constructor
      · rintro ⟨s', hs'⟩
        by_cases hss : s' = s
        · subst hss
          rw [hσ1] at hs'
          simp only [Function.update_self, Option.some.injEq] at hs'
          exact absurd hs'.symm hb
        · exact ⟨s', by rwa [hnob s' hss] at hs'⟩
      · rintro ⟨s', hs'⟩
        have hss : s' ≠ s := fun e => by rw [e, hs] at hs'; cases hs'
        exact ⟨s', by rw [hnob s' hss, hs']⟩
    have hent : ∀ b, Entered σ b → Entered σ1 b ∧ σ1.hcb.digestOf b = σ.hcb.digestOf b := by
      intro b hb
      have hbo : b ≠ oh := by
        rintro rfl
        have := hb.1
        rw [hnone] at this
        cases this
      exact ⟨⟨by rw [refcnt_setOh_of_ne rfl hbo]; exact hb.1, fun hp => hb.2 ((hpriv b hbo).mp hp)⟩,
        digestOf_setOh_of_ne hbo⟩
    refine ⟨holds_setOh h.holds (fun hm => absurd hm hleaf), fun b => ?_, ?_, h.priv, h.privOwn, h.names, ?_, ?_,
      h.insOwn⟩
    · by_cases hbo : b = oh
      · subst hbo
        obtain ⟨hm, hr⟩ := (h.heads b).blank hnone
        have h1 : σ1.refcnt b = some 1 := by simp [HcbSystem.refcnt, hσ1, Hcb.setOh]
        have hp : σ1.Private b := ⟨s, by simp [hσ1]⟩
        refine ⟨fun _ => ⟨h1, hleaf, hm, hr⟩, fun hl => absurd hl hleaf, fun hn => absurd hp hn, ?_, ?_⟩
        · intro u _
          exact hr ▸ Nat.zero_le u
        · rw [h1]
          intro e
          cases e
      · exact (h.heads b).congr (refcnt_setOh_of_ne rfl hbo) rfl rfl (hpriv b hbo) Iff.rfl
    · intro s1 s2 b h1 h2
      by_cases e1 : s1 = s <;> by_cases e2 : s2 = s
      · rw [e1, e2]
      · rw [hnob s2 e2] at h2
        subst e1
        simp only [hσ1, Function.update_self, Option.some.injEq] at h1
        exact absurd (h1 ▸ h2) (hfree s2)
      · rw [hnob s1 e1] at h1
        subst e2
        simp only [hσ1, Function.update_self, Option.some.injEq] at h2
        exact absurd (h2 ▸ h1) (hfree s1)
      · exact h.handOwn s1 s2 b (by rwa [hnob s1 e1] at h1) (by rwa [hnob s2 e2] at h2)
    · intro i hi
      obtain ⟨y, hy, hok, hgood⟩ := h.nodes i hi
      exact ⟨y, hy, hok, fun b => (hgood b).mono (fun c hc => (hent c hc).1) (fun _ hj => hj)⟩
    · intro s'
      by_cases hss : s' = s
      · subst hss
        have : σ1.pc s' = .idle := hpc
        rw [this]
        trivial
      · refine (h.sess s').mono ?_ hent (fun _ hj => hj) rfl ?_
        · rintro ⟨noh, hn, hd, hi⟩
          have hno : noh ≠ oh := fun e => hfree s' (e ▸ hn)
          exact ⟨noh, by rw [hnob s' hss, hn], by rw [← hd]; exact digestOf_setOh_of_ne hno, hi⟩
        · intro b u hb hu hlt
          have hbo : b ≠ oh := by
            rintro rfl
            rw [hnone] at hu
            cases hu
          exact ⟨u, by rw [refcnt_setOh_of_ne rfl hbo, hu], hlt⟩

lemma LookupInv.preallocY (h : LookupInv σ ot pub) (s : Nat) {i : Nat} (hi : σ.hcb.ys i = none) :
    LookupInv (σ.preallocY s i) ot pub := by
  cases hs : σ.nhashpriv s with
  | some j => simpa [HcbSystem.preallocY, hs] using h
  | none =>
    set σ1 : HcbSystem := { σ with
        hcb := σ.hcb.allocY i, nhashpriv := Function.update σ.nhashpriv s (some i) } with hσ1
    have hσ : σ.preallocY s i = σ1 := by simp [HcbSystem.preallocY, hs, hσ1]
    rw [hσ]
    have hpub : ∀ j, pub j → j ≠ i := by
      rintro j hj rfl
      obtain ⟨y, hy, -⟩ := h.nodes j hj
      rw [hi] at hy
      cases hy
    have hfree : ∀ s', σ.nhashpriv s' ≠ some i := by
      intro s' hs'
      have := (h.priv s' i hs').1
      rw [hi] at this
      cases this
    have hnh : ∀ s', s' ≠ s → σ1.nhashpriv s' = σ.nhashpriv s' := fun s' hss => Function.update_of_ne hss _ _
    have hys : ∀ j, j ≠ i → σ1.hcb.ys j = σ.hcb.ys j := fun j hj => Function.update_of_ne hj _ _
    refine ⟨h.holds.frame rfl (fun j hj => hys j (hpub j (h.names j hj))) (fun _ o ho _ => ⟨o, ho, rfl⟩),
      fun b => (h.heads b).congr rfl rfl rfl Iff.rfl Iff.rfl, h.handOwn, ?_, ?_, h.names, ?_, ?_, h.insOwn⟩
    · intro s' j hj
      by_cases hss : s' = s
      · subst hss
        simp only [hσ1, Function.update_self, Option.some.injEq] at hj
        subst hj
        exact ⟨by simp [hσ1, Hcb.allocY, Hcb.setY], fun hp => hpub i hp rfl⟩
      · rw [hnh s' hss] at hj
        obtain ⟨hy, hp⟩ := h.priv s' j hj
        exact ⟨by rwa [hys j (fun e => hfree s' (e ▸ hj))], hp⟩
    · intro s1 s2 j h1 h2
      by_cases e1 : s1 = s <;> by_cases e2 : s2 = s
      · rw [e1, e2]
      · rw [hnh s2 e2] at h2
        subst e1
        simp only [hσ1, Function.update_self, Option.some.injEq] at h1
        exact absurd (h1 ▸ h2) (hfree s2)
      · rw [hnh s1 e1] at h1
        subst e2
        simp only [hσ1, Function.update_self, Option.some.injEq] at h2
        exact absurd (h2 ▸ h1) (hfree s1)
      · exact h.privOwn s1 s2 j (by rwa [hnh s1 e1] at h1) (by rwa [hnh s2 e2] at h2)
    · intro j hj
      obtain ⟨y, hy, hok, hgood⟩ := h.nodes j hj
      exact ⟨y, by rw [hys j (hpub j hj), hy], hok, hgood⟩
    · intro s'
      refine (h.sess s').mono ?_ (fun _ hb => ⟨hb, rfl⟩) (fun _ hj => hj) rfl (fun _ u _ hu hlt => ⟨u, hu, hlt⟩)
      rintro ⟨noh, hn, hd, hsome⟩
      refine ⟨noh, hn, hd, ?_⟩
      by_cases hss : s' = s
      · subst hss
        simp [hσ1]
      · rwa [hnh s' hss]

lemma LookupInv.start (h : LookupInv σ ot pub) {s : Nat} (hs : (σ.nobjhead s).isSome) (hi : (σ.nhashpriv s).isSome)
    (hpc : σ.pc s = .idle) (d : Digest) : ∃ σ', σ.start s d = some σ' ∧ LookupInv σ' ot pub := by
  obtain ⟨noh, hs⟩ := Option.isSome_iff_exists.mp hs
  obtain ⟨hr1, hleaf, hm, hr0⟩ := (h.heads noh).hand ⟨s, hs⟩
  obtain ⟨o, ho, hor⟩ := Option.map_eq_some_iff.mp hr1
  set σ1 : HcbSystem := { σ with
    hcb := σ.hcb.setOh noh { o with digest := d }
    digest := Function.update σ.digest s d
    pc := Function.update σ.pc s (.walk σ.hcb.origo) } with hσ1
  refine ⟨σ1, by simp [HcbSystem.start, hs, ho, hσ1], ?_⟩
  have hrc : ∀ b, σ1.refcnt b = σ.refcnt b := by
    intro b
    by_cases hb : b = noh
    · subst hb
      simp [HcbSystem.refcnt, hσ1, Hcb.setOh, ho]
    · exact refcnt_setOh_of_ne rfl hb
  have hent : ∀ b, Entered σ b → Entered σ1 b ∧ σ1.hcb.digestOf b = σ.hcb.digestOf b := by
    intro b hb
    exact ⟨⟨by rw [hrc]; exact hb.1, hb.2⟩, digestOf_setOh_of_ne (hb.ne_hand hs)⟩
  have hpcs : ∀ s', s' ≠ s → σ1.pc s' = σ.pc s' := fun s' hss => Function.update_of_ne hss _ _
  refine ⟨holds_setOh h.holds (fun hl => absurd hl hleaf), fun b => (h.heads b).congr (hrc b) rfl rfl Iff.rfl Iff.rfl,
    h.handOwn, h.priv, h.privOwn, h.names, ?_, ?_, ?_⟩
  · intro i hi
    obtain ⟨y, hy, hok, hgood⟩ := h.nodes i hi
    exact ⟨y, hy, hok, fun b => (hgood b).mono (fun c hc => (hent c hc).1) (fun _ hj => hj)⟩
  · intro s'
    by_cases hss : s' = s
    · subst hss
      have hpc1 : σ1.pc s' = .walk σ.hcb.origo := by simp [hσ1]
      rw [hpc1]
      refine ⟨⟨noh, hs, by simp [hσ1, Hcb.digestOf, Hcb.setOh], hi⟩, ?_⟩
      exact h.goodPtr_origo.imp id (GoodPtr.mono (fun c hc => (hent c hc).1) (fun _ hj => hj))
    · rw [hpcs s' hss]
      have hdig : σ1.digest s' = σ.digest s' := Function.update_of_ne hss _ _
      refine (h.sess s').mono ?_ hent (fun _ hj => hj) hdig (fun b u _ hu hlt => ⟨u, by rw [hrc, hu], hlt⟩)
      rintro ⟨noh', hn, hd, hsome⟩
      have hne : noh' ≠ noh := fun e => hss (h.handOwn s' s noh (e ▸ hn) hs)
      exact ⟨noh', hn, by rw [hdig, ← hd]; exact digestOf_setOh_of_ne hne, hsome⟩
  · intro s1 s2 b h1 h2
    have key : ∀ s', σ1.pc s' = .inserted b → σ.pc s' = .inserted b := by
      intro s' hs'
      by_cases hss : s' = s
      · subst hss
        simp [hσ1] at hs'
      · rwa [hpcs s' hss] at hs'
    exact h.insOwn s1 s2 b (key s1 h1) (key s2 h2)

/-- A change of the count of an objhead in the tree, under its mutex. -/
lemma LookupInv.count (h : LookupInv σ ot pub) {oh : Nat} {o : ObjHead} (ho : σ.hcb.ohs oh = some o)
    (hl : oh ∈ leavesOf ot) {u r : Nat} {b : Bool} (hb : 0 < u ↔ b = false) (hr : r ≤ u)
    (hlt : σ.refs oh < o.refcnt → r < u) :
    LookupInv { σ with
      hcb := σ.hcb.setOh oh { o with refcnt := u }
      mtx := Function.update σ.mtx oh b
      refs := Function.update σ.refs oh r } ot pub := by
  set σ1 : HcbSystem := { σ with
      hcb := σ.hcb.setOh oh { o with refcnt := u }
      mtx := Function.update σ.mtx oh b
      refs := Function.update σ.refs oh r } with hσ1
  have hself : σ1.refcnt oh = some u := by simp [HcbSystem.refcnt, hσ1, Hcb.setOh]
  have hdig : ∀ c, σ1.hcb.digestOf c = σ.hcb.digestOf c := by
    intro c
    by_cases hc : c = oh
    · subst hc
      simp [hσ1, Hcb.digestOf, Hcb.setOh, ho]
    · exact digestOf_setOh_of_ne hc
  have hent : ∀ c, Entered σ c → Entered σ1 c ∧ σ1.hcb.digestOf c = σ.hcb.digestOf c := by
    intro c hc
    refine ⟨⟨?_, hc.2⟩, hdig c⟩
    by_cases hco : c = oh
    · rw [hco, hself]
      rfl
    · rw [refcnt_setOh_of_ne rfl hco]
      exact hc.1
  refine ⟨holds_setOh h.holds (fun _ => by simp [Hcb.digestOf, ho]), fun c => ?_, h.handOwn, h.priv, h.privOwn,
    h.names, ?_, ?_, h.insOwn⟩
  · by_cases hc : c = oh
    · subst hc
      have hnp := ((h.heads c).live hl).1
      refine ⟨fun hp => absurd hp hnp, fun _ => ⟨hnp, u, hself, ?_⟩, fun _ _ hn => absurd hl hn, ?_, ?_⟩
      · simpa [hσ1] using hb
      · intro v hv
        rw [hself] at hv
        cases hv
        simpa [hσ1] using hr
      · rw [hself]
        intro e
        cases e
    · exact (h.heads c).congr (refcnt_setOh_of_ne rfl hc) (Function.update_of_ne hc _ _)
        (Function.update_of_ne hc _ _) Iff.rfl Iff.rfl
  · intro i hi
    obtain ⟨y, hy, hok, hgood⟩ := h.nodes i hi
    exact ⟨y, hy, hok, fun c => (hgood c).mono (fun d hd => (hent d hd).1) (fun _ hj => hj)⟩
  · intro s
    refine (h.sess s).mono ?_ hent (fun _ hj => hj) rfl ?_
    · rintro ⟨noh, hn, hd, hsome⟩
      exact ⟨noh, hn, by rw [hdig, hd], hsome⟩
    · intro c v _ hv hvlt
      by_cases hc : c = oh
      · subst hc
        have hvo : o.refcnt = v := by simpa [HcbSystem.refcnt, ho] using hv
        refine ⟨u, hself, ?_⟩
        simpa [hσ1] using hlt (by rw [hvo]; exact hvlt)
      · refine ⟨v, by rw [refcnt_setOh_of_ne rfl hc, hv], ?_⟩
        simpa [hσ1, Function.update_of_ne hc] using hvlt

/-- The pointers of a node in the tree lead to the objheads and nodes of the tree. -/
lemma rep_node {m : Hcb} {p : Ptr} {t : HTrie} (h : Rep m p t) {i : Nat} (hi : i ∈ t.names) :
    ∃ y, m.ys i = some y ∧ HcbYOk y ∧ ∀ b, (∃ oh ∈ t.leaves, y.leaf b = .node oh) ∨ ∃ j ∈ t.names, y.leaf b = .y j := by
  induction t generalizing p with
  | leaf b => cases hi
  | node k c l r ihl ihr =>
    obtain ⟨-, y, hy, -, hok, hl, hr⟩ := h
    rcases List.mem_cons.mp hi with rfl | hi
    · have root : ∀ {q : Ptr} {u : HTrie}, Rep m q u →
          (∃ oh ∈ u.leaves, q = .node oh) ∨ ∃ j ∈ u.names, q = .y j := by
        intro q u hu
        cases u with
        | leaf b => exact Or.inl ⟨b, List.mem_singleton.mpr rfl, hu.1⟩
        | node j d l' r' => exact Or.inr ⟨j, List.mem_cons_self, hu.1⟩
      refine ⟨y, hy, hok, fun b => ?_⟩
      cases b with
      | false =>
        refine (root hl).imp ?_ ?_
        · exact fun ⟨oh, ho, e⟩ => ⟨oh, List.mem_append_left _ ho, e⟩
        · exact fun ⟨j, hj, e⟩ => ⟨j, List.mem_cons_of_mem _ (List.mem_append_left _ hj), e⟩
      | true =>
        refine (root hr).imp ?_ ?_
        · exact fun ⟨oh, ho, e⟩ => ⟨oh, List.mem_append_right _ ho, e⟩
        · exact fun ⟨j, hj, e⟩ => ⟨j, List.mem_cons_of_mem _ (List.mem_append_right _ hj), e⟩
    · rcases List.mem_append.mp hi with hi | hi
      · obtain ⟨y', hy', hok', hp⟩ := ihl hl hi
        refine ⟨y', hy', hok', fun b => (hp b).imp ?_ ?_⟩
        · exact fun ⟨oh, ho, e⟩ => ⟨oh, List.mem_append_left _ ho, e⟩
        · exact fun ⟨j, hj, e⟩ => ⟨j, List.mem_cons_of_mem _ (List.mem_append_left _ hj), e⟩
      · obtain ⟨y', hy', hok', hp⟩ := ihr hr hi
        refine ⟨y', hy', hok', fun b => (hp b).imp ?_ ?_⟩
        · exact fun ⟨oh, ho, e⟩ => ⟨oh, List.mem_append_right _ ho, e⟩
        · exact fun ⟨j, hj, e⟩ => ⟨j, List.mem_cons_of_mem _ (List.mem_append_right _ hj), e⟩

/-- After a change of the tree, its own nodes are good because it is a tree, and all other nodes ever
linked in because they were not touched. -/
lemma nodes_of_holds (h : LookupInv σ ot pub) (hholds : Holds σ'.hcb ot') (hent : ∀ oh, Entered σ oh → Entered σ' oh)
    (hleaf : ∀ oh ∈ leavesOf ot', Entered σ' oh) (hpub : ∀ i, pub i → pub' i) (hname : ∀ i ∈ namesOf ot', pub' i)
    (hys : ∀ i, pub' i → i ∉ namesOf ot' → pub i ∧ σ'.hcb.ys i = σ.hcb.ys i) (i : Nat) (hi : pub' i) :
    ∃ y, σ'.hcb.ys i = some y ∧ HcbYOk y ∧ ∀ b, GoodPtr σ' pub' (y.leaf b) := by
  by_cases hin : i ∈ namesOf ot'
  · cases ot' with
    | none => cases hin
    | some t =>
      obtain ⟨y, hy, hok, hp⟩ := rep_node (hholds.rep t rfl) hin
      refine ⟨y, hy, hok, fun b => ?_⟩
      rcases hp b with ⟨oh, ho, e⟩ | ⟨j, hj, e⟩
      · rw [e]
        exact hleaf oh ho
      · rw [e]
        exact hname j hj
  · obtain ⟨hpi, hsame⟩ := hys i hi hin
    obtain ⟨y, hy, hok, hgood⟩ := h.nodes i hpi
    exact ⟨y, hsame.trans hy, hok, fun b => (hgood b).mono hent hpub⟩

lemma leave_eq {s oh u : Nat} (hu : σ.refcnt oh = some u) (hpos : 0 < u) : σ.leave s oh =
    some (HcbSystem.setPc { σ with refs := Function.update σ.refs oh (σ.refs oh + 1) } s .idle) := by
  simp [HcbSystem.leave, hu, Nat.ne_of_gt hpos]

lemma raise_pos {s oh : Nat} {o : ObjHead} (ho : σ.hcb.ohs oh = some o) (hpos : 0 < o.refcnt) : σ.raise s oh =
    some (HcbSystem.setPc { σ with
      hcb := σ.hcb.setOh oh { o with refcnt := o.refcnt + 1 }
      refs := Function.update σ.refs oh (σ.refs oh + 1) } s .idle, true) := by
  simp [HcbSystem.raise, ho, hpos]

lemma raise_zero {s oh : Nat} {o : ObjHead} (ho : σ.hcb.ohs oh = some o) (hz : ¬ 0 < o.refcnt) :
    σ.raise s oh = some (σ.setPc s .lock, false) := by
  simp [HcbSystem.raise, ho, hz]

lemma deref_eq {oh : Nat} {o : ObjHead} (ho : σ.hcb.ohs oh = some o) (hpos : o.refcnt ≠ 0) : σ.deref oh =
    some { σ with
      hcb := σ.hcb.setOh oh { o with refcnt := o.refcnt - 1 }
      mtx := Function.update σ.mtx oh (decide (o.refcnt - 1 = 0))
      refs := Function.update σ.refs oh (σ.refs oh - 1) } := by
  simp [HcbSystem.deref, ho, hpos]

lemma LookupInv.leave (h : LookupInv σ ot pub) {s oh : Nat} (hpc : σ.pc s = .inserted oh) :
    ∃ σ', σ.leave s oh = some σ' ∧ LookupInv σ' ot pub := by
  have hs := h.sess s
  rw [hpc] at hs
  obtain ⟨he, hd, u, hu, hlt⟩ := hs
  refine ⟨_, leave_eq hu (Nat.zero_lt_of_lt hlt), ?_⟩
  set σ1 : HcbSystem := { σ with refs := Function.update σ.refs oh (σ.refs oh + 1) } with hσ1
  have hpcs : ∀ s', s' ≠ s → (σ1.setPc s .idle).pc s' = σ.pc s' := fun s' hss => Function.update_of_ne hss _ _
  refine ⟨h.holds, fun b => ?_, h.handOwn, h.priv, h.privOwn, h.names, h.nodes, fun s' => ?_, fun s1 s2 b h1 h2 => ?_⟩
  · by_cases hb : b = oh
    · subst hb
      refine ⟨fun hp => absurd hp he.2, (h.heads b).live, (h.heads b).gone, fun v hv => ?_, fun hn => ?_⟩
      · have hvu : u = v := Option.some.inj (hu.symm.trans hv)
        simpa [hσ1, HcbSystem.setPc, ← hvu] using hlt
      · exact absurd (hu.symm.trans hn) nofun
    · exact (h.heads b).congr rfl rfl (Function.update_of_ne hb _ _) Iff.rfl Iff.rfl
  · by_cases hss : s' = s
    · subst hss
      simp [HcbSystem.setPc, SessOk]
    · rw [hpcs s' hss]
      refine (h.sess s').mono id (fun _ hb => ⟨hb, rfl⟩) (fun _ hj => hj) rfl (fun b v hb hv hvlt => ⟨v, hv, ?_⟩)
      have hbo : b ≠ oh := fun e => hss (h.insOwn s' s oh (e ▸ hb) hpc)
      simpa [hσ1, HcbSystem.setPc, Function.update_of_ne hbo] using hvlt
  · have key : ∀ s', (σ1.setPc s .idle).pc s' = .inserted b → σ.pc s' = .inserted b := by
      intro s' hs'
      by_cases hss : s' = s
      · subst hss
        simp [HcbSystem.setPc] at hs'
      · rwa [hpcs s' hss] at hs'
    exact h.insOwn s1 s2 b (key s1 h1) (key s2 h2)

/-- An objhead with a positive count that has entered the tree is still there. -/
lemma LookupInv.mem_of_refcnt (h : LookupInv σ ot pub) {oh u : Nat} (he : Entered σ oh) (hu : σ.refcnt oh = some u)
    (hpos : 0 < u) : oh ∈ leavesOf ot := by
  by_contra hl
  have := ((h.heads oh).gone he.2 he.1 hl).1
  rw [hu] at this
  cases this
  exact absurd hpos (lt_irrefl _)

lemma LookupInv.raise (h : LookupInv σ ot pub) {s oh : Nat} (hpc : σ.pc s = .found oh) (hm : σ.mtx oh = false) :
    ∃ σ' r, σ.raise s oh = some (σ', r) ∧ LookupInv σ' ot pub := by
  have hs := h.sess s
  rw [hpc] at hs
  obtain ⟨hh, he, hd⟩ := hs
  obtain ⟨o, ho, -⟩ := digestOf_some hd
  have hr : σ.refcnt oh = some o.refcnt := by simp [HcbSystem.refcnt, ho]
  by_cases hpos : 0 < o.refcnt
  · have hl := h.mem_of_refcnt he hr hpos
    have hle := (h.heads oh).refs _ hr
    have hc := h.count ho hl (u := o.refcnt + 1) (r := σ.refs oh + 1) (b := false) (by simp) (by omega) (by omega)
    rw [← hm, Function.update_eq_self] at hc
    exact ⟨_, true, raise_pos ho hpos, hc.setPc trivial (by simp)⟩
  · exact ⟨_, false, raise_zero ho hpos, h.setPc hh (by simp)⟩

lemma LookupInv.deref (h : LookupInv σ ot pub) {oh : Nat} (hr : 0 < σ.refs oh) :
    ∃ σ', σ.deref oh = some σ' ∧ LookupInv σ' ot pub := by
  cases ho : σ.hcb.ohs oh with
  | none =>
    have := ((h.heads oh).blank (by simp [HcbSystem.refcnt, ho])).2
    omega
  | some o =>
    have hrc : σ.refcnt oh = some o.refcnt := by simp [HcbSystem.refcnt, ho]
    have hle := (h.heads oh).refs _ hrc
    have hnp : ¬ σ.Private oh := fun hp => by
      have := ((h.heads oh).hand hp).2.2.2
      omega
    have hl := h.mem_of_refcnt ⟨by rw [hrc]; rfl, hnp⟩ hrc (by omega)
    have hne : o.refcnt ≠ 0 := by omega
    refine ⟨_, deref_eq ho hne, h.count ho hl ?_ (by omega) (by omega)⟩
    rw [decide_eq_false_iff_not]
    omega

lemma LookupInv.walk (h : LookupInv σ ot pub) {s : Nat} {pp : Ptr} (hpc : σ.pc s = .walk pp) :
    ∃ σ', σ.walk s pp = some σ' ∧ LookupInv σ' ot pub := by
  have hs := h.sess s
  rw [hpc] at hs
  obtain ⟨hh, hgood⟩ := hs
  obtain ⟨noh, hn, hd, hi⟩ := id hh
  obtain ⟨o, ho, hod⟩ := digestOf_some hd
  cases pp with
  | null => exact ⟨σ.setPc s .lock, by simp [HcbSystem.walk, hn, Hcb.arrive], h.setPc hh (by simp)⟩
  | y i =>
    obtain ⟨y, hy, hok, hleaf⟩ := h.nodes i (hgood.resolve_left (by simp))
    exact ⟨σ.setPc s (.walk (y.leaf (digestBit o.digest y.critbit))),
      by simp [HcbSystem.walk, hn, ho, follow_eq hy hok], h.setPc ⟨hh, Or.inr (hleaf _)⟩ (by simp)⟩
  | node oh2 =>
    have he : Entered σ oh2 := hgood.resolve_left (by simp)
    obtain ⟨u, hu⟩ := Option.isSome_iff_exists.mp he.1
    obtain ⟨o2, ho2, -⟩ := Option.map_eq_some_iff.mp hu
    have hne : oh2 ≠ noh := he.ne_hand hn
    by_cases hdd : o2.digest = o.digest
    · refine ⟨σ.setPc s (.found oh2), by simp [HcbSystem.walk, hn, Hcb.arrive, ho, ho2, hdd, hne],
        h.setPc ⟨hh, he, ?_⟩ (by simp)⟩
      simp [Hcb.digestOf, ho2, hdd, hod]
    · exact ⟨σ.setPc s .lock, by simp [HcbSystem.walk, hn, Hcb.arrive, ho, ho2, hdd], h.setPc hh (by simp)⟩

lemma LookupInv.insert_found (h : LookupInv σ ot pub) {s noh oh2 : Nat} {o o2 : ObjHead} (hpc : σ.pc s = .lock)
    (hn : σ.nobjhead s = some noh) (ho : σ.hcb.ohs noh = some o) (hl : oh2 ∈ leavesOf ot)
    (ho2 : σ.hcb.ohs oh2 = some o2) (hdd : o2.digest = o.digest) :
    σ.insert s = some (σ.setPc s (.found oh2)) ∧ LookupInv (σ.setPc s (.found oh2)) ot pub := by
  have hs := h.sess s
  rw [hpc] at hs
  obtain ⟨noh', hn', hd, hi⟩ := id hs
  rw [hn] at hn'
  cases hn'
  obtain ⟨np, hnp⟩ := Option.isSome_iff_exists.mp hi
  have he := h.entered hl
  have hne : oh2 ≠ noh := he.ne_hand hn
  have h1 := ((h.heads noh).hand ⟨s, hn⟩).1
  constructor
  · simp [HcbSystem.insert, hn, hnp, h1, hcbInsert_found h.holds ho hl ho2 hdd, hne]
    rw [← hnp, Function.update_eq_self]
  · refine h.setPc ⟨hs, he, ?_⟩ (by simp)
    rw [← hd]
    simp [Hcb.digestOf, ho2, hdd, ho]

/-- The state after `hcb_insert` has put the session's own objhead into the tree. -/
def afterInsert (σ : HcbSystem) (s noh : Nat) (m : Hcb) (np : Option Nat) : HcbSystem :=
  { σ with
    hcb := m
    nhashpriv := Function.update σ.nhashpriv s np
    nobjhead := Function.update σ.nobjhead s none
    pc := Function.update σ.pc s (.inserted noh) }

lemma LookupInv.insert_new (h : LookupInv σ ot pub) {s noh i : Nat} {o : ObjHead} (hpc : σ.pc s = .lock)
    (hn : σ.nobjhead s = some noh) (ho : σ.hcb.ohs noh = some o) (hi : σ.nhashpriv s = some i)
    (hno : ∀ b ∈ leavesOf ot, ∀ ob, σ.hcb.ohs b = some ob → ob.digest ≠ o.digest) :
    ∃ m np ot' pub', σ.insert s = some (afterInsert σ s noh m np) ∧ noh ∈ leavesOf ot' ∧ m.ohs = σ.hcb.ohs ∧
      LookupInv (afterInsert σ s noh m np) ot' pub' := by
  have hs := h.sess s
  rw [hpc] at hs
  obtain ⟨noh', hn', hd, -⟩ := id hs
  rw [hn] at hn'
  cases hn'
  obtain ⟨hyi, hip⟩ := h.priv s i hi
  obtain ⟨y0, hy0⟩ := Option.isSome_iff_exists.mp hyi
  obtain ⟨h1, hleaf, hm, hr0⟩ := (h.heads noh).hand ⟨s, hn⟩
  obtain ⟨m, ot', k, np, hins, hholds, hleaves, hnames, hk, -, hohs, hys⟩ :=
    hcbInsert_new h.holds ho hno hy0 (fun hin => hip (h.names i hin))
  have hki : ∀ j ∈ k, j = i := by
    intro j hj
    rcases hk with ⟨rfl, -⟩ | ⟨rfl, -⟩
    · cases hj
    · exact List.mem_singleton.mp hj
  set σ1 := afterInsert σ s noh m np with hσ1
  have hnob : ∀ s', s' ≠ s → σ1.nobjhead s' = σ.nobjhead s' := fun s' hss => Function.update_of_ne hss _ _
  have hpcs : ∀ s', s' ≠ s → σ1.pc s' = σ.pc s' := fun s' hss => Function.update_of_ne hss _ _
  have hrc : ∀ b, σ1.refcnt b = σ.refcnt b := fun b => by simp [HcbSystem.refcnt, hσ1, afterInsert, hohs]
  have hdig : ∀ b, σ1.hcb.digestOf b = σ.hcb.digestOf b := fun b => congrFun (digestOf_congr hohs) b
  have hnone : σ1.nobjhead s = none := by simp [hσ1, afterInsert]
  have hpriv : ∀ b, σ1.Private b ↔ σ.Private b ∧ b ≠ noh := by
    intro b
    constructor
    · rintro ⟨s', hs'⟩
      have hss : s' ≠ s := fun e => by rw [e, hnone] at hs'; cases hs'
      rw [hnob s' hss] at hs'
      exact ⟨⟨s', hs'⟩, fun e => hss (h.handOwn s' s noh (e ▸ hs') hn)⟩
    · rintro ⟨⟨s', hs'⟩, hb⟩
      have hss : s' ≠ s := fun e => by
        rw [e, hn] at hs'
        exact hb (Option.some.inj hs').symm
      exact ⟨s', by rw [hnob s' hss, hs']⟩
  have hnpriv : ¬ σ1.Private noh := fun hp => ((hpriv noh).mp hp).2 rfl
  have hent : ∀ b, Entered σ b → Entered σ1 b ∧ σ1.hcb.digestOf b = σ.hcb.digestOf b := fun b hb =>
    ⟨⟨by rw [hrc]; exact hb.1, fun hp => hb.2 ((hpriv b).mp hp).1⟩, hdig b⟩
  have hentn : Entered σ1 noh := ⟨by rw [hrc, h1]; rfl, hnpriv⟩
  have hnh : ∀ s' j, σ1.nhashpriv s' = some j → σ.nhashpriv s' = some j ∧ j ∉ k := by
    intro s' j hj
    by_cases hss : s' = s
    · subst hss
      have hj' : np = some j := by simpa [hσ1, afterInsert] using hj
      rcases hk with ⟨rfl, hnp⟩ | ⟨rfl, hnp⟩
      · exact ⟨by rw [hi, ← hnp, hj'], List.not_mem_nil⟩
      · rw [hnp] at hj'
        cases hj'
    · have hj' : σ.nhashpriv s' = some j := by simpa [hσ1, afterInsert, Function.update_of_ne hss] using hj
      exact ⟨hj', fun hjk => hss (h.privOwn s' s i (hki j hjk ▸ hj') hi)⟩
  have hmem : ∀ b, b ∈ leavesOf ot' ↔ b = noh ∨ b ∈ leavesOf ot := fun b => hleaves.mem_iff.trans List.mem_cons
  have hnmem : ∀ j, j ∈ namesOf ot' ↔ j ∈ k ∨ j ∈ namesOf ot := fun j => hnames.mem_iff.trans List.mem_append
  refine ⟨m, np, ot', fun j => pub j ∨ j ∈ k, ?_, (hmem noh).mpr (Or.inl rfl), hohs, hholds,
    ?_, ?_, ?_, ?_, ?_, ?_, ?_, ?_⟩
  · simp [HcbSystem.insert, hn, hi, h1, hins, afterInsert]
  · intro b
    by_cases hb : b = noh
    · subst hb
      refine ⟨fun hp => absurd hp hnpriv, fun _ => ⟨hnpriv, 1, by rw [hrc, h1], ?_⟩, fun _ _ hl => ?_, ?_, ?_⟩
      · exact ⟨fun _ => hm, fun _ => Nat.zero_lt_one⟩
      · exact absurd ((hmem b).mpr (Or.inl rfl)) hl
      · exact fun u _ => hr0 ▸ Nat.zero_le u
      · rw [hrc, h1]
        intro e
        cases e
    · refine (h.heads b).congr (hrc b) rfl rfl ?_ ?_
      · rw [hpriv]
        exact and_iff_left hb
      · rw [hmem]
        exact or_iff_right hb
  · intro s1 s2 b e1 e2
    have key : ∀ s', σ1.nobjhead s' = some b → σ.nobjhead s' = some b := by
      intro s' hs'
      have hss : s' ≠ s := fun e => by rw [e, hnone] at hs'; cases hs'
      rwa [hnob s' hss] at hs'
    exact h.handOwn s1 s2 b (key s1 e1) (key s2 e2)
  · intro s' j hj
    obtain ⟨hj', hjk⟩ := hnh s' j hj
    obtain ⟨hy, hp⟩ := h.priv s' j hj'
    refine ⟨?_, fun hjj => hjj.elim hp hjk⟩
    change (m.ys j).isSome
    rwa [hys j hjk (fun hin => hp (h.names j hin))]
  · exact fun s1 s2 j e1 e2 => h.privOwn s1 s2 j (hnh s1 j e1).1 (hnh s2 j e2).1
  · intro j hj
    exact ((hnmem j).mp hj).elim Or.inr (fun hjn => Or.inl (h.names j hjn))
  · refine nodes_of_holds h hholds (fun b hb => (hent b hb).1) (fun b hb => ?_) (fun j hj => Or.inl hj) (fun j hj => ?_)
      (fun j hj hjn => ?_)
    · rcases (hmem b).mp hb with rfl | hb
      · exact hentn
      · exact (hent b (h.entered hb)).1
    · exact ((hnmem j).mp hj).elim Or.inr (fun hjn => Or.inl (h.names j hjn))
    · have hjk : j ∉ k := fun hjk => hjn ((hnmem j).mpr (Or.inl hjk))
      exact ⟨hj.resolve_right hjk, hys j hjk (fun hin => hjn ((hnmem j).mpr (Or.inr hin)))⟩
  · intro s'
    by_cases hss : s' = s
    · subst hss
      have hpc1 : σ1.pc s' = .inserted noh := by simp [hσ1, afterInsert]
      rw [hpc1]
      refine ⟨hentn, by rw [hdig]; exact hd, 1, by rw [hrc, h1], ?_⟩
      change σ.refs noh < 1
      omega
    · rw [hpcs s' hss]
      refine (h.sess s').mono ?_ hent (fun j hj => Or.inl hj) rfl (fun b u _ hu hlt => ⟨u, by rw [hrc, hu], hlt⟩)
      rintro ⟨noh', hn', hd', hsome⟩
      refine ⟨noh', by rw [hnob s' hss, hn'], by rw [hdig]; exact hd', ?_⟩
      simpa [hσ1, afterInsert, Function.update_of_ne hss] using hsome
  · intro s1 s2 b e1 e2
    have hb : ∀ s', s' ≠ s → σ1.pc s' = .inserted b → b ≠ noh := by
      intro s' hss hs'
      have hok := h.sess s'
      rw [← hpcs s' hss, hs'] at hok
      exact hok.1.ne_hand hn
    have hown : ∀ s', s' = s → σ1.pc s' = .inserted b → b = noh := by
      rintro s' rfl hs'
      simpa [hσ1, afterInsert] using hs'.symm
    by_cases g1 : s1 = s <;> by_cases g2 : s2 = s
    · rw [g1, g2]
    · exact absurd (hown s1 g1 e1) (hb s2 g2 e2)
    · exact absurd (hown s2 g2 e2) (hb s1 g1 e1)
    · exact h.insOwn s1 s2 b (by rwa [hpcs s1 g1] at e1) (by rwa [hpcs s2 g2] at e2)

/-- The objhead whose deref holds the mutex is still in the tree. -/
lemma LookupInv.mem_of_mtx (h : LookupInv σ ot pub) {oh : Nat} (hm : σ.mtx oh = true) : oh ∈ leavesOf ot := by
  by_contra hl
  have hf : σ.mtx oh = false := by
    by_cases hp : σ.Private oh
    · exact ((h.heads oh).hand hp).2.2.1
    · cases hr : σ.refcnt oh with
      | none => exact ((h.heads oh).blank hr).1
      | some u => exact ((h.heads oh).gone hp (by rw [hr]; rfl) hl).2
  rw [hm] at hf
  cases hf

lemma LookupInv.delete (h : LookupInv σ ot pub) {oh : Nat} (hm : σ.mtx oh = true) :
    ∃ σ' ot', σ.delete oh = some σ' ∧ LookupInv σ' ot' pub := by
  have hl := h.mem_of_mtx hm
  obtain ⟨m, ot', k, hdel, hholds, hleaves, hnames, -, hohs, hk, hys⟩ := hcbDelete_spec h.holds hl
  obtain ⟨hnp, u, hu, hpos⟩ := (h.heads oh).live hl
  have hu0 : u = 0 := by
    by_contra hne
    have := hpos.mp (Nat.pos_of_ne_zero hne)
    rw [hm] at this
    cases this
  set σ1 : HcbSystem := { σ with
    hcb := { m with coolH := m.coolH ++ [oh] }, mtx := Function.update σ.mtx oh false } with hσ1
  have hrc : ∀ b, σ1.refcnt b = σ.refcnt b := fun b => by simp [HcbSystem.refcnt, hσ1, hohs]
  have hdig : ∀ b, σ1.hcb.digestOf b = σ.hcb.digestOf b := fun b => by simp [Hcb.digestOf, hσ1, hohs]
  have hent : ∀ b, Entered σ b → Entered σ1 b ∧ σ1.hcb.digestOf b = σ.hcb.digestOf b := fun b hb =>
    ⟨⟨by rw [hrc]; exact hb.1, hb.2⟩, hdig b⟩
  have hmem : ∀ b, b ∈ leavesOf ot ↔ b = oh ∨ b ∈ leavesOf ot' := fun b => hleaves.mem_iff.trans List.mem_cons
  have hnmem : ∀ j, j ∈ namesOf ot ↔ j ∈ k ∨ j ∈ namesOf ot' := fun j => hnames.mem_iff.trans List.mem_append
  have hout : oh ∉ leavesOf ot' := (List.nodup_cons.mp (hleaves.nodup_iff.mp h.holds.leaves_nodup)).1
  have hholds1 : Holds σ1.hcb ot' := hholds.frame rfl (fun _ _ => rfl) (fun _ o ho _ => ⟨o, ho, rfl⟩)
  refine ⟨σ1, ot', by simp [HcbSystem.delete, Hcb.derefDelete, hdel, hσ1], hholds1, ?_, h.handOwn, ?_, h.privOwn,
    ?_, ?_, ?_, h.insOwn⟩
  · intro b
    by_cases hb : b = oh
    · subst hb
      refine ⟨fun hp => absurd hp hnp, fun hl' => absurd hl' hout, fun _ _ _ => ⟨by rw [hrc, hu, hu0], ?_⟩, ?_, ?_⟩
      · simp [hσ1]
      · rw [hrc]
        exact (h.heads b).refs
      · rw [hrc, hu]
        intro e
        cases e
    · refine (h.heads b).congr (hrc b) (Function.update_of_ne hb _ _) rfl Iff.rfl ?_
      rw [hmem]
      exact (or_iff_right hb).symm
  · intro s i hi
    obtain ⟨hy, hp⟩ := h.priv s i hi
    refine ⟨?_, hp⟩
    change (m.ys i).isSome
    rwa [hys i (fun hin => hp (h.names i hin))]
  · exact fun i hi => h.names i ((hnmem i).mpr (Or.inr hi))
  · refine nodes_of_holds h hholds1 (fun b hb => (hent b hb).1) (fun b hb => ?_) (fun j hj => hj) (fun j hj => ?_)
      (fun j hj hjn => ⟨hj, ?_⟩)
    · exact (hent b (h.entered ((hmem b).mpr (Or.inr hb)))).1
    · exact h.names j ((hnmem j).mpr (Or.inr hj))
    · change m.ys j = σ.hcb.ys j
      by_cases hjk : j ∈ k
      · exact hk j hjk
      · exact hys j (fun hin => ((hnmem j).mp hin).elim hjk hjn)
  · intro s
    refine (h.sess s).mono ?_ hent (fun _ hj => hj) rfl (fun b v _ hv hlt => ⟨v, by rw [hrc, hv], hlt⟩)
    rintro ⟨noh, hn, hd, hsome⟩
    exact ⟨noh, hn, by rw [hdig]; exact hd, hsome⟩

/-- Whether the digest in hand is stored already decides what `hcb_insert` does. -/
lemma stored_or_absent (m : Hcb) (ot : Option HTrie) (d : Digest) :
    (∃ b ∈ leavesOf ot, ∃ ob, m.ohs b = some ob ∧ ob.digest = d) ∨
      ∀ b ∈ leavesOf ot, ∀ ob, m.ohs b = some ob → ob.digest ≠ d := by
  by_cases h : ∃ b ∈ leavesOf ot, ∃ ob, m.ohs b = some ob ∧ ob.digest = d
  · exact Or.inl h
  · exact Or.inr (fun b hb ob hob hd => h ⟨b, hb, ob, hob, hd⟩)

lemma LookupInv.insert (h : LookupInv σ ot pub) {s : Nat} (hpc : σ.pc s = .lock) :
    ∃ σ' ot' pub', σ.insert s = some σ' ∧ LookupInv σ' ot' pub' := by
  have hs := h.sess s
  rw [hpc] at hs
  obtain ⟨noh, hn, hd, hi⟩ := hs
  obtain ⟨o, ho, -⟩ := digestOf_some hd
  obtain ⟨i, hi⟩ := Option.isSome_iff_exists.mp hi
  rcases stored_or_absent σ.hcb ot o.digest with ⟨b, hb, ob, hob, hbd⟩ | hno
  · obtain ⟨heq, hinv⟩ := h.insert_found hpc hn ho hb hob hbd
    exact ⟨_, ot, pub, heq, hinv⟩
  · obtain ⟨m, np, ot', pub', heq, -, -, hinv⟩ := h.insert_new hpc hn ho hi hno
    exact ⟨_, ot', pub', heq, hinv⟩

/-- No assertion fails in an action that can be taken, and the invariant holds after it. -/
lemma LookupInv.exec (h : LookupInv σ ot pub) {a : LookupAct} (ha : σ.Enabled a) :
    ∃ σ' r ot' pub', σ.exec a = some (σ', r) ∧ LookupInv σ' ot' pub' := by
  cases a with
  | prealloc s oh i =>
    obtain ⟨hpc, ho, hi⟩ := ha
    refine ⟨_, none, ot, pub, rfl, (h.preallocHead s ho hpc).preallocY s ?_⟩
    cases hs : σ.nobjhead s <;> simpa [HcbSystem.preallocHead, hs, Hcb.setOh] using hi
  | start s d =>
    obtain ⟨hpc, hs, hi⟩ := ha
    obtain ⟨σ', heq, hinv⟩ := h.start hs hi hpc d
    exact ⟨σ', none, ot, pub, by simp [HcbSystem.exec, heq], hinv⟩
  | walk s =>
    obtain ⟨pp, hpc⟩ := ha
    obtain ⟨σ', heq, hinv⟩ := h.walk hpc
    exact ⟨σ', none, ot, pub, by simp [HcbSystem.exec, hpc, heq], hinv⟩
  | insert s =>
    obtain ⟨σ', ot', pub', heq, hinv⟩ := h.insert ha
    exact ⟨σ', none, ot', pub', by simp [HcbSystem.exec, heq], hinv⟩
  | leave s =>
    obtain ⟨oh, hpc⟩ := ha
    obtain ⟨σ', heq, hinv⟩ := h.leave hpc
    exact ⟨σ', some (s, oh), ot, pub, by simp [HcbSystem.exec, hpc, heq], hinv⟩
  | raise s =>
    obtain ⟨oh, hpc, hm⟩ := ha
    obtain ⟨σ', r, heq, hinv⟩ := h.raise hpc hm
    exact ⟨σ', _, ot, pub, by simp [HcbSystem.exec, hpc, heq]; rfl, hinv⟩
  | deref oh =>
    obtain ⟨σ', heq, hinv⟩ := h.deref ha.1
    exact ⟨σ', none, ot, pub, by simp [HcbSystem.exec, heq], hinv⟩
  | delete oh =>
    obtain ⟨σ', ot', heq, hinv⟩ := h.delete ha
    exact ⟨σ', none, ot', pub, by simp [HcbSystem.exec, heq], hinv⟩

lemma lookupInv_init : LookupInv .init none (fun _ => False) := by
  refine ⟨workersInv_start.holds, fun oh => ⟨?_, nofun, nofun, nofun, fun _ => ⟨rfl, rfl⟩⟩, nofun, nofun, nofun, nofun,
    nofun, fun s => trivial, nofun⟩
  rintro ⟨s, hs⟩
  cases hs

lemma reach_inv (h : HcbSystem.Reach σ) : ∃ ot pub, LookupInv σ ot pub := by
  induction h with
  | init => exact ⟨none, _, lookupInv_init⟩
  | step _ ha hexec ih =>
    obtain ⟨ot, pub, hinv⟩ := ih
    obtain ⟨σ', r, ot', pub', hexec', hinv'⟩ := hinv.exec ha
    rw [hexec] at hexec'
    cases hexec'
    exact ⟨ot', pub', hinv'⟩

/-- Of the objheads that have entered the tree, at most one with a given digest has references. -/
lemma LookupInv.unique (h : LookupInv σ ot pub) {a b u v : Nat} (ha : ¬ σ.Private a) (hb : ¬ σ.Private b)
    (hd : σ.hcb.digestOf a = σ.hcb.digestOf b) (hu : σ.refcnt a = some u) (hv : σ.refcnt b = some v) (hu0 : 0 < u)
    (hv0 : 0 < v) : a = b := by
  have hma := h.mem_of_refcnt ⟨by rw [hu]; rfl, ha⟩ hu hu0
  have hmb := h.mem_of_refcnt ⟨by rw [hv]; rfl, hb⟩ hv hv0
  obtain ⟨oa, hoa, -⟩ := Option.map_eq_some_iff.mp hu
  obtain ⟨ob, hob, -⟩ := Option.map_eq_some_iff.mp hv
  refine h.holds.leaf_unique hma hmb hoa hob ?_
  simpa [Hcb.digestOf, hoa, hob] using hd

/-- What `hcb_lookup` promises where it returns `oh` to session `s`. -/
structure Returns (σ σ' : HcbSystem) (s oh : Nat) : Prop where
  digest : σ.hcb.digestOf oh = some (σ.digest s)
  stored : σ.hcb.Leads σ.hcb.origo oh
  stays : σ'.hcb.Leads σ'.hcb.origo oh
  counted : (∃ u, 0 < u ∧ σ.refcnt oh = some u ∧ σ'.refcnt oh = some (u + 1)) ∨ σ.pc s = .inserted oh

lemma LookupInv.returns (h : LookupInv σ ot pub) {a : LookupAct} {s oh : Nat}
    (hexec : σ.exec a = some (σ', some (s, oh))) : Returns σ σ' s oh := by
  cases a with
  | leave s' =>
    simp only [HcbSystem.exec] at hexec
    cases hpc : σ.pc s' with
    | inserted oh' =>
      rw [hpc] at hexec
      have hs := h.sess s'
      rw [hpc] at hs
      obtain ⟨he, hd, u, hu, hlt⟩ := hs
      have hl := h.mem_of_refcnt he hu (Nat.zero_lt_of_lt hlt)
      simp only [leave_eq hu (Nat.zero_lt_of_lt hlt), Option.map_some, Option.some.injEq, Prod.mk.injEq] at hexec
      obtain ⟨rfl, rfl, rfl⟩ := hexec
      exact ⟨hd, (leads_origo h.holds _).mpr hl, (leads_origo h.holds _).mpr hl, Or.inr hpc⟩
    | _ => simp [hpc] at hexec
  | raise s' =>
    simp only [HcbSystem.exec] at hexec
    cases hpc : σ.pc s' with
    | found oh' =>
      rw [hpc] at hexec
      have hs := h.sess s'
      rw [hpc] at hs
      obtain ⟨hh, he, hd⟩ := hs
      obtain ⟨o, ho, -⟩ := digestOf_some hd
      have hu : σ.refcnt oh' = some o.refcnt := by simp [HcbSystem.refcnt, ho]
      by_cases hpos : 0 < o.refcnt
      · simp only [raise_pos ho hpos, Option.map_some, Option.some.injEq, Prod.mk.injEq, ite_true] at hexec
        obtain ⟨rfl, rfl, rfl⟩ := hexec
        have hl := h.mem_of_refcnt he hu hpos
        have hholds := holds_setOh (o := { o with refcnt := o.refcnt + 1 }) h.holds
          (fun _ : oh' ∈ leavesOf ot => by simp [Hcb.digestOf, ho])
        refine ⟨hd, (leads_origo h.holds _).mpr hl, (leads_origo hholds _).mpr hl, Or.inl ⟨o.refcnt, hpos, hu, ?_⟩⟩
        simp [HcbSystem.refcnt, HcbSystem.setPc, Hcb.setOh]
      · simp [raise_zero ho hpos] at hexec
    | _ => simp [hpc] at hexec
  | prealloc s' oh' i => simp [HcbSystem.exec] at hexec
  | start s' d => simp [HcbSystem.exec] at hexec
  | insert s' => simp [HcbSystem.exec] at hexec
  | deref oh' => simp [HcbSystem.exec] at hexec
  | delete oh' => simp [HcbSystem.exec] at hexec
  | walk s' =>
    simp only [HcbSystem.exec] at hexec
    cases hpc : σ.pc s' <;> simp [hpc] at hexec

lemma setPc_inserted {s s' oh : Nat} {pc : LookupPc} (h : (σ.setPc s pc).pc s' = .inserted oh)
    (hpc : pc ≠ .inserted oh) : σ.pc s' = .inserted oh := by
  by_cases hs : s' = s
  · subst hs
    simp only [HcbSystem.setPc, Function.update_self] at h
    exact absurd h hpc
  · simpa only [HcbSystem.setPc, Function.update_of_ne hs] using h

lemma walk_setPc {s : Nat} {pp : Ptr} (h : σ.walk s pp = some σ') :
    ∃ pc, σ' = σ.setPc s pc ∧ ∀ oh, pc ≠ .inserted oh := by
  obtain ⟨noh, -, h⟩ := Option.bind_eq_some_iff.mp h
  cases pp with
  | y i =>
    obtain ⟨o, -, h⟩ := Option.bind_eq_some_iff.mp h
    obtain ⟨pp', -, h⟩ := Option.bind_eq_some_iff.mp h
    cases h
    exact ⟨_, rfl, nofun⟩
  | null =>
    cases h
    exact ⟨_, rfl, nofun⟩
  | node oh2 =>
    obtain ⟨⟨m, np, r⟩, -, h⟩ := Option.bind_eq_some_iff.mp h
    cases r with
    | none =>
      cases h
      exact ⟨_, rfl, nofun⟩
    | some oh =>
      simp only at h
      split at h
      · cases h
      · cases h
        exact ⟨_, rfl, nofun⟩

/-- What it means that session `s` put its own objhead `oh` into the tree. -/
structure Inserts (σ σ' : HcbSystem) (s oh : Nat) : Prop where
  hand : σ.nobjhead s = some oh
  fresh : ¬ σ.hcb.Leads σ.hcb.origo oh
  stored : σ'.hcb.Leads σ'.hcb.origo oh
  counted : σ'.refcnt oh = some 1

lemma LookupInv.inserts (h : LookupInv σ ot pub) {a : LookupAct} {r : Option (Nat × Nat)} {s oh : Nat}
    (ha : σ.Enabled a) (hexec : σ.exec a = some (σ', r)) (hpc : σ'.pc s = .inserted oh) :
    σ.pc s = .inserted oh ∨ Inserts σ σ' s oh := by
  cases a with
  | prealloc s' oh' i =>
    left
    cases hexec
    cases h1 : σ.nobjhead s' <;> cases h2 : σ.nhashpriv s' <;>
      simpa [HcbSystem.preallocHead, HcbSystem.preallocY, h1, h2] using hpc
  | start s' d =>
    left
    obtain ⟨σ1, h1, e⟩ := Option.map_eq_some_iff.mp hexec
    cases e
    obtain ⟨noh, -, h1⟩ := Option.bind_eq_some_iff.mp h1
    obtain ⟨o, -, h1⟩ := Option.bind_eq_some_iff.mp h1
    cases h1
    exact @setPc_inserted σ s' s oh (.walk σ.hcb.origo) hpc nofun
  | walk s' =>
    left
    obtain ⟨pp, hpp⟩ := ha
    simp only [HcbSystem.exec, hpp] at hexec
    obtain ⟨σ1, h1, e⟩ := Option.map_eq_some_iff.mp hexec
    cases e
    obtain ⟨pc, rfl, hne⟩ := walk_setPc h1
    exact setPc_inserted hpc (hne oh)
  | insert s' =>
    obtain ⟨σ1, h1, e⟩ := Option.map_eq_some_iff.mp hexec
    cases e
    have hs := h.sess s'
    rw [show σ.pc s' = .lock from ha] at hs
    obtain ⟨noh, hn, hd, hi⟩ := hs
    obtain ⟨o, ho, -⟩ := digestOf_some hd
    obtain ⟨i, hi⟩ := Option.isSome_iff_exists.mp hi
    rcases stored_or_absent σ.hcb ot o.digest with ⟨b, hb, ob, hob, hbd⟩ | hno
    · left
      have heq := (h.insert_found ha hn ho hb hob hbd).1
      rw [h1] at heq
      cases heq
      exact setPc_inserted hpc nofun
    · obtain ⟨m, np, ot', pub', heq, hmem, hohs, hinv⟩ := h.insert_new ha hn ho hi hno
      rw [h1] at heq
      cases heq
      by_cases hss : s = s'
      · subst hss
        have hoh : noh = oh := by simpa [afterInsert] using hpc
        subst hoh
        obtain ⟨hr, hnl, -⟩ := (h.heads noh).hand ⟨s, hn⟩
        refine Or.inr ⟨hn, fun hl => hnl ((leads_origo h.holds _).mp hl), (leads_origo hinv.holds _).mpr hmem, ?_⟩
        rw [← hr]
        simp [HcbSystem.refcnt, afterInsert, hohs]
      · left
        simpa [afterInsert, Function.update_of_ne hss] using hpc
  | leave s' =>
    left
    obtain ⟨oh', hpp⟩ := ha
    have hs := h.sess s'
    rw [hpp] at hs
    obtain ⟨-, -, u, hu, hlt⟩ := hs
    simp only [HcbSystem.exec, hpp, leave_eq hu (Nat.zero_lt_of_lt hlt), Option.map_some, Option.some.injEq,
      Prod.mk.injEq] at hexec
    obtain ⟨rfl, -⟩ := hexec
    exact setPc_inserted hpc nofun
  | raise s' =>
    left
    obtain ⟨oh', hpp, -⟩ := ha
    simp only [HcbSystem.exec, hpp] at hexec
    obtain ⟨⟨σ1, b⟩, h1, e⟩ := Option.map_eq_some_iff.mp hexec
    cases e
    obtain ⟨o, ho, h1⟩ := Option.bind_eq_some_iff.mp h1
    split at h1
    · cases h1
      exact setPc_inserted hpc nofun
    · cases h1
      exact setPc_inserted hpc nofun
  | deref oh' =>
    left
    obtain ⟨σ1, h1, e⟩ := Option.map_eq_some_iff.mp hexec
    cases e
    obtain ⟨o, ho, h1⟩ := Option.bind_eq_some_iff.mp h1
    split at h1
    · cases h1
    · cases h1
      exact hpc
  | delete oh' =>
    left
    obtain ⟨σ1, h1, e⟩ := Option.map_eq_some_iff.mp hexec
    cases e
    obtain ⟨m, -, rfl⟩ := Option.map_eq_some_iff.mp h1
    exact hpc

/-- In every state that interleaved lookups and derefs reach: no assertion fails in an action that can
be taken; at most one objhead with a given digest that has entered the tree has references; and a
lookup returns an objhead of the tree with the digest asked for, whose count it raised from a positive
value or which it put into the tree itself with count one. -/
theorem hcb_lookup_sound (h : HcbSystem.Reach σ) :
    (∀ a, σ.Enabled a → ∃ σ' r, σ.exec a = some (σ', r)) ∧
    (∀ a b u v, ¬ σ.Private a → ¬ σ.Private b → σ.hcb.digestOf a = σ.hcb.digestOf b → σ.refcnt a = some u →
      σ.refcnt b = some v → 0 < u → 0 < v → a = b) ∧
    (∀ a σ' s oh, σ.exec a = some (σ', some (s, oh)) → Returns σ σ' s oh) ∧
    ∀ a σ' r s oh, σ.Enabled a → σ.exec a = some (σ', r) → σ'.pc s = .inserted oh →
      σ.pc s = .inserted oh ∨ Inserts σ σ' s oh := by
  obtain ⟨ot, pub, hinv⟩ := reach_inv h
  refine ⟨fun a ha => ?_, fun a b u v ha hb hd hu hv h1 h2 => hinv.unique ha hb hd hu hv h1 h2,
    fun a σ' s oh hexec => hinv.returns hexec, fun a σ' r s oh ha hexec hpc => hinv.inserts ha hexec hpc⟩
  obtain ⟨σ', r, -, -, hexec, -⟩ := hinv.exec ha
  exact ⟨σ', r, hexec⟩

/-- Session 0 has stored objhead 10 and session 1 walks with the same digest in objhead 11. -/
lemma reach_two_sessions : ∃ σ, HcbSystem.Reach σ ∧ σ.pc 1 = .walk (.node 10) ∧ σ.hcb.digestOf 10 = some (fun _ => 7) ∧
    σ.hcb.digestOf 11 = some (fun _ => 7) ∧ σ.refcnt 10 = some 1 ∧ σ.refcnt 11 = some 1 := by
  have h0 := HcbSystem.Reach.init
  have h1 := h0.step (a := .prealloc 0 10 0) ⟨rfl, rfl, rfl⟩ rfl
  have h2 := h1.step (a := .start 0 (fun _ => 7)) ⟨rfl, rfl, rfl⟩ rfl
  have h3 := h2.step (a := .walk 0) ⟨.null, rfl⟩ rfl
  have h4 := h3.step (a := .insert 0) rfl rfl
  have h5 := h4.step (a := .leave 0) ⟨10, rfl⟩ rfl
  have h6 := h5.step (a := .prealloc 1 11 1) ⟨rfl, rfl, rfl⟩ rfl
  have h7 := h6.step (a := .start 1 (fun _ => 7)) ⟨rfl, rfl, rfl⟩ rfl
  exact ⟨_, h7, rfl, rfl, rfl, rfl, rfl⟩

theorem hcb_lookup_sound_two_sessions :
    ∃ σ, HcbSystem.Reach σ ∧ σ.pc 1 = .walk (.node 10) ∧ ∃ σ' r, σ.exec (.walk 1) = some (σ', r) := by
  obtain ⟨σ, h, hpc, -⟩ := reach_two_sessions
  exact ⟨σ, h, hpc, (hcb_lookup_sound h).1 (.walk 1) ⟨_, hpc⟩⟩

/-- The objhead that a worker holds ready has a reference and, from the start of the lookup on, the digest
of the objhead that is already stored. -/
theorem hcb_prealloc_same_digest :
    ∃ σ a b u v, HcbSystem.Reach σ ∧ a ≠ b ∧ (σ.hcb.digestOf a).isSome ∧ σ.hcb.digestOf a = σ.hcb.digestOf b ∧
      σ.refcnt a = some u ∧ σ.refcnt b = some v ∧ 0 < u ∧ 0 < v := by
  obtain ⟨σ, h, -, h10, h11, hr10, hr11⟩ := reach_two_sessions
  exact ⟨σ, 10, 11, 1, 1, h, by decide, by rw [h10]; rfl, by rw [h10, h11], hr10, hr11, by decide, by decide⟩

end VarnishCache.Proofs
