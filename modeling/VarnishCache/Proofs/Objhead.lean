import VarnishCache.Objhead
import VarnishCache.Lib.RefCount

/-!
# The invariant of the objheads

An objhead counts the objcores and the sessions that refer to it, and an objcore the sessions that own a
reference to it. References that nobody has are booked in `leak` and `spare`: those on their way from one
holder to the next within a step, and those of sessions that were deleted.
-/

namespace VarnishCache.Proofs

open VarnishCache HshState RefCount

variable {D : Type}

/-- The objhead that each session refers to. -/
def heldBy (st : HshState D) (s : Nat) : Option Nat := (st.sess s).objhead

/-- The objcore that each session refers to. -/
def ownedBy (st : HshState D) (s : Nat) : Option Nat := (st.sess s).objcore

/-- The objhead that each objcore is linked to. -/
def linkedTo (st : HshState D) (x : Nat) : Option Nat := (st.cores x).map Objcore.objhead

def waiters (h : Objhead D) : List Nat := h.waitinglist.getD []

structure HshShape (st : HshState D) : Prop where
  index : ∀ d oh, st.index d = some oh ↔ ∃ h, st.heads oh = some h ∧ h.digest = d
  pos : ∀ oh h, st.heads oh = some h → 0 < h.refcnt
  held : ∀ s oh, heldBy st s = some oh → ∃ h, st.heads oh = some h
  linked : ∀ x o, st.cores x = some o → ∃ h, st.heads o.objhead = some h
  objcs : ∀ oh h x, st.heads oh = some h →
    (x ∈ h.objcs ↔ ∃ o, st.cores x = some o ∧ o.objhead = oh ∧ 0 < o.refcnt)
  nodup : ∀ oh h, st.heads oh = some h → h.objcs.Nodup
  owned : ∀ s x, ownedBy st s = some x → ∃ o, st.cores x = some o
  hit : ∀ s oh x, st.sess s = .hit oh x → ∃ o, st.cores x = some o ∧ o.objhead = oh
  waiting : ∀ oh h s, st.heads oh = some h → s ∈ waiters h → st.sess s = .waiting oh
  parked : ∀ oh h, st.heads oh = some h → (waiters h).Nodup
  dropping : ∀ s x, st.sess s = .dropping x → ∃ o, st.cores x = some o ∧ o.refcnt = 0
  dropper : ∀ s s' x, st.sess s = .dropping x → st.sess s' = .dropping x → s = s'

structure HshWf (st : HshState D) (leak spare : Nat → Nat) : Prop extends HshShape st where
  count : ∀ oh h, st.heads oh = some h → refs (linkedTo st) oh + refs (heldBy st) oh + leak oh = h.refcnt
  owners : ∀ x o, st.cores x = some o → refs (ownedBy st) x + spare x = o.refcnt
  noLeak : ∀ oh, st.heads oh = none → leak oh = 0

section Simp

variable (st : HshState D) (oh x s : Nat) (h : Option (Objhead D)) (o : Option Objcore) (σ : HshSess)

@[simp] lemma heads_setHead : (st.setHead oh h).heads = Function.update st.heads oh h := rfl
@[simp] lemma cores_setHead : (st.setHead oh h).cores = st.cores := rfl
@[simp] lemma sess_setHead : (st.setHead oh h).sess = st.sess := rfl
@[simp] lemma index_setHead : (st.setHead oh h).index = st.index := rfl
@[simp] lemma heads_setCore : (st.setCore x o).heads = st.heads := rfl
@[simp] lemma cores_setCore : (st.setCore x o).cores = Function.update st.cores x o := rfl
@[simp] lemma sess_setCore : (st.setCore x o).sess = st.sess := rfl
@[simp] lemma index_setCore : (st.setCore x o).index = st.index := rfl
@[simp] lemma heads_setSess : (st.setSess s σ).heads = st.heads := rfl
@[simp] lemma cores_setSess : (st.setSess s σ).cores = st.cores := rfl
@[simp] lemma sess_setSess : (st.setSess s σ).sess = Function.update st.sess s σ := rfl

@[simp] lemma heldBy_setHead : heldBy (st.setHead oh h) = heldBy st := rfl
@[simp] lemma ownedBy_setHead : ownedBy (st.setHead oh h) = ownedBy st := rfl
@[simp] lemma linkedTo_setHead : linkedTo (st.setHead oh h) = linkedTo st := rfl
@[simp] lemma heldBy_setCore : heldBy (st.setCore x o) = heldBy st := rfl
@[simp] lemma ownedBy_setCore : ownedBy (st.setCore x o) = ownedBy st := rfl
@[simp] lemma linkedTo_setSess : linkedTo (st.setSess s σ) = linkedTo st := rfl

@[simp] lemma heldBy_setSess : heldBy (st.setSess s σ) = Function.update (heldBy st) s σ.objhead := by
  funext s'
  by_cases hs : s' = s
  · subst hs
    simp [heldBy]
  · simp [heldBy, hs]

@[simp] lemma ownedBy_setSess : ownedBy (st.setSess s σ) = Function.update (ownedBy st) s σ.objcore := by
  funext s'
  by_cases hs : s' = s
  · subst hs
    simp [ownedBy]
  · simp [ownedBy, hs]

@[simp] lemma linkedTo_setCore :
    linkedTo (st.setCore x o) = Function.update (linkedTo st) x (o.map Objcore.objhead) := by
  funext x'
  by_cases hx : x' = x
  · subst hx
    simp [linkedTo]
  · simp [linkedTo, hx]

end Simp

variable {st : HshState D} {leak leak' spare spare' : Nat → Nat} {oh s x : Nat} {h h' : Objhead D} {o o' : Objcore}

lemma hshWf_init : HshWf (init : HshState D) 0 0 where
  index := by simp [init]
  pos := by simp [init]
  held := by simp [init, heldBy, HshSess.objhead]
  linked := by simp [init]
  objcs := by simp [init]
  nodup := by simp [init]
  owned := by simp [init, ownedBy, HshSess.objcore]
  hit := by simp [init]
  waiting := by simp [init]
  parked := by simp [init]
  dropping := by simp [init]
  dropper := by simp [init]
  count := by simp [init]
  owners := by simp [init]
  noLeak := by simp

/-- What is there for a session to be in the state `σ`. -/
structure SessFits (st : HshState D) (s : Nat) (σ : HshSess) : Prop where
  head : ∀ oh, σ.objhead = some oh → ∃ h, st.heads oh = some h
  core : ∀ x, σ.objcore = some x → ∃ o, st.cores x = some o
  hit : ∀ oh x, σ = .hit oh x → ∃ o, st.cores x = some o ∧ o.objhead = oh
  dropping : ∀ x, σ = .dropping x → ∃ o, st.cores x = some o ∧ o.refcnt = 0
  dropper : ∀ s' x, σ = .dropping x → st.sess s' = .dropping x → s' = s

/-- A session that is not parked goes on to the state `σ`. -/
lemma hshWf_setSess {σ : HshSess} (wf : HshWf st leak spare) (fits : SessFits st s σ)
    (hnot : ∀ oh h, st.heads oh = some h → s ∉ waiters h)
    (hleak : ∀ k, leak' k + ref σ.objhead k = leak k + ref (heldBy st s) k)
    (hspare : ∀ k, spare' k + ref σ.objcore k = spare k + ref (ownedBy st s) k) :
    HshWf (st.setSess s σ) leak' spare' := by
  obtain ⟨hhead, hcore, hhit, hdrop, hdropper⟩ := fits
  exact { wf with
    held := by
      have := wf.held
      simp only [heldBy_setSess, heads_setSess]
      grind [Function.update_apply]
    owned := by
      have := wf.owned
      simp only [ownedBy_setSess, cores_setSess]
      grind [Function.update_apply]
    hit := by
      have := wf.hit
      simp only [sess_setSess, cores_setSess]
      grind [Function.update_apply]
    waiting := by
      have := wf.waiting
      simp only [sess_setSess, heads_setSess]
      grind [Function.update_apply]
    dropping := by
      have := wf.dropping
      simp only [sess_setSess, cores_setSess]
      grind [Function.update_apply]
    dropper := by
      have := wf.dropper
      simp only [sess_setSess]
      grind [Function.update_apply]
    count := by
      intro oh h hh
      rw [heldBy_setSess, linkedTo_setSess]
      apply balance (wf.count oh h hh) (c := ref (heldBy st s) oh) (d := ref σ.objhead oh)
      · rw [add_assoc, add_assoc, refs_update]
      · have := hleak oh
        omega
    owners := by
      intro x o ho
      rw [ownedBy_setSess]
      apply balance (wf.owners x o ho) (refs_update _ _ _ _)
      have := hspare x
      omega
    noLeak := by
      intro oh hh
      have hheld : heldBy st s ≠ some oh := by
        intro hc
        obtain ⟨h, hh'⟩ := wf.held s oh hc
        exact absurd hh' (by simp_all)
      have := hleak oh
      rw [wf.noLeak oh hh, ref_of_ne hheld] at this
      omega }

/-- What a step may change in an objhead other than its objcores. -/
structure HeadFits (st : HshState D) (oh : Nat) (h h' : Objhead D) : Prop where
  digest : h'.digest = h.digest
  pos : 0 < h'.refcnt
  objcs : h'.objcs.Perm h.objcs
  waiting : ∀ s ∈ waiters h', st.sess s = .waiting oh
  parked : (waiters h').Nodup

lemma hshWf_setHead (wf : HshWf st leak spare) (hh : st.heads oh = some h) (fits : HeadFits st oh h h')
    (hleak : ∀ k, leak' k + (if k = oh then h.refcnt else 0) = leak k + if k = oh then h'.refcnt else 0) :
    HshWf (st.setHead oh (some h')) leak' spare := by
  obtain ⟨hdigest, hpos, hobjcs, hwaiting, hparked⟩ := fits
  have hmem : ∀ x, x ∈ h'.objcs ↔ x ∈ h.objcs := fun x => hobjcs.mem_iff
  have hnd : h'.objcs.Nodup := hobjcs.nodup_iff.mpr (wf.nodup oh h hh)
  exact { wf with
    index := by
      have := wf.index
      simp only [heads_setHead, index_setHead]
      grind [Function.update_apply]
    pos := by
      have := wf.pos
      simp only [heads_setHead]
      grind [Function.update_apply]
    held := by
      have := wf.held
      simp only [heads_setHead, heldBy_setHead]
      grind [Function.update_apply]
    linked := by
      have := wf.linked
      simp only [heads_setHead, cores_setHead]
      grind [Function.update_apply]
    objcs := by
      have := wf.objcs
      simp only [heads_setHead, cores_setHead]
      grind [Function.update_apply]
    nodup := by
      have := wf.nodup
      simp only [heads_setHead]
      grind [Function.update_apply]
    waiting := by
      have := wf.waiting
      simp only [heads_setHead, sess_setHead]
      grind [Function.update_apply]
    parked := by
      have := wf.parked
      simp only [heads_setHead]
      grind [Function.update_apply]
    count := by
      intro k hk hhk
      have hl := hleak k
      simp only [heads_setHead] at hhk
      rw [heldBy_setHead, linkedTo_setHead]
      by_cases hko : k = oh
      · subst hko
        obtain rfl : h' = hk := by simpa using hhk
        simp only [if_true] at hl
        exact balance (c := 0) (d := 0) (wf.count k h hh) rfl (by omega)
      · rw [Function.update_of_ne hko] at hhk
        simp only [if_neg hko, add_zero] at hl
        rw [hl]
        exact wf.count k hk hhk
    noLeak := by
      intro k hk
      have hl := hleak k
      by_cases hko : k = oh
      · subst hko
        simp at hk
      · simp only [heads_setHead, Function.update_of_ne hko] at hk
        simp only [if_neg hko, add_zero] at hl
        rw [hl]
        exact wf.noLeak k hk }

lemma hshWf_setCore (wf : HshWf st leak spare) (ho : st.cores x = some o) (hhead : o'.objhead = o.objhead)
    (hpos : 0 < o'.refcnt ↔ 0 < o.refcnt)
    (hspare : ∀ k, spare' k + (if k = x then o.refcnt else 0) = spare k + if k = x then o'.refcnt else 0) :
    HshWf (st.setCore x (some o')) leak spare' := by
  have hlink : linkedTo (st.setCore x (some o')) = linkedTo st := by
    have hx : linkedTo st x = some o'.objhead := by simp [linkedTo, ho, hhead]
    rw [linkedTo_setCore, Option.map_some, ← hx, Function.update_eq_self]
  exact { wf with
    linked := by
      have := wf.linked
      simp only [cores_setCore, heads_setCore]
      grind [Function.update_apply]
    objcs := by
      have := wf.objcs
      simp only [cores_setCore, heads_setCore]
      grind [Function.update_apply]
    owned := by
      have := wf.owned
      simp only [cores_setCore, ownedBy_setCore]
      grind [Function.update_apply]
    hit := by
      have := wf.hit
      simp only [cores_setCore, sess_setCore]
      grind [Function.update_apply]
    dropping := by
      have := wf.dropping
      simp only [cores_setCore, sess_setCore]
      grind [Function.update_apply]
    count := by
      rw [hlink]
      exact wf.count
    owners := by
      intro k ok hok
      have hl := hspare k
      simp only [cores_setCore] at hok
      rw [ownedBy_setCore]
      by_cases hk : k = x
      · subst hk
        obtain rfl : o' = ok := by simpa using hok
        simp only [if_true] at hl
        exact balance (c := 0) (d := 0) (wf.owners k o ho) rfl (by omega)
      · rw [Function.update_of_ne hk] at hok
        simp only [if_neg hk, add_zero] at hl
        rw [hl]
        exact wf.owners k ok hok }

/-- A new objcore goes on the list of an objhead and takes over a reference to it. -/
lemma hshWf_link (wf : HshWf st leak spare) (hx : st.cores x = none) (hh : st.heads o.objhead = some h)
    (hpos : 0 < o.refcnt) (hleak : ∀ k, leak' k + ref (some o.objhead) k = leak k)
    (hspare : ∀ k, spare' k = if k = x then o.refcnt else spare k) :
    HshWf ((st.setCore x (some o)).setHead o.objhead (some { h with objcs := h.objcs ++ [x] })) leak' spare' := by
  have hfresh : x ∉ h.objcs := by
    intro hmem
    obtain ⟨o', ho', -⟩ := (wf.objcs o.objhead h x hh).mp hmem
    simp [hx] at ho'
  exact { wf with
    index := by
      have := wf.index
      simp only [heads_setHead, index_setHead, heads_setCore, index_setCore]
      grind [Function.update_apply]
    pos := by
      have := wf.pos
      simp only [heads_setHead, heads_setCore]
      grind [Function.update_apply]
    held := by
      have := wf.held
      simp only [heads_setHead, heldBy_setHead, heads_setCore, heldBy_setCore]
      grind [Function.update_apply]
    linked := by
      have := wf.linked
      simp only [heads_setHead, cores_setHead, heads_setCore, cores_setCore]
      grind [Function.update_apply]
    objcs := by
      have := wf.objcs
      simp only [heads_setHead, cores_setHead, heads_setCore, cores_setCore]
      grind [Function.update_apply]
    nodup := by
      have := wf.nodup
      simp only [heads_setHead, heads_setCore]
      grind [Function.update_apply]
    owned := by
      have := wf.owned
      simp only [cores_setHead, ownedBy_setHead, cores_setCore, ownedBy_setCore]
      grind [Function.update_apply]
    hit := by
      have := wf.hit
      simp only [cores_setHead, sess_setHead, cores_setCore, sess_setCore]
      grind [Function.update_apply]
    waiting := by
      have := wf.waiting
      have := fun s => wf.waiting _ h s hh
      simp only [heads_setHead, sess_setHead, heads_setCore, sess_setCore]
      grind [Function.update_apply, waiters]
    parked := by
      have := wf.parked
      simp only [heads_setHead, heads_setCore]
      grind [Function.update_apply, waiters]
    dropping := by
      have := wf.dropping
      simp only [cores_setHead, sess_setHead, cores_setCore, sess_setCore]
      grind [Function.update_apply]
    count := by
      intro k hk hhk
      have hold : ∃ h0, st.heads k = some h0 ∧ h0.refcnt = hk.refcnt := by
        simp only [heads_setHead, heads_setCore] at hhk
        grind [Function.update_apply]
      obtain ⟨h0, hh0, hr⟩ := hold
      have hnone : linkedTo st x = none := by simp [linkedTo, hx]
      rw [heldBy_setHead, heldBy_setCore, linkedTo_setHead, linkedTo_setCore, ← hr]
      apply balance (wf.count k h0 hh0) (c := 0) (d := ref (some o.objhead) k)
      · have := refs_update (linkedTo st) x (some o.objhead) k
        rw [hnone, ref_none] at this
        rw [Option.map_some, add_right_comm, this, add_right_comm]
      · have := hleak k
        omega
    owners := by
      intro k ok hok
      simp only [cores_setHead, cores_setCore] at hok
      rw [ownedBy_setHead, ownedBy_setCore, hspare]
      by_cases hk : k = x
      · subst hk
        obtain rfl : o = ok := by simpa using hok
        have hno : refs (ownedBy st) k = 0 := by
          rw [refs_eq_zero]
          intro s hs
          obtain ⟨o', ho'⟩ := wf.owned s k hs
          simp [hx] at ho'
        rw [hno, if_pos rfl, zero_add]
      · rw [Function.update_of_ne hk] at hok
        rw [if_neg hk]
        exact wf.owners k ok hok
    noLeak := by
      intro k hk
      have hold : st.heads k = none := by
        simp only [heads_setHead, heads_setCore] at hk
        grind [Function.update_apply]
      have := hleak k
      rw [wf.noLeak k hold] at this
      omega }

/-- The last reference to an objcore goes, and it comes off the list of its objhead. -/
lemma hshWf_unlink (wf : HshWf st leak spare) (ho : st.cores x = some o) (hh : st.heads o.objhead = some h)
    (hone : o.refcnt = 1) (hspare : ∀ k, spare' k + ref (some x) k = spare k) :
    HshWf ((st.setCore x (some { o with refcnt := 0 })).setHead o.objhead
      (some { h with objcs := h.objcs.erase x })) leak spare' := by
  have hnd := wf.nodup _ h hh
  have hlink : linkedTo (st.setCore x (some { o with refcnt := 0 })) = linkedTo st := by
    have hx : linkedTo st x = some o.objhead := by simp [linkedTo, ho]
    rw [linkedTo_setCore, Option.map_some]
    exact hx ▸ Function.update_eq_self _ _
  exact { wf with
    index := by
      have := wf.index
      simp only [heads_setHead, index_setHead, heads_setCore, index_setCore]
      grind [Function.update_apply]
    pos := by
      have := wf.pos
      simp only [heads_setHead, heads_setCore]
      grind [Function.update_apply]
    held := by
      have := wf.held
      simp only [heads_setHead, heldBy_setHead, heads_setCore, heldBy_setCore]
      grind [Function.update_apply]
    linked := by
      have := wf.linked
      simp only [heads_setHead, cores_setHead, heads_setCore, cores_setCore]
      grind [Function.update_apply]
    objcs := by
      have := wf.objcs
      simp only [heads_setHead, cores_setHead, heads_setCore, cores_setCore]
      grind [Function.update_apply, List.Nodup.mem_erase_iff]
    nodup := by
      have := wf.nodup
      have := hnd.erase x
      simp only [heads_setHead, heads_setCore]
      grind [Function.update_apply]
    owned := by
      have := wf.owned
      simp only [cores_setHead, ownedBy_setHead, cores_setCore, ownedBy_setCore]
      grind [Function.update_apply]
    hit := by
      have := wf.hit
      simp only [cores_setHead, sess_setHead, cores_setCore, sess_setCore]
      grind [Function.update_apply]
    waiting := by
      have := wf.waiting
      have := fun s => wf.waiting _ h s hh
      simp only [heads_setHead, sess_setHead, heads_setCore, sess_setCore]
      grind [Function.update_apply, waiters]
    parked := by
      have := wf.parked
      simp only [heads_setHead, heads_setCore]
      grind [Function.update_apply, waiters]
    dropping := by
      have := wf.dropping
      simp only [cores_setHead, sess_setHead, cores_setCore, sess_setCore]
      grind [Function.update_apply]
    count := by
      intro k hk hhk
      have hold : ∃ h0, st.heads k = some h0 ∧ h0.refcnt = hk.refcnt := by
        simp only [heads_setHead, heads_setCore] at hhk
        grind [Function.update_apply]
      obtain ⟨h0, hh0, hr⟩ := hold
      rw [heldBy_setHead, heldBy_setCore, linkedTo_setHead, hlink, ← hr]
      exact wf.count k h0 hh0
    owners := by
      intro k ok hok
      have hl := hspare k
      simp only [cores_setHead, cores_setCore] at hok
      rw [ownedBy_setHead, ownedBy_setCore]
      by_cases hk : k = x
      · subst hk
        obtain rfl : { o with refcnt := 0 } = ok := by simpa using hok
        rw [ref_self] at hl
        exact balance (c := 0) (d := 0) (wf.owners k o ho) rfl (by simp; omega)
      · rw [Function.update_of_ne hk] at hok
        rw [ref_of_ne (by simpa using Ne.symm hk), add_zero] at hl
        rw [hl]
        exact wf.owners k ok hok
    noLeak := by
      intro k hk
      apply wf.noLeak
      simp only [heads_setHead, heads_setCore] at hk
      grind [Function.update_apply] }

/-- The objcore is freed; its reference to the objhead is left. -/
lemma hshWf_delCore (wf : HshWf st leak spare) (ho : st.cores x = some o) (hzero : o.refcnt = 0)
    (hnot : ∀ s, st.sess s ≠ .dropping x) (hleak : ∀ k, leak' k = leak k + ref (some o.objhead) k) :
    HshWf (st.setCore x none) leak' spare := by
  have hno : ∀ s, ownedBy st s ≠ some x := by
    rw [← refs_eq_zero]
    have hsum := wf.owners x o ho
    rw [hzero] at hsum
    simp at hsum
    exact hsum.1
  have hhit : ∀ s oh, st.sess s ≠ .hit oh x := fun s oh hs => hno s (by simp [ownedBy, hs, HshSess.objcore])
  exact { wf with
    linked := by
      have := wf.linked
      simp only [heads_setCore, cores_setCore]
      grind [Function.update_apply]
    objcs := by
      have := wf.objcs
      simp only [heads_setCore, cores_setCore]
      grind [Function.update_apply]
    owned := by
      have := wf.owned
      simp only [cores_setCore, ownedBy_setCore]
      grind [Function.update_apply]
    hit := by
      have := wf.hit
      simp only [cores_setCore, sess_setCore]
      grind [Function.update_apply]
    dropping := by
      have := wf.dropping
      simp only [cores_setCore, sess_setCore]
      grind [Function.update_apply]
    count := by
      intro k hk hhk
      have hx : linkedTo st x = some o.objhead := by simp [linkedTo, ho]
      rw [heldBy_setCore, linkedTo_setCore]
      apply balance (wf.count k hk hhk) (c := ref (some o.objhead) k) (d := 0)
      · have := refs_update (linkedTo st) x none k
        rw [hx, ref_none] at this
        rw [Option.map_none, add_right_comm, this, add_right_comm]
      · have := hleak k
        omega
    owners := by
      intro k ok hok
      simp only [cores_setCore] at hok
      by_cases hk : k = x
      · subst hk
        simp at hok
      · rw [Function.update_of_ne hk] at hok
        exact wf.owners k ok hok
    noLeak := by
      intro k hk
      obtain ⟨h, hh⟩ := wf.linked x o ho
      have hne : o.objhead ≠ k := by
        rintro rfl
        simp [hh] at hk
      rw [hleak, wf.noLeak k hk, ref_of_ne (by simpa using hne)] }

/-- A new objhead in the index, with a reference to it. -/
lemma hshWf_newHead [DecidableEq D] (wf : HshWf st leak spare) (hh : st.heads oh = none)
    (hindex : st.index h.digest = none) (hone : h.refcnt = 1) (hobjcs : h.objcs = [])
    (hwl : waiters h = []) (hleak : ∀ k, leak' k = leak k + ref (some oh) k) :
    HshWf ({ st with index := Function.update st.index h.digest (some oh) }.setHead oh (some h)) leak' spare := by
  have hlinked : ∀ x o, st.cores x = some o → o.objhead ≠ oh := by
    have := wf.linked
    grind
  have hheld : ∀ s, heldBy st s ≠ some oh := by
    have := wf.held
    grind
  exact { wf with
    index := by
      have := wf.index
      simp only [heads_setHead, index_setHead]
      grind [Function.update_apply]
    pos := by
      have := wf.pos
      simp only [heads_setHead]
      grind [Function.update_apply]
    held := by
      have := wf.held
      change ∀ s k, heldBy st s = some k → ∃ h', Function.update st.heads oh _ k = some h'
      grind [Function.update_apply]
    linked := by
      have := wf.linked
      simp only [heads_setHead, cores_setHead]
      grind [Function.update_apply]
    objcs := by
      have := wf.objcs
      simp only [heads_setHead, cores_setHead]
      grind [Function.update_apply]
    nodup := by
      have := wf.nodup
      simp only [heads_setHead]
      grind [Function.update_apply]
    waiting := by
      have := wf.waiting
      simp only [heads_setHead, sess_setHead]
      grind [Function.update_apply]
    parked := by
      have := wf.parked
      simp only [heads_setHead]
      grind [Function.update_apply]
    count := by
      intro k hk hhk
      simp only [heads_setHead] at hhk
      change refs (linkedTo st) k + refs (heldBy st) k + _ = _
      by_cases hko : k = oh
      · subst hko
        obtain rfl : h = hk := by simpa using hhk
        have h1 : refs (linkedTo st) k = 0 := by
          rw [refs_eq_zero]
          intro x hx
          obtain ⟨o, ho, hoh⟩ := Option.map_eq_some_iff.mp hx
          exact hlinked x o ho hoh
        have h2 : refs (heldBy st) k = 0 := refs_eq_zero.mpr hheld
        rw [h1, h2, hleak, wf.noLeak k hh, ref_self, hone]
        simp
      · rw [Function.update_of_ne hko] at hhk
        rw [hleak, ref_of_ne (by simpa using Ne.symm hko)]
        exact wf.count k hk hhk
    noLeak := by
      intro k hk
      have hne : oh ≠ k := by
        rintro rfl
        simp at hk
      simp only [heads_setHead, Function.update_of_ne hne.symm] at hk
      rw [hleak, wf.noLeak k hk, ref_of_ne (by simpa using hne)] }

/-- The last reference to an objhead goes. -/
lemma hshWf_delHead [DecidableEq D] (wf : HshWf st leak spare) (hh : st.heads oh = some h) (hone : h.refcnt = 1)
    (hleak : ∀ k, leak' k + ref (some oh) k = leak k) :
    HshWf ({ st with index := Function.update st.index h.digest none }.setHead oh none) leak' spare := by
  have hl := hleak oh
  rw [ref_self] at hl
  obtain ⟨hzero, hall⟩ := none_left (wf.count oh h hh) (by omega)
  obtain ⟨hnolink, hnoheld⟩ := add_eq_zero.mp hzero
  have hheld : ∀ s, heldBy st s ≠ some oh := refs_eq_zero.mp hnoheld
  have hlinked : ∀ x o, st.cores x = some o → o.objhead ≠ oh := by
    intro x o ho hoh
    exact refs_eq_zero.mp hnolink x (by simp [linkedTo, ho, hoh])
  exact { wf with
    index := by
      have := wf.index
      have := (wf.index h.digest oh).mpr ⟨h, hh, rfl⟩
      simp only [heads_setHead, index_setHead]
      grind [Function.update_apply]
    pos := by
      have := wf.pos
      simp only [heads_setHead]
      grind [Function.update_apply]
    held := by
      have := wf.held
      change ∀ s k, heldBy st s = some k → ∃ h', Function.update st.heads oh _ k = some h'
      grind [Function.update_apply]
    linked := by
      have := wf.linked
      simp only [heads_setHead, cores_setHead]
      grind [Function.update_apply]
    objcs := by
      have := wf.objcs
      simp only [heads_setHead, cores_setHead]
      grind [Function.update_apply]
    nodup := by
      have := wf.nodup
      simp only [heads_setHead]
      grind [Function.update_apply]
    waiting := by
      have := wf.waiting
      simp only [heads_setHead, sess_setHead]
      grind [Function.update_apply]
    parked := by
      have := wf.parked
      simp only [heads_setHead]
      grind [Function.update_apply]
    count := by
      intro k hk hhk
      simp only [heads_setHead] at hhk
      change refs (linkedTo st) k + refs (heldBy st) k + _ = _
      have hko : k ≠ oh := by
        rintro rfl
        simp at hhk
      have hlk := hleak k
      rw [ref_of_ne (by simpa using Ne.symm hko), add_zero] at hlk
      rw [Function.update_of_ne hko] at hhk
      rw [hlk]
      exact wf.count k hk hhk
    noLeak := by
      intro k hk
      have hlk := hleak k
      by_cases hko : k = oh
      · subst hko
        omega
      · simp only [heads_setHead, Function.update_of_ne hko] at hk
        rw [wf.noLeak k hk] at hlk
        omega }

end VarnishCache.Proofs
