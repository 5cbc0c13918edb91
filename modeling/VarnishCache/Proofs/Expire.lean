import VarnishCache.Expire
import VarnishCache.Lib.RefCount
import VarnishCache.Proofs.BinaryHeapReach

/-!
# The invariant of expiry

The objcores in the heap are those on the LRU lists, each on its own list and once, and each of them counts
one reference more than threads have.
-/

namespace VarnishCache.Proofs

open VarnishCache Binheap HeapOrder ExpState RefCount

/-- The objcore that each thread refers to. -/
def ownerOf (st : ExpState) (t : Nat) : Option Nat := (st.threads t).objcore

/-- The reference of the LRU list. -/
def lruRef (st : ExpState) (x : Nat) (o : ExpOc) : ℕ := if x ∈ st.lrus o.lru then 1 else 0

structure ExpWf (st : ExpState) : Prop where
  heap : ∃ s, HeapInv objectCmp s st.heap
  stored : ∀ x, Stored st.heap x ↔ ∃ l, x ∈ st.lrus l
  noidx : ∀ x, ¬ Stored st.heap x → st.heap.idx x = binheapNoidx
  lru : ∀ l x, x ∈ st.lrus l → ∃ o, st.ocs x = some o ∧ o.lru = l
  nodup : ∀ l, (st.lrus l).Nodup
  owner : ∀ t x, ownerOf st t = some x → ∃ o, st.ocs x = some o
  count : ∀ x o, st.ocs x = some o → refs (ownerOf st) x + lruRef st x o = o.refcnt

lemma objectCmp_strictWeak : StrictWeak objectCmp := by
  constructor <;> simp only [objectCmp, decide_eq_true_eq] <;> omega

variable {junk : Nat → Option Nat} {st st' : ExpState} {x t u l : Nat} {o : ExpOc}

lemma ExpWf.idx_ne_iff (wf : ExpWf st) (x : Nat) : st.heap.idx x ≠ binheapNoidx ↔ Stored st.heap x := by
  constructor
  · intro hne
    by_contra hns
    exact hne (wf.noidx x hns)
  · rintro ⟨n, hn1, hn, hx⟩
    obtain ⟨s, hinv⟩ := wf.heap
    rw [hinv.filled.idx n x hn1 hn hx, binheapNoidx]
    omega

lemma ExpWf.stored_iff (wf : ExpWf st) (ho : st.ocs x = some o) : Stored st.heap x ↔ x ∈ st.lrus o.lru := by
  rw [wf.stored]
  constructor
  · rintro ⟨l, hl⟩
    obtain ⟨o', ho', rfl⟩ := wf.lru l x hl
    rw [ho] at ho'
    rw [Option.some.inj ho']
    exact hl
  · exact fun h => ⟨o.lru, h⟩

@[simp] lemma ownerOf_setThread (st : ExpState) (t : Nat) (σ : ExpThread) :
    ownerOf (st.setThread t σ) = Function.update (ownerOf st) t σ.objcore := by
  funext t'
  by_cases ht : t' = t
  · subst ht
    simp [ownerOf, ExpState.setThread]
  · simp [ownerOf, ExpState.setThread, ht]

@[simp] lemma ownerOf_setOc (st : ExpState) (x : Nat) (o : Option ExpOc) : ownerOf (st.setOc x o) = ownerOf st := rfl

@[simp] lemma ownerOf_setLru (st : ExpState) (l : Nat) (xs : List Nat) : ownerOf (st.setLru l xs) = ownerOf st := rfl

lemma addrow_idx {b b' : Binheap Nat Int} (h : b.addrow junk = some b') : b'.idx = b.idx := by
  have hgrow : b.growRows.idx = b.idx := by
    unfold growRows
    split <;> rfl
  rw [← hgrow]
  unfold addrow at h
  dsimp only at h
  generalize b.growRows = g at h
  split at h
  · cases h
  · rw [← Option.some.inj h]

lemma new_idx {pagesize : Nat} {key : Nat → Int} {idx : Nat → Nat} {bh : Binheap Nat Int}
    (h : Binheap.new junk pagesize key idx = some bh) : bh.idx = idx := by
  simp only [Binheap.new, Option.bind_eq_bind] at h
  split at h
  · cases h
  obtain ⟨s, hs, h⟩ := Option.bind_eq_some_iff.mp h
  split at h
  · cases h
  obtain ⟨b, hb, h⟩ := Option.bind_eq_some_iff.mp h
  obtain ⟨row, hrow, rfl⟩ := Option.map_eq_some_iff.mp h
  exact addrow_idx hb

lemma expWf_init {pagesize : Nat} (hpage : 32 ≤ pagesize) (h : ExpState.init junk pagesize = some st) : ExpWf st := by
  obtain ⟨bh, hnew, rfl⟩ := Option.map_eq_some_iff.mp h
  obtain ⟨s, hinv, hn⟩ := new_spec objectCmp hpage hnew
  have hnone : ∀ x, ¬ Stored bh x := by
    rintro x ⟨n, hn1, hlt, -⟩
    omega
  exact
    { heap := ⟨s, hinv⟩
      stored := by simp [hnone]
      noidx := by
        intro x _
        simp only [new_idx hnew]
      lru := by simp
      nodup := by simp
      owner := by simp [ownerOf, ExpThread.objcore]
      count := by simp }

/-- A thread turns to another objcore or gives one up, and the counts follow. -/
lemma ExpWf.turn {σ : ExpThread} (ocs : Nat → Option ExpOc) (wf : ExpWf st)
    (hkeep : ∀ k l, k ∈ st.lrus l → ∃ o', ocs k = some o' ∧ o'.lru = l)
    (howner : ∀ k, σ.objcore = some k ∨ (∃ t', t' ≠ t ∧ ownerOf st t' = some k) → ∃ o', ocs k = some o')
    (hcount : ∀ k o', ocs k = some o' →
      refs (Function.update (ownerOf st) t σ.objcore) k + lruRef st k o' = o'.refcnt) :
    ExpWf ({ st with ocs := ocs }.setThread t σ) where
  heap := wf.heap
  stored := wf.stored
  noidx := wf.noidx
  lru := fun l k hk => hkeep k l hk
  nodup := wf.nodup
  owner := by
    intro t' k hk
    rw [ownerOf_setThread] at hk
    by_cases ht : t' = t
    · subst ht
      exact howner k (Or.inl (by simpa using hk))
    · rw [Function.update_of_ne ht] at hk
      exact howner k (Or.inr ⟨t', ht, hk⟩)
  count := by
    rw [ownerOf_setThread]
    exact hcount

/-- The objcore of a thread gets or loses a reference, and stays. -/
lemma ExpWf.turn_some {σ : ExpThread} {o' : ExpOc} (wf : ExpWf st) (ho : st.ocs x = some o) (hlru : o'.lru = o.lru)
    (hσ : σ.objcore = none ∨ σ.objcore = some x) (ht : ownerOf st t = none ∨ ownerOf st t = some x)
    (hr : o'.refcnt + ref (ownerOf st t) x = o.refcnt + ref σ.objcore x) :
    ExpWf ((st.setOc x (some o')).setThread t σ) := by
  refine wf.turn _ ?_ ?_ ?_
  · intro k l hk
    obtain ⟨ok, hok, rfl⟩ := wf.lru l k hk
    by_cases hkx : k = x
    · subst hkx
      rw [ho] at hok
      rw [← Option.some.inj hok]
      exact ⟨o', by simp, hlru⟩
    · exact ⟨ok, by simpa [hkx] using hok, rfl⟩
  · intro k hk
    by_cases hkx : k = x
    · subst hkx
      exact ⟨o', by simp⟩
    · rcases hk with hk | ⟨t', -, hk⟩
      · rcases hσ with hσ | hσ <;> rw [hσ] at hk <;> simp_all
      · simpa [hkx] using wf.owner t' k hk
  · intro k ok hok
    have hu := refs_update (ownerOf st) t σ.objcore k
    by_cases hkx : k = x
    · subst hkx
      obtain rfl : o' = ok := by simpa using hok
      refine balance (wf.count k o ho) hu ?_
      simp only [lruRef, hlru]
      omega
    · rw [Function.update_of_ne hkx] at hok
      have h1 : ref σ.objcore k = 0 := by
        rcases hσ with hσ | hσ <;> rw [hσ]
        · rfl
        · exact ref_of_ne (by simpa using Ne.symm hkx)
      have h2 : ref (ownerOf st t) k = 0 := by
        rcases ht with ht | ht <;> rw [ht]
        · rfl
        · exact ref_of_ne (by simpa using Ne.symm hkx)
      exact balance (wf.count k ok hok) hu (by omega)

lemma expWf_create (wf : ExpWf st) (hstep : st.create t x o = some st') : ExpWf st' := by
  unfold ExpState.create at hstep
  split at hstep
  · cases hstep
  rename_i hok
  push Not at hok
  obtain ⟨hidle, hx⟩ := hok
  have hx : st.ocs x = none := by simpa using hx
  obtain rfl := Option.some.inj hstep
  have hnolru : ∀ l, x ∉ st.lrus l := by
    intro l hl
    obtain ⟨o', ho', -⟩ := wf.lru l x hl
    simp [hx] at ho'
  have hheap : { st.heap with idx := Function.update st.heap.idx x binheapNoidx } = st.heap := by
    have hidx : st.heap.idx x = binheapNoidx := by
      apply wf.noidx
      rw [wf.stored]
      rintro ⟨l, hl⟩
      exact hnolru l hl
    rw [← hidx, Function.update_eq_self]
  rw [hheap]
  have hnoref : refs (ownerOf st) x = 0 := by
    rw [refs_eq_zero]
    intro t' ht'
    obtain ⟨o', ho'⟩ := wf.owner t' x ht'
    simp [hx] at ho'
  have hown : ownerOf st t = none := by rw [ownerOf, hidle]; rfl
  refine wf.turn (Function.update st.ocs x (some { o with refcnt := 1 })) ?_ ?_ ?_
  · intro k l hk
    have hkx : k ≠ x := by
      rintro rfl
      exact hnolru l hk
    simpa [hkx] using wf.lru l k hk
  · intro k hk
    by_cases hkx : k = x
    · subst hkx
      exact ⟨{ o with refcnt := 1 }, by simp⟩
    · rcases hk with hk | ⟨t', -, hk⟩
      · simp only [ExpThread.objcore, Option.some.injEq] at hk
        exact absurd hk.symm hkx
      · simpa [hkx] using wf.owner t' k hk
  · intro k ok hok
    have hu := refs_update (ownerOf st) t (some x) k
    rw [hown, ref_none, Nat.cast_zero, add_zero] at hu
    rw [ExpThread.objcore, hu]
    by_cases hkx : k = x
    · subst hkx
      obtain rfl : { o with refcnt := 1 } = ok := by simpa using hok
      simp [hnoref, lruRef, hnolru]
    · rw [Function.update_of_ne hkx] at hok
      rw [ref_of_ne (by simpa using Ne.symm hkx)]
      simpa using wf.count k ok hok

lemma expWf_ref (wf : ExpWf st) (hstep : st.hshRef t x = some st') : ExpWf st' := by
  obtain ⟨o, ho, hstep⟩ := Option.bind_eq_some_iff.mp hstep
  split at hstep
  · cases hstep
  rename_i hok
  push Not at hok
  obtain rfl := Option.some.inj hstep
  have hown : ownerOf st t = none := by rw [ownerOf, hok.1]; rfl
  exact wf.turn_some ho rfl (Or.inr rfl) (Or.inl hown) (by simp [hown, ExpThread.objcore])

lemma hshDeref_thread (hstep : st.hshDeref t = some st') :
    ∃ x o, ownerOf st t = some x ∧ st.ocs x = some o ∧ 0 < o.refcnt ∧ st' = (st.setOc x (if o.refcnt = 1 then none
      else some { o with refcnt := o.refcnt - 1 })).setThread t .idle := by
  unfold ExpState.hshDeref at hstep
  split at hstep
  · cases hstep
  · cases hstep
  · rename_i x ht
    obtain ⟨o, ho, hstep⟩ := Option.bind_eq_some_iff.mp hstep
    split at hstep
    · cases hstep
    · exact ⟨x, o, by rw [ownerOf, ht]; rfl, ho, by omega, (Option.some.inj hstep).symm⟩
  · rename_i x ht
    obtain ⟨o, ho, hstep⟩ := Option.bind_eq_some_iff.mp hstep
    split at hstep
    · cases hstep
    · exact ⟨x, o, by rw [ownerOf, ht]; rfl, ho, by omega, (Option.some.inj hstep).symm⟩

lemma expWf_deref (wf : ExpWf st) (hstep : st.hshDeref t = some st') : ExpWf st' := by
  obtain ⟨x, o, hown, ho, hpos, rfl⟩ := hshDeref_thread hstep
  by_cases hone : o.refcnt = 1
  · rw [if_pos hone]
    -- the only reference is that of the thread, so there is none of an LRU list
    have hu := refs_update (ownerOf st) t none x
    rw [hown, ref_self, ref_none] at hu
    have hzero : refs (Function.update (ownerOf st) t none) x + lruRef st x o = (0 : ℕ) :=
      balance (wf.count x o ho) hu (by omega)
    have hnolru : x ∉ st.lrus o.lru := by
      intro hx
      simp [lruRef, hx] at hzero
    have hnoref : refs (Function.update (ownerOf st) t none) x = 0 := by
      simp only [Nat.cast_zero, add_eq_zero] at hzero
      exact hzero.1
    refine wf.turn _ ?_ ?_ ?_
    · intro k l hk
      have hkx : k ≠ x := by
        rintro rfl
        obtain ⟨o', ho', rfl⟩ := wf.lru l k hk
        rw [ho] at ho'
        rw [← Option.some.inj ho'] at hk
        exact hnolru hk
      simpa [hkx] using wf.lru l k hk
    · intro k hk
      rcases hk with hk | ⟨t', ht', hk⟩
      · cases hk
      · have hkx : k ≠ x := by
          rintro rfl
          refine refs_eq_zero.mp hnoref t' ?_
          rw [Function.update_of_ne ht']
          exact hk
        simpa [hkx] using wf.owner t' k hk
    · intro k ok hok
      have hkx : k ≠ x := by
        rintro rfl
        simp at hok
      rw [Function.update_of_ne hkx] at hok
      have huk := refs_update (ownerOf st) t none k
      rw [hown, ref_of_ne (by simpa using Ne.symm hkx)] at huk
      exact balance (wf.count k ok hok) huk (by simp)
  · rw [if_neg hone]
    refine wf.turn_some ho rfl (Or.inl rfl) (Or.inr hown) ?_
    rw [hown, ref_self]
    simp only [ExpThread.objcore, ref_none]
    omega

/-- Fields that no count depends on. -/
lemma ExpWf.setOc {o' : ExpOc} (wf : ExpWf st) (ho : st.ocs x = some o) (hlru : o'.lru = o.lru)
    (hr : o'.refcnt = o.refcnt) : ExpWf (st.setOc x (some o')) where
  heap := wf.heap
  stored := wf.stored
  noidx := wf.noidx
  lru := by
    intro l k hk
    obtain ⟨ok, hok, rfl⟩ := wf.lru l k hk
    by_cases hkx : k = x
    · subst hkx
      rw [ho] at hok
      rw [← Option.some.inj hok]
      exact ⟨o', by simp [ExpState.setOc], hlru⟩
    · exact ⟨ok, by simpa [ExpState.setOc, hkx] using hok, rfl⟩
  nodup := wf.nodup
  owner := by
    intro t k hk
    by_cases hkx : k = x
    · subst hkx
      exact ⟨o', by simp [ExpState.setOc]⟩
    · simpa [ExpState.setOc, hkx] using wf.owner t k hk
  count := by
    intro k ok hok
    by_cases hkx : k = x
    · subst hkx
      obtain rfl : o' = ok := by simpa [ExpState.setOc] using hok
      have hc := wf.count k o ho
      rw [hr, ← hc, ownerOf_setOc]
      simp only [lruRef, hlru, ExpState.setOc]
    · simp only [ExpState.setOc, Function.update_of_ne hkx] at hok
      exact wf.count k ok hok

lemma expWf_unbusy (wf : ExpWf st) (hstep : st.hshUnbusy t = some st') : ExpWf st' := by
  unfold ExpState.hshUnbusy at hstep
  split at hstep
  · obtain ⟨o, ho, rfl⟩ := Option.map_eq_some_iff.mp hstep
    exact wf.setOc ho rfl rfl
  · cases hstep

lemma expWf_setExp {e : Exp} (wf : ExpWf st) (hstep : st.setExp x e = some st') : ExpWf st' := by
  obtain ⟨o, ho, rfl⟩ := Option.map_eq_some_iff.mp hstep
  exact wf.setOc ho rfl rfl

lemma expWf_insertRef (wf : ExpWf st) (hstep : st.insertRef t u = some st') : ExpWf st' := by
  unfold ExpState.insertRef at hstep
  split at hstep
  · rename_i x ht
    obtain ⟨o, ho, hstep⟩ := Option.bind_eq_some_iff.mp hstep
    split at hstep
    · cases hstep
    rename_i hok
    push Not at hok
    obtain rfl := Option.some.inj hstep
    have hown : ownerOf st u = none := by rw [ownerOf, hok.2.2]; rfl
    exact wf.turn_some ho rfl (Or.inr rfl) (Or.inl hown) (by simp [hown, ExpThread.objcore])
  · cases hstep

/-- `EXP_Touch` moves an objcore to the end of its list. -/
lemma expWf_touch {locked : Bool} (wf : ExpWf st) (hstep : st.expTouch x locked = some st') : ExpWf st' := by
  obtain ⟨o, ho, hstep⟩ := Option.bind_eq_some_iff.mp hstep
  split at hstep
  · obtain rfl := Option.some.inj hstep
    exact wf
  rename_i hmove
  obtain rfl := Option.some.inj hstep
  have hx : x ∈ st.lrus o.lru := by
    rw [← wf.stored_iff ho, ← wf.idx_ne_iff]
    simp only [Bool.or_eq_true, not_or, beq_iff_eq] at hmove
    exact hmove.2
  have hmem : ∀ l k, k ∈ (st.setLru o.lru ((st.lrus o.lru).erase x ++ [x])).lrus l ↔ k ∈ st.lrus l := by
    intro l k
    by_cases hl : l = o.lru
    · subst hl
      simp only [ExpState.setLru, Function.update_self, List.mem_append, List.mem_singleton,
        (wf.nodup o.lru).mem_erase_iff]
      constructor
      · rintro (⟨-, hk⟩ | rfl)
        · exact hk
        · exact hx
      · intro hk
        by_cases hkx : k = x
        · exact Or.inr hkx
        · exact Or.inl ⟨hkx, hk⟩
    · simp [ExpState.setLru, hl]
  exact
    { heap := wf.heap
      stored := by
        intro k
        rw [show Stored (st.setLru o.lru ((st.lrus o.lru).erase x ++ [x])).heap k ↔ Stored st.heap k from Iff.rfl,
          wf.stored]
        simp only [hmem]
      noidx := wf.noidx
      lru := fun l k hk => wf.lru l k ((hmem l k).mp hk)
      nodup := by
        intro l
        by_cases hl : l = o.lru
        · subst hl
          have hnd := wf.nodup o.lru
          simp only [ExpState.setLru, Function.update_self]
          exact ((List.perm_append_comm.trans (List.perm_cons_erase hx).symm).nodup_iff).mpr hnd
        · simpa [ExpState.setLru, hl] using wf.nodup l
      owner := wf.owner
      count := by
        intro k ok hok
        have hc := wf.count k ok hok
        simpa only [lruRef, hmem, ownerOf_setLru] using hc }

/-- `EXP_Rearm` moves an objcore within the heap. -/
lemma expWf_rearm {par : ExpParams} (wf : ExpWf st) (hstep : st.expRearm x par = some st') : ExpWf st' := by
  obtain ⟨o, ho, hstep⟩ := Option.bind_eq_some_iff.mp hstep
  dsimp only at hstep
  split at hstep
  · obtain rfl := Option.some.inj hstep
    exact wf
  rename_i hmove
  push Not at hmove
  obtain ⟨heap, hreorder, hstep⟩ := Option.bind_eq_some_iff.mp hstep
  split at hstep
  · cases hstep
  obtain rfl := Option.some.inj hstep
  obtain ⟨s, hinv⟩ := wf.heap
  obtain ⟨n, hn1, hn, hx⟩ := (wf.idx_ne_iff x).mp hmove.1
  rw [hinv.filled.idx n x hn1 hn hx] at hreorder
  obtain ⟨b, hb, hbinv, -, -, hstored, hidx⟩ := reorder_spec objectCmp_strictWeak hinv hn1 hn hx (o.exp.timerWhen par)
  obtain rfl := Option.some.inj (hb.symm.trans hreorder)
  exact
    { wf with
      heap := ⟨s, hbinv⟩
      stored := fun k => (hstored k).trans (wf.stored k)
      noidx := by
        intro k hk
        have hk' : ¬ Stored st.heap k := fun hc => hk ((hstored k).mpr hc)
        rw [hidx k hk']
        exact wf.noidx k hk' }

/-- There is no room left in a heap of that size, and `binheap_insert` fails an assertion. -/
lemma insert_cap {s : Nat} {bh bh' : Binheap Nat Int} (hs : Shape s bh) {p : Nat}
    (h : bh.insert objectCmp junk p = some bh') : bh.next < 2 ^ 32 - 2 ^ 16 := by
  by_contra hge
  have hw := hs.rows.whole
  have hl := hs.rows.lt
  have hle := hs.le
  have hfull : bh.length = bh.next := by omega
  have hlen : bh.length = 2 ^ 32 - 2 ^ 16 := by omega
  unfold Binheap.insert at h
  rw [if_neg (not_not.mpr hle)] at h
  obtain ⟨b, hb, h⟩ := Option.bind_eq_some_iff.mp h
  have hb0 : b.length = 0 := by
    rw [reserve, if_pos hfull] at hb
    have hgrow : bh.growRows.length = bh.length := by
      unfold growRows
      split <;> rfl
    unfold addrow at hb
    dsimp only at hb
    split at hb
    · cases hb
    · have hlast : u32 (bh.growRows.length + rowWidth) = 0 := by
        rw [hgrow, hlen, row_width]
        decide
      rw [← Option.some.inj hb]
      exact hlast
  dsimp only at h
  rw [if_pos (by omega)] at h
  cases h

/-- An objcore enters the heap and its list, which take over the reference of thread `t`. -/
lemma expWf_insert {w : Int} {st1 : ExpState} (wf : ExpWf st) (ho : st.ocs x = some o) (hown : ownerOf st t = some x)
    (hstep : st.expInsert junk x o w = some st1) : ExpWf (st1.setThread t .idle) := by
  unfold ExpState.expInsert at hstep
  split at hstep
  · cases hstep
  rename_i hidx
  push Not at hidx
  obtain ⟨heap, hins, hstep⟩ := Option.bind_eq_some_iff.mp hstep
  split at hstep
  · cases hstep
  obtain rfl := Option.some.inj hstep
  obtain ⟨s, hinv⟩ := wf.heap
  have hns : ¬ Stored st.heap x := by
    rw [← wf.idx_ne_iff]
    exact fun hne => hne hidx
  have hinv1 := hinv.rekey hns w
  obtain ⟨b, hb, hbinv, -, -, hstored, hbidx⟩ :=
    insert_spec objectCmp_strictWeak junk hinv1 (p := x) hns (insert_cap hinv1.shape hins)
  obtain rfl := Option.some.inj (hb.symm.trans hins)
  have hnotin : ∀ l, x ∉ st.lrus l := by
    intro l hl
    exact hns ((wf.stored x).mpr ⟨l, hl⟩)
  have hmem : ∀ l k, k ∈ Function.update st.lrus o.lru (st.lrus o.lru ++ [x]) l ↔
      k ∈ st.lrus l ∨ (k = x ∧ l = o.lru) := by
    intro l k
    by_cases hl : l = o.lru
    · subst hl
      simp
    · simp [hl]
  exact
    { heap := ⟨s, hbinv⟩
      stored := by
        intro k
        have hk : Stored b k ↔ k = x ∨ Stored st.heap k := hstored k
        have hwf := wf.stored k
        change Stored b k ↔ ∃ l, k ∈ Function.update st.lrus o.lru (st.lrus o.lru ++ [x]) l
        rw [hk, hwf]
        simp only [hmem]
        constructor
        · rintro (rfl | ⟨l, hl⟩)
          · exact ⟨o.lru, Or.inr ⟨rfl, rfl⟩⟩
          · exact ⟨l, Or.inl hl⟩
        · rintro ⟨l, hl | ⟨rfl, -⟩⟩
          · exact Or.inr ⟨l, hl⟩
          · exact Or.inl rfl
      noidx := by
        intro k hk
        have hk' : ¬ (k = x ∨ Stored st.heap k) := fun hc => hk ((hstored k).mpr hc)
        push Not at hk'
        change b.idx k = binheapNoidx
        rw [hbidx k hk'.1 hk'.2]
        exact wf.noidx k hk'.2
      lru := by
        intro l k hk
        rcases (hmem l k).mp hk with hold | ⟨rfl, rfl⟩
        · exact wf.lru l k hold
        · exact ⟨o, ho, rfl⟩
      nodup := by
        intro l
        change (Function.update st.lrus o.lru (st.lrus o.lru ++ [x]) l).Nodup
        by_cases hl : l = o.lru
        · subst hl
          rw [Function.update_self, List.nodup_append]
          refine ⟨wf.nodup o.lru, List.nodup_singleton x, ?_⟩
          intro a ha b hb
          rw [List.mem_singleton.mp hb]
          rintro rfl
          exact hnotin o.lru ha
        · rw [Function.update_of_ne hl]
          exact wf.nodup l
      owner := by
        intro t' k hk
        rw [ownerOf_setThread] at hk
        by_cases ht : t' = t
        · subst ht
          simp [ExpThread.objcore] at hk
        · rw [Function.update_of_ne ht] at hk
          exact wf.owner t' k hk
      count := by
        intro k ok hok
        have hok' : st.ocs k = some ok := hok
        rw [ownerOf_setThread]
        refine balance (wf.count k ok hok') (refs_update (ownerOf st) t none k) ?_
        rw [hown, ref_none]
        have hl : lruRef (({ st with heap := b }.setLru o.lru (st.lrus o.lru ++ [x])).setThread t .idle) k ok =
            if k ∈ st.lrus ok.lru ∨ (k = x ∧ ok.lru = o.lru) then 1 else 0 := by
          simp only [lruRef]
          exact if_congr (hmem ok.lru k) rfl rfl
        rw [hl, lruRef]
        by_cases hkx : k = x
        · subst hkx
          rw [ho] at hok'
          obtain rfl := Option.some.inj hok'
          simp [hnotin]
        · simp [hkx, ref_of_ne (show some x ≠ some k by simpa using Ne.symm hkx)] }

end VarnishCache.Proofs
