import VarnishCache.Proofs.Expire

/-!
# Runs of expiry

An objcore is on an LRU list, has an index and is in the heap, or none of the three, in every state of a run
whose deletions stay within the 32 bit arithmetic of `binheap_delete`. Who takes it off both has the reference
that they owned.
-/

namespace VarnishCache.Proofs

open VarnishCache Binheap HeapOrder ExpState RefCount

variable {junk : Nat → Option Nat} {st st' : ExpState} {x t u l : Nat} {o : ExpOc}

/-- The three memberships go together, an objcore is on its own list only and once, and the membership
counts for one reference besides those of threads. -/
structure ExpConsistent (st : ExpState) : Prop where
  lru : ∀ x o, st.ocs x = some o → (x ∈ st.lrus o.lru ↔ st.heap.idx x ≠ binheapNoidx)
  heap : ∀ x, st.heap.idx x ≠ binheapNoidx ↔ x ∈ st.heap.contents
  own : ∀ l x, x ∈ st.lrus l → ∃ o, st.ocs x = some o ∧ o.lru = l
  once : ∀ l, (st.lrus l).Nodup
  refs : ∀ x o, st.ocs x = some o →
    {t | (st.threads t).objcore = some x}.encard + (if x ∈ st.lrus o.lru then 1 else 0) = o.refcnt

/-- An objcore leaves its LRU list, and one thread gets the reference of the list. -/
def HandsOff (st st' : ExpState) (x : Nat) : Prop :=
  ∃ u, st.threads u = .idle ∧ st'.threads = Function.update st.threads u (.dropping x) ∧ st'.ocs = st.ocs

/-- The objcore that `exp_timer` or `EXP_NukeOne` is going to take off. -/
def victim (st : ExpState) : ExpAct → Option Nat
  | .timer _ t now locked =>
    match st.heap.root with
    | some (some x) =>
      if (t < st.heap.key x ∧ now < st.heap.key x) ∨ (st.ocs x).any ExpOc.busy ∨ locked = false then none else some x
    | _ => none
  | .nuke _ l =>
    match st.nukeFind (st.lrus l) with
    | some (some (x, _)) => some x
    | _ => none
  | _ => none

/-- The objcore taken off is in the last slot of the heap, or the sum that `binheap_delete` compares with the
length does not wrap. -/
def ExpFits (st : ExpState) (a : ExpAct) : Prop :=
  ∀ x, victim st a = some x → st.heap.idx x = st.heap.next - 1 ∨ st.heap.next ≤ 2 ^ 32 - 2 * rowWidth + 1

lemma ExpWf.consistent (wf : ExpWf st) : ExpConsistent st where
  lru := by
    intro x o ho
    rw [wf.idx_ne_iff, wf.stored_iff ho]
  heap := by
    intro x
    rw [wf.idx_ne_iff, mem_contents]
  own := wf.lru
  once := wf.nodup
  refs := by
    intro x o ho
    have hc := wf.count x o ho
    rw [lruRef] at hc
    push_cast at hc
    exact hc

/-- The heap and the LRU list give up an objcore, and thread `u` takes over their reference. -/
lemma expWf_remove (wf : ExpWf st) (hu : st.threads u = .idle) (ho : st.ocs x = some o) (hx : x ∈ st.lrus o.lru)
    (hfit : st.heap.idx x = st.heap.next - 1 ∨ st.heap.next ≤ 2 ^ 32 - 2 * rowWidth + 1)
    (hstep : st.expRemove u x o = some st') :
    ExpWf st' ∧ HandsOff st st' x ∧ ∀ k l, k ∈ st.lrus l → k = x ∨ k ∈ st'.lrus l := by
  obtain ⟨heap, hdel, hstep⟩ := Option.bind_eq_some_iff.mp hstep
  split at hstep
  · cases hstep
  rename_i hidx
  push Not at hidx
  obtain rfl := Option.some.inj hstep
  obtain ⟨s, hinv⟩ := wf.heap
  obtain ⟨n, hn1, hn, hxn⟩ := (wf.stored_iff ho).mpr hx
  rw [hinv.filled.idx n x hn1 hn hxn] at hdel hfit
  obtain ⟨b, hb, hrem⟩ := delete_spec objectCmp_strictWeak hinv hn1 hn hxn (by simpa [row_width] using hfit)
  obtain rfl := Option.some.inj (hb.symm.trans hdel)
  have hmem : ∀ l k, k ∈ Function.update st.lrus o.lru ((st.lrus o.lru).erase x) l ↔ k ∈ st.lrus l ∧ k ≠ x := by
    intro l k
    by_cases hl : l = o.lru
    · subst hl
      rw [Function.update_self, (wf.nodup o.lru).mem_erase_iff]
      exact and_comm
    · rw [Function.update_of_ne hl]
      constructor
      · intro hk
        refine ⟨hk, ?_⟩
        rintro rfl
        obtain ⟨o', ho', rfl⟩ := wf.lru l k hk
        rw [ho] at ho'
        exact hl (by rw [Option.some.inj ho'])
      · exact fun hk => hk.1
  have hown : ownerOf st u = none := by rw [ownerOf, hu]; rfl
  refine ⟨?_, ⟨u, hu, rfl, rfl⟩, ?_⟩
  · exact
      { heap := ⟨s, hrem.shape, hrem.filled, hrem.ordered, hrem.empty⟩
        stored := by
          intro k
          change Stored b k ↔ ∃ l, k ∈ Function.update st.lrus o.lru ((st.lrus o.lru).erase x) l
          rw [hrem.stored, wf.stored]
          simp only [hmem]
          exact exists_and_right.symm
        noidx := by
          intro k hk
          change b.idx k = binheapNoidx
          by_cases hkx : k = x
          · subst hkx
            exact hrem.noidx
          · have hk' : ¬ Stored st.heap k := fun hc => hk ((hrem.stored k).mpr ⟨hc, hkx⟩)
            rw [hrem.frame k hk']
            exact wf.noidx k hk'
        lru := fun l k hk => wf.lru l k ((hmem l k).mp hk).1
        nodup := by
          intro l
          change (Function.update st.lrus o.lru ((st.lrus o.lru).erase x) l).Nodup
          by_cases hl : l = o.lru
          · subst hl
            rw [Function.update_self]
            exact (wf.nodup o.lru).erase x
          · rw [Function.update_of_ne hl]
            exact wf.nodup l
        owner := by
          intro t k hk
          rw [ownerOf_setThread] at hk
          by_cases ht : t = u
          · subst ht
            simp only [Function.update_self, ExpThread.objcore, Option.some.injEq] at hk
            subst hk
            exact ⟨o, ho⟩
          · rw [Function.update_of_ne ht] at hk
            exact wf.owner t k hk
        count := by
          intro k ok hok
          have hok' : st.ocs k = some ok := hok
          rw [ownerOf_setThread]
          refine balance (wf.count k ok hok') (refs_update (ownerOf st) u (some x) k) ?_
          rw [hown, ref_none]
          have hl : lruRef (({ st with heap := b }.setLru o.lru ((st.lrus o.lru).erase x)).setThread u (.dropping x)) k
              ok = if k ∈ st.lrus ok.lru ∧ k ≠ x then 1 else 0 := by
            simp only [lruRef]
            exact if_congr (hmem ok.lru k) rfl rfl
          rw [hl, lruRef]
          by_cases hkx : k = x
          · subst hkx
            rw [ho] at hok'
            obtain rfl := Option.some.inj hok'
            simp [hx]
          · simp [hkx, ref_of_ne (show some x ≠ some k by simpa using Ne.symm hkx)] }
  · intro k l hk
    by_cases hkx : k = x
    · exact Or.inl hkx
    · exact Or.inr ((hmem l k).mpr ⟨hk, hkx⟩)

lemma lrus_expInsert {w : Int} (hstep : st.expInsert junk x o w = some st') {k : Nat} (hk : k ∈ st.lrus l) :
    k ∈ st'.lrus l := by
  unfold ExpState.expInsert at hstep
  split at hstep
  · cases hstep
  obtain ⟨heap, -, hstep⟩ := Option.bind_eq_some_iff.mp hstep
  split at hstep
  · cases hstep
  obtain rfl := Option.some.inj hstep
  by_cases hl : l = o.lru
  · subst hl
    simp [ExpState.setLru, hk]
  · simpa [ExpState.setLru, hl] using hk

lemma lrus_expTouch {locked : Bool} (hstep : st.expTouch x locked = some st') {k : Nat} (hk : k ∈ st.lrus l) :
    k ∈ st'.lrus l := by
  obtain ⟨o, ho, hstep⟩ := Option.bind_eq_some_iff.mp hstep
  split at hstep
  · rwa [← Option.some.inj hstep]
  obtain rfl := Option.some.inj hstep
  by_cases hl : l = o.lru
  · subst hl
    by_cases hkx : k = x
    · simp [ExpState.setLru, hkx]
    · simp [ExpState.setLru, List.mem_erase_of_ne hkx, hk]
  · simpa [ExpState.setLru, hl] using hk

lemma nukeFind_mem {xs : List Nat} (h : st.nukeFind xs = some (some (x, o))) : x ∈ xs ∧ st.ocs x = some o := by
  induction xs with
  | nil => cases h
  | cons y ys ih =>
    unfold ExpState.nukeFind at h
    split at h
    · cases h
    rename_i oy hoy
    split at h
    · cases h
    split at h
    · simp only [Option.some.injEq, Prod.mk.injEq] at h
      obtain ⟨rfl, rfl⟩ := h
      exact ⟨List.mem_cons_self, hoy⟩
    · obtain ⟨hmem, hox⟩ := ih h
      exact ⟨List.mem_cons_of_mem _ hmem, hox⟩

/-- The timer does nothing, or takes off the root of the heap. -/
lemma expTimer_cases {tm now : Int} {locked : Bool} (hstep : st.expTimer u tm now locked = some st') :
    st' = st ∨ ∃ x o, st.threads u = .idle ∧ victim st (.timer u tm now locked) = some x ∧ st.ocs x = some o ∧
      st.heap.idx x ≠ binheapNoidx ∧ st.expRemove u x o = some st' := by
  unfold ExpState.expTimer at hstep
  split at hstep
  · cases hstep
  rename_i hidle
  push Not at hidle
  split at hstep
  · cases hstep
  · exact Or.inl (Option.some.inj hstep).symm
  · rename_i x hroot
    obtain ⟨o, ho, hstep⟩ := Option.bind_eq_some_iff.mp hstep
    split at hstep
    · exact Or.inl (Option.some.inj hstep).symm
    rename_i hwhen
    split at hstep
    · exact Or.inl (Option.some.inj hstep).symm
    rename_i hbusy
    split at hstep
    · exact Or.inl (Option.some.inj hstep).symm
    rename_i hlocked
    split at hstep
    · cases hstep
    rename_i hidx
    refine Or.inr ⟨x, o, hidle, ?_, ho, hidx, hstep⟩
    have hnot : ¬ ((tm < st.heap.key x ∧ now < st.heap.key x) ∨ (st.ocs x).any ExpOc.busy = true ∨ locked = false) := by
      rintro (hc | hc | hc)
      · exact hwhen hc
      · simp only [ho, Option.any_some] at hc
        exact hbusy hc
      · simp [hc] at hlocked
    simp only [victim, hroot, if_neg hnot]

/-- `EXP_NukeOne` finds nothing, or takes off an objcore of the list. -/
lemma expNukeOne_cases (hstep : st.expNukeOne u l = some st') :
    st' = st ∨ ∃ x o, st.threads u = .idle ∧ victim st (.nuke u l) = some x ∧ st.ocs x = some o ∧ x ∈ st.lrus l ∧
      st.expRemove u x { o with lru := l } = some st' := by
  unfold ExpState.expNukeOne at hstep
  split at hstep
  · cases hstep
  rename_i hidle
  push Not at hidle
  split at hstep
  · cases hstep
  · exact Or.inl (Option.some.inj hstep).symm
  · rename_i x o hfind
    obtain ⟨hmem, ho⟩ := nukeFind_mem hfind
    refine Or.inr ⟨x, o, hidle, ?_, ho, hmem, hstep⟩
    simp only [victim, hfind]

/-- Every objcore that is on an LRU list stays there, or thread `u` gets its reference. -/
def LruKept (st st' : ExpState) : Prop := ∀ x l, x ∈ st.lrus l → x ∈ st'.lrus l ∨ HandsOff st st' x

lemma lruKept_of_eq (h : st'.lrus = st.lrus) : LruKept st st' := by
  intro x l hx
  rw [h]
  exact Or.inl hx

lemma expWf_step {a : ExpAct} (wf : ExpWf st) (hfit : ExpFits st a) (hstep : st.step junk a = some st') :
    ExpWf st' ∧ LruKept st st' := by
  cases a with
  | create t x o =>
    refine ⟨expWf_create wf hstep, lruKept_of_eq ?_⟩
    simp only [ExpState.step, ExpState.create] at hstep
    split at hstep
    · cases hstep
    · rw [← Option.some.inj hstep]
      rfl
  | ref t x =>
    refine ⟨expWf_ref wf hstep, lruKept_of_eq ?_⟩
    obtain ⟨o, ho, hstep⟩ := Option.bind_eq_some_iff.mp hstep
    split at hstep
    · cases hstep
    · rw [← Option.some.inj hstep]
      rfl
  | deref t =>
    obtain ⟨x, o, -, -, -, hst⟩ := hshDeref_thread hstep
    exact ⟨expWf_deref wf hstep, lruKept_of_eq (by rw [hst]; rfl)⟩
  | unbusy t =>
    refine ⟨expWf_unbusy wf hstep, lruKept_of_eq ?_⟩
    simp only [ExpState.step, ExpState.hshUnbusy] at hstep
    split at hstep
    · obtain ⟨o, ho, rfl⟩ := Option.map_eq_some_iff.mp hstep
      rfl
    · cases hstep
  | setExp x e =>
    refine ⟨expWf_setExp wf hstep, lruKept_of_eq ?_⟩
    obtain ⟨o, ho, rfl⟩ := Option.map_eq_some_iff.mp hstep
    rfl
  | inject t w =>
    simp only [ExpState.step, ExpState.expInject] at hstep
    split at hstep
    · rename_i x ht
      obtain ⟨o, ho, hstep⟩ := Option.bind_eq_some_iff.mp hstep
      obtain ⟨st1, hins, hstep⟩ := Option.bind_eq_some_iff.mp hstep
      obtain rfl := Option.some.inj hstep
      refine ⟨expWf_insert wf ho (by rw [ownerOf, ht]; rfl) hins, ?_⟩
      exact fun k l hk => Or.inl (lrus_expInsert hins hk)
    · cases hstep
  | insertRef t u =>
    refine ⟨expWf_insertRef wf hstep, lruKept_of_eq ?_⟩
    simp only [ExpState.step, ExpState.insertRef] at hstep
    split at hstep
    · obtain ⟨o, ho, hstep⟩ := Option.bind_eq_some_iff.mp hstep
      split at hstep
      · cases hstep
      · rw [← Option.some.inj hstep]
        rfl
    · cases hstep
  | insert u par =>
    simp only [ExpState.step, ExpState.insertObj] at hstep
    split at hstep
    · rename_i x ht
      obtain ⟨o, ho, hstep⟩ := Option.bind_eq_some_iff.mp hstep
      obtain ⟨st1, hins, hstep⟩ := Option.bind_eq_some_iff.mp hstep
      obtain rfl := Option.some.inj hstep
      refine ⟨expWf_insert wf ho (by rw [ownerOf, ht]; rfl) hins, ?_⟩
      exact fun k l hk => Or.inl (lrus_expInsert hins hk)
    · cases hstep
  | touch x locked => exact ⟨expWf_touch wf hstep, fun k l hk => Or.inl (lrus_expTouch hstep hk)⟩
  | rearm x par =>
    refine ⟨expWf_rearm wf hstep, lruKept_of_eq ?_⟩
    obtain ⟨o, ho, hstep⟩ := Option.bind_eq_some_iff.mp hstep
    dsimp only at hstep
    split at hstep
    · rw [← Option.some.inj hstep]
    · obtain ⟨heap, -, hstep⟩ := Option.bind_eq_some_iff.mp hstep
      split at hstep
      · cases hstep
      · rw [← Option.some.inj hstep]
  | timer u tm now locked =>
    rcases expTimer_cases hstep with rfl | ⟨x, o, hidle, hv, ho, hidx, hrem⟩
    · exact ⟨wf, lruKept_of_eq rfl⟩
    · have hx : x ∈ st.lrus o.lru := (wf.stored_iff ho).mp ((wf.idx_ne_iff x).mp hidx)
      obtain ⟨wf', hoff, hkept⟩ := expWf_remove wf hidle ho hx (hfit x hv) hrem
      refine ⟨wf', ?_⟩
      intro k l hk
      rcases hkept k l hk with rfl | hk'
      · exact Or.inr hoff
      · exact Or.inl hk'
  | nuke u l =>
    rcases expNukeOne_cases hstep with rfl | ⟨x, o, hidle, hv, ho, hmem, hrem⟩
    · exact ⟨wf, lruKept_of_eq rfl⟩
    · obtain ⟨o', ho', rfl⟩ := wf.lru l x hmem
      rw [ho] at ho'
      obtain rfl := Option.some.inj ho'
      obtain ⟨wf', hoff, hkept⟩ := expWf_remove wf hidle ho hmem (hfit x hv) hrem
      refine ⟨wf', ?_⟩
      intro k l hk
      rcases hkept k l hk with rfl | hk'
      · exact Or.inr hoff
      · exact Or.inl hk'

lemma expWf_reach {pagesize : Nat} (hpage : 32 ≤ pagesize) (h : ExpReach junk pagesize ExpFits st) : ExpWf st := by
  induction h with
  | init h => exact expWf_init hpage h
  | step _ hfit hstep ih => exact (expWf_step ih hfit hstep).1

/-- In every run whose deletions fit, the memberships of all objcores are consistent in every state, and an
objcore that leaves its LRU list leaves one reference, to one thread that drops it. -/
theorem exp_membership_runs {pagesize : Nat} (hpage : 32 ≤ pagesize) (h : ExpReach junk pagesize ExpFits st) :
    ExpConsistent st ∧ ∀ a st', ExpFits st a → st.step junk a = some st' →
      ∀ x l, x ∈ st.lrus l → x ∉ st'.lrus l → HandsOff st st' x := by
  have wf := expWf_reach hpage h
  refine ⟨wf.consistent, ?_⟩
  intro a st' hfit hstep x l hx hx'
  rcases (expWf_step wf hfit hstep).2 x l hx with hc | hoff
  · exact absurd hc hx'
  · exact hoff

/-- While there is room in the heap, an objcore that is not there gets in. -/
lemma expInsert_some (junk : Nat → Option Nat) (o : ExpOc) (wf : ExpWf st) (hidx : st.heap.idx x = binheapNoidx)
    (hroom : st.heap.next < 2 ^ 32 - 2 ^ 16) (w : Int) :
    ∃ st', st.expInsert junk x o w = some st' ∧ st'.heap.next = st.heap.next + 1 ∧ st'.ocs = st.ocs ∧
      st'.threads = st.threads := by
  obtain ⟨s, hinv⟩ := wf.heap
  have hns : ¬ Stored st.heap x := by
    rw [← wf.idx_ne_iff]
    exact fun hne => hne hidx
  obtain ⟨b, hb, hbinv, hbn, -, hstored, -⟩ := insert_spec objectCmp_strictWeak junk (hinv.rekey hns w) (p := x) hns hroom
  obtain ⟨n, hn1, hn, hxn⟩ := (hstored x).mpr (Or.inl rfl)
  have hne : b.idx x ≠ binheapNoidx := by
    rw [hbinv.filled.idx n x hn1 hn hxn, binheapNoidx]
    omega
  refine ⟨{ st with heap := b }.setLru o.lru (st.lrus o.lru ++ [x]), ?_, hbn, rfl, rfl⟩
  simp only [ExpState.expInsert, hidx, ne_eq, not_true_eq_false, if_false, hb]
  exact if_neg hne

/-- A fresh objcore of an object that has no more time. -/
def spentOc : ExpOc :=
  { refcnt := 1, busy := false, lru := 0, dontMove := false, exp := { entered := 0, ttl := 0, grace := 0, keep := 0 } }

/-- Putting the objcores below `n` in the cache one after another, as a persistent silo does when it is loaded. -/
lemma expReach_injects (n : Nat) (hn : n < 2 ^ 32 - 2 ^ 16) :
    ∃ st, ExpReach (fun _ => none) 4096 ExpFits st ∧ st.heap.next = n + 1 ∧ (∀ t, st.threads t = .idle) ∧
      ∀ x, st.ocs x = if x < n then some spentOc else none := by
  induction n with
  | zero =>
    obtain ⟨st, hst⟩ : ∃ st, ExpState.init (fun _ => none) 4096 = some st := ⟨_, rfl⟩
    refine ⟨st, .init hst, ?_⟩
    obtain ⟨heap, hnew, rfl⟩ := Option.map_eq_some_iff.mp hst
    refine ⟨?_, fun t => rfl, fun x => rfl⟩
    obtain rfl := Option.some.inj hnew
    rfl
  | succ n ih =>
    obtain ⟨st, hr, hnext, hidle, hocs⟩ := ih (by omega)
    have hfresh : st.ocs n = none := by rw [hocs, if_neg (lt_irrefl n)]
    have hcreate : st.step (fun _ => none) (.create 0 n spentOc) =
        some (({ st with heap := { st.heap with idx := Function.update st.heap.idx n binheapNoidx } }.setOc n
          (some spentOc)).setThread 0 (.has n)) := by
      simp [ExpState.step, ExpState.create, hidle, hfresh, spentOc]
    have hr1 := hr.step (by intro x hx; cases hx) hcreate
    generalize hst1 : (({ st with heap := { st.heap with idx := Function.update st.heap.idx n binheapNoidx } }.setOc n
          (some spentOc)).setThread 0 (.has n)) = st1 at hr1
    have hidx : st1.heap.idx n = binheapNoidx := by
      rw [← hst1]
      exact Function.update_self ..
    have hnext1 : st1.heap.next = n + 1 := by
      rw [← hst1]
      exact hnext
    have hocs1 : st1.ocs = Function.update st.ocs n (some spentOc) := by rw [← hst1]; rfl
    have hth1 : st1.threads = Function.update st.threads 0 (.has n) := by rw [← hst1]; rfl
    obtain ⟨st2, hins, hnext2, hocs2, hth2⟩ :=
      expInsert_some (fun _ => none) spentOc (expWf_reach (by norm_num) hr1) hidx (by omega) 0
    have hinject : st1.step (fun _ => none) (.inject 0 0) = some (st2.setThread 0 .idle) := by
      simp [ExpState.step, ExpState.expInject, hth1, hocs1, hins]
    refine ⟨_, hr1.step (by intro x hx; cases hx) hinject, by rw [← hnext1, ← hnext2]; rfl, ?_, ?_⟩
    · intro t
      change Function.update st2.threads 0 .idle t = .idle
      rw [hth2, hth1]
      by_cases ht : t = 0
      · simp [ht]
      · simp [ht, hidle]
    · intro x
      change st2.ocs x = _
      rw [hocs2, hocs1]
      by_cases hx : x = n
      · simp [hx]
      · rw [Function.update_of_ne hx, hocs]
        exact if_congr (by omega) rfl rfl

lemma ExpReach.weaken {pagesize : Nat} {P : ExpState → ExpAct → Prop} (h : ExpReach junk pagesize P st) :
    ExpReach junk pagesize (fun _ _ => True) st := by
  induction h with
  | init hinit => exact .init hinit
  | step _ _ hstep ih => exact ih.step trivial hstep

/-- The timer takes off the root of the heap once it is due. -/
lemma expTimer_root (junk : Nat → Option Nat) (wf : ExpWf st) (hu : st.threads u = .idle)
    (hx : st.heap.elem 1 = some x) (ho : st.ocs x = some o)
    (hbusy : o.busy = false) (hlt : 1 < st.heap.next) :
    st.step junk (.timer u (st.heap.key x) 0 true) = st.expRemove u x o := by
  have hroot : st.heap.root = some (some x) := elem_eq.mp hx
  have hidx : st.heap.idx x ≠ binheapNoidx := (wf.idx_ne_iff x).mpr ⟨1, le_rfl, hlt, hx⟩
  simp [ExpState.step, ExpState.expTimer, hu, hroot, ho, hbusy, hidx]

lemma expRemove_eq {b : Binheap Nat Int} (hdel : st.heap.delete objectCmp (st.heap.idx x) = some b)
    (hb : b.idx x = binheapNoidx) : st.expRemove u x o =
      some (({ st with heap := b }.setLru o.lru ((st.lrus o.lru).erase x)).setThread u (.dropping x)) := by
  simp [ExpState.expRemove, hdel, hb]

theorem exp_membership_runs_expired : ∃ (st st' : ExpState) (a : ExpAct) (x : Nat),
    ExpReach (fun _ => none) 4096 ExpFits st ∧ st.step (fun _ => none) a = some st' ∧ ExpConsistent st ∧
      x ∈ st.lrus 0 ∧ x ∉ st'.lrus 0 ∧ HandsOff st st' x := by
  obtain ⟨st, hr, hnext, hidle, hocs⟩ := expReach_injects 3 (by norm_num)
  obtain ⟨hcons, hleave⟩ := exp_membership_runs (by norm_num) hr
  have wf := expWf_reach (by norm_num) hr
  obtain ⟨s, hinv⟩ := wf.heap
  obtain ⟨x, hx⟩ := hinv.filled.full 1 le_rfl (by omega)
  have hstored : Stored st.heap x := ⟨1, le_rfl, by omega, hx⟩
  obtain ⟨l, hl⟩ := (wf.stored x).mp hstored
  obtain ⟨o, ho, rfl⟩ := wf.lru l x hl
  have hox : o = spentOc := by
    rw [hocs] at ho
    split at ho
    · exact (Option.some.inj ho).symm
    · cases ho
  subst hox
  have hfits : st.heap.next ≤ 2 ^ 32 - 2 ^ 17 + 1 := by omega
  obtain ⟨b, hdel, hrem⟩ := delete_spec objectCmp_strictWeak hinv le_rfl (by omega) hx (Or.inr hfits)
  rw [← hinv.filled.idx 1 x le_rfl (by omega) hx] at hdel
  have hstep := expTimer_root (fun _ => none) wf (hidle 0) hx ho rfl (by omega)
  rw [expRemove_eq hdel hrem.noidx] at hstep
  have hgone : x ∉ ({ st with heap := b }.setLru 0 ((st.lrus 0).erase x)).lrus 0 := by
    simp [ExpState.setLru, (wf.nodup 0).mem_erase_iff]
  refine ⟨st, _, _, x, hr, hstep, hcons, hl, hgone, hleave _ _ ?_ hstep x 0 hl hgone⟩
  intro y hy
  exact Or.inr (by simpa [row_width] using hfits)

/-- With more than `2^32 - 2 * ROW_WIDTH` objcores in the heap, the expiry of one takes another out of the heap,
which is still on its LRU list and has its index. -/
theorem exp_timer_loses_objcore : ¬∀ st : ExpState,
    ExpReach (fun _ => none) 4096 (fun _ _ => True) st → ExpConsistent st := by
  intro hall
  obtain ⟨st, hr, hnext, hidle, hocs⟩ := expReach_injects (2 ^ 32 - 2 ^ 17 + 2) (by norm_num)
  have wf := expWf_reach (by norm_num) hr
  obtain ⟨s, hinv⟩ := wf.heap
  obtain ⟨x, hx⟩ := hinv.filled.full 1 le_rfl (by omega)
  have hstored : Stored st.heap x := ⟨1, le_rfl, by omega, hx⟩
  obtain ⟨l, hl⟩ := (wf.stored x).mp hstored
  obtain ⟨o, ho, rfl⟩ := wf.lru l x hl
  have hbusy : o.busy = false := by
    rw [hocs] at ho
    split at ho
    · rw [← Option.some.inj ho]
      rfl
    · cases ho
  obtain ⟨b, hdel, hlen, hrem⟩ := delete_middle_spec objectCmp_strictWeak hinv le_rfl (by omega) hx
  rw [← hinv.filled.idx 1 x le_rfl (by omega) hx] at hdel
  have hbn := hrem.next
  have hkept : b.shrink.idx = b.idx := by
    unfold Binheap.shrink
    split <;> rfl
  have hstep := expTimer_root (fun _ => none) wf (hidle 0) hx ho hbusy (by omega)
  rw [expRemove_eq hdel (by rw [hkept]; exact hrem.noidx)] at hstep
  obtain ⟨st', hstep', hheap⟩ : ∃ st', st.step (fun _ => none) (.timer 0 (st.heap.key x) 0 true) = some st' ∧
      st'.heap = b.shrink := ⟨_, hstep, by simp only [ExpState.setThread, ExpState.setLru]⟩
  have hcons := (hall st' ((ExpReach.weaken hr).step trivial hstep')).heap
  rw [hheap] at hcons
  obtain ⟨hsn, hfree⟩ := shrink_frees_used hrem.shape (by omega)
  obtain ⟨y, hy⟩ := hrem.filled.full (b.next - 1) (by omega) (by omega)
  have hidx : b.idx y = b.next - 1 := hrem.filled.idx _ y (by omega) (by omega) hy
  have hmem : y ∈ b.shrink.contents := by
    refine (hcons y).mp ?_
    rw [hkept, hidx, binheapNoidx]
    omega
  obtain ⟨n, hn1, hn, hyn⟩ := mem_contents.mp hmem
  rw [hsn] at hn
  have hold : b.elem n = some y := shrink_elem hyn
  obtain rfl := hrem.filled.slot_unique hn1 hn (by omega) (by omega) hold hy
  rw [hfree] at hyn
  cases hyn

end VarnishCache.Proofs
