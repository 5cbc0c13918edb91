import VarnishCache.Proofs.CacheCenterMoves

/-!
# The references of a session

Each reference that `HSH_Lookup` or `STV_NewObject` gives is in one place (`sp->objcore`, `sp->obj`, or the `obj` of a
`ved_include` that waits) until it is given back, and it is given back once. The one step that loses a reference is
`cnt_error` without space for an object, where `sp->objcore` is still set.
-/

namespace VarnishCache.Proofs

open Cnt

variable {p : CntParams} {e : CntEnv} {st st' : Cnt} {held : List (Nat × Bool)} {n r : Nat} {l : List RefEv} {b : Bool}

/-- The references that are held, each with whether its objcore is busy, the next number, and what has happened. -/
structure RefBook where
  held : List (Nat × Bool)
  nref : Nat
  ledger : List RefEv

/-- What has happened to one reference, in order. -/
def history (l : List RefEv) (r : Nat) : List RefEv := (l.filter (fun ev => ev.ref = r)).reverse

/-- A reference that was given back, once, with or without `HSH_Unbusy` before. -/
def Released (r : Nat) (h : List RefEv) : Prop :=
  h = [.get r false, .deref r] ∨ h = [.get r true, .deref r] ∨ h = [.get r true, .unbusy r, .deref r]

/-- A reference that is held. -/
def Holding (r : Nat) (busy : Bool) (h : List RefEv) : Prop :=
  busy = true ∧ h = [.get r true] ∨ busy = false ∧ (h = [.get r false] ∨ h = [.get r true, .unbusy r])

structure Balanced (k : RefBook) : Prop where
  nodup : (k.held.map Prod.fst).Nodup
  fresh : ∀ r, k.nref ≤ r → history k.ledger r = []
  bound : ∀ x ∈ k.held, x.1 < k.nref
  held : ∀ x ∈ k.held, Holding x.1 x.2 (history k.ledger x.1)
  out : ∀ r < k.nref, r ∉ k.held.map Prod.fst → Released r (history k.ledger r)

lemma history_cons (ev : RefEv) (l : List RefEv) (r : Nat) :
    history (ev :: l) r = if ev.ref = r then history l r ++ [ev] else history l r := by
  unfold history
  by_cases h : ev.ref = r
  · simp [h]
  · simp [h]

lemma history_self (ev : RefEv) (h : ev.ref = r) : history (ev :: l) r = history l r ++ [ev] := by
  rw [history_cons, if_pos h]

lemma history_other (ev : RefEv) (h : ev.ref ≠ r) : history (ev :: l) r = history l r := by
  rw [history_cons, if_neg h]

/-- A reference is given out. -/
lemma Balanced.get (h : Balanced ⟨held, n, l⟩) (b : Bool) : Balanced ⟨(n, b) :: held, n + 1, .get n b :: l⟩ := by
  have hne : ∀ x ∈ held, x.1 ≠ n := fun x hx => Nat.ne_of_lt (h.bound x hx)
  refine ⟨?_, ?_, ?_, ?_, ?_⟩
  · refine List.nodup_cons.mpr ⟨?_, h.nodup⟩
    intro hmem
    obtain ⟨x, hx, hx'⟩ := List.mem_map.mp hmem
    exact hne x hx hx'
  · intro r hr
    have hlt : n < r := hr
    rw [history_other (.get n b) (Nat.ne_of_lt hlt)]
    exact h.fresh r (Nat.le_of_lt hlt)
  · intro x hx
    rcases List.mem_cons.mp hx with rfl | hx
    · exact Nat.lt_succ_self n
    · exact Nat.lt_succ_of_lt (h.bound x hx)
  · intro x hx
    rcases List.mem_cons.mp hx with rfl | hx
    · dsimp only
      rw [history_self (.get n b) (r := n) rfl, h.fresh n (le_refl n)]
      cases b with
      | true => exact Or.inl ⟨rfl, rfl⟩
      | false => exact Or.inr ⟨rfl, Or.inl rfl⟩
    · rw [history_other (.get n b) (hne x hx).symm]
      exact h.held x hx
  · intro r hr hout
    simp only [List.map_cons, List.mem_cons, not_or] at hout
    rw [history_other (.get n b) (Ne.symm hout.1)]
    exact h.out r (Nat.lt_of_le_of_ne (Nat.le_of_lt_succ hr) hout.1) hout.2

/-- The objcore of a reference is no longer busy. -/
lemma Balanced.unbusy (h : Balanced ⟨(r, true) :: held, n, l⟩) : Balanced ⟨(r, false) :: held, n, .unbusy r :: l⟩ := by
  obtain ⟨hr, hnodup⟩ := List.nodup_cons.mp h.nodup
  have hne : ∀ x ∈ held, r ≠ x.1 := by
    intro x hx hrx
    exact hr (List.mem_map.mpr ⟨x, hx, hrx.symm⟩)
  have hlt : r < n := h.bound (r, true) List.mem_cons_self
  refine ⟨h.nodup, ?_, ?_, ?_, ?_⟩
  · intro s hs
    have hlt' : r < s := Nat.lt_of_lt_of_le hlt hs
    rw [history_other (.unbusy r) (Nat.ne_of_lt hlt')]
    exact h.fresh s hs
  · intro x hx
    rcases List.mem_cons.mp hx with rfl | hx
    · exact hlt
    · exact h.bound x (List.mem_cons_of_mem _ hx)
  · intro x hx
    rcases List.mem_cons.mp hx with rfl | hx
    · rcases h.held (r, true) List.mem_cons_self with ⟨-, hh⟩ | ⟨hb, -⟩
      · dsimp only at hh ⊢
        rw [history_self (.unbusy r) (r := r) rfl, hh]
        exact Or.inr ⟨rfl, Or.inr rfl⟩
      · cases hb
    · rw [history_other (.unbusy r) (hne x hx)]
      exact h.held x (List.mem_cons_of_mem _ hx)
  · intro s hs hout
    simp only [List.map_cons, List.mem_cons, not_or] at hout
    rw [history_other (.unbusy r) (Ne.symm hout.1)]
    exact h.out s hs (by simp only [List.map_cons, List.mem_cons, not_or]; exact hout)

/-- A reference is given back. -/
lemma Balanced.deref (h : Balanced ⟨(r, b) :: held, n, l⟩) : Balanced ⟨held, n, .deref r :: l⟩ := by
  obtain ⟨hr, hnodup⟩ := List.nodup_cons.mp h.nodup
  have hne : ∀ x ∈ held, r ≠ x.1 := by
    intro x hx hrx
    exact hr (List.mem_map.mpr ⟨x, hx, hrx.symm⟩)
  have hlt : r < n := h.bound (r, b) List.mem_cons_self
  refine ⟨hnodup, ?_, fun x hx => h.bound x (List.mem_cons_of_mem _ hx), ?_, ?_⟩
  · intro s hs
    have hlt' : r < s := Nat.lt_of_lt_of_le hlt hs
    rw [history_other (.deref r) (Nat.ne_of_lt hlt')]
    exact h.fresh s hs
  · intro x hx
    rw [history_other (.deref r) (hne x hx)]
    exact h.held x (List.mem_cons_of_mem _ hx)
  · intro s hs hout
    by_cases hsr : r = s
    · subst hsr
      rw [history_self (.deref r) (r := r) rfl]
      rcases h.held (r, b) List.mem_cons_self with ⟨-, hh⟩ | ⟨-, hh | hh⟩
      · rw [hh]
        exact Or.inr (Or.inl rfl)
      · rw [hh]
        exact Or.inl rfl
      · rw [hh]
        exact Or.inr (Or.inr rfl)
    · rw [history_other (.deref r) hsr]
      refine h.out s hs ?_
      simp only [List.map_cons, List.mem_cons, not_or]
      exact ⟨Ne.symm hsr, hout⟩

/-! ## The references of a session -/

def objHeld : CntObj → Nat × Bool
  | .anon r => (r, false)
  | .core oc => (oc.ref, oc.busy)

def frameHeld (f : CntFrame) : List (Nat × Bool) := f.obj.toList.map objHeld

def heldRefs (st : Cnt) : List (Nat × Bool) :=
  st.obj.toList.map objHeld ++ (st.objcore.toList.map (fun oc => (oc.ref, oc.busy)) ++ st.frames.flatMap frameHeld)

def refBook (st : Cnt) : RefBook := ⟨heldRefs st, st.nref, st.ledger⟩

/-- The steps at which the session has an object. -/
def withObj : Stp → Bool
  | .hit | .prepresp | .streambody | .deliver => true
  | _ => false

/-- The steps at which it may have a busy objcore. -/
def withOc : Stp → Bool
  | .miss | .fetch | .fetchbody | .error => true
  | _ => false

structure Own (st : Cnt) : Prop where
  book : Balanced (refBook st)
  run : st.pc = .run → st.obj.isSome = withObj st.step ∧ (st.objcore.isSome = true → withOc st.step = true)
  write : ∀ n, st.pc = .write n → st.obj.isSome = true ∧ st.objcore = none
  out : st.pc ≠ .run → (∀ n, st.pc ≠ .write n) → st.obj = none ∧ st.objcore = none

/-- `cnt_error` does not run out of objects while the session has an objcore. -/
def Kept (e : CntEnv) (st : Cnt) : Prop :=
  st.pc = .run → st.step = .error → e.newObject = false → st.objcore = none

instance : Decidable (Kept e st) := by
  unfold Kept
  infer_instance

lemma Own.of_run (s : Stp) (hbook : Balanced (refBook st)) (hpc : st.pc = .run) (hstep : st.step = s)
    (hobj : st.obj.isSome = withObj s) (hoc : st.objcore.isSome = true → withOc s = true) : Own st := by
  refine ⟨hbook, ?_, ?_, ?_⟩
  · intro _
    rw [hstep]
    exact ⟨hobj, hoc⟩
  · intro n hn
    rw [hpc] at hn
    cases hn
  · intro hn
    exact absurd hpc hn

lemma Own.obj_none {s : Stp} (h : Own st) (hpc : st.pc = .run) (hstep : st.step = s) (hs : withObj s = false) :
    st.obj = none := by
  have hobj := (h.run hpc).1
  rw [hstep, hs] at hobj
  exact Option.isSome_eq_false_iff.mp hobj |> Option.isNone_iff_eq_none.mp

lemma Own.objcore_none {s : Stp} (h : Own st) (hpc : st.pc = .run) (hstep : st.step = s) (hs : withOc s = false) :
    st.objcore = none := by
  cases hoc : st.objcore with
  | none => rfl
  | some oc =>
    have hw := (h.run hpc).2 (by rw [hoc]; rfl)
    rw [hstep, hs] at hw
    cases hw

lemma Own.of_write (n : Nat) (hbook : Balanced (refBook st)) (hpc : st.pc = .write n) (hobj : st.obj.isSome = true)
    (hoc : st.objcore = none) : Own st := by
  refine ⟨hbook, ?_, fun _ _ => ⟨hobj, hoc⟩, fun _ hn => absurd hpc (hn n)⟩
  intro hn
  rw [hpc] at hn
  cases hn

lemma Own.of_out (hbook : Balanced (refBook st)) (hpc : st.pc ≠ .run) (hwrite : ∀ n, st.pc ≠ .write n)
    (hobj : st.obj = none) (hoc : st.objcore = none) : Own st :=
  ⟨hbook, fun hn => absurd hn hpc, fun n hn => absurd hn (hwrite n), fun _ _ => ⟨hobj, hoc⟩⟩

/-! ## What the steps call -/

lemma hshDeref_book {c : Cnt} (hbook : Balanced (refBook c)) (h : c.hshDeref = some st') :
    Balanced (refBook st') ∧ st'.obj = none ∧ st'.objcore = c.objcore := by
  unfold refBook heldRefs at hbook
  unfold Cnt.hshDeref at h
  split at h
  · cases h
  · rename_i hobj
    cases h
    rw [hobj] at hbook
    exact ⟨hbook.deref, rfl, rfl⟩
  · rename_i oc hobj
    cases h
    rw [hobj] at hbook
    exact ⟨hbook.deref, rfl, rfl⟩

lemma hshUnbusy_book {c : Cnt} (hbook : Balanced (refBook c)) (h : c.hshUnbusy = some st') :
    Balanced (refBook st') ∧ st'.obj.isSome = true ∧ st'.objcore = c.objcore := by
  unfold refBook heldRefs at hbook
  unfold Cnt.hshUnbusy at h
  split at h
  · rename_i oc hobj
    split at h
    · rename_i hb
      simp only [Bool.and_eq_true] at hb
      cases h
      rw [hobj] at hbook
      simp only [Option.toList_some, List.map_cons, List.map_nil, objHeld, hb.1] at hbook
      exact ⟨Balanced.unbusy hbook, rfl, rfl⟩
    · cases h
  · cases h

lemma hshDrop_book {c : Cnt} (hbook : Balanced (refBook c)) (h : c.hshDrop = some st') :
    Balanced (refBook st') ∧ st'.obj = none ∧ st'.objcore = c.objcore := by
  unfold Cnt.hshDrop at h
  split at h
  · cases h
  · exact hshDeref_book hbook h
  · obtain ⟨mid, hmid, hend⟩ := Option.bind_eq_some_iff.mp h
    obtain ⟨hbook', -, hoc⟩ := hshUnbusy_book hbook hmid
    obtain ⟨hbook'', hobj, hoc'⟩ := hshDeref_book hbook' hend
    exact ⟨hbook'', hobj, hoc'.trans hoc⟩

lemma hshDerefOc_book {c : Cnt} (hbook : Balanced (refBook c)) (hobj : c.obj = none) :
    Balanced (refBook c.hshDerefOc) ∧ c.hshDerefOc.obj = none ∧ c.hshDerefOc.objcore = none := by
  unfold Cnt.hshDerefOc
  split
  · rename_i hoc
    exact ⟨hbook, hobj, hoc⟩
  · rename_i oc hoc
    unfold refBook heldRefs at hbook
    rw [hobj, hoc] at hbook
    refine ⟨?_, hobj, rfl⟩
    unfold refBook heldRefs
    rw [hobj]
    exact Balanced.deref hbook

lemma stvNewObject_book {c : Cnt} (hbook : Balanced (refBook c)) (hobj : c.obj = none) :
    Balanced (refBook c.stvNewObject) ∧ c.stvNewObject.obj.isSome = true ∧ c.stvNewObject.objcore = none := by
  unfold refBook heldRefs at hbook
  rw [hobj] at hbook
  unfold Cnt.stvNewObject
  split
  · rename_i oc hoc
    rw [hoc] at hbook
    exact ⟨hbook, rfl, rfl⟩
  · rename_i hoc
    refine ⟨?_, rfl, hoc⟩
    exact hbook.get false

lemma fetchBody_book {c : Cnt} (hbook : Balanced (refBook c)) (h : c.fetchBody = some st') :
    Balanced (refBook st') ∧ st'.obj = c.obj ∧ st'.objcore = c.objcore := by
  unfold Cnt.fetchBody at h
  split at h
  · cases h
    exact ⟨hbook, rfl, rfl⟩
  · cases h

lemma vdiCloseFd_book {c : Cnt} (hbook : Balanced (refBook c)) (h : c.vdiCloseFd = some st') :
    Balanced (refBook st') ∧ st'.obj = c.obj ∧ st'.objcore = c.objcore := by
  unfold Cnt.vdiCloseFd at h
  split at h
  · cases h
    exact ⟨hbook, rfl, rfl⟩
  · cases h

lemma fetchHdr_book {c : Cnt} {r : FetchHdrRes} (hbook : Balanced (refBook c)) (h : c.fetchHdr r = some st') :
    Balanced (refBook st') ∧ st'.obj = c.obj ∧ st'.objcore = c.objcore := by
  unfold Cnt.fetchHdr at h
  split at h
  · cases h
    exact ⟨hbook, rfl, rfl⟩
  · cases h

lemma fetchCleanup_book (hbook : Balanced (refBook st)) (hobj : st.obj = none) :
    Balanced (refBook st.fetchCleanup) ∧ st.fetchCleanup.obj = none ∧ st.fetchCleanup.objcore = none :=
  hshDerefOc_book hbook hobj

/-! ## The steps -/

/-- A state between steps, with neither object nor objcore. -/
lemma Own.of_none (s : Stp) (hbook : Balanced (refBook st)) (hpc : st.pc = .run) (hstep : st.step = s)
    (hs : withObj s = false) (hobj : st.obj = none) (hoc : st.objcore = none) : Own st := by
  refine .of_run s hbook hpc hstep ?_ ?_
  · rw [hobj, hs]
    rfl
  · rw [hoc]
    intro h
    cases h

/-- A state with an object. -/
lemma Own.of_some (s : Stp) (hbook : Balanced (refBook st)) (hpc : st.pc = .run) (hstep : st.step = s)
    (hs : withObj s = true) (hobj : st.obj.isSome = true) (hoc : st.objcore = none) : Own st := by
  refine .of_run s hbook hpc hstep (hobj.trans hs.symm) ?_
  rw [hoc]
  intro h
  cases h

lemma cntWait_own (hown : Own st) (hpc : st.pc = .run) (hstep : st.step = .wait) (h : st.cntWait e = some st') :
    Own st' := by
  have hobj := hown.obj_none hpc hstep rfl
  have hoc := hown.objcore_none hpc hstep rfl
  unfold Cnt.cntWait at h
  split at h
  · split at h
    · cases leave_pc_eq h
      exact .of_out hown.book (by simp) (by simp) hobj hoc
    · cases h
      exact .of_none .start hown.book hpc rfl rfl hobj hoc
    · cases h
      exact .of_none .done hown.book hpc rfl rfl hobj hoc
  · cases h

lemma cntStart_own (hown : Own st) (hpc : st.pc = .run) (hstep : st.step = .start) (h : st.cntStart e = some st') :
    Own st' := by
  have hobj := hown.obj_none hpc hstep rfl
  have hoc := hown.objcore_none hpc hstep rfl
  unfold Cnt.cntStart at h
  split at h
  · split at h
    · cases h
      exact .of_none .done hown.book hpc rfl rfl hobj hoc
    · cases h
      exact .of_none .error hown.book hpc rfl rfl hobj hoc
    · cases h
      cases e.expect
      · exact .of_none .recv hown.book hpc rfl rfl hobj hoc
      · exact .of_none .error hown.book hpc rfl rfl hobj hoc
  · cases h

lemma cntRecv_own (hown : Own st) (hpc : st.pc = .run) (hstep : st.step = .recv) (h : st.cntRecv p e = some st') :
    Own st' := by
  have hobj := hown.obj_none hpc hstep rfl
  have hoc := hown.objcore_none hpc hstep rfl
  unfold Cnt.cntRecv at h
  split at h
  · dsimp only at h
    split at h
    · cases h
      exact .of_none .error hown.book hpc rfl rfl hobj hoc
    · split at h
      · cases h
        exact .of_none .lookup hown.book hpc rfl rfl hobj hoc
      · split at h
        · cases h
          exact .of_none .pipe hown.book hpc rfl rfl hobj hoc
        · cases h
      · cases h
        exact .of_none .pass hown.book hpc rfl rfl hobj hoc
      · cases h
        exact .of_none .error hown.book hpc rfl rfl hobj hoc
      · cases h
  · cases h

lemma cntPass_own (hown : Own st) (hpc : st.pc = .run) (hstep : st.step = .pass) (h : st.cntPass e = some st') :
    Own st' := by
  have hobj := hown.obj_none hpc hstep rfl
  have hoc := hown.objcore_none hpc hstep rfl
  unfold Cnt.cntPass at h
  split at h
  · dsimp only at h
    split at h
    · cases h
      exact .of_none .error hown.book hpc rfl rfl hobj hoc
    · cases h
      exact .of_none .fetch hown.book hpc rfl rfl hobj hoc
    · cases h
  · cases h

lemma cntPipe_own (hown : Own st) (hpc : st.pc = .run) (hstep : st.step = .pipe) (h : st.cntPipe e = some st') :
    Own st' := by
  have hobj := hown.obj_none hpc hstep rfl
  have hoc := hown.objcore_none hpc hstep rfl
  unfold Cnt.cntPipe at h
  split at h
  · split at h
    · cases h
      exact .of_none .done hown.book hpc rfl rfl hobj hoc
    · cases h
  · cases h

lemma cntLookup_own (hown : Own st) (hpc : st.pc = .run) (hstep : st.step = .lookup) (h : st.cntLookup e = some st') :
    Own st' := by
  have hobj := hown.obj_none hpc hstep rfl
  have hoc := hown.objcore_none hpc hstep rfl
  have hbook := hown.book
  unfold Cnt.cntLookup at h
  split at h
  · split at h
    · dsimp only at h
      split at h
      · cases leave_pc_eq h
        exact .of_out hown.book (by simp) (by simp) hobj hoc
      · split at h
        · cases h
          exact .of_out hown.book (by simp) (by simp) hobj hoc
        · cases h
    · cases h
      unfold refBook heldRefs at hbook
      rw [hobj, hoc] at hbook
      refine .of_run .miss ?_ hpc rfl (by rw [hobj]; rfl) (fun _ => rfl)
      unfold refBook heldRefs
      rw [hobj]
      exact hbook.get true
    · rename_i pass _
      unfold refBook heldRefs at hbook
      rw [hobj, hoc] at hbook
      have hhit : Balanced (refBook { st with
          nbusyobj := true, hashObjhead := false, varyB := false, obj := some (.core ⟨st.nref, false, pass⟩),
          nref := st.nref + 1, ledger := .get st.nref false :: st.ledger }) := by
        unfold refBook heldRefs
        rw [hoc]
        exact hbook.get false
      dsimp only at h
      split at h
      · obtain ⟨mid, hmid, rfl⟩ := Option.map_eq_some_iff.mp h
        have hplace := hshDeref_place hmid
        obtain ⟨hbook', hobj', hoc'⟩ := hshDeref_book hhit hmid
        refine .of_none .pass ?_ (hplace.pc.trans hpc) rfl rfl hobj' rfl
        have hnone : mid.objcore = none := hoc'.trans hoc
        unfold refBook heldRefs at hbook' ⊢
        rw [hnone] at hbook'
        exact hbook'
      · cases h
        exact .of_some .hit hhit hpc rfl rfl rfl hoc
  · cases h

lemma cntMiss_own (hown : Own st) (hpc : st.pc = .run) (hstep : st.step = .miss) (h : st.cntMiss e = some st') :
    Own st' := by
  have hobj := hown.obj_none hpc hstep rfl
  unfold Cnt.cntMiss at h
  split at h
  · dsimp only at h
    have hderef := hshDerefOc_book (c := { st with bereq := true, handling := e.miss }) hown.book hobj
    have hplace := hshDerefOc_place { st with bereq := true, handling := e.miss }
    split at h
    · cases h
      exact .of_none .error hderef.1 (hplace.pc.trans hpc) rfl rfl hderef.2.1 hderef.2.2
    · cases h
      exact .of_none .pass hderef.1 (hplace.pc.trans hpc) rfl rfl hderef.2.1 hderef.2.2
    · cases h
      exact .of_run .fetch hown.book hpc rfl (by rw [hobj]; rfl) (fun _ => rfl)
    · cases h
  · cases h

lemma cntHit_own (hown : Own st) (hpc : st.pc = .run) (hstep : st.step = .hit) (h : st.cntHit e = some st') :
    Own st' := by
  have hobj : st.obj.isSome = true := by
    have hrun := (hown.run hpc).1
    rw [hstep] at hrun
    exact hrun
  have hoc := hown.objcore_none hpc hstep rfl
  have hderef : ∀ mid, Cnt.hshDeref { st with handling := e.hit } = some mid →
      Balanced (refBook { mid with objcore := none }) ∧ mid.obj = none ∧ mid.pc = .run := by
    intro mid hmid
    obtain ⟨hbook, hobj', hoc'⟩ := hshDeref_book (c := { st with handling := e.hit }) hown.book hmid
    refine ⟨?_, hobj', (hshDeref_place hmid).pc.trans hpc⟩
    have hnone : mid.objcore = none := hoc'.trans hoc
    unfold refBook heldRefs at hbook ⊢
    rw [hnone] at hbook
    exact hbook
  unfold Cnt.cntHit at h
  split at h
  · split at h
    · dsimp only at h
      split at h
      · split at h
        · cases h
          exact .of_some .prepresp hown.book hpc rfl rfl hobj hoc
        · cases h
      · obtain ⟨mid, hmid, rfl⟩ := Option.map_eq_some_iff.mp h
        obtain ⟨hbook, hnone, hrun⟩ := hderef mid hmid
        exact .of_none .pass hbook hrun rfl rfl hnone rfl
      · obtain ⟨mid, hmid, rfl⟩ := Option.map_eq_some_iff.mp h
        obtain ⟨hbook, hnone, hrun⟩ := hderef mid hmid
        exact .of_none .error hbook hrun rfl rfl hnone rfl
      · obtain ⟨mid, hmid, rfl⟩ := Option.map_eq_some_iff.mp h
        obtain ⟨hbook, hnone, hrun⟩ := hderef mid hmid
        exact .of_none .recv hbook hrun rfl rfl hnone rfl
      · cases h
    · cases h
  · cases h

lemma fetchReturn_own {c : Cnt} (hbook : Balanced (refBook c)) (hpc : c.pc = .run) (hobj : c.obj = none)
    (h : c.fetchReturn e = some st') : Own st' := by
  unfold Cnt.fetchReturn at h
  split at h
  · cases h
    refine .of_run .fetchbody ?_ hpc rfl (by rw [hobj]; rfl) (fun _ => rfl)
    unfold refBook heldRefs at hbook ⊢
    cases hoc : c.objcore with
    | none =>
      rw [hoc] at hbook
      exact hbook
    | some oc =>
      rw [hoc] at hbook
      exact hbook
  · split at h
    · cases h
      exact .of_run .fetchbody hbook hpc rfl (by rw [hobj]; rfl) (fun _ => rfl)
    · cases h
  · obtain ⟨mid, hmid, rfl⟩ := Option.map_eq_some_iff.mp h
    obtain ⟨hbook', hobj', -⟩ := vdiCloseFd_book hbook hmid
    obtain ⟨hbook'', hobj'', hoc⟩ := fetchCleanup_book hbook' (hobj'.trans hobj)
    exact .of_none .recv hbook'' ((fetchCleanup_place mid).pc.trans ((vdiCloseFd_place hmid).pc.trans hpc)) rfl rfl hobj''
      hoc
  · obtain ⟨mid, hmid, rfl⟩ := Option.map_eq_some_iff.mp h
    obtain ⟨hbook', hobj', -⟩ := vdiCloseFd_book hbook hmid
    obtain ⟨hbook'', hobj'', hoc⟩ := fetchCleanup_book hbook' (hobj'.trans hobj)
    exact .of_none .error hbook'' ((fetchCleanup_place mid).pc.trans ((vdiCloseFd_place hmid).pc.trans hpc)) rfl rfl hobj''
      hoc
  · cases h

lemma cntFetch_own (hown : Own st) (hpc : st.pc = .run) (hstep : st.step = .fetch) (h : st.cntFetch e = some st') :
    Own st' := by
  have hobj := hown.obj_none hpc hstep rfl
  unfold Cnt.cntFetch at h
  split at h
  · obtain ⟨a, ha, h⟩ := Option.bind_eq_some_iff.mp h
    obtain ⟨b, hb, h⟩ := Option.bind_eq_some_iff.mp h
    obtain ⟨hbook, hobj', -⟩ := fetchHdr_book (c := { st with beresp := true }) hown.book ha
    have hpca : a.pc = .run := (fetchHdr_place ha).pc.trans hpc
    obtain ⟨hbook', hobj'', hpcb⟩ : Balanced (refBook b) ∧ b.obj = none ∧ b.pc = .run := by
      split at hb
      · obtain ⟨h1, h2, -⟩ := fetchHdr_book hbook hb
        exact ⟨h1, h2.trans (hobj'.trans hobj), (fetchHdr_place hb).pc.trans hpca⟩
      · cases hb
        exact ⟨hbook, hobj'.trans hobj, hpca⟩
    split at h
    · cases h
      obtain ⟨h1, h2, h3⟩ := fetchCleanup_book hbook' hobj''
      exact .of_none .error h1 ((fetchCleanup_place b).pc.trans hpcb) rfl rfl h2 h3
    · split at h
      · cases h
      · exact fetchReturn_own (c := b.fetchMethod e) hbook' hpcb hobj'' h
  · cases h

lemma fetchbodyObject_own {c : Cnt} (hbook : Balanced (refBook c)) (hpc : c.pc = .run) (hobj : c.obj = none)
    (h : c.fetchbodyObject e = some st') : Own st' := by
  obtain ⟨hnew, hsome, hnone⟩ := stvNewObject_book hbook hobj
  have hpc' := (stvNewObject_place c).pc.trans hpc
  unfold Cnt.fetchbodyObject at h
  dsimp only at h
  split at h
  · split at h
    · cases h
      exact .of_some .prepresp hnew hpc' rfl rfl hsome hnone
    · obtain ⟨a, ha, h⟩ := Option.bind_eq_some_iff.mp h
      obtain ⟨hbook', hobj', hoc'⟩ := fetchBody_book (c := { c.stvNewObject with
        storageHint := false, doStream := c.doStream && !e.cond }) hnew ha
      have hpca : a.pc = .run := (fetchBody_place ha).pc.trans hpc'
      have hnone' : a.objcore = none := hoc'.trans hnone
      split at h
      · obtain ⟨mid, hmid, rfl⟩ := Option.map_eq_some_iff.mp h
        obtain ⟨h1, h2, h3⟩ := hshDrop_book (c := { a with
          hContentLength := false, bereq := false, beresp := false, vfp := false }) hbook' hmid
        exact .of_none .error h1 ((hshDrop_place hmid).pc.trans hpca) rfl rfl h2 (h3.trans hnone')
      · split at h
        · obtain ⟨mid, hmid, rfl⟩ := Option.map_eq_some_iff.mp h
          obtain ⟨h1, h2, h3⟩ := hshUnbusy_book (c := { a with
            hContentLength := false, bereq := false, beresp := false, vfp := false }) hbook' hmid
          exact .of_some .prepresp h1 ((hshUnbusy_place hmid).pc.trans hpca) rfl rfl h2 (h3.trans hnone')
        · cases h
          refine .of_some .prepresp hbook' hpca rfl rfl ?_ hnone'
          have hsame : a.obj = c.stvNewObject.obj := hobj'
          rw [hsame]
          exact hsome
  · cases h

lemma cntFetchbody_own (hown : Own st) (hpc : st.pc = .run) (hstep : st.step = .fetchbody)
    (h : st.cntFetchbody p e = some st') : Own st' := by
  have hobj := hown.obj_none hpc hstep rfl
  have hclose : ∀ a mid : Cnt, Balanced (refBook a) → a.obj = none → a.pc = .run → a.vdiCloseFd = some mid →
      Own { mid with step := .error } := by
    intro a mid hbook hnone hrun hmid
    obtain ⟨h1, h2, -⟩ := vdiCloseFd_book hbook hmid
    refine .of_run .error h1 ((vdiCloseFd_place hmid).pc.trans hrun) rfl ?_ (fun _ => rfl)
    rw [show ({ mid with step := .error } : Cnt).obj = none from h2.trans hnone]
    rfl
  unfold Cnt.cntFetchbody at h
  split at h
  · dsimp only at h
    split at h
    · cases h
    · split at h
      · obtain ⟨mid, hmid, rfl⟩ := Option.map_eq_some_iff.mp h
        exact hclose (st.fetchFilter p e) mid hown.book hobj hpc hmid
      · split at h
        · exact fetchbodyObject_own (c := { st.fetchFilter p e with
            storageHint := (st.fetchFilter p e).storageHint || e.shortlived || (st.objcore.isNone ||
              decide (st.handling = .hitForPass)) }) hown.book hpc hobj h
        · obtain ⟨mid, hmid, rfl⟩ := Option.map_eq_some_iff.mp h
          exact hclose { st.fetchFilter p e with
            storageHint := (st.fetchFilter p e).storageHint || e.shortlived || (st.objcore.isNone ||
              decide (st.handling = .hitForPass)) } mid hown.book hobj hpc hmid
  · cases h

lemma cntStreambody_own (hown : Own st) (hpc : st.pc = .run) (hstep : st.step = .streambody)
    (h : st.cntStreambody e = some st') : Own st' := by
  have hoc := hown.objcore_none hpc hstep rfl
  unfold Cnt.cntStreambody at h
  split at h
  · obtain ⟨a, ha, h⟩ := Option.bind_eq_some_iff.mp h
    obtain ⟨b, hb, h⟩ := Option.bind_eq_some_iff.mp h
    obtain ⟨hbook, -, hoc'⟩ := fetchBody_book hown.book ha
    have hpca : a.pc = .run := (fetchBody_place ha).pc.trans hpc
    have hnone : a.objcore = none := hoc'.trans hoc
    obtain ⟨hbook', hnone', hpcb⟩ : Balanced (refBook b) ∧ b.objcore = none ∧ b.pc = .run := by
      split at hb
      · cases hb
        exact ⟨hbook, hnone, hpca⟩
      · split at hb
        · obtain ⟨h1, -, h3⟩ := hshUnbusy_book (c := { a with
            hContentLength := false, bereq := false, beresp := false, vfp := false }) hbook hb
          exact ⟨h1, h3.trans hnone, (hshUnbusy_place hb).pc.trans hpca⟩
        · cases hb
          exact ⟨hbook, hnone, hpca⟩
    obtain ⟨c, hc, rfl⟩ := Option.map_eq_some_iff.mp h
    obtain ⟨h1, h2, h3⟩ := hshDeref_book hbook' hc
    exact .of_none .done h1 ((hshDeref_place hc).pc.trans hpcb) rfl rfl h2 (h3.trans hnone')
  · cases h

lemma cntPrepresp_own (hown : Own st) (hpc : st.pc = .run) (hstep : st.step = .prepresp)
    (h : st.cntPrepresp p e = some st') : Own st' := by
  have hobj : st.obj.isSome = true := by
    have hrun := (hown.run hpc).1
    rw [hstep] at hrun
    exact hrun
  have hoc := hown.objcore_none hpc hstep rfl
  unfold Cnt.cntPrepresp at h
  split at h
  · dsimp only at h
    have hsend : Own { st with
        doclose := st.doclose || e.eofMode, resp := true, handling := e.deliver,
        step := if st.doStream then .streambody else .deliver } := by
      cases st.doStream
      · exact .of_some .deliver hown.book hpc rfl rfl hobj hoc
      · exact .of_some .streambody hown.book hpc rfl rfl hobj hoc
    split at h
    · cases h
      exact hsend
    · split at h
      · cases h
        exact hsend
      · obtain ⟨mid, hmid, rfl⟩ := Option.map_eq_some_iff.mp h
        obtain ⟨h1, h2, h3, h4⟩ : Balanced (refBook mid) ∧ mid.obj = none ∧ mid.objcore = none ∧ mid.pc = .run := by
          split at hmid
          · obtain ⟨a, ha, hb⟩ := Option.bind_eq_some_iff.mp hmid
            obtain ⟨hbook, -, hoc'⟩ := vdiCloseFd_book (c := { st with
              doclose := st.doclose || e.eofMode, resp := true, handling := e.deliver }) hown.book ha
            obtain ⟨h1, h2, h3⟩ := hshDrop_book hbook hb
            exact ⟨h1, h2, h3.trans (hoc'.trans hoc),
              (hshDrop_place hb).pc.trans ((vdiCloseFd_place ha).pc.trans hpc)⟩
          · obtain ⟨h1, h2, h3⟩ := hshDeref_book (c := { st with
              doclose := st.doclose || e.eofMode, resp := true, handling := e.deliver }) hown.book hmid
            exact ⟨h1, h2, h3.trans hoc, (hshDeref_place hmid).pc.trans hpc⟩
        exact .of_none .recv h1 h4 rfl rfl h2 h3
    · cases h
  · cases h

lemma cntError_own (hown : Own st) (hkept : Kept e st) (hpc : st.pc = .run) (hstep : st.step = .error)
    (h : st.cntError p e = some st') : Own st' := by
  have hobj := hown.obj_none hpc hstep rfl
  have hnone : st.clearFlags.obj.isNone = true := by
    simp [Cnt.clearFlags, hobj]
  unfold Cnt.cntError at h
  simp only [hnone, Bool.true_and, if_true] at h
  split at h
  · rename_i hnew
    rw [Bool.not_eq_true'] at hnew
    cases h
    exact .of_none .done hown.book hpc rfl rfl hobj (hkept hpc hstep hnew)
  · obtain ⟨hbook, hsome, hoc⟩ := stvNewObject_book (c := { st.clearFlags with nbusyobj := true }) hown.book hobj
    have hpc' : (Cnt.stvNewObject { st.clearFlags with nbusyobj := true }).pc = .run :=
      (stvNewObject_place { st.clearFlags with nbusyobj := true }).pc.trans hpc
    split at h
    · obtain ⟨mid, hmid, rfl⟩ := Option.map_eq_some_iff.mp h
      obtain ⟨h1, h2, h3⟩ := hshDrop_book (c := { Cnt.stvNewObject { st.clearFlags with nbusyobj := true } with
        handling := e.error }) hbook hmid
      exact .of_none .recv h1 ((hshDrop_place hmid).pc.trans hpc') rfl rfl h2 (h3.trans hoc)
    · cases h
      exact .of_some .prepresp hbook hpc' rfl rfl hsome hoc

lemma cntDone_own (hown : Own st) (hpc : st.pc = .run) (hstep : st.step = .done)
    (hframes : ∀ f ∈ st.frames, f.obj.isSome)
    (h : st.cntDone e = some st') : Own st' := by
  have hobj := hown.obj_none hpc hstep rfl
  have hoc := hown.objcore_none hpc hstep rfl
  unfold Cnt.cntDone at h
  split at h
  · dsimp only at h
    split at h
    · rename_i f fs hfs
      have hfs' : st.frames = f :: fs := hfs
      cases h
      refine .of_write f.left ?_ rfl (hframes f (by rw [hfs']; exact List.mem_cons_self)) hoc
      have hbook := hown.book
      unfold refBook heldRefs at hbook ⊢
      rw [hobj, hoc, hfs'] at hbook
      simp only [Cnt.clearFlags, hoc]
      exact hbook
    · split at h
      · split at h
        · cases h
          exact .of_none .start hown.book hpc rfl rfl hobj hoc
        · split at h
          · cases h
            exact .of_none .wait hown.book hpc rfl rfl hobj hoc
          · cases leave_pc_eq h
            exact .of_out hown.book (by simp) (by simp) hobj hoc
      · cases leave_pc_eq h
        exact .of_out hown.book (by simp) (by simp) hobj hoc
  · cases h

lemma cntDeliver_own (hown : Own st) (hpc : st.pc = .run) (hstep : st.step = .deliver) (h : st.cntDeliver e = some st') :
    Own st' := by
  have hoc := hown.objcore_none hpc hstep rfl
  unfold Cnt.cntDeliver at h
  split at h
  · rename_i hobj
    cases h
    exact .of_write e.includes hown.book rfl hobj hoc
  · cases h

lemma dispatch_own (hown : Own st) (hkept : Kept e st) (hframes : ∀ f ∈ st.frames, f.obj.isSome = true)
    (hpc : st.pc = .run) (h : st.dispatch p e = some st') : Own st' := by
  unfold Cnt.dispatch at h
  split at h
  next hs => exact cntWait_own hown hpc hs h
  next hs =>
    unfold Cnt.cntFirst at h
    split at h
    · cases h
      exact .of_none .wait hown.book hpc rfl rfl (hown.obj_none hpc hs rfl) (hown.objcore_none hpc hs rfl)
    · cases h
  next hs => exact cntRecv_own hown hpc hs h
  next hs => exact cntStart_own hown hpc hs h
  next hs => exact cntPipe_own hown hpc hs h
  next hs => exact cntPass_own hown hpc hs h
  next hs => exact cntLookup_own hown hpc hs h
  next hs => exact cntMiss_own hown hpc hs h
  next hs => exact cntHit_own hown hpc hs h
  next hs => exact cntFetch_own hown hpc hs h
  next hs => exact cntFetchbody_own hown hpc hs h
  next hs => exact cntStreambody_own hown hpc hs h
  next hs => exact cntPrepresp_own hown hpc hs h
  next hs => exact cntDeliver_own hown hpc hs h
  next hs => exact cntError_own hown hkept hpc hs h
  next hs => exact cntDone_own hown hpc hs hframes h

/-- A session that waits has no references of its own, at whatever step it goes on. -/
lemma Own.taken (hown : Own st) (hpc : st.pc ≠ .run) (hwrite : ∀ n, st.pc ≠ .write n) (hstep : withObj st'.step = false)
    (hpc' : st'.pc = .run) (hobj : st'.obj = st.obj) (hoc : st'.objcore = st.objcore) (hbook : refBook st' = refBook st) :
    Own st' := by
  obtain ⟨ho, hc⟩ := hown.out hpc hwrite
  exact .of_none st'.step (by rw [hbook]; exact hown.book) hpc' rfl hstep (hobj.trans ho) (hoc.trans hc)

lemma wrkSession_own {c : Cnt} (hown : Own c) (hpc : c.pc ≠ .run) (hwrite : ∀ n, c.pc ≠ .write n)
    (h : c.wrkSession e = some st') : Own st' := by
  unfold Cnt.wrkSession at h
  obtain ⟨mid, hmid, rfl⟩ := Option.map_eq_some_iff.mp h
  have hsteps : withObj mid.step = false := by
    unfold Cnt.enter at hmid
    split at hmid
    · rename_i hs
      cases hmid
      simp only [Bool.and_eq_true, Bool.or_eq_true, decide_eq_true_eq] at hs
      rcases hs.1 with ((hs | hs) | hs) | hs <;> rw [hs] <;> rfl
    · cases hmid
  cases enter_eq hmid
  split
  · exact hown.taken hpc hwrite rfl rfl rfl rfl rfl
  · exact hown.taken hpc hwrite hsteps rfl rfl rfl rfl

lemma enter_own (hown : Own st) (hpc : st.pc ≠ .run) (hwrite : ∀ n, st.pc ≠ .write n) (h : st.enter = some st') :
    Own st' := by
  unfold Cnt.enter at h
  split at h
  · rename_i hs
    cases h
    simp only [Bool.and_eq_true, Bool.or_eq_true, decide_eq_true_eq] at hs
    refine hown.taken hpc hwrite ?_ rfl rfl rfl rfl
    rcases hs.1 with ((hs | hs) | hs) | hs <;> rw [hs] <;> rfl
  · cases h

/-- A step keeps the references in order. -/
theorem next_own (hown : Own st) (hkept : Kept e st) (hframes : ∀ f ∈ st.frames, f.obj.isSome = true)
    (h : st.next p e = some st') : Own st' := by
  unfold Cnt.next at h
  split at h
  next hpc => exact dispatch_own hown hkept hframes hpc h
  next hpc =>
    unfold Cnt.cntDeliverEnd at h
    obtain ⟨mid, hmid, rfl⟩ := Option.map_eq_some_iff.mp h
    obtain ⟨h1, h2, h3⟩ := hshDeref_book hown.book hmid
    exact .of_none .done h1 rfl rfl rfl h2 (h3.trans (hown.write 0 hpc).2)
  next left hpc =>
    obtain ⟨hobj, hoc⟩ := hown.write _ hpc
    cases h
    unfold Cnt.vedInclude
    split
    · exact .of_write left hown.book rfl hobj hoc
    · refine .of_none .recv ?_ rfl rfl rfl rfl hoc
      have hbook := hown.book
      unfold refBook heldRefs at hbook ⊢
      rw [hoc] at hbook
      simp only [Cnt.clearFlags, hoc]
      exact hbook
  next hpc =>
    have hne : st.pc ≠ .run := by simp [hpc]
    have hnw : ∀ n, st.pc ≠ .write n := by simp [hpc]
    split at h
    · exact wrkSession_own hown hne hnw h
    · exact enter_own hown hne hnw h
  next hpc => exact wrkSession_own hown (by simp [hpc]) (by simp [hpc]) h
  next hpc =>
    refine wrkSession_own (c := { st with step := .start }) ?_ (by simp [hpc]) (by simp [hpc]) h
    obtain ⟨hobj, hoc⟩ := hown.out (by simp [hpc]) (by simp [hpc])
    exact .of_out hown.book (by simp [hpc]) (by simp [hpc]) hobj hoc
  next hpc =>
    cases h
    exact hown

/-- The includes that wait have their objects. -/
lemma frames_own (hown : Own st) (hframes : ∀ f ∈ st.frames, f.obj.isSome = true) (hmove : Move p st st') :
    ∀ f ∈ st'.frames, f.obj.isSome = true := by
  cases hmove with
  | push n f pc pc' step' restarts recvs deep frames left kept obj =>
    intro g hg
    rw [frames] at hg
    rcases List.mem_cons.mp hg with rfl | hg
    · rw [obj]
      exact (hown.write _ pc).1
    · exact hframes g hg
  | pop f pc step frames pc' restarts recvs =>
    intro g hg
    exact hframes g (by rw [frames]; exact List.mem_cons_of_mem _ hg)
  | gone pc eq =>
    rw [eq]
    exact hframes
  | down pc pc' later restarts recvs frames => rw [frames]; exact hframes
  | restart pc pc' step step' left restarts recvs frames => rw [frames]; exact hframes
  | recv pc pc' step low left step' restarts recvs frames => rw [frames]; exact hframes
  | start pc pc' step step' restarts recvs frames => rw [frames]; exact hframes
  | deliver n pc pc' step restarts recvs frames => rw [frames]; exact hframes
  | skip n pc pc' restarts recvs frames => rw [frames]; exact hframes
  | written pc pc' step' recvs frames => rw [frames]; exact hframes
  | again pc pc' step step' restarts recvs frames top => rw [frames]; exact hframes
  | park pc pc' step step' restarts recvs frames => rw [frames]; exact hframes
  | leave pc pc' step restarts recvs frames => rw [frames]; exact hframes
  | resume pc pc' step lookup restarts recvs frames => rw [frames]; exact hframes
  | take pc pc' step restarts recvs frames => rw [frames]; exact hframes

lemma own_accepted : Own Cnt.accepted := by
  refine .of_out ⟨List.nodup_nil, fun _ _ => rfl, ?_, ?_, ?_⟩ (by simp [Cnt.accepted]) (by simp [Cnt.accepted]) rfl rfl
  · intro x hx
    cases hx
  · intro x hx
    cases hx
  · intro r hr
    cases hr

/-- Every step of a run meets the condition. -/
def KeptRun (p : CntParams) (env : Nat → CntEnv) (st : Cnt) : Prop :=
  ∀ n st', st.runs p env n = some st' → Kept (env n) st'

lemma runs_own {env : Nat → CntEnv} (hkept : KeptRun p env Cnt.accepted) {n : Nat}
    (h : Cnt.accepted.runs p env n = some st) :
    Own st ∧ ∀ f ∈ st.frames, f.obj.isSome = true := by
  refine runs_induct (P := fun st => Own st ∧ ∀ f ∈ st.frames, f.obj.isSome = true) ⟨own_accepted, ?_⟩ ?_ n st h
  · intro f hf
    cases hf
  · intro m a b ha hinv hb
    exact ⟨next_own hinv.1 (hkept m a ha) hinv.2 hb, frames_own hinv.1 hinv.2 (next_move hb)⟩

end VarnishCache.Proofs
