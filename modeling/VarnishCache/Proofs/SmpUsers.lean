import Mathlib.Data.List.TakeWhile
import VarnishCache.SmpUsers
import VarnishCache.Proofs.SmpSilo

/-!
# Users of persistent segments

Records are numbered in the order they are made, so the list of segments is sorted. An object counts in the segment of
its objcore, and its body is not in an earlier one: where `smp_save_segs` stops at the first segment with an object, it
keeps what all counted objects use. What is not counted yet, and the segment that is just being closed, is not protected
by this.
-/

namespace VarnishCache.Proofs

variable {silo : Silo} {sc sc' : SmpSc} {sys sys' : SmpUsers}

structure UsersInv (sys : SmpUsers) : Prop where
  sorted : sys.sc.segments.Pairwise (fun a b => a.id < b.id)
  fresh : ∀ sg ∈ sys.sc.segments, sg.id < sys.sc.nextId
  cur : ∀ c, sys.sc.curSeg = some c → c + 1 = sys.sc.nextId
  counted : ∀ sg ∈ sys.sc.segments, (sys.live.map (·.priv)).count sg.id ≤ sg.nobj
  held : sys.Held
  behind : ∀ o ∈ sys.live, ∀ id ∈ o.store, o.priv ≤ id
  unused : ∀ sg ∈ sys.sc.segments, sys.sc.curSeg = some sg.id → sg.nalloc = 0 → sg.id ∉ sys.users

/-! ## The front of the list -/

lemma mem_users {id : Nat} :
    id ∈ sys.users ↔ id ∈ sys.pending ∨ ∃ o ∈ sys.live, id = o.priv ∨ id ∈ o.store := by
  simp [SmpUsers.users]

lemma lt_of_mem_front {segs : List SmpSeg} (hsorted : segs.Pairwise (fun a b => a.id < b.id)) {s sg : SmpSeg}
    (hs : s ∈ segs.takeWhile (fun sg => sg.nobj = 0)) (hsg : sg ∈ segs) (hpos : 0 < sg.nobj) : s.id < sg.id := by
  have hsplit := List.takeWhile_append_dropWhile (p := fun (sg : SmpSeg) => decide (sg.nobj = 0)) (l := segs)
  rw [← hsplit, List.pairwise_append] at hsorted
  rw [← hsplit, List.mem_append] at hsg
  rcases hsg with hfront | hrest
  · have h0 : sg.nobj = 0 := by simpa using List.mem_takeWhile_imp hfront
    omega
  · exact hsorted.2.2 s hs sg hrest

lemma trim_sublist (cur : Option Nat) (segs : List SmpSeg) : (SmpSc.trim cur segs).Sublist segs := by
  induction segs with
  | nil => exact List.Sublist.refl []
  | cons sg segs ih =>
    rw [SmpSc.trim]
    split
    · exact List.Sublist.refl _
    · split
      · exact ih.cons_cons sg
      · exact ih.cons sg

lemma mem_trim {cur : Option Nat} {segs : List SmpSeg} {sg : SmpSeg} (hsg : sg ∈ segs)
    (hkeep : sg ∈ segs.takeWhile (fun sg => sg.nobj = 0) → cur = some sg.id) : sg ∈ SmpSc.trim cur segs := by
  induction segs with
  | nil => cases hsg
  | cons s segs ih =>
    rw [SmpSc.trim]
    split
    next => exact hsg
    next hempty =>
      have h0 : s.nobj = 0 := by omega
      rw [List.takeWhile_cons_of_pos (by simpa using h0)] at hkeep
      rcases List.mem_cons.mp hsg with rfl | hsg
      · have hcur := hkeep List.mem_cons_self
        rw [if_pos hcur.symm]
        exact List.mem_cons_self
      · have hrest := ih hsg (fun hmem => hkeep (List.mem_cons_of_mem s hmem))
        split
        · exact List.mem_cons_of_mem s hrest
        · exact hrest

lemma find_cur {sg : SmpSeg} (h : sc.curSeg.bind sc.find = some sg) :
    sg ∈ sc.segments ∧ sc.curSeg = some sg.id := by
  obtain ⟨id, hcur, hfind⟩ := Option.bind_eq_some_iff.mp h
  have hid : sg.id = id := by simpa using List.find?_some hfind
  exact ⟨List.mem_of_find?_eq_some hfind, hid ▸ hcur⟩

/-! ## Changes of the list -/

/-- Segments go that nobody uses. -/
lemma UsersInv.drop (h : UsersInv sys) (hsub : sc'.segments.Sublist sys.sc.segments)
    (hcur : ∀ c, sc'.curSeg = some c → sys.sc.curSeg = some c) (hnext : sc'.nextId = sys.sc.nextId)
    (hheld : SmpUsers.Held { sys with sc := sc' }) : UsersInv { sys with sc := sc' } where
  sorted := h.sorted.sublist hsub
  fresh := by
    intro sg hsg
    rw [hnext]
    exact h.fresh sg (hsub.subset hsg)
  cur := by
    intro c hc
    rw [hnext]
    exact h.cur c (hcur c hc)
  counted := fun sg hsg => h.counted sg (hsub.subset hsg)
  held := hheld
  behind := h.behind
  unused := fun sg hsg hc => h.unused sg (hsub.subset hsg) (hcur sg.id hc)

lemma modify_mem {id : Nat} {f : SmpSeg → SmpSeg} {sg : SmpSeg} (hsg : sg ∈ sc.modify id f) :
    ∃ s ∈ sc.segments, sg = if s.id = id then f s else s := by
  obtain ⟨s, hs, rfl⟩ := List.mem_map.mp hsg
  exact ⟨s, hs, rfl⟩

lemma modify_ids (id : Nat) (f : SmpSeg → SmpSeg) (hid : ∀ s, (f s).id = s.id) :
    (sc.modify id f).map (·.id) = sc.segments.map (·.id) := by
  rw [SmpSc.modify, List.map_map]
  refine List.map_congr_left (fun s _ => ?_)
  simp only [Function.comp_apply]
  split
  · exact hid s
  · rfl

/-- A segment is written, and it still counts the objects in it. -/
lemma UsersInv.write (h : UsersInv sys) (id : Nat) (f : SmpSeg → SmpSeg) (hid : ∀ s, (f s).id = s.id)
    (hnobj : ∀ s ∈ sys.sc.segments, (sys.live.map (·.priv)).count s.id ≤ s.nobj → s.id = id →
      (sys.live.map (·.priv)).count s.id ≤ (f s).nobj) (hnalloc : ∀ s, (f s).nalloc = 0 → s.nalloc = 0)
    (hseg : sc'.segments = sys.sc.modify id f) (hcur : sc'.curSeg = sys.sc.curSeg)
    (hnext : sc'.nextId = sys.sc.nextId) : UsersInv { sys with sc := sc' } := by
  have hpick : ∀ s : SmpSeg, (if s.id = id then f s else s).id = s.id ∧
      ((if s.id = id then f s else s).nalloc = 0 → s.nalloc = 0) := by
    intro s
    split
    · exact ⟨hid s, hnalloc s⟩
    · exact ⟨rfl, fun h0 => h0⟩
  refine ⟨?_, ?_, ?_, ?_, ?_, h.behind, ?_⟩
  · simp only [hseg, SmpSc.modify, List.pairwise_map, (hpick _).1]
    exact h.sorted
  · intro sg hsg
    simp only [hseg] at hsg
    obtain ⟨s, hs, rfl⟩ := modify_mem hsg
    simp only [hnext, (hpick s).1]
    exact h.fresh s hs
  · intro c hc
    simp only [hcur, hnext] at hc ⊢
    exact h.cur c hc
  · intro sg hsg
    simp only [hseg] at hsg
    obtain ⟨s, hs, rfl⟩ := modify_mem hsg
    rw [(hpick s).1]
    by_cases heq : s.id = id
    · subst heq
      rw [if_pos rfl]
      exact hnobj s hs (h.counted s hs) rfl
    · rw [if_neg heq]
      exact h.counted s hs
  · intro u hu
    simp only [hseg, modify_ids id f hid]
    exact h.held u hu
  · intro sg hsg hc h0
    simp only [hseg, hcur] at hsg hc
    obtain ⟨s, hs, rfl⟩ := modify_mem hsg
    rw [(hpick s).1] at hc ⊢
    exact h.unused s hs hc ((hpick s).2 h0)

/-! ## Saving and closing -/

/-- The segments that are kept are all that are used. -/
lemma UsersInv.held_trim (h : UsersInv sys) (hpend : sys.SaveSafe) :
    ∀ id ∈ sys.users, id ∈ (SmpSc.trim sys.sc.curSeg sys.sc.segments).map (·.id) := by
  have hpriv : ∀ o ∈ sys.live, ∃ sg ∈ sys.sc.segments, sg.id = o.priv ∧ 0 < sg.nobj := by
    intro o ho
    obtain ⟨sg, hsg, hid⟩ := List.mem_map.mp (h.held o.priv (mem_users.mpr (Or.inr ⟨o, ho, Or.inl rfl⟩)))
    refine ⟨sg, hsg, hid, (List.count_pos_iff.mpr ?_).trans_le (h.counted sg hsg)⟩
    rw [hid]
    exact List.mem_map_of_mem ho
  intro id hid
  obtain ⟨sg, hsg, rfl⟩ := List.mem_map.mp (h.held id hid)
  refine List.mem_map_of_mem (mem_trim hsg ?_)
  intro hfront
  rcases mem_users.mp hid with hp | ⟨o, ho, hpr | hst⟩
  · exact hpend sg hfront hp
  · obtain ⟨sg0, hsg0, hid0, hpos⟩ := hpriv o ho
    have hlt := lt_of_mem_front h.sorted hfront hsg0 hpos
    omega
  · obtain ⟨sg0, hsg0, hid0, hpos⟩ := hpriv o ho
    have hlt := lt_of_mem_front h.sorted hfront hsg0 hpos
    have hle := h.behind o ho sg.id hst
    omega

lemma UsersInv.saveSegs (h : UsersInv sys) (hpend : sys.SaveSafe) (hsave : sys.sc.saveSegs silo = some sc') :
    UsersInv { sys with sc := sc' } := by
  rw [saveSegs_cases hsave]
  exact h.drop (trim_sublist _ _) (fun _ hc => hc) rfl (h.held_trim hpend)

/-- What closing does to the list. -/
lemma closeSeg_list {stale : Nat} (hclose : sc.closeSeg silo stale = some sc') : ∃ sg, sc.curSeg.bind sc.find = some sg ∧
    sc'.curSeg = none ∧ sc'.nextId = sc.nextId ∧
    (sg.nalloc = 0 ∧ sc'.segments = sc.segments.filter (fun s => s.id ≠ sg.id) ∨
      0 < sg.nalloc ∧ ∃ p, sc'.segments = SmpSc.trim none (sc.modify sg.id (fun s => { s with p := p }))) := by
  unfold SmpSc.closeSeg at hclose
  cases hcur : sc.curSeg.bind sc.find with
  | none =>
    rw [hcur] at hclose
    cases hclose
  | some sg =>
    rw [hcur] at hclose
    refine ⟨sg, rfl, ?_⟩
    simp only at hclose
    split at hclose
    next h0 =>
      cases hclose
      exact ⟨rfl, rfl, Or.inl ⟨h0, rfl⟩⟩
    next hne =>
      split at hclose
      next => cases hclose
      next left hleft =>
        generalize (if smpObjectSize * sg.p.lobjlist < left then _ else _ : Nat × Nat) = q at hclose
        split at hclose
        next => cases hclose
        next =>
          split at hclose
          next => cases hclose
          next saved hsave =>
            cases hclose
            rw [saveSegs_cases hsave]
            exact ⟨rfl, rfl, Or.inr ⟨Nat.pos_of_ne_zero hne, _, rfl⟩⟩

lemma modify_front (id : Nat) (f : SmpSeg → SmpSeg) (hid : ∀ s, (f s).id = s.id) (hnobj : ∀ s, (f s).nobj = s.nobj)
    (s : SmpSeg) (hs : s ∈ (sc.modify id f).takeWhile (fun sg => sg.nobj = 0)) : ∃ s0 ∈ sc.front, s0.id = s.id := by
  rw [SmpSc.modify, List.takeWhile_map] at hs
  obtain ⟨s0, hs0, rfl⟩ := List.mem_map.mp hs
  refine ⟨s0, ?_, ?_⟩
  · have hcomp : ((fun sg : SmpSeg => decide (sg.nobj = 0)) ∘ fun sg => if sg.id = id then f sg else sg) =
        fun sg => decide (sg.nobj = 0) := by
      funext sg
      simp only [Function.comp_apply]
      split
      · rw [hnobj]
      · rfl
    rw [hcomp] at hs0
    exact hs0
  · split
    · exact (hid s0).symm
    · rfl

lemma UsersInv.closeSeg (h : UsersInv sys) (hsafe : sys.CloseSafe sys.sc) {stale : Nat}
    (hclose : sys.sc.closeSeg silo stale = some sc') :
    UsersInv { sys with sc := sc' } ∧
      ∀ sg, sys.sc.curSeg.bind sys.sc.find = some sg → 0 < sg.nalloc → sg.id ∈ sc'.segments.map (·.id) := by
  obtain ⟨sg, hfind, hcur, hnext, ⟨h0, hseg⟩ | ⟨hpos, p, hseg⟩⟩ := closeSeg_list hclose
  · obtain ⟨hsg, hcur'⟩ := find_cur hfind
    constructor
    · refine h.drop (by rw [hseg]; exact List.filter_sublist) (fun c hc => ?_) hnext ?_
      · rw [hcur] at hc
        cases hc
      · intro id hid
        have hne : id ≠ sg.id := by
          rintro rfl
          exact h.unused sg hsg hcur' h0 hid
        obtain ⟨s, hs, rfl⟩ := List.mem_map.mp (h.held id hid)
        simp only [hseg]
        exact List.mem_map_of_mem (List.mem_filter.mpr ⟨hs, by simpa using hne⟩)
    · intro sg' hfind' hpos
      obtain rfl : sg = sg' := Option.some.inj (hfind.symm.trans hfind')
      omega
  · have hwritten : UsersInv { sys with sc := { sys.sc with
        curSeg := none, segments := sys.sc.modify sg.id (fun s => { s with p := p }) } } := by
      have hw : UsersInv { sys with sc := { sys.sc with
          segments := sys.sc.modify sg.id (fun s => { s with p := p }) } } :=
        h.write sg.id (fun s => { s with p := p }) (fun _ => rfl) (fun _ _ hn _ => hn) (fun _ h0 => h0) rfl rfl rfl
      exact hw.drop (List.Sublist.refl _) (fun c hc => by cases hc) rfl hw.held
    have hfront : ∀ s ∈ (sys.sc.modify sg.id (fun s => { s with p := p })).takeWhile (fun sg => sg.nobj = 0),
        ∃ s0 ∈ sys.sc.front, s0.id = s.id := modify_front sg.id _ (fun _ => rfl) (fun _ => rfl)
    constructor
    · refine hwritten.drop (by rw [hseg]; exact trim_sublist _ _) (fun c hc => ?_) hnext ?_
      · rw [hcur] at hc
        cases hc
      · intro id hid
        simp only [hseg]
        refine hwritten.held_trim ?_ id hid
        intro s hs hpend
        obtain ⟨s0, hs0, hid0⟩ := hfront s hs
        rw [← hid0] at hpend
        exact absurd hpend (hsafe sg hfind hpos s0 hs0).2
    · intro sg' hfind' _
      obtain rfl : sg = sg' := Option.some.inj (hfind.symm.trans hfind')
      have hmem : sg.id ∈ (sys.sc.modify sg.id (fun s => { s with p := p })).map (·.id) := by
        rw [modify_ids _ _ (by intro; rfl)]
        exact List.mem_map_of_mem (find_cur hfind).1
      obtain ⟨s, hs, hid⟩ := List.mem_map.mp hmem
      rw [hseg]
      refine List.mem_map.mpr ⟨s, mem_trim hs ?_, hid⟩
      intro hin
      obtain ⟨s0, hs0, hid0⟩ := hfront s hin
      exact absurd (hid0.trans hid) (hsafe sg hfind hpos s0 hs0).1

lemma UsersInv.closeHeld (h : UsersInv sys) (hsafe : sys.CloseSafe sys.sc) : sys.CloseHeld silo sys.sc :=
  fun _ _ hclose => ⟨(h.closeSeg hsafe hclose).1.held, (h.closeSeg hsafe hclose).2⟩

lemma UsersInv.newSeg (h : UsersInv sys) (hnew : sys.sc.newSeg silo = some sc') : UsersInv { sys with sc := sc' } := by
  obtain ⟨offset, -, -, -, rfl⟩ := newSeg_cases hnew
  have hlt : ∀ id ∈ sys.users, id < sys.sc.nextId := by
    intro id hid
    obtain ⟨sg, hsg, rfl⟩ := List.mem_map.mp (h.held id hid)
    exact h.fresh sg hsg
  refine ⟨?_, ?_, ?_, ?_, ?_, h.behind, ?_⟩
  · refine List.pairwise_append.mpr ⟨h.sorted, List.pairwise_singleton _ _, ?_⟩
    intro sg hsg s hs
    obtain rfl := List.mem_singleton.mp hs
    exact h.fresh sg hsg
  · intro sg hsg
    rcases List.mem_append.mp hsg with hsg | hsg
    · exact Nat.lt_succ_of_lt (h.fresh sg hsg)
    · obtain rfl := List.mem_singleton.mp hsg
      exact Nat.lt_succ_self _
  · intro c hc
    cases hc
    rfl
  · intro sg hsg
    rcases List.mem_append.mp hsg with hsg | hsg
    · exact h.counted sg hsg
    · obtain rfl := List.mem_singleton.mp hsg
      refine (List.count_eq_zero_of_not_mem ?_).le
      intro hmem
      obtain ⟨o, ho, hid⟩ := List.mem_map.mp hmem
      have hbound := hlt o.priv (mem_users.mpr (Or.inr ⟨o, ho, Or.inl rfl⟩))
      simp only at hid
      omega
  · intro id hid
    have hmem := h.held id hid
    simp only [List.map_append]
    exact List.mem_append_left _ hmem
  · intro sg hsg hc _ hid
    have hnext : sys.sc.nextId = sg.id := Option.some.inj hc
    have hbound := hlt sg.id hid
    omega

lemma UsersInv.sync (h : UsersInv sys) (hsafe : sys.CloseSafe sys.sc) {stale : Nat}
    (hsync : sys.sc.sync silo stale = some sc') : UsersInv { sys with sc := sc' } := by
  obtain ⟨closed, hclose, hnew⟩ := Option.bind_eq_some_iff.mp hsync
  exact (h.closeSeg hsafe hclose).1.newSeg hnew

/-! ## Allocating -/

lemma UsersInv.triesCloses {need tries : Nat} {stale : Nat → Nat} (h : UsersInv sys)
    (hsafe : ∀ s ∈ SmpSc.triesCloses silo need stale tries sys.sc, sys.CloseSafe s) :
    ∀ s ∈ SmpSc.triesCloses silo need stale tries sys.sc, sys.CloseHeld silo s := by
  induction tries generalizing sys with
  | zero => exact fun s hs => absurd hs List.not_mem_nil
  | succ tries ih =>
    rw [SmpSc.triesCloses] at hsafe ⊢
    split at hsafe
    next => exact fun s hs => absurd hs List.not_mem_nil
    next left hleft =>
      by_cases hneed : need ≤ left
      · rw [if_pos hneed]
        exact fun s hs => absurd hs List.not_mem_nil
      · rw [if_neg hneed] at hsafe ⊢
        intro s hs
        rcases List.mem_cons.mp hs with rfl | hs
        · exact h.closeHeld (hsafe _ List.mem_cons_self)
        · cases hsync : sys.sc.sync silo (stale tries) with
          | none =>
            rw [hsync] at hs
            cases hs
          | some sc1 =>
            rw [hsync] at hs hsafe
            have h1 := h.sync (hsafe _ List.mem_cons_self) hsync
            exact ih h1 (fun s hs => hsafe s (List.mem_cons_of_mem _ hs)) s hs

lemma UsersInv.allocTries {need tries left left' : Nat} {stale : Nat → Nat} (h : UsersInv sys)
    (hsafe : ∀ s ∈ SmpSc.triesCloses silo need stale tries sys.sc, sys.CloseSafe s)
    (hrun : SmpSc.allocTries silo need stale tries sys.sc left = some (sc', left')) : UsersInv { sys with sc := sc' } := by
  induction tries generalizing sys left with
  | zero =>
    cases hrun
    exact h
  | succ tries ih =>
    rw [SmpSc.allocTries] at hrun
    rw [SmpSc.triesCloses] at hsafe
    cases hcur : sys.sc.curSeg.bind sys.sc.find with
    | none =>
      rw [hcur] at hrun
      cases hrun
    | some sg =>
      rw [hcur] at hrun hsafe
      simp only [Option.bind_some] at hrun hsafe
      cases hleft : sys.sc.spaceleft sg.p with
      | none =>
        rw [hleft] at hrun
        cases hrun
      | some l =>
        rw [hleft] at hrun hsafe
        simp only at hrun hsafe
        by_cases hneed : need ≤ l
        · rw [if_pos hneed] at hrun
          cases hrun
          exact h
        · rw [if_neg hneed] at hrun hsafe
          cases hsync : sys.sc.sync silo (stale tries) with
          | none =>
            rw [hsync] at hrun
            cases hrun
          | some sc1 =>
            rw [hsync] at hrun hsafe
            have h1 := h.sync (hsafe _ List.mem_cons_self) hsync
            have hsafe1 : ∀ s ∈ SmpSc.triesCloses silo need stale tries sc1, SmpUsers.CloseSafe { sys with sc := sc1 } s :=
              fun s hs => hsafe s (List.mem_cons_of_mem _ hs)
            exact @ih { sys with sc := sc1 } _ h1 hsafe1 hrun

/-- The segment that `smp_allocx` has given out from is the current one, and not as new. -/
lemma UsersInv.allocx {minSize maxSize : Nat} {so : Bool} {stale : Nat → Nat} {r : Option Nat} (h : UsersInv sys)
    (hsafe : ∀ s ∈ sys.sc.allocxCloses silo minSize so stale, sys.CloseSafe s)
    (halloc : sys.sc.allocx silo minSize maxSize so stale = some (sc', r)) :
    UsersInv { sys with sc := sc' } ∧ ∀ id ∈ r, id ∈ sc'.segments.map (·.id) ∧ sc'.curSeg = some id ∧
      ∀ sg ∈ sc'.segments, sg.id = id → sg.nalloc ≠ 0 := by
  obtain ⟨sc1, left, htries, ⟨rfl, rfl⟩ | ⟨sg, bot, hfind, -, -, rfl, rfl⟩⟩ := allocx_cases halloc
  · exact ⟨h.allocTries hsafe htries, fun id hid => by cases hid⟩
  · have h1 := h.allocTries hsafe htries
    obtain ⟨hsg, hcur⟩ := find_cur hfind
    constructor
    · exact h1.write sg.id (fun s =>
        { s with p := { sg.p with lobjlist := sg.p.lobjlist + so.toNat }, nalloc := s.nalloc + 1 })
        (fun _ => rfl) (fun _ _ hn _ => hn) (fun _ h0 => by cases h0) rfl rfl rfl
    · intro id hid
      cases hid
      refine ⟨?_, hcur, ?_⟩
      · simp only
        rw [modify_ids _ _ (by intro; rfl)]
        exact List.mem_map_of_mem hsg
      · intro s hs hid
        obtain ⟨s0, hs0, rfl⟩ := modify_mem hs
        split
        · exact Nat.succ_ne_zero _
        next hne =>
          rw [if_neg hne] at hid
          exact absurd hid hne

/-! ## Users come and go -/

/-- Other users of the same segments: each was one before, or uses a segment that is not as new. -/
lemma UsersInv.reuse (h : UsersInv sys) {pending : List Nat} {live : List SmpLive}
    (hcount : ∀ sg ∈ sys.sc.segments, (live.map (·.priv)).count sg.id ≤ sg.nobj)
    (husers : ∀ u ∈ SmpUsers.users ⟨sys.sc, pending, live⟩, u ∈ sys.users ∨
      u ∈ sys.sc.segments.map (·.id) ∧ ∀ sg ∈ sys.sc.segments, sg.id = u → sg.nalloc ≠ 0)
    (hbehind : ∀ o ∈ live, ∀ id ∈ o.store, o.priv ≤ id) : UsersInv ⟨sys.sc, pending, live⟩ where
  sorted := h.sorted
  fresh := h.fresh
  cur := h.cur
  counted := hcount
  held := by
    intro u hu
    rcases husers u hu with hold | hnew
    · exact h.held u hold
    · exact hnew.1
  behind := hbehind
  unused := by
    intro sg hsg hc h0 hu
    rcases husers sg.id hu with hold | hnew
    · exact h.unused sg hsg hc h0 hold
    · exact hnew.2 sg hsg rfl h0

lemma UsersInv.allocobj (h : UsersInv sys) {ltot : Nat} {stale : Nat → Nat}
    (hsafe : ∀ s ∈ sys.closes silo (.allocobj ltot stale), sys.CloseSafe s)
    (hstep : sys.step silo (.allocobj ltot stale) = some sys') : UsersInv sys' := by
  obtain ⟨⟨sc1, r⟩, halloc, rfl⟩ := Option.map_eq_some_iff.mp hstep
  obtain ⟨h1, hr⟩ := h.allocx hsafe halloc
  refine h1.reuse h1.counted ?_ h1.behind
  intro u hu
  simp only [mem_users, List.mem_append, Option.mem_toList] at hu ⊢
  rcases hu with (hold | hnew) | hlive
  · exact Or.inl (Or.inl hold)
  · exact Or.inr ⟨(hr u hnew).1, (hr u hnew).2.2⟩
  · exact Or.inl (Or.inr hlive)

lemma UsersInv.alloc (h : UsersInv sys) {i size : Nat} {stale : Nat → Nat}
    (hsafe : ∀ s ∈ sys.closes silo (.alloc i size stale), sys.CloseSafe s)
    (hstep : sys.step silo (.alloc i size stale) = some sys') : UsersInv sys' := by
  simp only [SmpUsers.step] at hstep
  split at hstep
  next => cases hstep
  next o ho =>
    obtain ⟨⟨sc1, r⟩, halloc, rfl⟩ := Option.map_eq_some_iff.mp hstep
    obtain ⟨h1, hr⟩ := h.allocx hsafe halloc
    have hmem : o ∈ sys.live := List.mem_of_getElem? ho
    refine h1.reuse ?_ ?_ ?_
    · intro sg hsg
      have hpriv : (sys.live.set i { o with store := o.store ++ r.toList }).map (·.priv) = sys.live.map (·.priv) := by
        rw [List.map_set]
        refine List.ext_getElem? (fun j => ?_)
        by_cases hj : i = j
        · subst hj
          rw [List.getElem?_set_self', List.getElem?_map, ho]
          rfl
        · rw [List.getElem?_set_ne hj]
      rw [hpriv]
      exact h1.counted sg hsg
    · intro u hu
      simp only [mem_users] at hu ⊢
      rcases hu with hold | ⟨o', ho', hu⟩
      · exact Or.inl (Or.inl hold)
      · rcases List.mem_or_eq_of_mem_set ho' with ho' | rfl
        · exact Or.inl (Or.inr ⟨o', ho', hu⟩)
        · simp only [List.mem_append, Option.mem_toList] at hu
          rcases hu with rfl | hold | hnew
          · exact Or.inl (Or.inr ⟨o, hmem, Or.inl rfl⟩)
          · exact Or.inl (Or.inr ⟨o, hmem, Or.inr hold⟩)
          · exact Or.inr ⟨(hr u hnew).1, (hr u hnew).2.2⟩
    · intro o' ho' u hu
      rcases List.mem_or_eq_of_mem_set ho' with ho' | rfl
      · exact h1.behind o' ho' u hu
      · simp only [List.mem_append, Option.mem_toList] at hu
        rcases hu with hold | hnew
        · exact h1.behind o hmem u hold
        · -- the objcore's segment is on the list, and the current one is the newest
          obtain ⟨sg, hsg, hid⟩ := List.mem_map.mp (h1.held o.priv (mem_users.mpr (Or.inr ⟨o, hmem, Or.inl rfl⟩)))
          have hlt := h1.fresh sg hsg
          have hnext := h1.cur u (hr u hnew).2.1
          simp only at hlt hnext ⊢
          omega

lemma UsersInv.countObj (h : UsersInv sys) {i : Nat} (hstep : sys.step silo (.countObj i) = some sys') :
    UsersInv sys' := by
  simp only [SmpUsers.step] at hstep
  split at hstep
  next => cases hstep
  next id hid =>
    obtain ⟨sc1, hcount, rfl⟩ := Option.map_eq_some_iff.mp hstep
    have hmem : id ∈ sys.pending := List.mem_of_getElem? hid
    simp only [SmpSc.countObj] at hcount
    split at hcount
    next =>
      cases hcount
      have h1 : UsersInv { sys with sc := { sys.sc with
          segments := sys.sc.modify id (fun sg => { sg with nobj := sg.nobj + 1, nfixed := sg.nfixed + 1 }) } } :=
        h.write id (fun sg => { sg with nobj := sg.nobj + 1, nfixed := sg.nfixed + 1 }) (fun _ => rfl)
          (fun _ _ hn _ => Nat.le_succ_of_le hn) (fun _ h0 => h0) rfl rfl rfl
      refine h1.reuse ?_ ?_ ?_
      · intro sg hsg
        obtain ⟨s, hs, rfl⟩ := modify_mem hsg
        have hold := h.counted s hs
        rw [List.map_append, List.count_append]
        by_cases heq : s.id = id
        · subst heq
          rw [if_pos rfl]
          simp only [List.map_cons, List.map_nil, List.count_singleton_self]
          omega
        · rw [if_neg heq]
          simp only [List.map_cons, List.map_nil]
          rw [List.count_singleton, if_neg (by simpa using fun h => heq h.symm)]
          exact hold
      · intro u hu
        refine Or.inl ?_
        simp only [mem_users, List.mem_append, List.mem_singleton] at hu ⊢
        rcases hu with hold | ⟨o, ho | rfl, hu⟩
        · exact Or.inl (List.mem_of_mem_eraseIdx hold)
        · exact Or.inr ⟨o, ho, hu⟩
        · simp only [List.not_mem_nil, or_false] at hu
          exact Or.inl (hu ▸ hmem)
      · intro o ho u hu
        rcases List.mem_append.mp ho with ho | ho
        · exact h.behind o ho u hu
        · obtain rfl := List.mem_singleton.mp ho
          cases hu
    next => cases hcount

lemma UsersInv.getobj (h : UsersInv sys) {i : Nat} (hstep : sys.step silo (.getobj i) = some sys') : UsersInv sys' := by
  simp only [SmpUsers.step] at hstep
  split at hstep
  next => cases hstep
  next o ho =>
    obtain ⟨sc1, hfix, rfl⟩ := Option.map_eq_some_iff.mp hstep
    simp only [SmpSc.fixObj] at hfix
    split at hfix
    next =>
      cases hfix
      exact h.write o.priv (fun sg => { sg with nfixed := sg.nfixed + 1 }) (fun _ => rfl) (fun _ _ hn _ => hn)
        (fun _ h0 => h0) rfl rfl rfl
    next => cases hfix

lemma count_eraseIdx {live : List SmpLive} {i : Nat} {o : SmpLive} (ho : live[i]? = some o) (id : Nat) :
    ((live.eraseIdx i).map (·.priv)).count id + (if o.priv = id then 1 else 0) = (live.map (·.priv)).count id := by
  obtain ⟨hi, rfl⟩ := List.getElem?_eq_some_iff.mp ho
  have hperm := ((List.getElem_cons_eraseIdx_perm hi).map (·.priv)).count_eq id
  rw [List.map_cons, List.count_cons] at hperm
  simpa using hperm

lemma UsersInv.freeobj (h : UsersInv sys) {i : Nat} (hstep : sys.step silo (.freeobj i) = some sys') :
    UsersInv sys' := by
  simp only [SmpUsers.step] at hstep
  split at hstep
  next => cases hstep
  next o ho =>
    obtain ⟨sc1, hfree, rfl⟩ := Option.map_eq_some_iff.mp hstep
    simp only [SmpSc.freeobj] at hfree
    split at hfree
    next => cases hfree
    next sg hsg =>
      split at hfree
      next => cases hfree
      next hpos =>
        cases hfree
        have h1 : UsersInv { sys with live := sys.live.eraseIdx i } := by
          refine h.reuse ?_ ?_ (fun o' ho' => h.behind o' (List.mem_of_mem_eraseIdx ho'))
          · intro s hs
            have hcount := count_eraseIdx ho s.id
            have hold := h.counted s hs
            omega
          · intro u hu
            refine Or.inl ?_
            simp only [mem_users] at hu ⊢
            rcases hu with hold | ⟨o', ho', hu⟩
            · exact Or.inl hold
            · exact Or.inr ⟨o', List.mem_of_mem_eraseIdx ho', hu⟩
        refine h1.write o.priv (fun sg => { sg with nobj := sg.nobj - 1, nfixed := sg.nfixed - 1 }) (fun _ => rfl) ?_
          (fun _ h0 => h0) rfl rfl rfl
        intro s hs _ hid
        have hcount := count_eraseIdx ho s.id
        have hold := h.counted s hs
        rw [if_pos hid.symm] at hcount
        simp only
        omega

/-! ## Runs -/

lemma UsersInv.step {s : SmpSection} (h : UsersInv sys) (hsafe : sys.Safe silo s) (hstep : sys.step silo s = some sys') :
    UsersInv sys' := by
  cases s with
  | allocobj ltot stale => exact h.allocobj hsafe.1 hstep
  | countObj i => exact h.countObj hstep
  | alloc i size stale => exact h.alloc hsafe.1 hstep
  | getobj i => exact h.getobj hstep
  | freeobj i => exact h.freeobj hstep
  | sync stale =>
    obtain ⟨sc1, hsync, rfl⟩ := Option.map_eq_some_iff.mp hstep
    exact h.sync (hsafe.1 sys.sc List.mem_cons_self) hsync
  | close stale =>
    obtain ⟨sc1, hclose, rfl⟩ := Option.map_eq_some_iff.mp hstep
    exact (h.closeSeg (hsafe.1 sys.sc List.mem_cons_self) hclose).1
  | saveSegs =>
    obtain ⟨sc1, hsave, rfl⟩ := Option.map_eq_some_iff.mp hstep
    exact h.saveSegs hsafe.2 hsave

lemma UsersInv.closes {s : SmpSection} (h : UsersInv sys) (hsafe : sys.Safe silo s) :
    ∀ sc ∈ sys.closes silo s, sys.CloseHeld silo sc := by
  have hone : ∀ sc ∈ [sys.sc], sys.CloseSafe sys.sc → sys.CloseHeld silo sc := by
    intro sc hsc hs
    obtain rfl := List.mem_singleton.mp hsc
    exact h.closeHeld hs
  cases s with
  | allocobj ltot stale => exact h.triesCloses hsafe.1
  | alloc i size stale => exact h.triesCloses hsafe.1
  | sync stale => exact fun sc hsc => hone sc hsc (hsafe.1 sys.sc List.mem_cons_self)
  | close stale => exact fun sc hsc => hone sc hsc (hsafe.1 sys.sc List.mem_cons_self)
  | countObj i => exact fun sc hsc => absurd hsc List.not_mem_nil
  | getobj i => exact fun sc hsc => absurd hsc List.not_mem_nil
  | freeobj i => exact fun sc hsc => absurd hsc List.not_mem_nil
  | saveSegs => exact fun sc hsc => absurd hsc List.not_mem_nil

lemma UsersInv.run {run : List SmpSection} (h : UsersInv sys) (hsafe : SmpUsers.SafeThrough silo sys run) :
    SmpUsers.HeldThrough silo sys run := by
  induction run generalizing sys with
  | nil => exact h.held
  | cons s run ih => exact ⟨h.held, h.closes hsafe.1, fun sys' hstep => ih (h.step hsafe.1 hstep) (hsafe.2 sys' hstep)⟩

lemma count_loaded (bodies : Nat → List (List Nat)) (segs : List SmpSeg) (id : Nat) :
    ((segs.flatMap (fun sg => (bodies sg.id).map (fun body => (⟨sg.id, body⟩ : SmpLive)))).map (·.priv)).count id =
      (segs.map (·.id)).count id * (bodies id).length := by
  have hone : ∀ sg : SmpSeg, ((bodies sg.id).map (fun body => (⟨sg.id, body⟩ : SmpLive))).map (·.priv) =
      List.replicate (bodies sg.id).length sg.id := by
    intro sg
    rw [List.map_map]
    exact List.map_const'
  induction segs with
  | nil => simp
  | cons sg segs ih =>
    rw [List.flatMap_cons, List.map_append, List.count_append, ih, hone, List.count_replicate,
      List.map_cons, List.count_cons]
    by_cases hid : sg.id = id
    · subst hid
      simp only [beq_self_eq_true, if_true]
      ring
    · simp [hid]

/-- What is loaded points at segments of the table. -/
lemma mem_loaded {found : Nat → Option (List (List Nat))} {o : SmpLive} (ho : o ∈ SmpUsers.loaded sc found)
    (hbehind : SmpUsers.bodiesBehind sc found = true) :
    o.priv ∈ sc.segments.map (·.id) ∧ ∀ id ∈ o.store, o.priv ≤ id ∧ id ∈ sc.segments.map (·.id) := by
  refine ⟨?_, fun id hid => ?_⟩
  · obtain ⟨sg, hsg, hmem⟩ := List.mem_flatMap.mp ho
    obtain ⟨body, -, rfl⟩ := List.mem_map.mp hmem
    exact List.mem_map_of_mem hsg
  · have hall := List.all_eq_true.mp (List.all_eq_true.mp hbehind o ho) id hid
    rw [Bool.and_eq_true, decide_eq_true_eq, List.contains_iff_mem] at hall
    exact hall

lemma start_inv {table seg1 seg2 : List SmpSegptr} {found : Nat → Option (List (List Nat))}
    (hstart : SmpUsers.start silo table seg1 seg2 found = some sys) : UsersInv sys := by
  simp only [SmpUsers.start] at hstart
  split at hstart
  next => cases hstart
  next sc hopen =>
    split at hstart
    next hbehind =>
      obtain ⟨⟨segs, free⟩, -, rfl⟩ := Option.map_eq_some_iff.mp hopen
      obtain ⟨sc1, hnew, rfl⟩ := Option.map_eq_some_iff.mp hstart
      set sizes := fun id => (found id).map List.length with hsizes
      have hloadedIds : ((SmpSc.opened segs free seg1 seg2).loadSegs sizes).segments.map (·.id) =
          (SmpSc.opened segs free seg1 seg2).segments.map (·.id) := by
        rw [SmpSc.loadSegs, List.map_map]
        rfl
      have hids : (SmpSc.opened segs free seg1 seg2).segments.map (·.id) = List.range segs.length := openRecords_id segs
      suffices hloaded : UsersInv ⟨(SmpSc.opened segs free seg1 seg2).loadSegs sizes, [],
          SmpUsers.loaded (SmpSc.opened segs free seg1 seg2) found⟩ from hloaded.newSeg hnew
      refine ⟨?_, ?_, fun c hc => (by cases hc), ?_, ?_, ?_, fun _ _ hc => (by cases hc)⟩
      · rw [← List.pairwise_map (f := fun sg : SmpSeg => sg.id) (R := fun a b => a < b), hloadedIds, hids]
        exact List.pairwise_lt_range
      · intro sg hsg
        have hmem : sg.id ∈ List.range segs.length := hids ▸ hloadedIds ▸ List.mem_map_of_mem hsg
        exact List.mem_range.mp hmem
      · intro sg hsg
        obtain ⟨s, hs, rfl⟩ := List.mem_map.mp hsg
        have hone : ((SmpSc.opened segs free seg1 seg2).segments.map (·.id)).count s.id ≤ 1 := by
          refine List.nodup_iff_count_le_one.mp ?_ s.id
          rw [hids]
          exact List.nodup_range
        rw [SmpUsers.loaded, count_loaded (fun id => (found id).getD [])]
        simp only [hsizes]
        refine (Nat.mul_le_mul_right _ hone).trans ?_
        cases found s.id with
        | none => simp
        | some bodies => simp
      · intro id hid
        rw [hloadedIds]
        obtain h | ⟨o, ho, rfl | hid⟩ := mem_users.mp hid
        · cases h
        · exact (mem_loaded ho hbehind).1
        · exact ((mem_loaded ho hbehind).2 id hid).2
      · intro o ho id hid
        exact ((mem_loaded ho hbehind).2 id hid).1
    next => cases hstart

instance instDecidableCloseSafe (sys : SmpUsers) (sc : SmpSc) : Decidable (sys.CloseSafe sc) :=
  decidable_of_iff (∀ sg ∈ sc.curSeg.bind sc.find, 0 < sg.nalloc → ∀ s ∈ sc.front, s.id ≠ sg.id ∧ s.id ∉ sys.pending)
    Iff.rfl

instance instDecidableSafe (silo : Silo) (sys : SmpUsers) : ∀ s, Decidable (sys.Safe silo s)
  | .saveSegs =>
    inferInstanceAs (Decidable ((∀ sc ∈ sys.closes silo .saveSegs, sys.CloseSafe sc) ∧
      ∀ s ∈ sys.sc.front, s.id ∈ sys.pending → sys.sc.curSeg = some s.id))
  | .allocobj ltot stale =>
    inferInstanceAs (Decidable ((∀ sc ∈ sys.closes silo (.allocobj ltot stale), sys.CloseSafe sc) ∧ True))
  | .countObj i => inferInstanceAs (Decidable ((∀ sc ∈ sys.closes silo (.countObj i), sys.CloseSafe sc) ∧ True))
  | .alloc i size stale =>
    inferInstanceAs (Decidable ((∀ sc ∈ sys.closes silo (.alloc i size stale), sys.CloseSafe sc) ∧ True))
  | .getobj i => inferInstanceAs (Decidable ((∀ sc ∈ sys.closes silo (.getobj i), sys.CloseSafe sc) ∧ True))
  | .freeobj i => inferInstanceAs (Decidable ((∀ sc ∈ sys.closes silo (.freeobj i), sys.CloseSafe sc) ∧ True))
  | .sync stale => inferInstanceAs (Decidable ((∀ sc ∈ sys.closes silo (.sync stale), sys.CloseSafe sc) ∧ True))
  | .close stale => inferInstanceAs (Decidable ((∀ sc ∈ sys.closes silo (.close stale), sys.CloseSafe sc) ∧ True))

instance instDecidableSafeThrough (silo : Silo) : ∀ sys run, Decidable (SmpUsers.SafeThrough silo sys run)
  | _, [] => .isTrue trivial
  | sys, s :: run =>
    match h : sys.step silo s with
    | none => decidable_of_iff (sys.Safe silo s) (by simp [SmpUsers.SafeThrough, h])
    | some sys' =>
      have : Decidable (SmpUsers.SafeThrough silo sys' run) := instDecidableSafeThrough silo sys' run
      decidable_of_iff (sys.Safe silo s ∧ SmpUsers.SafeThrough silo sys' run) (by simp [SmpUsers.SafeThrough, h])

/-- In every interleaving of critical sections from an opened silo, in which no `smp_save_segs` finds the segment of an
unfinished `smp_allocobj`, or the one that is being closed, in the empty front of the list, nobody uses a segment that
was freed. -/
theorem segs_held_runs (silo : Silo) {table seg1 seg2 : List SmpSegptr} {found : Nat → Option (List (List Nat))}
    {run : List SmpSection} (hstart : SmpUsers.start silo table seg1 seg2 found = some sys)
    (hsafe : SmpUsers.SafeThrough silo sys run) : SmpUsers.HeldThrough silo sys run :=
  (start_inv hstart).run hsafe

/-- An object with a body, a second segment, and the object is freed. -/
theorem segs_held_runs_one_object : (SmpUsers.start smallSilo [] [] [] (fun _ => none)).isSome = true ∧
    ∀ sys, SmpUsers.start smallSilo [] [] [] (fun _ => none) = some sys → SmpUsers.HeldThrough smallSilo sys
      [.allocobj 16 (fun _ => 0), .countObj 0, .alloc 0 300 (fun _ => 0), .sync 0, .alloc 0 100 (fun _ => 0), .saveSegs,
        .freeobj 0] := by
  refine ⟨by decide, ?_⟩
  intro sys hstart
  have hsafe : (SmpUsers.start smallSilo [] [] [] (fun _ => none)).all (fun sys => SmpUsers.SafeThrough smallSilo sys
      [.allocobj 16 (fun _ => 0), .countObj 0, .alloc 0 300 (fun _ => 0), .sync 0, .alloc 0 100 (fun _ => 0), .saveSegs,
        .freeobj 0]) = true := by decide
  rw [hstart] at hsafe
  exact segs_held_runs smallSilo hstart (by simpa using hsafe)

/-- A call of `smp_allocobj` has got its space, and before it has counted its object the segment is closed, which frees
its record. -/
theorem segs_freed_under_allocobj : ¬ ∀ sys, SmpUsers.start smallSilo [] [] [] (fun _ => none) = some sys →
    SmpUsers.HeldThrough smallSilo sys [.allocobj 16 (fun _ => 0), .sync 4198728] := by
  intro h
  have hrun : ((SmpUsers.start smallSilo [] [] [] (fun _ => none)).bind (fun sys =>
      (sys.step smallSilo (.allocobj 16 (fun _ => 0))).bind (fun sys => sys.step smallSilo (.sync 4198728)))).any
        (fun sys => !decide sys.Held) = true := by decide
  obtain ⟨sys2, hsys2, hnot⟩ := (Option.any_eq_true _ _).mp hrun
  obtain ⟨sys, hstart, hsys2⟩ := Option.bind_eq_some_iff.mp hsys2
  obtain ⟨sys1, hsys1, hsys2⟩ := Option.bind_eq_some_iff.mp hsys2
  have hheld : sys2.Held := ((h sys hstart).2.2 sys1 hsys1).2.2 sys2 hsys2
  simp [hheld] at hnot

end VarnishCache.Proofs
