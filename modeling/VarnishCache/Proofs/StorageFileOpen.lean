import VarnishCache.Proofs.StorageFileRun

/-!
# Opening the file stevedore
-/

namespace VarnishCache.Proofs

open VarnishCache Tiling

variable {sc sc' : SmfSc} {maps : List MapRange} {pre post : List Smf} {c : Smf}

lemma insertOrder_split (c : Smf) {l : List Smf} (h : l.Pairwise (fun d e => d.ptr ≤ e.ptr)) :
    ∃ pre post, l = pre ++ post ∧ SmfSc.insertOrder c l = pre ++ c :: post ∧ (∀ d ∈ pre, d.ptr ≤ c.ptr) ∧
      ∀ d ∈ post, c.ptr < d.ptr := by
  induction l with
  | nil => exact ⟨[], [], rfl, rfl, by simp, by simp⟩
  | cons e l ih =>
    obtain ⟨he, hl⟩ := List.pairwise_cons.mp h
    by_cases hlt : c.ptr < e.ptr
    · refine ⟨[], e :: l, rfl, by simp [SmfSc.insertOrder, hlt], by simp, fun d hd => ?_⟩
      rcases List.mem_cons.mp hd with rfl | hd
      · exact hlt
      · exact hlt.trans_le (he d hd)
    · obtain ⟨pre, post, h1, h2, h3, h4⟩ := ih hl
      refine ⟨e :: pre, post, by simp [h1], by simp [SmfSc.insertOrder, hlt, h2], fun d hd => ?_, h4⟩
      rcases List.mem_cons.mp hd with rfl | hd
      · exact Nat.le_of_not_lt hlt
      · exact h3 d hd

/-- A range of addresses that no mapped range meets. -/
def Outside (maps : List MapRange) (ptr size : Nat) : Prop :=
  ∀ r ∈ maps, ptr + size ≤ r.ptr ∨ r.ptr + r.size ≤ ptr

/-- No chunk has an address in a range that is outside what is mapped. -/
lemma SmfInv.outside (h : SmfInv sc maps []) {ptr size : Nat} (hout : Outside maps ptr size) {d : Smf}
    (hd : d ∈ sc.order) {a : Nat} (ha : d.ptr ≤ a ∧ a < d.ptr + d.size) : ¬ (ptr ≤ a ∧ a < ptr + size) := by
  intro hin
  have hcov : Covers (sc.order.map Smf.seg) a (d.offset + (a - d.ptr)) :=
    ⟨Smf.seg d, List.mem_map_of_mem hd, ha.1, ha.2, rfl⟩
  obtain ⟨s, hs, h1, h2, -⟩ := (h.tiles _ _).mp hcov
  obtain ⟨r, hr, rfl⟩ := List.mem_map.mp hs
  have h1' : r.ptr ≤ a := h1
  have h2' : a < r.ptr + r.size := h2
  rcases hout r hr with ho | ho
  · omega
  · omega

lemma newSmf_spec (h : SmfInv sc maps []) {ptr o len : Nat} (hlen : 0 < len) (hpage : len % sc.pagesize = 0)
    (hout : Outside maps ptr len) :
    ∃ sc1, sc.newSmf ptr o len = some sc1 ∧ SmfInv sc1 (maps ++ [{ ptr := ptr, offset := o, size := len }]) [] ∧
      SmfSame sc sc1 ∧ busy sc1.order = busy sc.order := by
  have hsorted : sc.order.Pairwise (fun d e => d.ptr ≤ e.ptr) := by
    have hs := List.pairwise_map.mp h.sorted
    exact hs.imp (fun {d e} hde => (Nat.le_add_right d.ptr d.size).trans hde)
  let c : Smf := { addr := sc.fresh, size := len, offset := o, ptr := ptr, alloc := true, flist := none, space := 0 }
  obtain ⟨pre, post, hl, hins, hpre, hpost⟩ := insertOrder_split c hsorted
  have hpre' : ∀ d ∈ pre, d.ptr + d.size ≤ c.ptr := by
    intro d hd
    have hdm : d ∈ sc.order := by rw [hl]; exact List.mem_append_left _ hd
    by_contra hlt
    exact h.outside hout hdm ⟨hpre d hd, Nat.not_le.mp hlt⟩ ⟨le_rfl, Nat.lt_add_of_pos_right hlen⟩
  have hpost' : ∀ d ∈ post, c.ptr + c.size ≤ d.ptr := by
    intro d hd
    have hdm : d ∈ sc.order := by rw [hl]; exact List.mem_append_right _ hd
    by_contra hlt
    exact h.outside hout hdm ⟨le_rfl, Nat.lt_add_of_pos_right (h.sizes d hdm).1⟩ ⟨(hpost d hd).le, Nat.not_le.mp hlt⟩
  have h1 := h.add (c := c) (r := { ptr := ptr, offset := o, size := len }) hl rfl rfl hlen hpage (fresh_not_mem sc)
    rfl hpre' hpost'
  obtain ⟨sc1, hfree, h2, hsame, hbusy⟩ := freeSmf_spec (c := c) h1 rfl rfl
  refine ⟨sc1, ?_, h2, ⟨hsame.pagesize, hsame.filesize, hsame.gBytes, hsame.gSpace⟩, ?_⟩
  · rw [← hfree, ← hins]
    simp [SmfSc.newSmf, hpage, c]
  · rw [hbusy, hl, busy_append]

/-- `mmap` gives addresses that are not mapped yet. -/
def MmapOk (mmap : List MapRange → Nat → Nat → Option Nat) : Prop :=
  ∀ maps size off p, mmap maps size off = some p → Outside maps p size

/-- What holds while `smf_open_chunk` maps the file. -/
structure OpenInv (ps fs : Nat) (s : SmfOpen) : Prop where
  inv : SmfInv s.sc s.maps []
  pagesize : s.sc.pagesize = ps
  filesize : s.sc.filesize = fs
  busy : busy s.sc.order = []
  gBytes : s.sc.stats.gBytes = 0
  gSpace : s.sc.stats.gSpace = 0

lemma mapped_spec {ps fs : Nat} {s : SmfOpen} (h : OpenInv ps fs s) {p sz o : Nat} (hsz : 0 < sz) (hpage : sz % ps = 0)
    (hout : Outside s.maps p sz) : ∃ s', s.mapped p sz o = some s' ∧ OpenInv ps fs s' ∧ s'.fail = s.fail := by
  obtain ⟨sc1, hnew, h1, hsame, hbusy⟩ := newSmf_spec (o := o) h.inv hsz (by rw [h.pagesize]; exact hpage) hout
  refine ⟨{ s with
    sc := sc1
    maps := s.maps ++ [{ ptr := p, offset := o, size := sz }]
    sum := s.sum + sz }, by simp [SmfOpen.mapped, hnew], ⟨h1, ?_, ?_, ?_, ?_, ?_⟩, rfl⟩
  · exact hsame.pagesize.trans h.pagesize
  · exact hsame.filesize.trans h.filesize
  · exact hbusy.trans h.busy
  · exact hsame.gBytes.trans h.gBytes
  · exact hsame.gSpace.trans h.gSpace

/-- The size of the first half, in whole pages. -/
lemma half_spec {ps sz : Nat} (hps : 0 < ps) (hps32 : ps < 2 ^ 32) (h2 : 2 * ps ≤ sz) :
    0 < min (sz / 2) ssizeMax - min (sz / 2) ssizeMax % ps ∧
      min (sz / 2) ssizeMax - min (sz / 2) ssizeMax % ps ≤ sz / 2 ∧
      (min (sz / 2) ssizeMax - min (sz / 2) ssizeMax % ps) % ps = 0 ∧
      (ps * minpages ≤ sz → 2 * ps ≤ min (sz / 2) ssizeMax - min (sz / 2) ssizeMax % ps) := by
  have hmod := Nat.mod_lt (min (sz / 2) ssizeMax) hps
  have hdm := Nat.div_add_mod (min (sz / 2) ssizeMax) ps
  have hmin : ps ≤ min (sz / 2) ssizeMax := by
    simp only [ssizeMax]
    omega
  have hq : 1 ≤ min (sz / 2) ssizeMax / ps := (Nat.one_le_div_iff hps).mpr hmin
  have hge : ps ≤ ps * (min (sz / 2) ssizeMax / ps) := Nat.le_mul_of_pos_right _ hq
  refine ⟨by omega, ?_, ?_, fun hbig => ?_⟩
  · exact (Nat.sub_le _ _).trans (min_le_left _ _)
  · rw [← hdm, Nat.mul_add_mod, Nat.mod_mod, Nat.add_sub_cancel]
    exact Nat.mul_mod_right _ _
  · have hmin3 : 3 * ps ≤ min (sz / 2) ssizeMax := by
      simp only [minpages, ssizeMax] at *
      omega
    omega

lemma openChunk_spec {mmap : List MapRange → Nat → Nat → Option Nat} (hmmap : MmapOk mmap) {ps fs : Nat}
    (hps32 : ps < 2 ^ 32) (fuel : Nat) {s : SmfOpen} (h : OpenInv ps fs s) {sz o : Nat} (hfuel : sz < fuel)
    (hsz : 0 < sz) (hpage : sz % ps = 0)
    (hcond : s.fail < ps * minpages ∨ 2 * ps ≤ sz ∨ (sz < s.fail ∧ sz < ssizeMax ∧ (mmap s.maps sz o).isSome)) :
    ∃ s', SmfOpen.openChunk mmap fuel s sz o = some s' ∧ OpenInv ps fs s' ∧ s'.fail ≤ s.fail := by
  induction fuel generalizing s sz o with
  | zero => omega
  | succ fuel ih =>
    have hps := h.inv.page
    rw [h.pagesize] at hps
    simp only [SmfOpen.openChunk, Nat.ne_of_gt hsz, ite_false, h.pagesize, hpage, ne_eq, not_true_eq_false]
    by_cases hfail : s.fail < ps * minpages
    · exact ⟨s, by simp [hfail], h, le_rfl⟩
    rw [if_neg hfail]
    cases hm : (if sz < s.fail ∧ sz < ssizeMax then mmap s.maps sz o else none) with
    | some p =>
      have hout : Outside s.maps p sz := by
        split at hm
        · exact hmmap _ _ _ _ hm
        · cases hm
      obtain ⟨s', hs', h', hf⟩ := mapped_spec h hsz hpage hout
      exact ⟨s', by simpa using hs', h', hf.le⟩
    | none =>
      have h2 : 2 * ps ≤ sz := by
        rcases hcond with hc | hc | ⟨hc1, hc2, hc3⟩
        · exact absurd hc hfail
        · exact hc
        · rw [if_pos ⟨hc1, hc2⟩] at hm
          simp [hm] at hc3
      obtain ⟨hh0, hhle, hhpage, hhbig⟩ := half_spec hps hps32 h2
      set hh := min (sz / 2) ssizeMax - min (sz / 2) ssizeMax % ps with hhdef
      have h0 : OpenInv ps fs { s with fail := min sz s.fail } :=
        ⟨h.inv, h.pagesize, h.filesize, h.busy, h.gBytes, h.gSpace⟩
      have hc0 : min sz s.fail < ps * minpages ∨ ps * minpages ≤ sz := by omega
      obtain ⟨s1, hs1, h1, hf1⟩ := ih (o := o) h0 (by omega) hh0 hhpage
        (hc0.elim Or.inl (fun hb => Or.inr (Or.inl (hhbig hb))))
      have hpage2 : (sz - hh) % ps = 0 :=
        Nat.mod_eq_zero_of_dvd (Nat.dvd_sub (Nat.dvd_of_mod_eq_zero hpage) (Nat.dvd_of_mod_eq_zero hhpage))
      have hc1 : s1.fail < ps * minpages ∨ 2 * ps ≤ sz - hh := by
        rcases hc0 with hc | hc
        · exact Or.inl (hf1.trans_lt hc)
        · have := hhbig hc
          right
          omega
      obtain ⟨s2, hs2, h2', hf2⟩ := ih (o := o + hh) h1 (by omega) (by omega) hpage2
        (hc1.elim Or.inl (fun hb => Or.inr (Or.inl hb)))
      refine ⟨s2, ?_, h2', hf2.trans (hf1.trans (min_le_right _ _))⟩
      simp only [Option.bind_eq_bind]
      rw [hs1, Option.bind_some, hs2]

lemma init_openInv {ps f : Nat} (hps : 0 < ps) :
    OpenInv ps f { sc := SmfSc.init ps f, maps := [], fail := 1 <<< 30, sum := 0 } := by
  refine ⟨⟨hps, ?_, ?_, ?_, ?_, ?_, ?_, ?_, ?_, ?_, ?_, ?_, ?_, ?_, ?_⟩, rfl, rfl, rfl, rfl, rfl⟩ <;>
    simp [SmfSc.init, Apart, Calm]

/-- The file can be opened: it has a page, and when it has only one, that page can be mapped in one go or is so large
that nothing is mapped. -/
def Openable (mmap : List MapRange → Nat → Nat → Option Nat) (ps fs : Nat) : Prop :=
  0 < fs ∧ (fs = ps → 1 <<< 30 < ps * minpages ∨ (mmap [] ps 0).isSome)

lemma smfOpen_spec {mmap : List MapRange → Nat → Nat → Option Nat} (hmmap : MmapOk mmap) {ps fs k : Nat} (hk : k < 32)
    (hps : ps = 2 ^ k) (hpage : fs % ps = 0) (hopen : Openable mmap ps fs) :
    ∃ sc maps, SmfSc.smfOpen mmap (SmfSc.init ps fs) = some (sc, maps) ∧ SmfOk sc maps := by
  have hps0 : 0 < ps := by
    rw [hps]
    exact Nat.two_pow_pos k
  have hps32 : ps < 2 ^ 32 := by
    rw [hps]
    exact Nat.pow_lt_pow_right (by norm_num) hk
  have hcond : 1 <<< 30 < ps * minpages ∨ 2 * ps ≤ fs ∨ (fs < 1 <<< 30 ∧ fs < ssizeMax ∧ (mmap [] fs 0).isSome) := by
    obtain ⟨q, rfl⟩ := Nat.dvd_of_mod_eq_zero hpage
    have hq0 : 0 < q := Nat.pos_of_mul_pos_left hopen.1
    by_cases hq : q = 1
    · subst hq
      rw [Nat.mul_one] at hopen ⊢
      rcases hopen.2 rfl with hl | hs
      · exact Or.inl hl
      · by_cases hbig : 1 <<< 30 < ps * minpages
        · exact Or.inl hbig
        · refine Or.inr (Or.inr ⟨?_, ?_, hs⟩)
          · simp only [minpages] at hbig
            omega
          · simp only [ssizeMax]
            omega
    · right
      left
      calc 2 * ps = ps * 2 := Nat.mul_comm _ _
        _ ≤ ps * q := Nat.mul_le_mul_left _ (by omega)
  obtain ⟨s, hs, h, -⟩ := openChunk_spec hmmap hps32 (fs + 1) (init_openInv (f := fs) hps0) (o := 0) (Nat.lt_succ_self fs)
    hopen.1 hpage hcond
  refine ⟨{ s.sc with stats := { s.sc.stats with gSpace := s.sc.stats.gSpace + fs } }, s.maps, ?_, ?_⟩
  · simp only [SmfSc.smfOpen]
    rw [show (SmfSc.init ps fs).filesize = fs from rfl, hs]
    rfl
  · refine ⟨h.inv.withStats rfl rfl rfl, ⟨k, hk, h.pagesize.trans hps⟩, ?_, ?_, ?_⟩
    · change s.sc.stats.gBytes = (total (busy s.sc.order) : Nat)
      rw [h.busy, h.gBytes]
      rfl
    · change s.sc.stats.gBytes + (s.sc.stats.gSpace + (fs : Int)) = (s.sc.filesize : Nat)
      rw [h.gBytes, h.gSpace, h.filesize]
      ring
    · intro c hc hal
      have hb : c ∈ busy s.sc.order := mem_busy.mpr ⟨hc, hal⟩
      rw [h.busy] at hb
      cases hb

end VarnishCache.Proofs

/-!
## The file stevedore is consistent in every run
-/

namespace VarnishCache.Proofs

open VarnishCache Tiling

variable {sc sc' : SmfSc} {maps : List MapRange} {mmap : List MapRange → Nat → Nat → Option Nat} {ps fs : Nat}

/-- The lists and counters agree with each other and with what is mapped. -/
structure SmfConsistent (sc : SmfSc) (maps : List MapRange) : Prop where
  records : (sc.order.map Smf.addr).Nodup
  sizes : ∀ c ∈ sc.order, 0 < c.size
  sorted : sc.order.Pairwise (fun c d => c.ptr + c.size ≤ d.ptr)
  tiles : ∀ a o, (∃ c ∈ sc.order, c.ptr ≤ a ∧ a < c.ptr + c.size ∧ o = c.offset + (a - c.ptr)) ↔
    ∃ r ∈ maps, r.ptr ≤ a ∧ a < r.ptr + r.size ∧ o = r.offset + (a - r.ptr)
  listed : ∀ c ∈ sc.order, ∀ b, c.addr ∈ sc.free b ↔ c.alloc = false ∧ b = sc.bucket c.size
  frees : ∀ b, ∀ a ∈ sc.free b, ∃ c ∈ sc.order, c.addr = a
  once : ∀ b, (sc.free b).Nodup
  offsets : ∀ b, (sc.free b).Pairwise
    (fun a a' => ∀ c ∈ sc.order, ∀ d ∈ sc.order, c.addr = a → d.addr = a' → c.offset ≤ d.offset)
  calm : sc.order.IsChain (fun c d => ¬ (SmfSc.contiguous c d ∧ c.alloc = false ∧ d.alloc = false))
  gBytes : sc.stats.gBytes = ((sc.order.filter Smf.alloc).map Smf.size).sum
  gSpace : sc.stats.gBytes + sc.stats.gSpace = sc.filesize
  gSmf : sc.stats.gSmf = sc.order.length
  gSmfFrag : sc.stats.gSmfFrag = sc.order.countP (fun c => !c.alloc && decide (c.size / sc.pagesize < nbucket))
  gSmfLarge : sc.stats.gSmfLarge = sc.order.countP (fun c => !c.alloc && decide (nbucket ≤ c.size / sc.pagesize))

lemma SmfOk.flist_isSome (h : SmfOk sc maps) {c : Smf} (hc : c ∈ sc.order) : c.flist.isSome = !c.alloc := by
  rw [h.inv.state c hc]
  cases c.alloc
  · simp
  · simp

lemma SmfOk.consistent (h : SmfOk sc maps) : SmfConsistent sc maps := by
  have hi := h.inv
  refine ⟨hi.addrs, fun c hc => (hi.sizes c hc).1, List.pairwise_map.mp hi.sorted, fun a o => ?_, fun c hc b => ?_,
    fun b a ha => ?_, hi.once, hi.offsets, ?_, h.gBytes, h.gSpace, hi.gSmf, ?_, ?_⟩
  · have ht := hi.tiles a o
    simp only [Covers, List.mem_map, exists_exists_and_eq_and] at ht
    exact ht
  · rw [hi.frees]
    have hst := hi.state c hc
    constructor
    · rintro ⟨d, hd, hda, hdb⟩
      rw [hi.addr_inj hd hc hda, hst] at hdb
      cases hal : c.alloc
      · simp only [hal, Bool.false_eq_true, List.not_mem_nil, or_self, ite_false, Option.some.injEq] at hdb
        exact ⟨rfl, hdb.symm⟩
      · simp [hal] at hdb
    · rintro ⟨hal, rfl⟩
      exact ⟨c, hc, rfl, by simpa [hal] using hst⟩
  · obtain ⟨c, hc, hca, -⟩ := (hi.frees b a).mp ha
    exact ⟨c, hc, hca⟩
  · refine List.IsChain.imp_of_mem_imp (fun c d hc hd hcd hfree => hcd ⟨hfree.1, ?_, ?_⟩) hi.calm
    · rw [h.flist_isSome hc, hfree.2.1]
      rfl
    · rw [h.flist_isSome hd, hfree.2.2]
      rfl
  · rw [hi.gFrag]
    congr 1
    exact List.countP_congr (fun c hc => by rw [h.flist_isSome hc])
  · rw [hi.gLarge]
    congr 1
    exact List.countP_congr (fun c hc => by rw [h.flist_isSome hc])

/-- An allocation whose size, rounded up to whole pages in 32 bits, is not zero. -/
def Rounds (sc : SmfSc) : SmfOp → Prop
  | .alloc size => sc.pagesize ≤ (size + (sc.pagesize - 1)) % 2 ^ 32
  | _ => True

instance (sc : SmfSc) : (op : SmfOp) → Decidable (Rounds sc op)
  | .alloc size => inferInstanceAs (Decidable (sc.pagesize ≤ (size + (sc.pagesize - 1)) % 2 ^ 32))
  | .trim _ _ => isTrue trivial
  | .free _ => isTrue trivial

lemma exec_spec (h : SmfOk sc maps) {op : SmfOp} (hop : sc.Admits op) (hP : Rounds sc op) :
    ∃ sc', sc.exec op = some sc' ∧ SmfOk sc' maps := by
  cases op with
  | alloc size =>
    obtain ⟨sc1, r, hr, h1⟩ := smfAlloc_spec h hop.1 hP
    exact ⟨sc1, by simp [SmfSc.exec, hr], h1⟩
  | trim a size => exact smfTrim_spec h hop.2 hop.1
  | free a => exact smfFree_spec h hop

lemma SmfReach.ok (hmmap : MmapOk mmap) {k : Nat} (hk : k < 32) (hps : ps = 2 ^ k) (hpage : fs % ps = 0)
    (hopen : Openable mmap ps fs) (h : SmfReach mmap ps fs Rounds sc maps) : SmfOk sc maps := by
  induction h with
  | opened h =>
    obtain ⟨sc1, maps1, h1, hok⟩ := smfOpen_spec hmmap hk hps hpage hopen
    cases h.symm.trans h1
    exact hok
  | call _ hop hP hexec ih =>
    obtain ⟨sc2, h2, hok⟩ := exec_spec ih hop hP
    cases hexec.symm.trans h2
    exact hok

/-- In every run of a stevedore with a power of two as its page size, on a file that it can open, in which no
allocation is rounded to nothing, the lists and counters are consistent and no assertion fails. -/
theorem smf_runs_consistent (hmmap : MmapOk mmap) {k : Nat} (hk : k < 32) (hps : ps = 2 ^ k) (hpage : fs % ps = 0)
    (hopen : Openable mmap ps fs) :
    (∃ sc maps, SmfSc.smfOpen mmap (SmfSc.init ps fs) = some (sc, maps)) ∧
      ∀ sc maps, SmfReach mmap ps fs Rounds sc maps →
        SmfConsistent sc maps ∧ ∀ op, sc.Admits op → Rounds sc op → ∃ sc', sc.exec op = some sc' := by
  constructor
  · obtain ⟨sc, maps, h, -⟩ := smfOpen_spec hmmap hk hps hpage hopen
    exact ⟨sc, maps, h⟩
  · intro sc maps h
    have hok := SmfReach.ok hmmap hk hps hpage hopen h
    refine ⟨hok.consistent, fun op hop hP => ?_⟩
    obtain ⟨sc', h', -⟩ := exec_spec hok hop hP
    exact ⟨sc', h'⟩

/-- An `mmap` that maps one range. -/
def mapOnce (maps : List MapRange) (_ _ : Nat) : Option Nat := if maps.isEmpty then some (2 ^ 30) else none

lemma mapOnce_ok : MmapOk mapOnce := by
  intro maps size off p h r hr
  cases maps with
  | nil => cases hr
  | cons m maps => simp [mapOnce] at h

def megabyte : SmfSc × List MapRange := ((SmfSc.smfOpen mapOnce (SmfSc.init 4096 (2 ^ 20))).get (by decide))

lemma megabyte_opened : SmfSc.smfOpen mapOnce (SmfSc.init 4096 (2 ^ 20)) = some megabyte := by
  simp [megabyte]

lemma megabyte_reach (P : SmfSc → SmfOp → Prop) : SmfReach mapOnce 4096 (2 ^ 20) P megabyte.1 megabyte.2 :=
  .opened megabyte_opened

/-- The megabyte after an allocation and a trim. -/
def megabyteTrimmed : SmfSc :=
  ((megabyte.1.exec (.alloc 9000)).bind (fun sc => sc.exec (.trim 2 100))).get (by decide)

theorem smf_runs_consistent_megabyte : SmfReach mapOnce 4096 (2 ^ 20) Rounds megabyteTrimmed megabyte.2 ∧
    megabyteTrimmed.order.map Smf.size = [4096, 2 ^ 20 - 4096] ∧ SmfConsistent megabyteTrimmed megabyte.2 := by
  have hrun := (smf_runs_consistent mapOnce_ok (k := 12) (by norm_num) (rfl : 4096 = 2 ^ 12)
    (by norm_num : 2 ^ 20 % 4096 = 0) ⟨by norm_num, by norm_num⟩).2
  have hsome : ((megabyte.1.exec (.alloc 9000)).bind (fun sc => sc.exec (.trim 2 100))) = some megabyteTrimmed :=
    (Option.some_get _).symm
  obtain ⟨sc1, h1, h2⟩ := Option.bind_eq_some_iff.mp hsome
  have hadm : ∀ sc, megabyte.1.exec (.alloc 9000) = some sc → sc.Admits (.trim 2 100) := by
    have hall : (megabyte.1.exec (.alloc 9000)).all (fun sc => decide (sc.Admits (.trim 2 100))) = true := by
      decide
    intro sc hsc
    rw [hsc] at hall
    simpa using hall
  have hreach := ((megabyte_reach Rounds).call (by decide : megabyte.1.Admits (.alloc 9000)) (by decide) h1).call
    (hadm sc1 h1) trivial h2
  exact ⟨hreach, by decide, (hrun _ _ hreach).1⟩

/-- The megabyte after an allocation that is rounded to nothing. -/
def megabyteEmpty : SmfSc := (megabyte.1.exec (.alloc (2 ^ 32 - 1024))).get (by decide)

/-- An allocation of 1024 bytes less than 4 GB succeeds with a chunk of no bytes, which cannot be freed. -/
theorem smf_free_of_empty_chunk : ∃ sc maps, SmfReach mapOnce 4096 (2 ^ 20) (fun _ _ => True) sc maps ∧
    sc.Admits (.free 2) ∧ sc.exec (.free 2) = none := by
  have h1 : megabyte.1.exec (.alloc (2 ^ 32 - 1024)) = some megabyteEmpty := by simp [megabyteEmpty]
  refine ⟨megabyteEmpty, megabyte.2, (megabyte_reach _).call (by decide) trivial h1, by decide, ?_⟩
  exact Option.isNone_iff_eq_none.mp (by decide)

end VarnishCache.Proofs
