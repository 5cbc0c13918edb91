import VarnishCache.Proofs.StorageFileOps

/-!
# Runs of the file stevedore
-/

namespace VarnishCache.Proofs

open VarnishCache Tiling

variable {sc sc' : SmfSc} {maps : List MapRange} {x : List Nat} {pre post : List Smf} {c : Smf}

/-- The counters that the list operations do not look at. -/
lemma SmfInv.withStats (h : SmfInv sc maps x) {st : SmfStats} (h1 : st.gSmf = sc.stats.gSmf)
    (h2 : st.gSmfFrag = sc.stats.gSmfFrag) (h3 : st.gSmfLarge = sc.stats.gSmfLarge) :
    SmfInv { sc with stats := st } maps x :=
  ⟨h.page, h.addrs, h.sizes, h.sorted, h.tiles, h.state, h.frees, h.once, h.offsets, h.used, h.usedOnce, h.calm,
    h1.trans h.gSmf, h2.trans h.gFrag, h3.trans h.gLarge⟩

def total (l : List Smf) : Nat := (l.map Smf.size).sum

lemma total_append (l m : List Smf) : total (l ++ m) = total l + total m := by simp [total]

lemma total_cons (c : Smf) (l : List Smf) : total (c :: l) = c.size + total l := by simp [total]

/-- What holds between the calls on the stevedore. -/
structure SmfOk (sc : SmfSc) (maps : List MapRange) : Prop where
  inv : SmfInv sc maps []
  power : ∃ k, k < 32 ∧ sc.pagesize = 2 ^ k
  gBytes : sc.stats.gBytes = total (busy sc.order)
  gSpace : sc.stats.gBytes + sc.stats.gSpace = sc.filesize
  spaces : ∀ c ∈ sc.order, c.alloc = true → c.space = c.size ∧ c.size < 2 ^ 32

lemma mem_busy {l : List Smf} : c ∈ busy l ↔ c ∈ l ∧ c.alloc = true := List.mem_filter

/-- A chunk in use changes its `space`. -/
lemma SmfInv.setSpace (h : SmfInv sc maps []) (hl : sc.order = pre ++ c :: post) (hal : c.alloc = true) (n : Nat) :
    sc.modify c.addr (fun d => { d with space := n }) = { sc with order := pre ++ { c with space := n } :: post } ∧
      SmfInv { sc with order := pre ++ { c with space := n } :: post } maps [] := by
  refine ⟨modify_append hl h.addrs _, ?_⟩
  have hcmem : c ∈ sc.order := by rw [hl]; simp
  have hcn := h.flist_none hcmem (Or.inl hal)
  have hu : c.addr ∈ sc.used := (h.used _).mpr ⟨c, hcmem, rfl, hal⟩
  suffices hused : ∀ a, a ∈ sc.used ↔ (a ∈ sc.used ∧ a ≠ c.addr) ∨ (a = c.addr ∧ c.alloc = true) from
    h.touch (d := { c with space := n }) hl hcn hcn rfl rfl hused h.usedOnce (Or.inl hal) (fun _ _ => Iff.rfl)
  intro a
  by_cases ha : a = c.addr
  · subst ha
    simp [hu, hal]
  · simp [ha]

/-- `sc` with one more request counted. -/
def requested (sc : SmfSc) : SmfSc := { sc with stats := { sc.stats with cReq := sc.stats.cReq + 1 } }

lemma smfAlloc_none {sc1 : SmfSc} {size : Nat} (hsize : 0 < size)
    (h : (requested sc).allocSmf (sc.roundUp size) = some (sc1, none)) : sc.smfAlloc size =
    some ({ sc1 with stats := { sc1.stats with cFail := sc1.stats.cFail + 1 } }, none) := by
  unfold requested at h
  simp only [SmfSc.smfAlloc, Nat.ne_of_gt hsize, ite_false, h, Option.bind_eq_bind, Option.bind_some]

lemma smfAlloc_spec (h : SmfOk sc maps) {size : Nat} (hsize : 0 < size)
    (hcond : sc.pagesize ≤ (size + (sc.pagesize - 1)) % 2 ^ 32) :
    ∃ sc1 r, sc.smfAlloc size = some (sc1, r) ∧ SmfOk sc1 maps := by
  obtain ⟨k, hk, hpk⟩ := h.power
  have hround := roundUp_eq hpk hk size
  set n := sc.roundUp size with hn
  have hpos : 0 < 2 ^ k := Nat.two_pow_pos k
  rw [hpk] at hcond
  have hn0 : 0 < n := by
    rw [hround]
    exact Nat.mul_pos (Nat.div_pos hcond hpos) hpos
  have hn32 : n < 2 ^ 32 := by
    rw [hround]
    exact (Nat.div_mul_le_self _ _).trans_lt (Nat.mod_lt _ (by norm_num))
  have hnp : n % sc.pagesize = 0 := by
    rw [hround, hpk]
    exact Nat.mul_mod_left _ _
  have h0 : SmfInv (requested sc) maps [] := h.inv.withStats rfl rfl rfl
  obtain ⟨sc1, r, halloc, h1, hsame, hnone, hsome⟩ := allocSmf_spec h0 hn0 hnp
  cases r with
  | none =>
    have hsc1 := hnone rfl
    subst hsc1
    refine ⟨_, none, smfAlloc_none hsize halloc, ?_⟩
    exact ⟨h0.withStats rfl rfl rfl, ⟨k, hk, hpk⟩, h.gBytes, h.gSpace, h.spaces⟩
  | some a =>
    obtain ⟨pre, c, post, hl, rfl, hcn, hal, hbusy⟩ := hsome a rfl
    have h2 : SmfInv { sc1 with stats := { sc1.stats with
        gAlloc := sc1.stats.gAlloc + 1
        cBytes := sc1.stats.cBytes + n
        gBytes := sc1.stats.gBytes + n
        gSpace := sc1.stats.gSpace - n } } maps [] := h1.withStats rfl rfl rfl
    obtain ⟨hmod, h3⟩ := h2.setSpace hl hal n
    refine ⟨_, some c.addr, ?_, h3, ⟨k, hk, hsame.pagesize.trans hpk⟩, ?_, ?_, ?_⟩
    · unfold requested at halloc
      simp only [SmfSc.smfAlloc, Nat.ne_of_gt hsize, ite_false, ← hn, halloc, Option.bind_eq_bind, Option.bind_some,
        smf_append hl h1.addrs, hcn, ne_eq, not_true_eq_false, hmod]
    · change sc1.stats.gBytes + (n : Int) = total (busy (pre ++ { c with space := n } :: post))
      have hb : busy ({ c with space := n } :: post) = { c with space := n } :: busy post := busy_cons hal
      have hgb : sc1.stats.gBytes = total (busy sc.order) := hsame.gBytes.trans h.gBytes
      rw [hgb, show busy sc.order = busy pre ++ busy post from hbusy, busy_append, hb, total_append, total_append,
        total_cons]
      push_cast
      rw [hcn]
      ring
    · change sc1.stats.gBytes + (n : Int) + (sc1.stats.gSpace - n) = sc1.filesize
      have h5 := h.gSpace
      have h6 : sc1.stats.gBytes = sc.stats.gBytes := hsame.gBytes
      have h7 : sc1.stats.gSpace = sc.stats.gSpace := hsame.gSpace
      have h8 : sc1.filesize = sc.filesize := hsame.filesize
      rw [h6, h7, h8]
      linarith
    · intro d hd hdal
      rcases List.mem_append.mp hd with hd | hd
      · have hdb : d ∈ busy sc.order := by
          rw [show busy sc.order = busy pre ++ busy post from hbusy]
          exact List.mem_append_left _ (mem_busy.mpr ⟨hd, hdal⟩)
        exact h.spaces d (mem_busy.mp hdb).1 hdal
      · rcases List.mem_cons.mp hd with rfl | hd
        · exact ⟨hcn.symm, by rw [hcn]; exact hn32⟩
        · have hdb : d ∈ busy sc.order := by
            rw [show busy sc.order = busy pre ++ busy post from hbusy]
            exact List.mem_append_right _ (mem_busy.mpr ⟨hd, hdal⟩)
          exact h.spaces d (mem_busy.mp hdb).1 hdal

lemma smfFree_spec (h : SmfOk sc maps) {a : Nat} (ha : ∃ c ∈ sc.order, c.addr = a ∧ c.alloc = true) :
    ∃ sc1, sc.smfFree a = some sc1 ∧ SmfOk sc1 maps := by
  obtain ⟨c, hc, rfl, hal⟩ := ha
  obtain ⟨pre, post, hl⟩ := List.append_of_mem hc
  have h1 : SmfInv { sc with stats := { sc.stats with
      gAlloc := sc.stats.gAlloc - 1
      cFreed := sc.stats.cFreed + c.size
      gBytes := sc.stats.gBytes - c.size
      gSpace := sc.stats.gSpace + c.size } } maps [] := h.inv.withStats rfl rfl rfl
  obtain ⟨sc1, hfree, h2, hsame, hbusy⟩ := freeSmf_spec h1 hl hal
  have hb0 : busy sc.order = busy pre ++ c :: busy post := by rw [hl, busy_append, busy_cons hal]
  refine ⟨sc1, by simp [SmfSc.smfFree, smf_append hl h.inv.addrs, hfree], h2, ?_, ?_, ?_, ?_⟩
  · obtain ⟨k, hk, hpk⟩ := h.power
    exact ⟨k, hk, hsame.pagesize.trans hpk⟩
  · rw [hsame.gBytes, hbusy]
    change sc.stats.gBytes - (c.size : Int) = _
    rw [h.gBytes, hb0, total_append, total_append, total_cons]
    push_cast
    ring
  · rw [hsame.gBytes, hsame.gSpace, hsame.filesize]
    change sc.stats.gBytes - (c.size : Int) + (sc.stats.gSpace + c.size) = sc.filesize
    have h5 := h.gSpace
    linarith
  · intro d hd hdal
    have hdb : d ∈ busy sc1.order := mem_busy.mpr ⟨hd, hdal⟩
    rw [hbusy] at hdb
    have hd0 : d ∈ busy sc.order := by
      rw [hb0]
      rcases List.mem_append.mp hdb with hdb | hdb
      · exact List.mem_append_left _ hdb
      · exact List.mem_append_right _ (List.mem_cons_of_mem _ hdb)
    exact h.spaces d (mem_busy.mp hd0).1 hdal

lemma trimSmf_spec (h : SmfInv sc maps []) (hl : sc.order = pre ++ c :: post) (hal : c.alloc = true) {bytes : Nat}
    (hn : 0 < bytes) (hlt : bytes < c.size) (hpage : bytes % sc.pagesize = 0) :
    ∃ sc1, sc.trimSmf c.addr bytes = some sc1 ∧ SmfInv sc1 maps [] ∧ SmfSame sc sc1 ∧
      busy sc1.order = busy pre ++ { c with size := bytes } :: busy post := by
  have hcmem : c ∈ sc.order := by rw [hl]; simp
  have hcn := h.flist_none hcmem (Or.inl hal)
  have h1 := h.cut (f := { c with size := bytes })
    (b := { c with addr := sc.fresh, size := c.size - bytes, ptr := c.ptr + bytes, offset := c.offset + bytes })
    hl hcn hcn hcn hn hlt hpage rfl rfl (fresh_not_mem sc) (Or.inr ⟨rfl, rfl, rfl, hal⟩) (Or.inl hal)
  obtain ⟨sc1, hfree, h2, hsame, hbusy⟩ := freeSmf_spec
    (c := { c with addr := sc.fresh, size := c.size - bytes, ptr := c.ptr + bytes, offset := c.offset + bytes })
    h1 (List.append_cons pre { c with size := bytes } _) hal
  refine ⟨sc1, ?_, h2, ⟨hsame.pagesize, hsame.filesize, hsame.gBytes, hsame.gSpace⟩, ?_⟩
  · have hnal : ¬ c.alloc = false := by simp [hal]
    simp only [SmfSc.trimSmf, locate_append hl h.addrs, Option.bind_eq_bind, Option.bind_some, if_neg hnal,
      ite_false, Nat.ne_of_gt hn, not_le.mpr hlt, hpage, ne_eq, not_true_eq_false, (h.sizes c hcmem).2]
    exact hfree
  · rw [hbusy, busy_append, List.append_assoc]
    simp [busy, hal]

/-- Rounding a size within a chunk that is in use stays within it. -/
lemma roundUp_le {k : Nat} (hk : sc.pagesize = 2 ^ k) (hk32 : k < 32) {size n : Nat} (hs : 0 < size) (hle : size ≤ n)
    (hpage : n % sc.pagesize = 0) (h32 : n < 2 ^ 32) :
    0 < sc.roundUp size ∧ sc.roundUp size ≤ n ∧ sc.roundUp size % sc.pagesize = 0 := by
  have hpos : 0 < 2 ^ k := Nat.two_pow_pos k
  rw [roundUp_eq hk hk32, hk]
  rw [hk] at hpage
  obtain ⟨q, rfl⟩ := Nat.dvd_of_mod_eq_zero hpage
  have hdvd : 2 ^ k ∣ 2 ^ 32 := pow_dvd_pow 2 hk32.le
  have hsum : size + (2 ^ k - 1) < 2 ^ 32 := by
    obtain ⟨r, hr⟩ := hdvd
    rw [hr] at h32 ⊢
    have hqr : q < r := Nat.lt_of_mul_lt_mul_left h32
    have : 2 ^ k * q + 2 ^ k ≤ 2 ^ k * r := by
      calc 2 ^ k * q + 2 ^ k = 2 ^ k * (q + 1) := by ring
        _ ≤ 2 ^ k * r := Nat.mul_le_mul_left _ hqr
    omega
  rw [Nat.mod_eq_of_lt hsum]
  have h1 : 1 ≤ (size + (2 ^ k - 1)) / 2 ^ k := (Nat.one_le_div_iff hpos).mpr (by omega)
  have h2 : (size + (2 ^ k - 1)) / 2 ^ k ≤ q := by
    have : (size + (2 ^ k - 1)) / 2 ^ k < q + 1 := by
      rw [Nat.div_lt_iff_lt_mul hpos]
      calc size + (2 ^ k - 1) < 2 ^ k * q + 2 ^ k := by omega
        _ = (q + 1) * 2 ^ k := by ring
    omega
  refine ⟨Nat.mul_pos h1 hpos, ?_, Nat.mul_mod_left _ _⟩
  rw [Nat.mul_comm]
  exact Nat.mul_le_mul_left _ h2

/-- The counters that `smf_trim` changes before it trims. -/
def trimmed (sc : SmfSc) (d : Int) : SmfSc :=
  { sc with stats := { sc.stats with
    cFreed := sc.stats.cFreed + d
    gBytes := sc.stats.gBytes - d
    gSpace := sc.stats.gSpace + d } }

lemma smfTrim_spec (h : SmfOk sc maps) {a size : Nat} (ha : ∃ c ∈ sc.order, c.addr = a ∧ c.alloc = true ∧ size ≤ c.space)
    (hsize : 0 < size) : ∃ sc1, sc.smfTrim a size = some sc1 ∧ SmfOk sc1 maps := by
  obtain ⟨c, hc, rfl, hal, hle⟩ := ha
  obtain ⟨hspace, h32⟩ := h.spaces c hc hal
  obtain ⟨pre, post, hl⟩ := List.append_of_mem hc
  obtain ⟨k, hk, hpk⟩ := h.power
  rw [hspace] at hle
  obtain ⟨hn0, hnle, hnp⟩ := roundUp_le hpk hk hsize hle (h.inv.sizes c hc).2 h32
  set n := sc.roundUp size with hn
  by_cases hlt : n < c.size
  · have h1 : SmfInv (trimmed sc (c.size - n)) maps [] := h.inv.withStats rfl rfl rfl
    obtain ⟨sc1, htrim, h2, hsame, hbusy⟩ := trimSmf_spec h1 hl hal hn0 hlt hnp
    have hmem : { c with size := n } ∈ sc1.order := by
      refine (mem_busy.mp ?_).1
      rw [hbusy]
      simp
    obtain ⟨pre1, post1, hl1⟩ := List.append_of_mem hmem
    obtain ⟨hmod, h3⟩ := h2.setSpace hl1 hal n
    have hb0 : busy sc.order = busy pre ++ c :: busy post := by rw [hl, busy_append, busy_cons hal]
    have hb1 : busy sc1.order = busy pre1 ++ { c with size := n } :: busy post1 := by
      rw [hl1, busy_append, busy_cons]
      exact hal
    have hb2 : busy (pre1 ++ { c with size := n, space := n } :: post1) =
        busy pre1 ++ { c with size := n, space := n } :: busy post1 := by
      rw [busy_append, busy_cons]
      exact hal
    refine ⟨_, ?_, h3, ⟨k, hk, hsame.pagesize.trans hpk⟩, ?_, ?_, ?_⟩
    · have hsmf := smf_append hl1 h2.addrs
      unfold trimmed at htrim
      simp only at hsmf hmod
      simp only [SmfSc.smfTrim, smf_append hl h.inv.addrs, Option.bind_eq_bind, Option.bind_some, Nat.ne_of_gt hsize,
        ite_false, hspace, not_lt.mpr hle, ← hn, hlt, ite_true, htrim, hsmf, ne_eq, not_true_eq_false, hmod]
    · change sc1.stats.gBytes = total (busy (pre1 ++ { c with size := n, space := n } :: post1))
      have ht : total (busy pre1) + (n + total (busy post1)) = total (busy pre) + (n + total (busy post)) := by
        have := congrArg total (hb1.symm.trans hbusy)
        simpa only [total_append, total_cons] using this
      rw [hsame.gBytes, hb2, total_append, total_cons]
      change sc.stats.gBytes - ((c.size : Int) - n) = _
      rw [ht, h.gBytes, hb0, total_append, total_cons]
      push_cast
      ring
    · change sc1.stats.gBytes + sc1.stats.gSpace = sc1.filesize
      rw [hsame.gBytes, hsame.gSpace, hsame.filesize]
      change sc.stats.gBytes - ((c.size : Int) - n) + (sc.stats.gSpace + ((c.size : Int) - n)) = sc.filesize
      have h5 := h.gSpace
      linarith
    · intro d hd hdal
      by_cases hdc : d = { c with size := n, space := n }
      · subst hdc
        exact ⟨rfl, hlt.trans h32⟩
      · have hd1 : d ∈ pre1 ++ post1 := by
          change d ∈ pre1 ++ { c with size := n, space := n } :: post1 at hd
          simpa [hdc] using hd
        have hne : d.addr ≠ c.addr := h2.addr_ne hl1 hd1
        have hdb : d ∈ busy sc1.order := by
          refine mem_busy.mpr ⟨?_, hdal⟩
          rw [hl1]
          simp only [List.mem_append, List.mem_cons] at hd1 ⊢
          tauto
        rw [hbusy] at hdb
        have hd0 : d ∈ busy sc.order := by
          rw [hb0]
          simp only [List.mem_append, List.mem_cons] at hdb ⊢
          rcases hdb with hdb | rfl | hdb
          · exact Or.inl hdb
          · exact absurd rfl hne
          · exact Or.inr (Or.inr hdb)
        exact h.spaces d (mem_busy.mp hd0).1 hdal
  · refine ⟨sc, ?_, h⟩
    simp only [SmfSc.smfTrim, smf_append hl h.inv.addrs, Option.bind_eq_bind, Option.bind_some, Nat.ne_of_gt hsize,
      ite_false, hspace, not_lt.mpr hle, ← hn, hlt]

end VarnishCache.Proofs
