import VarnishCache.Proofs.StorageFile

/-!
# Freeing, allocating and trimming chunks
-/

namespace VarnishCache.Proofs

open VarnishCache Tiling

variable {sc sc' : SmfSc} {maps : List MapRange} {x : List Nat} {pre post : List Smf} {c : Smf}

/-- The chunks in use. -/
def busy (l : List Smf) : List Smf := l.filter Smf.alloc

lemma busy_append (l m : List Smf) : busy (l ++ m) = busy l ++ busy m := List.filter_append l m

lemma busy_cons_free {l : List Smf} (h : c.alloc = false) : busy (c :: l) = busy l := by simp [busy, h]

lemma busy_cons {l : List Smf} (h : c.alloc = true) : busy (c :: l) = c :: busy l := by simp [busy, h]

/-- A free chunk that is not in limbo is on its free list. -/
lemma SmfInv.flist_isSome (h : SmfInv sc maps x) {d : Smf} (hd : d ∈ sc.order) (hal : d.alloc = false)
    (hx : d.addr ∉ x) :
    d.flist.isSome := by
  rw [h.state d hd]
  simp [hal, hx]

lemma SmfInv.flist_none (h : SmfInv sc maps x) {d : Smf} (hd : d ∈ sc.order) (hal : d.alloc = true ∨ d.addr ∈ x) :
    d.flist = none := by
  rw [h.state d hd, if_pos hal]

lemma mergeNext_spec (h : SmfInv sc maps [c.addr]) (hl : sc.order = pre ++ c :: post) (hal : c.alloc = false) :
    ∃ sc1 c1 post1, sc.mergeNext c.addr = some sc1 ∧ SmfInv sc1 maps [c.addr] ∧ sc1.order = pre ++ c1 :: post1 ∧
      c1.addr = c.addr ∧ c1.alloc = false ∧ c1.ptr = c.ptr ∧ c1.offset = c.offset ∧
      (∀ d, post1.head? = some d → ¬ (SmfSc.contiguous c1 d ∧ d.flist.isSome)) ∧ SmfSame sc sc1 ∧
      busy post1 = busy post := by
  have hcmem : c ∈ sc.order := by rw [hl]; simp
  have hcn := h.flist_none hcmem (Or.inr (by simp))
  have hloc := locate_append hl h.addrs
  cases post with
  | nil =>
    refine ⟨sc, c, [], by simp [SmfSc.mergeNext, hloc], h, hl, rfl, hal, rfl, rfl, by simp, ⟨rfl, rfl, rfl, rfl⟩, rfl⟩
  | cons d post =>
    have hdmem : d ∈ sc.order := by rw [hl]; simp
    have hdc : d.addr ≠ c.addr := h.addr_ne hl (by simp)
    by_cases hm : d.alloc = false ∧ SmfSc.contiguous c d
    · obtain ⟨hdal, hcd⟩ := hm
      have hl2 : sc.order = (pre ++ [c]) ++ d :: post := by simp [hl]
      obtain ⟨sc2, hrem, hinv2, horder2, hsame2, -⟩ := remfree_spec h hl2 hdal (by simpa using hdc)
      have horder : sc2.order = pre ++ [c, { d with flist := none }] ++ post := by simp [horder2]
      have hjoin := hinv2.join (e := { c with size := c.size + d.size }) horder hcn rfl hal hdal hcd hcn hal
        (Or.inl rfl) rfl (fun a => by simp [or_comm])
      refine ⟨_, { c with size := c.size + d.size }, post, ?_, hjoin, rfl, rfl, hal, rfl, rfl, ?_, ?_, ?_⟩
      · simp [SmfSc.mergeNext, hloc, hdal, hcd, hrem]
      · intro e he hce
        cases post with
        | nil => cases he
        | cons e' post =>
          have hee : e' = e := by simpa using he
          subst hee
          have hcalm := h.calm
          rw [hl2] at hcalm
          have hde := (List.isChain_cons_cons.mp (List.isChain_append.mp hcalm).2.1).1
          refine hde ⟨⟨?_, ?_⟩, h.flist_isSome hdmem hdal (by simpa using hdc), hce.2⟩
          · rw [hce.1.1, hcd.1]
            simp only [Nat.add_assoc]
          · rw [hce.1.2, hcd.2]
            simp only [Nat.add_assoc]
      · exact ⟨hsame2.pagesize, hsame2.filesize, hsame2.gBytes, hsame2.gSpace⟩
      · rw [busy_cons_free hdal]
    · refine ⟨sc, c, d :: post, by simp [SmfSc.mergeNext, hloc, hm], h, hl, rfl, hal,
        rfl, rfl, ?_, ⟨rfl, rfl, rfl, rfl⟩, rfl⟩
      intro e he hce
      have hde : d = e := by simpa using he
      subst hde
      refine hm ⟨?_, hce.1⟩
      by_contra hdal
      rw [h.flist_none hdmem (Or.inl (by simpa using hdal))] at hce
      simp at hce

lemma mergePrev_spec (h : SmfInv sc maps [c.addr]) (hl : sc.order = pre ++ c :: post) (hal : c.alloc = false)
    (hnext : ∀ d, post.head? = some d → ¬ (SmfSc.contiguous c d ∧ d.flist.isSome)) :
    ∃ sc1 c1 pre1, sc.mergePrev c.addr = some (sc1, c1.addr) ∧ SmfInv sc1 maps [c1.addr] ∧
      sc1.order = pre1 ++ c1 :: post ∧ c1.alloc = false ∧ Alone pre1 c1 post ∧ SmfSame sc sc1 ∧ busy pre1 = busy pre := by
  have hcmem : c ∈ sc.order := by rw [hl]; simp
  have hcn := h.flist_none hcmem (Or.inr (by simp))
  have hloc := locate_append hl h.addrs
  rcases List.eq_nil_or_concat pre with rfl | ⟨pre, d, rfl⟩
  · refine ⟨sc, c, [], by simp [SmfSc.mergePrev, hloc], h, hl, hal, ⟨by simp, hnext⟩, ⟨rfl, rfl, rfl, rfl⟩, rfl⟩
  · rw [List.concat_eq_append] at hl hloc ⊢
    have hdmem : d ∈ sc.order := by rw [hl]; simp
    have hdc : d.addr ≠ c.addr := h.addr_ne hl (by simp)
    by_cases hm : d.alloc = false ∧ SmfSc.contiguous d c
    · obtain ⟨hdal, hdc2⟩ := hm
      have hl2 : sc.order = pre ++ d :: c :: post := by simp [hl]
      obtain ⟨sc2, hrem, hinv2, horder2, hsame2, -⟩ := remfree_spec h hl2 hdal (by simpa using hdc)
      have horder : sc2.order = pre ++ [{ d with flist := none }, c] ++ post := by simp [horder2]
      have hjoin := hinv2.join (e := { d with flist := none, size := d.size + c.size }) horder rfl hcn hdal hal hdc2
        rfl hdal (Or.inl rfl) rfl (fun a => by simp)
      refine ⟨_, { d with flist := none, size := d.size + c.size }, pre, ?_, hjoin, rfl, hdal, ⟨?_, ?_⟩, ?_, ?_⟩
      · simp [SmfSc.mergePrev, hloc, hdal, hdc2, hrem]
      · intro e he hed
        have hcalm := h.calm
        rw [hl2] at hcalm
        exact (List.isChain_append.mp hcalm).2.2 e he d rfl
          ⟨hed.1, hed.2, h.flist_isSome hdmem hdal (by simpa using hdc)⟩
      · intro e he hce
        refine hnext e he ⟨⟨?_, ?_⟩, hce.2⟩
        · rw [hce.1.1, hdc2.1]
          simp only [Nat.add_assoc]
        · rw [hce.1.2, hdc2.2]
          simp only [Nat.add_assoc]
      · exact ⟨hsame2.pagesize, hsame2.filesize, hsame2.gBytes, hsame2.gSpace⟩
      · rw [busy_append, busy_cons_free hdal]
        simp [busy]
    · refine ⟨sc, c, pre ++ [d], by simp [SmfSc.mergePrev, hloc, hm], h, hl, hal, ⟨?_, hnext⟩, ⟨rfl, rfl, rfl, rfl⟩, rfl⟩
      intro e he hec
      have hde : d = e := by simpa using he
      subst hde
      refine hm ⟨?_, hec.1⟩
      by_contra hdal
      rw [h.flist_none hdmem (Or.inl (by simpa using hdal))] at hec
      simp at hec

/-- `free_smf` keeps the invariant, and the other chunks in use are as before. -/
lemma freeSmf_spec (h : SmfInv sc maps []) (hl : sc.order = pre ++ c :: post) (hal : c.alloc = true) :
    ∃ sc1, sc.freeSmf c.addr = some sc1 ∧ SmfInv sc1 maps [] ∧ SmfSame sc sc1 ∧
      busy sc1.order = busy pre ++ busy post := by
  have hcmem : c ∈ sc.order := by rw [hl]; simp
  have hcn := h.flist_none hcmem (Or.inl hal)
  have hsz := h.sizes c hcmem
  have h1 : SmfInv { sc with order := pre ++ { c with alloc := false } :: post, used := sc.used.erase c.addr } maps
      [c.addr] :=
    h.touch hl hcn hcn rfl rfl (fun a => by simp [h.usedOnce.mem_erase_iff, and_comm]) (h.usedOnce.erase _)
      (Or.inr (by simp)) (fun a ha => by simp [ha])
  obtain ⟨sc2, c2, post2, hmn, h2, hl2, ha2, hal2, -, -, hnext, hsame2, hbusy2⟩ :=
    mergeNext_spec (c := { c with alloc := false }) h1 rfl rfl
  change _ = c.addr at ha2
  rw [← ha2] at h2
  obtain ⟨sc3, c3, pre3, hmp, h3, hl3, hal3, halone, hsame3, hbusy3⟩ := mergePrev_spec h2 hl2 hal2 hnext
  obtain ⟨sc4, hins, h4, hl4, hsame4, -⟩ := insfree_spec h3 hl3 hal3 halone
  refine ⟨sc4, ?_, h4, ?_, ?_⟩
  · rw [ha2] at hmp
    simp only [SmfSc.freeSmf, smf_append hl h.addrs, Option.bind_eq_bind, Option.bind_some, hal, Bool.true_eq_false,
      ite_false, Nat.ne_of_gt hsz.1, hsz.2, ne_eq, not_true_eq_false, modify_append hl h.addrs]
    rw [hmn, Option.bind_some, hmp, Option.bind_some]
    exact hins
  · have hsame := (hsame2.trans hsame3).trans hsame4
    exact ⟨hsame.pagesize, hsame.filesize, hsame.gBytes, hsame.gSpace⟩
  · have hb : busy ({ c3 with flist := some (sc3.bucket c3.size) } :: post2) = busy post2 := busy_cons_free hal3
    rw [hl4, busy_append, hb, hbusy3, hbusy2]

lemma firstFree_spec {n b a : Nat} (h : sc.firstFree n b = some a) : ∃ b', b ≤ b' ∧ b' < b + n ∧ a ∈ sc.free b' := by
  induction n generalizing b with
  | zero => cases h
  | succ n ih =>
    simp only [SmfSc.firstFree] at h
    cases hh : (sc.free b).head? with
    | some a' =>
      rw [hh] at h
      cases h
      exact ⟨b, le_rfl, by omega, List.mem_of_mem_head? hh⟩
    | none =>
      rw [hh] at h
      obtain ⟨b', h1, h2, h3⟩ := ih h
      exact ⟨b', by omega, by omega, h3⟩

lemma firstLarge_spec (h : SmfInv sc maps x) (bytes : Nat) {b : Nat} {l : List Nat} (hl : ∀ a ∈ l, a ∈ sc.free b) :
    ∃ r, sc.firstLarge bytes l = some r ∧
      ∀ a, r = some a → ∃ c ∈ sc.order, c.addr = a ∧ c.flist = some b ∧ bytes ≤ c.size := by
  induction l with
  | nil => exact ⟨none, rfl, by simp⟩
  | cons a l ih =>
    obtain ⟨d, hd, hda, hdb⟩ := (h.frees b a).mp (hl a List.mem_cons_self)
    obtain ⟨pre, post, hsplit⟩ := List.append_of_mem hd
    have hsmf : sc.smf a = some d := by rw [← hda, smf_append hsplit h.addrs]
    by_cases hle : bytes ≤ d.size
    · refine ⟨some a, by simp [SmfSc.firstLarge, hsmf, hle], fun a' ha' => ?_⟩
      cases ha'
      exact ⟨d, hd, hda, hdb, hle⟩
    · obtain ⟨r, hr, hspec⟩ := ih (fun a' ha' => hl a' (List.mem_cons_of_mem _ ha'))
      exact ⟨r, by simp [SmfSc.firstLarge, hsmf, hle, hr], hspec⟩

/-- The chunk that `alloc_smf` picks is free and large enough. -/
lemma pickFree_spec (h : SmfInv sc maps []) {bytes : Nat} (hpage : bytes % sc.pagesize = 0) :
    ∃ r, sc.pickFree bytes = some r ∧
      ∀ a, r = some a → ∃ c ∈ sc.order, c.addr = a ∧ c.alloc = false ∧ bytes ≤ c.size := by
  unfold SmfSc.pickFree
  cases hf : sc.firstFree (nbucket - 1 - sc.bucket bytes) (sc.bucket bytes) with
  | some a =>
    refine ⟨some a, by simp [hf], fun a' ha' => ?_⟩
    cases ha'
    obtain ⟨b, hb1, hb2, hmem⟩ := firstFree_spec hf
    obtain ⟨c, hc, hca, hcb⟩ := (h.frees b a).mp hmem
    obtain ⟨hal, -, hsz⟩ := h.listed hc hcb
    refine ⟨c, hc, hca, hal, ?_⟩
    have hbytes : bytes / sc.pagesize = sc.bucket bytes := by
      unfold SmfSc.bucket at hb1 hb2 ⊢
      omega
    calc bytes = bytes / sc.pagesize * sc.pagesize := (Nat.div_mul_cancel (Nat.dvd_of_mod_eq_zero hpage)).symm
      _ ≤ b * sc.pagesize := Nat.mul_le_mul_right _ (hbytes ▸ hb1)
      _ ≤ c.size := hsz
  | none =>
    obtain ⟨r, hr, hspec⟩ := firstLarge_spec h bytes (fun a (ha : a ∈ sc.free (nbucket - 1)) => ha)
    refine ⟨r, by simp [hf, hr], fun a ha => ?_⟩
    obtain ⟨c, hc, hca, hcb, hle⟩ := hspec a ha
    exact ⟨c, hc, hca, (h.listed hc hcb).1, hle⟩

lemma fresh_not_mem (sc : SmfSc) : sc.fresh ∉ sc.order.map Smf.addr := by
  intro hm
  have hle : ∀ (l : List Nat), ∀ a ∈ l, a ≤ l.foldr max 0 := by
    intro l
    induction l with
    | nil => simp
    | cons b l ih =>
      intro a ha
      rcases List.mem_cons.mp ha with rfl | ha
      · exact le_max_left _ _
      · exact (ih a ha).trans (le_max_right _ _)
  have := hle _ _ hm
  simp only [SmfSc.fresh] at this
  omega

/-- `alloc_smf` keeps the invariant; a chunk of the size asked for comes into use, or nothing changes. -/
lemma allocSmf_spec (h : SmfInv sc maps []) {bytes : Nat} (hn : 0 < bytes) (hpage : bytes % sc.pagesize = 0) :
    ∃ sc1 r, sc.allocSmf bytes = some (sc1, r) ∧ SmfInv sc1 maps [] ∧ SmfSame sc sc1 ∧ (r = none → sc1 = sc) ∧
      ∀ a, r = some a → ∃ pre c post, sc1.order = pre ++ c :: post ∧ c.addr = a ∧ c.size = bytes ∧ c.alloc = true ∧
        busy sc.order = busy pre ++ busy post := by
  obtain ⟨r, hr, hspec⟩ := pickFree_spec h hpage
  cases r with
  | none =>
    refine ⟨sc, none, by simp [SmfSc.allocSmf, hpage, hr], h, ⟨rfl, rfl, rfl, rfl⟩, fun _ => rfl, ?_⟩
    intro a ha
    cases ha
  | some a =>
    obtain ⟨c, hc, rfl, hal, hle⟩ := hspec a rfl
    obtain ⟨pre, post, hl⟩ := List.append_of_mem hc
    obtain ⟨sc1, hrem, h1, hl1, hsame1, hused1⟩ := remfree_spec h hl hal (by simp)
    have hbusy : busy sc.order = busy pre ++ busy post := by rw [hl, busy_append, busy_cons_free hal]
    by_cases heq : c.size = bytes
    · have hcnot : c.addr ∉ sc1.used := by
        intro hu
        obtain ⟨d, hd, hda, hdal⟩ := (h1.used _).mp hu
        have hd' := h1.addr_inj hd (d := { c with flist := none }) (by rw [hl1]; simp) hda
        rw [hd'] at hdal
        exact absurd (hal.symm.trans hdal) (by simp)
      have h2 : SmfInv { sc1 with
          order := pre ++ { c with flist := none, alloc := true } :: post, used := sc1.used ++ [c.addr] } maps [] :=
        h1.touch hl1 rfl rfl rfl rfl
          (fun a => by
            simp only [List.mem_append, List.mem_singleton, and_true]
            exact or_congr_left ⟨fun ha => ⟨ha, fun e => hcnot (e ▸ ha)⟩, fun ha => ha.1⟩)
          (List.nodup_append.mpr ⟨h1.usedOnce, List.nodup_singleton _, by
            intro a ha b hb e
            rw [List.mem_singleton.mp hb] at e
            exact hcnot (e ▸ ha)⟩) (Or.inl rfl) (fun a ha => by simp [ha])
      refine ⟨_, some c.addr, ?_, h2, ⟨hsame1.pagesize, hsame1.filesize, hsame1.gBytes, hsame1.gSpace⟩, by simp, ?_⟩
      · have hmod := modify_append hl1 h1.addrs (fun d => { d with alloc := true })
        simp only at hmod
        simp [SmfSc.allocSmf, hpage, hr, smf_append hl h.addrs, heq, hrem, hmod]
      · intro a ha
        cases ha
        exact ⟨pre, _, post, rfl, rfl, heq, rfl, hbusy⟩
    · have hlt : bytes < c.size := lt_of_le_of_ne hle (Ne.symm heq)
      have h2 := h1.cut (c := { c with flist := none })
        (f := { c with flist := none, addr := sc1.fresh, size := bytes, alloc := true })
        (b := { c with flist := none, offset := c.offset + bytes, ptr := c.ptr + bytes, size := c.size - bytes })
        (n := bytes) hl1 rfl rfl rfl hn hlt (by rw [hsame1.pagesize]; exact hpage) rfl rfl (fresh_not_mem sc1)
        (Or.inl ⟨rfl, rfl, rfl, rfl⟩) (Or.inr (by simp))
      set sc2 : SmfSc := { sc1 with
        order := pre ++ { c with flist := none, addr := sc1.fresh, size := bytes, alloc := true } ::
          { c with flist := none, offset := c.offset + bytes, ptr := c.ptr + bytes, size := c.size - bytes } :: post
        used := sc1.used ++ [sc1.fresh]
        stats := { sc1.stats with gSmf := sc1.stats.gSmf + 1 } } with hsc2
      have hl2 : sc2.order = (pre ++ [{ c with flist := none, addr := sc1.fresh, size := bytes, alloc := true }]) ++
          { c with flist := none, offset := c.offset + bytes, ptr := c.ptr + bytes, size := c.size - bytes } :: post := by
        simp [hsc2]
      have hsplit : sc1.splitFront c.addr bytes = some (sc2, sc1.fresh) := by
        have hloc := locate_append hl1 h1.addrs
        simp only at hloc
        simp [SmfSc.splitFront, hloc, hsc2]
      have halone : Alone (pre ++ [{ c with flist := none, addr := sc1.fresh, size := bytes, alloc := true }])
          { c with flist := none, offset := c.offset + bytes, ptr := c.ptr + bytes, size := c.size - bytes } post := by
        constructor
        · intro d hd hcd
          rw [List.getLast?_append_of_ne_nil _ (by simp)] at hd
          cases hd
          simp at hcd
        · intro d hd hcd
          cases post with
          | nil => cases hd
          | cons e post =>
            have hde : e = d := by simpa using hd
            subst hde
            have hcalm := h.calm
            rw [hl] at hcalm
            have hce := (List.isChain_cons_cons.mp (List.isChain_append.mp hcalm).2.1).1
            refine hce ⟨⟨?_, ?_⟩, h.flist_isSome hc hal (by simp), hcd.2⟩
            · rw [hcd.1.1]
              simp only
              omega
            · rw [hcd.1.2]
              simp only
              omega
      obtain ⟨sc3, hins, h3, hl3, hsame3, -⟩ := insfree_spec
        (c := { c with flist := none, offset := c.offset + bytes, ptr := c.ptr + bytes, size := c.size - bytes })
        h2 hl2 hal halone
      have hins' : sc2.insfree c.addr = some sc3 := hins
      refine ⟨sc3, some sc1.fresh, ?_, h3, ?_, by simp, ?_⟩
      · simp [SmfSc.allocSmf, hpage, hr, smf_append hl h.addrs, heq, not_lt.mpr hle, hrem, hsplit, hins']
      · exact hsame1.trans ⟨hsame3.pagesize, hsame3.filesize, hsame3.gBytes, hsame3.gSpace⟩
      · intro a ha
        cases ha
        refine ⟨pre, _, _, by rw [hl3, List.append_assoc]; rfl, rfl, rfl, rfl, ?_⟩
        rw [hbusy]
        simp [busy, hal]

/-- The rounding of a size that is not just below a multiple of 4 GiB. -/
lemma roundUp_eq {k : Nat} (hk : sc.pagesize = 2 ^ k) (hk32 : k < 32) (size : Nat) :
    sc.roundUp size = (size + (2 ^ k - 1)) % 2 ^ 32 / 2 ^ k * 2 ^ k := by
  have hmask : 2 ^ 32 - 1 - (2 ^ k - 1) = 2 ^ 32 - 2 ^ k := by
    have := Nat.one_le_two_pow (n := k)
    omega
  have hbits : ∀ i, (2 ^ 32 - 2 ^ k).testBit i = (decide (k ≤ i) && decide (i < 32)) := by
    intro i
    have hfac : 2 ^ 32 - 2 ^ k = 2 ^ k * (2 ^ (32 - k) - 1) := by
      rw [Nat.mul_sub, ← pow_add, Nat.add_sub_cancel' hk32.le, Nat.mul_one]
    rw [hfac, Nat.testBit_two_pow_mul, Nat.testBit_two_pow_sub_one]
    by_cases h1 : k ≤ i
    · simp only [h1, decide_true, Bool.true_and, decide_eq_decide]
      omega
    · simp [h1]
  unfold SmfSc.roundUp
  rw [hk, hmask]
  generalize size + (2 ^ k - 1) = y
  refine Nat.eq_of_testBit_eq (fun i => ?_)
  rw [Nat.testBit_and, hbits, Nat.mul_comm, Nat.testBit_two_pow_mul, Nat.testBit_div_two_pow,
    Nat.testBit_mod_two_pow, Nat.testBit_mod_two_pow]
  by_cases h1 : k ≤ i
  · have h2 : i - k + k = i := Nat.sub_add_cancel h1
    simp only [h1, decide_true, Bool.true_and, h2]
    by_cases h3 : i < 32
    · simp [h3, show i < 64 by omega]
    · simp [h3]
  · simp [h1]

end VarnishCache.Proofs
