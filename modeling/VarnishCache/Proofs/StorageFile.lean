import VarnishCache.StorageFile
import VarnishCache.Lib.Tiling

/-!
# The invariant of the file stevedore

`SmfInv sc maps x` is the invariant of the lists and counters. Between `remfree` and `insfree` a
chunk is free and on no free list: `x` has the addresses of those chunks.
-/

namespace VarnishCache.Proofs

open VarnishCache Tiling

lemma locate_append {l pre post : List Smf} {c : Smf} (hl : l = pre ++ c :: post) (hnd : (l.map Smf.addr).Nodup) :
    locate c.addr l = some (pre, c, post) := by
  subst hl
  induction pre with
  | nil => simp [locate]
  | cons d pre ih =>
    simp only [List.cons_append, List.map_cons, List.nodup_cons] at hnd
    have hne : d.addr ≠ c.addr := by
      intro e
      exact hnd.1 (by simp [e])
    simp [locate, hne, ih hnd.2]

def Smf.seg (c : Smf) : Seg := { start := c.ptr, len := c.size, off := c.offset }

def MapRange.seg (r : MapRange) : Seg := { start := r.ptr, len := r.size, off := r.offset }

/-- No two neighbours that are contiguous are both on a free list. -/
def Calm (l : List Smf) : Prop :=
  l.IsChain (fun c d => ¬ (SmfSc.contiguous c d ∧ c.flist.isSome ∧ d.flist.isSome))

structure SmfInv (sc : SmfSc) (maps : List MapRange) (x : List Nat) : Prop where
  page : 0 < sc.pagesize
  addrs : (sc.order.map Smf.addr).Nodup
  sizes : ∀ c ∈ sc.order, 0 < c.size ∧ c.size % sc.pagesize = 0
  sorted : Apart (sc.order.map Smf.seg)
  tiles : ∀ a o, Covers (sc.order.map Smf.seg) a o ↔ Covers (maps.map MapRange.seg) a o
  state : ∀ c ∈ sc.order, c.flist = if c.alloc = true ∨ c.addr ∈ x then none else some (sc.bucket c.size)
  frees : ∀ b a, a ∈ sc.free b ↔ ∃ c ∈ sc.order, c.addr = a ∧ c.flist = some b
  once : ∀ b, (sc.free b).Nodup
  offsets : ∀ b, (sc.free b).Pairwise
    (fun a a' => ∀ c ∈ sc.order, ∀ d ∈ sc.order, c.addr = a → d.addr = a' → c.offset ≤ d.offset)
  used : ∀ a, a ∈ sc.used ↔ ∃ c ∈ sc.order, c.addr = a ∧ c.alloc = true
  usedOnce : sc.used.Nodup
  calm : Calm sc.order
  gSmf : sc.stats.gSmf = sc.order.length
  gFrag : sc.stats.gSmfFrag = sc.order.countP (fun c => c.flist.isSome && decide (c.size / sc.pagesize < nbucket))
  gLarge : sc.stats.gSmfLarge = sc.order.countP (fun c => c.flist.isSome && decide (nbucket ≤ c.size / sc.pagesize))

variable {sc sc' : SmfSc} {maps maps' : List MapRange} {x x' : List Nat} {pre post : List Smf} {c : Smf} {v : Option Nat}

lemma SmfInv.addr_inj (h : SmfInv sc maps x) {c d : Smf} (hc : c ∈ sc.order) (hd : d ∈ sc.order)
    (e : c.addr = d.addr) : c = d :=
  List.inj_on_of_nodup_map h.addrs hc hd e

lemma smf_append (hl : sc.order = pre ++ c :: post) (hnd : (sc.order.map Smf.addr).Nodup) :
    sc.smf c.addr = some c := by
  simp [SmfSc.smf, locate_append hl hnd]

lemma modify_append (hl : sc.order = pre ++ c :: post) (hnd : (sc.order.map Smf.addr).Nodup) (f : Smf → Smf) :
    sc.modify c.addr f = { sc with order := pre ++ f c :: post } := by
  simp [SmfSc.modify, locate_append hl hnd]

/-- A chain is not broken by members that relate to everything. -/
lemma isChain_replace {α : Type} {R : α → α → Prop} {pre old mid post : List α}
    (h : (pre ++ old ++ post).IsChain R) (hl : ∀ m ∈ mid, ∀ d, R m d) (hr : ∀ m ∈ mid, ∀ d, R d m) (hne : mid ≠ []) :
    (pre ++ mid ++ post).IsChain R := by
  rw [List.append_assoc] at h ⊢
  obtain ⟨hpre, hrest, -⟩ := List.isChain_append.mp h
  obtain ⟨-, hpost, -⟩ := List.isChain_append.mp hrest
  refine List.isChain_append.mpr ⟨hpre, List.isChain_append.mpr ⟨?_, hpost, ?_⟩, ?_⟩
  · clear hne
    induction mid with
    | nil => exact List.isChain_nil
    | cons m mid ih =>
      cases mid with
      | nil => exact List.isChain_singleton m
      | cons m' mid =>
        refine List.isChain_cons_cons.mpr ⟨hl m (by simp) m', ih ?_ ?_⟩
        · exact fun n hn => hl n (List.mem_cons_of_mem _ hn)
        · exact fun n hn => hr n (List.mem_cons_of_mem _ hn)
  · exact fun m hm d _ => hl m (List.mem_of_getLast? hm) d
  · intro d _ m hm
    rw [List.head?_append_of_ne_nil _ hne] at hm
    exact hr m (List.mem_of_mem_head? hm) d

lemma Calm.replace {old mid : List Smf} (h : Calm (pre ++ old ++ post)) (hmid : ∀ c ∈ mid, c.flist = none)
    (hne : mid ≠ []) : Calm (pre ++ mid ++ post) := by
  refine isChain_replace h (fun m hm d hc => ?_) (fun m hm d hc => ?_) hne
  · rw [hmid m hm] at hc
    simp at hc
  · rw [hmid m hm] at hc
    simp at hc

lemma countP_none {l : List Smf} (h : ∀ c ∈ l, c.flist = none) (q : Smf → Bool) :
    l.countP (fun c => c.flist.isSome && q c) = 0 := by
  refine List.countP_eq_zero.mpr (fun c hc => ?_)
  simp [h c hc]

lemma mem_mid {α : Type} {pre mid post : List α} {c : α} :
    c ∈ pre ++ mid ++ post ↔ c ∈ mid ∨ c ∈ pre ++ post := by
  simp only [List.mem_append]
  tauto

/-- Chunks that are on no free list, `old`, give way to others that are on none, `mid`. -/
structure Replaces (sc sc' : SmfSc) (pre old mid post : List Smf) : Prop where
  before : sc.order = pre ++ old ++ post
  after : sc'.order = pre ++ mid ++ post
  oldNone : ∀ c ∈ old, c.flist = none
  midNone : ∀ c ∈ mid, c.flist = none
  nonempty : mid ≠ []
  pagesize : sc'.pagesize = sc.pagesize
  free : sc'.free = sc.free
  addrs : (sc'.order.map Smf.addr).Nodup
  sizes : ∀ c ∈ mid, 0 < c.size ∧ c.size % sc.pagesize = 0
  sorted : Apart (sc'.order.map Smf.seg)
  used : ∀ a, a ∈ sc'.used ↔ (a ∈ sc.used ∧ ∀ c ∈ old, c.addr ≠ a) ∨ ∃ c ∈ mid, c.addr = a ∧ c.alloc = true
  usedOnce : sc'.used.Nodup
  gSmf : sc'.stats.gSmf = sc.stats.gSmf + mid.length - old.length
  gFrag : sc'.stats.gSmfFrag = sc.stats.gSmfFrag
  gLarge : sc'.stats.gSmfLarge = sc.stats.gSmfLarge

lemma SmfInv.replace (h : SmfInv sc maps x) {old mid : List Smf} (hr : Replaces sc sc' pre old mid post)
    (htiles : ∀ a o, Covers (sc'.order.map Smf.seg) a o ↔ Covers (maps'.map MapRange.seg) a o)
    (hx : ∀ c ∈ mid, c.alloc = true ∨ c.addr ∈ x')
    (hrest : ∀ c ∈ pre ++ post, c.addr ∈ x ↔ c.addr ∈ x') : SmfInv sc' maps' x' := by
  have hnd := hr.addrs
  rw [hr.after] at hnd
  have hmem : ∀ c, c ∈ sc.order ↔ c ∈ old ∨ c ∈ pre ++ post := fun c => by rw [hr.before, mem_mid]
  have hmem' : ∀ c, c ∈ sc'.order ↔ c ∈ mid ∨ c ∈ pre ++ post := fun c => by rw [hr.after, mem_mid]
  have hlisted : ∀ b c, c ∈ sc'.order ∧ c.flist = some b ↔ c ∈ sc.order ∧ c.flist = some b := by
    intro b c
    rw [hmem, hmem']
    constructor
    · rintro ⟨hc | hc, hb⟩
      · rw [hr.midNone c hc] at hb
        cases hb
      · exact ⟨Or.inr hc, hb⟩
    · rintro ⟨hc | hc, hb⟩
      · rw [hr.oldNone c hc] at hb
        cases hb
      · exact ⟨Or.inr hc, hb⟩
  have hfrees : ∀ b a, a ∈ sc'.free b ↔ ∃ c ∈ sc'.order, c.addr = a ∧ c.flist = some b := by
    intro b a
    rw [hr.free, h.frees]
    constructor
    · rintro ⟨c, hc, ha, hb⟩
      exact ⟨c, ((hlisted b c).mpr ⟨hc, hb⟩).1, ha, hb⟩
    · rintro ⟨c, hc, ha, hb⟩
      exact ⟨c, ((hlisted b c).mp ⟨hc, hb⟩).1, ha, hb⟩
  have hinj : ∀ c ∈ sc'.order, ∀ d ∈ sc'.order, c.addr = d.addr → c = d :=
    fun c hc d hd e => List.inj_on_of_nodup_map hr.addrs hc hd e
  refine ⟨by rw [hr.pagesize]; exact h.page, hr.addrs, ?_, hr.sorted, htiles, ?_, hfrees, ?_, ?_, ?_, hr.usedOnce, ?_,
    ?_, ?_, ?_⟩
  · intro c hc
    rw [hr.pagesize]
    rcases (hmem' c).mp hc with hc | hc
    · exact hr.sizes c hc
    · exact h.sizes c ((hmem c).mpr (Or.inr hc))
  · intro c hc
    rcases (hmem' c).mp hc with hc | hc
    · rw [hr.midNone c hc, if_pos (hx c hc)]
    · have hs := h.state c ((hmem c).mpr (Or.inr hc))
      simp only [hs, hrest c hc, SmfSc.bucket, hr.pagesize]
  · rw [hr.free]
    exact h.once
  · intro b
    rw [hr.free]
    refine (h.offsets b).imp_of_mem (fun {a a'} ha ha' hle c hc d hd hca hda => ?_)
    rw [← hr.free] at ha ha'
    obtain ⟨c', hc', hca', hb⟩ := (hfrees b a).mp ha
    obtain ⟨d', hd', hda', hb'⟩ := (hfrees b a').mp ha'
    have e1 := hinj c hc c' hc' (hca.trans hca'.symm)
    have e2 := hinj d hd d' hd' (hda.trans hda'.symm)
    subst e1 e2
    exact hle c ((hlisted b c).mp ⟨hc', hb⟩).1 d ((hlisted b d).mp ⟨hd', hb'⟩).1 hca hda
  · intro a
    rw [hr.used, h.used]
    constructor
    · rintro (⟨⟨c, hc, hca, hal⟩, hno⟩ | ⟨c, hc, hca, hal⟩)
      · rcases (hmem c).mp hc with hc | hc
        · exact absurd hca (hno c hc)
        · exact ⟨c, (hmem' c).mpr (Or.inr hc), hca, hal⟩
      · exact ⟨c, (hmem' c).mpr (Or.inl hc), hca, hal⟩
    · rintro ⟨c, hc, hca, hal⟩
      rcases (hmem' c).mp hc with hc | hc
      · exact Or.inr ⟨c, hc, hca, hal⟩
      · refine Or.inl ⟨⟨c, (hmem c).mpr (Or.inr hc), hca, hal⟩, fun d hd hda => ?_⟩
        have e := h.addr_inj ((hmem d).mpr (Or.inl hd)) ((hmem c).mpr (Or.inr hc)) (hda.trans hca.symm)
        subst e
        have hdis := h.addrs
        rw [hr.before, List.map_append, List.map_append, List.nodup_append, List.nodup_append] at hdis
        rcases List.mem_append.mp hc with hc | hc
        · exact hdis.1.2.2 d.addr (List.mem_map_of_mem hc) d.addr (List.mem_map_of_mem hd) rfl
        · exact hdis.2.2 d.addr (List.mem_append_right _ (List.mem_map_of_mem hd)) d.addr (List.mem_map_of_mem hc) rfl
  · have hcalm := h.calm
    rw [hr.before] at hcalm
    rw [hr.after]
    exact hcalm.replace hr.midNone hr.nonempty
  · rw [hr.gSmf, h.gSmf, hr.before, hr.after]
    simp only [List.length_append]
    push_cast
    ring
  · rw [hr.gFrag, h.gFrag, hr.before, hr.after, hr.pagesize]
    simp only [List.countP_append, countP_none hr.oldNone, countP_none hr.midNone]
  · rw [hr.gLarge, h.gLarge, hr.before, hr.after, hr.pagesize]
    simp only [List.countP_append, countP_none hr.oldNone, countP_none hr.midNone]

/-- The other chunks have other addresses. -/
lemma SmfInv.addr_ne (h : SmfInv sc maps x) (hl : sc.order = pre ++ c :: post) {d : Smf} (hd : d ∈ pre ++ post) :
    d.addr ≠ c.addr := by
  intro e
  have hnd := h.addrs
  rw [hl, List.map_append, List.map_cons] at hnd
  have hni := (List.nodup_cons.mp (List.perm_middle.nodup_iff.mp hnd)).1
  rw [← List.map_append] at hni
  exact hni (e ▸ List.mem_map_of_mem hd)

/-- The chunk `c` changes from the free list it is on to `v`. -/
structure Relists (sc sc' : SmfSc) (pre : List Smf) (c : Smf) (post : List Smf) (v : Option Nat) : Prop where
  before : sc.order = pre ++ c :: post
  after : sc'.order = pre ++ { c with flist := v } :: post
  pagesize : sc'.pagesize = sc.pagesize
  used : sc'.used = sc.used
  free : ∀ b a, a ∈ sc'.free b ↔ (a ∈ sc.free b ∧ a ≠ c.addr) ∨ (a = c.addr ∧ v = some b)
  once : ∀ b, (sc'.free b).Nodup
  offsets : ∀ b, (sc'.free b).Pairwise
    (fun a a' => ∀ c ∈ sc.order, ∀ d ∈ sc.order, c.addr = a → d.addr = a' → c.offset ≤ d.offset)
  gSmf : sc'.stats.gSmf = sc.stats.gSmf

lemma Relists.mem (hr : Relists sc sc' pre c post v) (d : Smf) :
    d ∈ sc'.order ↔ d = { c with flist := v } ∨ d ∈ pre ++ post := by
  rw [hr.after]
  simp only [List.mem_append, List.mem_cons]
  tauto

lemma Relists.addrs (hr : Relists sc sc' pre c post v) : sc'.order.map Smf.addr = sc.order.map Smf.addr := by
  rw [hr.before, hr.after]
  simp

lemma Relists.segs (hr : Relists sc sc' pre c post v) : sc'.order.map Smf.seg = sc.order.map Smf.seg := by
  rw [hr.before, hr.after]
  simp [Smf.seg]

lemma SmfInv.relist (h : SmfInv sc maps x) (hr : Relists sc sc' pre c post v)
    (hv : v = if c.alloc = true ∨ c.addr ∈ x' then none else some (sc.bucket c.size))
    (hrest : ∀ d ∈ pre ++ post, d.addr ∈ x ↔ d.addr ∈ x')
    (hcalm : Calm sc'.order)
    (hfrag : sc'.stats.gSmfFrag =
      sc'.order.countP (fun c => c.flist.isSome && decide (c.size / sc.pagesize < nbucket)))
    (hlarge : sc'.stats.gSmfLarge =
      sc'.order.countP (fun c => c.flist.isSome && decide (nbucket ≤ c.size / sc.pagesize))) :
    SmfInv sc' maps x' := by
  have hmem : ∀ d, d ∈ sc.order ↔ d = c ∨ d ∈ pre ++ post := by
    intro d
    rw [hr.before]
    simp only [List.mem_append, List.mem_cons]
    tauto
  have hcmem : c ∈ sc.order := (hmem c).mpr (Or.inl rfl)
  refine ⟨by rw [hr.pagesize]; exact h.page, by rw [hr.addrs]; exact h.addrs, ?_, by rw [hr.segs]; exact h.sorted,
    by rw [hr.segs]; exact h.tiles, ?_, ?_, hr.once, ?_, ?_, by rw [hr.used]; exact h.usedOnce, hcalm, ?_, ?_, ?_⟩
  · intro d hd
    rw [hr.pagesize]
    rcases (hr.mem d).mp hd with rfl | hd
    · exact h.sizes c hcmem
    · exact h.sizes d ((hmem d).mpr (Or.inr hd))
  · intro d hd
    have hb : ∀ n, sc'.bucket n = sc.bucket n := fun n => by simp only [SmfSc.bucket, hr.pagesize]
    rcases (hr.mem d).mp hd with rfl | hd
    · simpa only [hb] using hv
    · simp only [h.state d ((hmem d).mpr (Or.inr hd)), hrest d hd, hb]
  · intro b a
    rw [hr.free, h.frees]
    constructor
    · rintro (⟨⟨d, hd, hda, hdb⟩, hac⟩ | ⟨hac, hvb⟩)
      · rcases (hmem d).mp hd with rfl | hd
        · exact absurd hda.symm hac
        · exact ⟨d, (hr.mem d).mpr (Or.inr hd), hda, hdb⟩
      · exact ⟨_, (hr.mem _).mpr (Or.inl rfl), hac.symm, hvb⟩
    · rintro ⟨d, hd, hda, hdb⟩
      rcases (hr.mem d).mp hd with rfl | hd
      · exact Or.inr ⟨hda.symm, hdb⟩
      · exact Or.inl ⟨⟨d, (hmem d).mpr (Or.inr hd), hda, hdb⟩, fun e => h.addr_ne hr.before hd (hda.trans e)⟩
  · intro b
    have hback : ∀ d ∈ sc'.order, ∃ d' ∈ sc.order, d'.addr = d.addr ∧ d'.offset = d.offset := by
      intro d hd
      rcases (hr.mem d).mp hd with rfl | hd
      · exact ⟨c, hcmem, rfl, rfl⟩
      · exact ⟨d, (hmem d).mpr (Or.inr hd), rfl, rfl⟩
    refine (hr.offsets b).imp (fun {a a'} hle d hd e he hda hea => ?_)
    obtain ⟨d', hd', e1, e2⟩ := hback d hd
    obtain ⟨e', he', e3, e4⟩ := hback e he
    rw [← e2, ← e4]
    exact hle d' hd' e' he' (e1.trans hda) (e3.trans hea)
  · intro a
    rw [hr.used, h.used]
    constructor
    · rintro ⟨d, hd, hda, hal⟩
      rcases (hmem d).mp hd with rfl | hd
      · exact ⟨_, (hr.mem _).mpr (Or.inl rfl), hda, hal⟩
      · exact ⟨d, (hr.mem d).mpr (Or.inr hd), hda, hal⟩
    · rintro ⟨d, hd, hda, hal⟩
      rcases (hr.mem d).mp hd with rfl | hd
      · exact ⟨c, hcmem, hda, hal⟩
      · exact ⟨d, (hmem d).mpr (Or.inr hd), hda, hal⟩
  · rw [hr.gSmf, h.gSmf, hr.before, hr.after]
    simp
  · rw [hr.pagesize]
    exact hfrag
  · rw [hr.pagesize]
    exact hlarge

/-- What the list operations leave alone. -/
structure SmfSame (sc sc' : SmfSc) : Prop where
  pagesize : sc'.pagesize = sc.pagesize
  filesize : sc'.filesize = sc.filesize
  gBytes : sc'.stats.gBytes = sc.stats.gBytes
  gSpace : sc'.stats.gSpace = sc.stats.gSpace

lemma SmfSame.trans {sc'' : SmfSc} (h : SmfSame sc sc') (h' : SmfSame sc' sc'') : SmfSame sc sc'' :=
  ⟨h'.pagesize.trans h.pagesize, h'.filesize.trans h.filesize, h'.gBytes.trans h.gBytes, h'.gSpace.trans h.gSpace⟩

lemma countFree_frag (sc : SmfSc) (n : Nat) (d : Int) :
    (sc.countFree n d).gSmfFrag = sc.stats.gSmfFrag + (if n / sc.pagesize < nbucket then d else 0) := by
  unfold SmfSc.countFree
  by_cases h : nbucket ≤ n / sc.pagesize
  · simp [h, Nat.not_lt.mpr h]
  · simp [h, Nat.not_le.mp h]

lemma countFree_large (sc : SmfSc) (n : Nat) (d : Int) :
    (sc.countFree n d).gSmfLarge = sc.stats.gSmfLarge + (if nbucket ≤ n / sc.pagesize then d else 0) := by
  unfold SmfSc.countFree
  by_cases h : nbucket ≤ n / sc.pagesize
  · simp [h]
  · simp [h]

lemma countFree_rest (sc : SmfSc) (n : Nat) (d : Int) : (sc.countFree n d).gSmf = sc.stats.gSmf ∧
    (sc.countFree n d).gBytes = sc.stats.gBytes ∧ (sc.countFree n d).gSpace = sc.stats.gSpace := by
  unfold SmfSc.countFree
  split <;> exact ⟨rfl, rfl, rfl⟩

lemma countP_mid (p : Smf → Bool) (pre : List Smf) (c : Smf) (post : List Smf) :
    (((pre ++ c :: post).countP p : Nat) : Int) = pre.countP p + post.countP p + (if p c then 1 else 0) := by
  simp only [List.countP_append, List.countP_cons]
  push_cast
  ring

lemma remfree_spec (h : SmfInv sc maps x) (hl : sc.order = pre ++ c :: post) (hal : c.alloc = false) (hx : c.addr ∉ x) :
    ∃ sc1, sc.remfree c.addr = some sc1 ∧ SmfInv sc1 maps (c.addr :: x) ∧
      sc1.order = pre ++ { c with flist := none } :: post ∧ SmfSame sc sc1 ∧ sc1.used = sc.used := by
  have hcmem : c ∈ sc.order := by rw [hl]; simp
  have hst : c.flist = some (sc.bucket c.size) := by simpa [hal, hx] using h.state c hcmem
  obtain ⟨hg, hb, hs⟩ := countFree_rest sc c.size (-1)
  refine ⟨{ sc with
      order := pre ++ { c with flist := none } :: post
      free := Function.update sc.free (sc.bucket c.size) ((sc.free (sc.bucket c.size)).erase c.addr)
      stats := sc.countFree c.size (-1) }, ?_, ?_, rfl, ⟨rfl, rfl, hb, hs⟩, rfl⟩
  · simp [SmfSc.remfree, smf_append hl h.addrs, hal, hst, modify_append hl h.addrs]
  · have hfree : ∀ b a, a ∈ Function.update sc.free (sc.bucket c.size) ((sc.free (sc.bucket c.size)).erase c.addr) b ↔
        a ∈ sc.free b ∧ a ≠ c.addr := by
      intro b a
      by_cases hb : b = sc.bucket c.size
      · subst hb
        rw [Function.update_self, (h.once _).mem_erase_iff, and_comm]
      · rw [Function.update_of_ne hb]
        refine ⟨fun ha => ⟨ha, ?_⟩, fun ha => ha.1⟩
        rintro rfl
        obtain ⟨d, hd, hda, hdb⟩ := (h.frees b c.addr).mp ha
        rw [h.addr_inj hd hcmem hda, hst] at hdb
        exact hb (Option.some.inj hdb).symm
    have hsub : ∀ b, (Function.update sc.free (sc.bucket c.size)
        ((sc.free (sc.bucket c.size)).erase c.addr) b).Sublist (sc.free b) := by
      intro b
      by_cases hb : b = sc.bucket c.size
      · subst hb
        rw [Function.update_self]
        exact List.erase_sublist
      · rw [Function.update_of_ne hb]
    refine h.relist (v := none) ⟨hl, rfl, rfl, rfl, fun b a => ?_, fun b => (hsub b).nodup (h.once b),
      fun b => (h.offsets b).sublist (hsub b), hg⟩ ?_ ?_ ?_ ?_ ?_
    · simp [hfree]
    · simp
    · intro d hd
      simp [h.addr_ne hl hd]
    · have hcalm : Calm (pre ++ [c] ++ post) := by
        rw [List.append_assoc, List.singleton_append, ← hl]
        exact h.calm
      have hmid : Calm (pre ++ [{ c with flist := none }] ++ post) := hcalm.replace (by simp) (by simp)
      simpa using hmid
    · have hold := h.gFrag
      rw [hl, countP_mid] at hold
      rw [countFree_frag, hold, countP_mid]
      simp only [hst, Option.isSome_some, Option.isSome_none, Bool.true_and, Bool.false_and, decide_eq_true_eq]
      split <;> simp
    · have hold := h.gLarge
      rw [hl, countP_mid] at hold
      rw [countFree_large, hold, countP_mid]
      simp only [hst, Option.isSome_some, Option.isSome_none, Bool.true_and, Bool.false_and, decide_eq_true_eq]
      split <;> simp

/-- A chunk on free list `b` is free and has at least the size that the list is for. -/
lemma SmfInv.listed (h : SmfInv sc maps x) {d : Smf} (hd : d ∈ sc.order) {b : Nat} (hb : d.flist = some b) :
    d.alloc = false ∧ b = sc.bucket d.size ∧ b * sc.pagesize ≤ d.size := by
  have hst := h.state d hd
  rw [hb] at hst
  split at hst
  · cases hst
  · rename_i hn
    have hbe := Option.some.inj hst
    refine ⟨by simpa using fun e => hn (Or.inl e), hbe, ?_⟩
    rw [hbe]
    exact (Nat.mul_le_mul_right _ (Nat.min_le_left _ _)).trans (Nat.div_mul_le_self _ _)

/-- `insfree` finds its place: the chunk goes in front of the first one behind it. -/
lemma insertFree_spec (h : SmfInv sc maps x) (sp : Smf) (b : Nat) {l : List Nat} (hl : ∀ a ∈ l, a ∈ sc.free b)
    (hs : l.Pairwise (fun a a' => ∀ c ∈ sc.order, ∀ d ∈ sc.order, c.addr = a → d.addr = a' → c.offset ≤ d.offset))
    (hsp : ∀ c ∈ sc.order, c.addr = sp.addr → c.offset = sp.offset) :
    ∃ l', sc.insertFree sp b l = some l' ∧ l'.Perm (sp.addr :: l) ∧
      l'.Pairwise (fun a a' => ∀ c ∈ sc.order, ∀ d ∈ sc.order, c.addr = a → d.addr = a' → c.offset ≤ d.offset) := by
  induction l with
  | nil => exact ⟨[sp.addr], rfl, List.Perm.refl _, List.pairwise_singleton _ _⟩
  | cons a l ih =>
    obtain ⟨d, hd, hda, hdb⟩ := (h.frees b a).mp (hl a List.mem_cons_self)
    obtain ⟨hal, -, hsz⟩ := h.listed hd hdb
    obtain ⟨pre, post, hsplit⟩ := List.append_of_mem hd
    have hsmf : sc.smf a = some d := by rw [← hda, smf_append hsplit h.addrs]
    obtain ⟨hhead, htail⟩ := List.pairwise_cons.mp hs
    simp only [SmfSc.insertFree, hsmf, Option.bind_eq_bind, Option.bind_some, hsz, not_true_eq_false, ite_false, hal,
      Bool.false_eq_true, hdb, ne_eq]
    by_cases hlt : sp.offset < d.offset
    · refine ⟨sp.addr :: a :: l, by simp [hlt], List.Perm.refl _,
        List.pairwise_cons.mpr ⟨fun a' ha' c hc e he hca hea => ?_, hs⟩⟩
      rw [hsp c hc hca]
      rcases List.mem_cons.mp ha' with rfl | ha'
      · rw [h.addr_inj he hd (hea.trans hda.symm)]
        exact hlt.le
      · exact hlt.le.trans (hhead a' ha' d hd e he hda hea)
    · obtain ⟨l', hl', hperm, hpw⟩ := ih (fun a' ha' => hl a' (List.mem_cons_of_mem _ ha')) htail
      refine ⟨a :: l', by simp [hlt, hl'], (hperm.cons a).trans (List.Perm.swap sp.addr a l), ?_⟩
      refine List.pairwise_cons.mpr ⟨fun a' ha' c hc e he hca hea => ?_, hpw⟩
      have hcd := h.addr_inj hc hd (hca.trans hda.symm)
      subst hcd
      rcases List.mem_cons.mp (hperm.mem_iff.mp ha') with rfl | ha'
      · rw [hsp e he hea]
        omega
      · exact hhead a' ha' c hc e he hca hea

/-- A chunk may be put on a free list when no contiguous neighbour is on one. -/
def Alone (pre : List Smf) (c : Smf) (post : List Smf) : Prop :=
  (∀ d, pre.getLast? = some d → ¬ (SmfSc.contiguous d c ∧ d.flist.isSome)) ∧
    ∀ d, post.head? = some d → ¬ (SmfSc.contiguous c d ∧ d.flist.isSome)

lemma Calm.insert (h : Calm (pre ++ c :: post)) (halone : Alone pre c post) (v : Option Nat) :
    Calm (pre ++ { c with flist := v } :: post) := by
  obtain ⟨hpre, hrest, -⟩ := List.isChain_append.mp h
  refine List.isChain_append.mpr ⟨hpre, ?_, ?_⟩
  · cases post with
    | nil => exact List.isChain_singleton _
    | cons d post =>
      obtain ⟨-, hpost⟩ := List.isChain_cons_cons.mp hrest
      refine List.isChain_cons_cons.mpr ⟨fun hc => ?_, hpost⟩
      exact halone.2 d rfl ⟨hc.1, hc.2.2⟩
  · intro d hd e he hc
    have hec : e = { c with flist := v } := by simpa using he.symm
    subst hec
    exact halone.1 d hd ⟨hc.1, hc.2.1⟩

lemma insfree_spec (h : SmfInv sc maps [c.addr]) (hl : sc.order = pre ++ c :: post) (hal : c.alloc = false)
    (halone : Alone pre c post) :
    ∃ sc1, sc.insfree c.addr = some sc1 ∧ SmfInv sc1 maps [] ∧
      sc1.order = pre ++ { c with flist := some (sc.bucket c.size) } :: post ∧ SmfSame sc sc1 ∧ sc1.used = sc.used := by
  have hcmem : c ∈ sc.order := by rw [hl]; simp
  have hst : c.flist = none := by simpa using h.state c hcmem
  obtain ⟨hg, hb, hs⟩ := countFree_rest sc c.size 1
  obtain ⟨l, hl', hperm, hpw⟩ := insertFree_spec h c (sc.bucket c.size) (fun a ha => ha) (h.offsets _)
    (fun d hd e => by rw [h.addr_inj hd hcmem e])
  have hnot : c.addr ∉ sc.free (sc.bucket c.size) := by
    intro hmem
    obtain ⟨d, hd, hda, hdb⟩ := (h.frees _ _).mp hmem
    rw [h.addr_inj hd hcmem hda, hst] at hdb
    cases hdb
  refine ⟨{ sc with
      order := pre ++ { c with flist := some (sc.bucket c.size) } :: post
      free := Function.update sc.free (sc.bucket c.size) l
      stats := sc.countFree c.size 1 }, ?_, ?_, rfl, ⟨rfl, rfl, hb, hs⟩, rfl⟩
  · simp [SmfSc.insfree, smf_append hl h.addrs, hal, hst, modify_append hl h.addrs, hl']
  · refine h.relist (v := some (sc.bucket c.size)) ⟨hl, rfl, rfl, rfl, fun b a => ?_, fun b => ?_, fun b => ?_, hg⟩
      ?_ ?_ ?_ ?_ ?_
    · have hne : ∀ b, a ∈ sc.free b → a ≠ c.addr := by
        rintro b ha rfl
        obtain ⟨d, hd, hda, hdb⟩ := (h.frees b _).mp ha
        rw [h.addr_inj hd hcmem hda, hst] at hdb
        cases hdb
      by_cases hbb : b = sc.bucket c.size
      · subst hbb
        simp only [Function.update_self, hperm.mem_iff, List.mem_cons, and_true]
        exact ⟨fun ha => ha.elim Or.inr (fun ha => Or.inl ⟨ha, hne _ ha⟩),
          fun ha => ha.elim (fun ha => Or.inr ha.1) Or.inl⟩
      · simp only [Function.update_of_ne hbb, Option.some.injEq, Ne.symm hbb, and_false, or_false]
        exact ⟨fun ha => ⟨ha, hne b ha⟩, fun ha => ha.1⟩
    · change (Function.update sc.free (sc.bucket c.size) l b).Nodup
      by_cases hbb : b = sc.bucket c.size
      · subst hbb
        rw [Function.update_self, hperm.nodup_iff]
        exact List.nodup_cons.mpr ⟨hnot, h.once _⟩
      · rw [Function.update_of_ne hbb]
        exact h.once b
    · change (Function.update sc.free (sc.bucket c.size) l b).Pairwise _
      by_cases hbb : b = sc.bucket c.size
      · subst hbb
        rw [Function.update_self]
        exact hpw
      · rw [Function.update_of_ne hbb]
        exact h.offsets b
    · simp [hal]
    · intro d hd
      simp [h.addr_ne hl hd]
    · have hcalm := h.calm
      rw [hl] at hcalm
      exact hcalm.insert halone _
    · have hold := h.gFrag
      rw [hl, countP_mid] at hold
      rw [countFree_frag, hold, countP_mid]
      simp [hst]
    · have hold := h.gLarge
      rw [hl, countP_mid] at hold
      rw [countFree_large, hold, countP_mid]
      simp [hst]

lemma contiguous_seg {c d : Smf} : SmfSc.contiguous c d ↔ (Smf.seg c).Meets (Smf.seg d) := Iff.rfl

/-- Two chunks on no free list that are contiguous become one. -/
lemma SmfInv.join (h : SmfInv sc maps x) {c d e : Smf} (hl : sc.order = pre ++ [c, d] ++ post)
    (hc : c.flist = none) (hd : d.flist = none) (hca : c.alloc = false) (hda : d.alloc = false)
    (hcd : SmfSc.contiguous c d) (he : e.flist = none) (hea : e.alloc = false) (headdr : e.addr = c.addr ∨ e.addr = d.addr)
    (heseg : Smf.seg e = (Smf.seg c).join (Smf.seg d)) (hx : ∀ a, a ∈ x ↔ a = c.addr ∨ a = d.addr) :
    SmfInv { sc with
      order := pre ++ e :: post
      stats := { sc.stats with gSmf := sc.stats.gSmf - 1 } } maps [e.addr] := by
  have hnd := h.addrs
  rw [hl] at hnd
  have hperm : (pre ++ [c, d] ++ post).Perm (c :: d :: (pre ++ post)) := by
    rw [List.append_assoc]
    exact List.perm_middle.trans ((List.perm_middle).cons c)
  have hnd' := (hperm.map Smf.addr).nodup_iff.mp hnd
  simp only [List.map_cons, List.nodup_cons] at hnd'
  obtain ⟨hcn, hdn, hpn⟩ := hnd'
  have hcmem : c ∈ sc.order := by rw [hl]; simp
  have hdmem : d ∈ sc.order := by rw [hl]; simp
  have hsize : e.size = c.size + d.size := congrArg Seg.len heseg
  have hstart : e.ptr = c.ptr := congrArg Seg.start heseg
  have hen : e.addr ∉ (pre ++ post).map Smf.addr := by
    rcases headdr with e1 | e1
    · rw [e1]
      exact fun hm => hcn (List.mem_cons_of_mem _ hm)
    · rw [e1]
      exact hdn
  have hused : ∀ a ∈ sc.used, a ≠ c.addr ∧ a ≠ d.addr := by
    intro a ha
    obtain ⟨f, hf, hfa, hfal⟩ := (h.used a).mp ha
    refine ⟨fun e1 => ?_, fun e1 => ?_⟩
    · rw [h.addr_inj hf hcmem (hfa.trans e1), hca] at hfal
      cases hfal
    · rw [h.addr_inj hf hdmem (hfa.trans e1), hda] at hfal
      cases hfal
  have hcov : ∀ a o, Covers ((pre ++ [c, d] ++ post).map Smf.seg) a o ↔ Covers ((pre ++ [e] ++ post).map Smf.seg) a o := by
    intro a o
    simp only [List.map_append]
    refine covers_replace ?_
    simp only [List.map_cons, List.map_nil, covers_cons, heseg, Seg.maps_join (contiguous_seg.mp hcd)]
    tauto
  suffices hr : Replaces sc { sc with
      order := pre ++ e :: post
      stats := { sc.stats with gSmf := sc.stats.gSmf - 1 } } pre [c, d] [e] post by
    refine h.replace hr (fun a o => ?_) (by simp) (fun f hf => ?_)
    · rw [← h.tiles, hl, hcov]
      simp
    · have hfc : f.addr ≠ c.addr := fun e1 => hcn (by rw [← e1]; exact List.mem_cons_of_mem _ (List.mem_map_of_mem hf))
      have hfd : f.addr ≠ d.addr := fun e1 => hdn (by rw [← e1]; exact List.mem_map_of_mem hf)
      have hfe : f.addr ≠ e.addr := fun e1 => hen (by rw [← e1]; exact List.mem_map_of_mem hf)
      simp [hx, hfc, hfd, hfe]
  refine ⟨hl, by simp, ?_, ?_, by simp, rfl, rfl, ?_, ?_, ?_, ?_, h.usedOnce, ?_, rfl, rfl⟩
  · simp [hc, hd]
  · simp [he]
  · change ((pre ++ e :: post).map Smf.addr).Nodup
    rw [List.map_append, List.map_cons]
    refine List.perm_middle.nodup_iff.mpr (List.nodup_cons.mpr ?_)
    rw [← List.map_append]
    exact ⟨hen, hpn⟩
  · intro f hf
    rw [List.mem_singleton.mp hf, hsize, Nat.add_mod, (h.sizes c hcmem).2, (h.sizes d hdmem).2]
    exact ⟨Nat.add_pos_left (h.sizes c hcmem).1 _, by simp⟩
  · have hsort := h.sorted
    rw [hl] at hsort
    simp only [List.map_append] at hsort
    have hnew : Apart (pre.map Smf.seg ++ [Smf.seg e] ++ post.map Smf.seg) :=
      apart_replace hsort (List.pairwise_singleton _ _) ?_ ?_
    · simpa using hnew
    · intro m hm
      rw [List.mem_singleton.mp hm]
      exact ⟨Smf.seg c, by simp, le_of_eq hstart.symm⟩
    · intro m hm
      rw [List.mem_singleton.mp hm]
      refine ⟨Smf.seg d, by simp, ?_⟩
      have h1 : d.ptr = c.ptr + c.size := hcd.1
      simp only [Seg.stop, Smf.seg]
      omega
  · intro a
    simp only [List.mem_cons, List.not_mem_nil, or_false, forall_eq_or_imp, forall_eq, exists_eq_left, hea]
    refine ⟨fun ha => Or.inl ⟨ha, Ne.symm (hused a ha).1, Ne.symm (hused a ha).2⟩, fun ha => ?_⟩
    rcases ha with ha | ha
    · exact ha.1
    · exact absurd ha.2 (by simp)
  · simp only [List.length_cons, List.length_nil]
    push_cast
    ring

/-- A chunk on no free list changes hands: neither its address nor what it maps changes. -/
lemma SmfInv.touch (h : SmfInv sc maps x) {c d : Smf} {used : List Nat} (hl : sc.order = pre ++ c :: post)
    (hc : c.flist = none) (hd : d.flist = none) (haddr : d.addr = c.addr) (hseg : Smf.seg d = Smf.seg c)
    (hused : ∀ a, a ∈ used ↔ (a ∈ sc.used ∧ a ≠ c.addr) ∨ (a = c.addr ∧ d.alloc = true)) (honce : used.Nodup)
    (hx : d.alloc = true ∨ c.addr ∈ x') (hrest : ∀ a, a ≠ c.addr → (a ∈ x ↔ a ∈ x')) :
    SmfInv { sc with order := pre ++ d :: post, used := used } maps x' := by
  have hcmem : c ∈ sc.order := by rw [hl]; simp
  have hsegs : (pre ++ d :: post).map Smf.seg = sc.order.map Smf.seg := by simp [hl, hseg]
  have hsize : d.size = c.size := congrArg Seg.len hseg
  suffices hr : Replaces sc { sc with order := pre ++ d :: post, used := used } pre [c] [d] post by
    refine h.replace hr (fun a o => ?_) ?_ (fun f hf => hrest _ (h.addr_ne hl hf))
    · rw [← h.tiles, ← hsegs]
    · simpa [haddr] using hx
  refine ⟨by simpa using hl, by simp, by simpa using hc, by simpa using hd, by simp, rfl, rfl, ?_, ?_, ?_, ?_, honce,
    ?_, rfl, rfl⟩
  · have := h.addrs
    rw [hl] at this
    simpa [haddr] using this
  · intro f hf
    rw [List.mem_singleton.mp hf, hsize]
    exact h.sizes c hcmem
  · change Apart ((pre ++ d :: post).map Smf.seg)
    rw [hsegs]
    exact h.sorted
  · intro a
    change a ∈ used ↔ _
    rw [hused]
    simp only [List.mem_singleton, forall_eq, exists_eq_left, haddr, ne_eq, eq_comm (a := a)]
  · simp

/-- A chunk on no free list is cut in two at `n`; the new record is in use. -/
lemma SmfInv.cut (h : SmfInv sc maps x) {c f b : Smf} {n new : Nat} (hl : sc.order = pre ++ c :: post)
    (hc : c.flist = none) (hf : f.flist = none) (hb : b.flist = none) (hn : 0 < n) (hlt : n < c.size)
    (hpage : n % sc.pagesize = 0) (hfseg : Smf.seg f = (Smf.seg c).front n) (hbseg : Smf.seg b = (Smf.seg c).back n)
    (hnew : new ∉ sc.order.map Smf.addr)
    (hrole : (f.addr = new ∧ f.alloc = true ∧ b.addr = c.addr ∧ b.alloc = c.alloc) ∨
      (f.addr = c.addr ∧ f.alloc = c.alloc ∧ b.addr = new ∧ b.alloc = true)) (hx : c.alloc = true ∨ c.addr ∈ x) :
    SmfInv { sc with
      order := pre ++ f :: b :: post
      used := sc.used ++ [new]
      stats := { sc.stats with gSmf := sc.stats.gSmf + 1 } } maps x := by
  have hcmem : c ∈ sc.order := by rw [hl]; simp
  have hcnew : new ≠ c.addr := fun e => hnew (e ▸ List.mem_map_of_mem hcmem)
  have hfsize : f.size = n := congrArg Seg.len hfseg
  have hbsize : b.size = c.size - n := congrArg Seg.len hbseg
  have hcsz := h.sizes c hcmem
  have hnused : new ∉ sc.used := by
    intro hu
    obtain ⟨d, hd, hda, -⟩ := (h.used new).mp hu
    exact hnew (hda ▸ List.mem_map_of_mem hd)
  have hcov : ∀ a o, Covers ((pre ++ [c] ++ post).map Smf.seg) a o ↔
      Covers ((pre ++ [f, b] ++ post).map Smf.seg) a o := by
    intro a o
    simp only [List.map_append]
    refine covers_replace ?_
    have hmaps := Seg.maps_cut (s := Smf.seg c) (n := n) hlt.le a o
    simp only [List.map_cons, List.map_nil, covers_cons, hfseg, hbseg, hmaps, or_assoc]
  suffices hr : Replaces sc { sc with
      order := pre ++ f :: b :: post
      used := sc.used ++ [new]
      stats := { sc.stats with gSmf := sc.stats.gSmf + 1 } } pre [c] [f, b] post by
    refine h.replace hr (fun a o => ?_) (fun d hd => ?_) (fun _ _ => Iff.rfl)
    · have hcov' := hcov a o
      rw [← h.tiles, hl]
      simpa using hcov'.symm
    · simp only [List.mem_cons, List.not_mem_nil, or_false] at hd
      rcases hrole with ⟨-, r2, r3, r4⟩ | ⟨r1, r2, -, r4⟩ <;> rcases hd with rfl | rfl
      · exact Or.inl r2
      · rw [r3, r4]
        exact hx
      · rw [r1, r2]
        exact hx
      · exact Or.inl r4
  refine ⟨by simpa using hl, by simp, by simpa using hc, by simp [hf, hb], by simp, rfl, rfl, ?_, ?_, ?_, ?_, ?_, ?_,
    rfl, rfl⟩
  · change ((pre ++ f :: b :: post).map Smf.addr).Nodup
    have hnd : (new :: (pre ++ c :: post).map Smf.addr).Nodup :=
      List.nodup_cons.mpr ⟨by rw [← hl]; exact hnew, by rw [← hl]; exact h.addrs⟩
    refine List.Perm.nodup_iff ?_ |>.mpr hnd
    simp only [List.map_append, List.map_cons]
    rcases hrole with ⟨r1, -, r3, -⟩ | ⟨r1, -, r3, -⟩
    · rw [r1, r3]
      exact List.perm_middle
    · rw [r1, r3]
      exact (List.Perm.append_left _ (List.Perm.swap _ _ _)).trans List.perm_middle
  · intro d hd
    simp only [List.mem_cons, List.not_mem_nil, or_false] at hd
    rcases hd with rfl | rfl
    · rw [hfsize]
      exact ⟨hn, hpage⟩
    · rw [hbsize]
      refine ⟨by omega, ?_⟩
      exact Nat.mod_eq_zero_of_dvd (Nat.dvd_sub (Nat.dvd_of_mod_eq_zero hcsz.2) (Nat.dvd_of_mod_eq_zero hpage))
  · have hsort := h.sorted
    rw [hl, List.append_cons, List.map_append, List.map_append] at hsort
    have hnewl : Apart (pre.map Smf.seg ++ [Smf.seg f, Smf.seg b] ++ post.map Smf.seg) :=
      apart_replace hsort ?_ ?_ ?_
    · simpa using hnewl
    · rw [hfseg, hbseg]
      refine List.pairwise_pair.mpr ?_
      simp only [Seg.stop, Seg.front, Seg.back]
      exact le_rfl
    · intro m hm
      refine ⟨Smf.seg c, by simp, ?_⟩
      simp only [List.mem_cons, List.not_mem_nil, or_false] at hm
      rcases hm with rfl | rfl
      · rw [hfseg]
        exact le_rfl
      · rw [hbseg]
        exact Nat.le_add_right _ _
    · intro m hm
      refine ⟨Smf.seg c, by simp, ?_⟩
      simp only [List.mem_cons, List.not_mem_nil, or_false] at hm
      rcases hm with rfl | rfl
      · rw [hfseg]
        exact Nat.add_le_add_left hlt.le _
      · rw [hbseg]
        simp only [Seg.stop, Seg.back, Smf.seg]
        omega
  · intro a
    have hcu : a ∈ sc.used → a = c.addr → c.alloc = true := by
      rintro hu rfl
      obtain ⟨d, hd, hda, hdal⟩ := (h.used _).mp hu
      rwa [h.addr_inj hd hcmem hda] at hdal
    have hcu' : c.alloc = true → c.addr ∈ sc.used := fun hal => (h.used _).mpr ⟨c, hcmem, rfl, hal⟩
    simp only [List.mem_append, List.mem_cons, List.not_mem_nil, or_false, forall_eq, exists_eq_or_imp, exists_eq_left]
    by_cases hac : a = c.addr
    · subst hac
      rcases hrole with ⟨r1, r2, r3, r4⟩ | ⟨r1, r2, r3, r4⟩
      · simp only [r1, r2, r3, r4, hcnew, hcnew.symm, or_false, ne_eq, not_true_eq_false, and_false, false_and,
          true_and, false_or]
        exact ⟨fun hu => hcu hu rfl, hcu'⟩
      · simp only [r1, r2, r3, r4, hcnew, hcnew.symm, or_false, ne_eq, not_true_eq_false, and_false, false_and,
          true_and, false_or]
        exact ⟨fun hu => hcu hu rfl, hcu'⟩
    · rcases hrole with ⟨r1, r2, r3, r4⟩ | ⟨r1, r2, r3, r4⟩
      · simp only [r1, r2, r3, Ne.symm hac, ne_eq, not_false_eq_true, and_true, false_and, or_false, eq_comm]
      · simp only [r1, r3, r4, Ne.symm hac, ne_eq, not_false_eq_true, and_true, false_and, false_or, eq_comm]
  · exact List.nodup_append.mpr ⟨h.usedOnce, List.nodup_singleton _, by
      intro a ha b' hb' e
      rw [List.mem_singleton.mp hb'] at e
      exact hnused (e ▸ ha)⟩
  · simp only [List.length_cons, List.length_nil]
    push_cast
    ring

/-- A new chunk, in use, takes its place among the others. -/
lemma SmfInv.add (h : SmfInv sc maps []) {c : Smf} {r : MapRange} (hl : sc.order = pre ++ post) (hc : c.flist = none)
    (hal : c.alloc = true) (hsz : 0 < c.size) (hpage : c.size % sc.pagesize = 0)
    (hnew : c.addr ∉ sc.order.map Smf.addr) (hseg : Smf.seg c = MapRange.seg r)
    (hpre : ∀ d ∈ pre, d.ptr + d.size ≤ c.ptr) (hpost : ∀ d ∈ post, c.ptr + c.size ≤ d.ptr) :
    SmfInv { sc with
      order := pre ++ c :: post
      used := c.addr :: sc.used
      stats := { sc.stats with gSmf := sc.stats.gSmf + 1 } } (maps ++ [r]) [] := by
  have hnused : c.addr ∉ sc.used := by
    intro hu
    obtain ⟨d, hd, hda, -⟩ := (h.used _).mp hu
    exact hnew (hda ▸ List.mem_map_of_mem hd)
  suffices hr : Replaces sc { sc with
      order := pre ++ c :: post
      used := c.addr :: sc.used
      stats := { sc.stats with gSmf := sc.stats.gSmf + 1 } } pre [] [c] post by
    refine h.replace hr (fun a o => ?_) (by simp [hal]) (fun _ _ => Iff.rfl)
    have ht := h.tiles a o
    simp only [hl, List.map_append, covers_append] at ht
    simp only [List.map_append, List.map_cons, List.map_nil, covers_append, covers_cons, hseg, ← ht]
    have hnil : Covers [] a o ↔ False := by simp [Covers]
    rw [hnil]
    tauto
  refine ⟨by simpa using hl, by simp, by simp, by simpa using hc, by simp, rfl, rfl, ?_, ?_, ?_, ?_, ?_, ?_, rfl, rfl⟩
  · change ((pre ++ c :: post).map Smf.addr).Nodup
    rw [List.map_append, List.map_cons]
    refine List.perm_middle.nodup_iff.mpr (List.nodup_cons.mpr ?_)
    rw [← List.map_append, ← hl]
    exact ⟨hnew, h.addrs⟩
  · simpa using ⟨hsz, hpage⟩
  · have hsort := h.sorted
    rw [hl, List.map_append] at hsort
    obtain ⟨h1, h2, h12⟩ := List.pairwise_append.mp hsort
    change Apart ((pre ++ c :: post).map Smf.seg)
    rw [List.map_append, List.map_cons]
    refine List.pairwise_append.mpr ⟨h1, List.pairwise_cons.mpr ⟨fun t ht => ?_, h2⟩, fun s hs t ht => ?_⟩
    · obtain ⟨d, hd, rfl⟩ := List.mem_map.mp ht
      exact hpost d hd
    · rcases List.mem_cons.mp ht with rfl | ht
      · obtain ⟨d, hd, rfl⟩ := List.mem_map.mp hs
        exact hpre d hd
      · exact h12 s hs t ht
  · intro a
    simp only [List.mem_cons, List.not_mem_nil, IsEmpty.forall_iff, implies_true, and_true, or_false,
      exists_eq_left, hal, eq_comm (a := a)]
    tauto
  · exact List.nodup_cons.mpr ⟨hnused, h.usedOnce⟩
  · simp

end VarnishCache.Proofs
