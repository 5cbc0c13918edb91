import VarnishCache.Acl
import VarnishCache.Lib.PrefixOrder

/-!
# The order of ACL entries

`vcl_acl_cmp` compares the bits of two addresses up to the end of their masks, and puts a longer mask before a shorter
one. The list that `vcc_acl_add_entry` keeps is sorted this way.
-/

namespace VarnishCache.Proofs

open VarnishCache PrefixOrder

/-- The bits of a number below bit `n`, the highest first. -/
def numBits : Nat → Nat → List Bool
  | 0, _ => []
  | n + 1, v => v.testBit n :: numBits n v

lemma cmpThen_then (a b : Nat) (next : Ordering) : (cmpThen a b .eq).then next = cmpThen a b next := by
  unfold cmpThen
  split
  · rfl
  · split <;> rfl

lemma cmpThen_mul {c : Nat} (hc : 0 < c) (a b : Nat) (next : Ordering) :
    cmpThen (a * c) (b * c) next = cmpThen a b next := by
  simp only [cmpThen, Nat.mul_lt_mul_right hc]

lemma testBit_mod (v n : Nat) : v % 2 ^ (n + 1) = v % 2 ^ n + 2 ^ n * (v.testBit n).toNat := by
  rw [Nat.mod_pow_succ, Nat.testBit_eq_decide_div_mod_eq]
  rcases Nat.mod_two_eq_zero_or_one (v / 2 ^ n) with h | h
  · simp [h]
  · simp [h]

lemma cmp_numBits (n v w : Nat) : prefixCmp (numBits n v) (numBits n w) = cmpThen (v % 2 ^ n) (w % 2 ^ n) .eq := by
  induction n with
  | zero => simp [numBits, cmpThen, Nat.mod_one]
  | succ n ih =>
    have hv : v % 2 ^ n < 2 ^ n := Nat.mod_lt _ (Nat.two_pow_pos n)
    have hw : w % 2 ^ n < 2 ^ n := Nat.mod_lt _ (Nat.two_pow_pos n)
    rw [testBit_mod, testBit_mod]
    simp only [numBits, prefixCmp, ih]
    cases v.testBit n <;> cases w.testBit n
    · simp
    · rw [if_pos (by decide), cmpThen, if_pos (by simp; omega)]
    · rw [if_neg (by decide), if_pos (by decide), cmpThen, if_neg (by simp; omega), if_pos (by simp; omega)]
    · simp [cmpThen]

lemma numBits_take {n r : Nat} (hr : r ≤ n) (v : Nat) : (numBits n v).take r = numBits r (v / 2 ^ (n - r)) := by
  induction n generalizing r with
  | zero =>
    obtain rfl : r = 0 := by omega
    rfl
  | succ n ih =>
    cases r with
    | zero => rfl
    | succ r =>
      have hbit : (v / 2 ^ (n - r)).testBit r = v.testBit n := by
        rw [Nat.testBit_div_two_pow]
        congr 1
        omega
      rw [numBits, List.take_succ_cons, ih (by omega), numBits, Nat.add_sub_add_right, hbit]

lemma byteBits_take (x : UInt8) {r : Nat} (hr : r ≤ 8) : (byteBits x).take r = numBits r (x.toNat / 2 ^ (8 - r)) :=
  numBits_take hr x.toNat

lemma testBit_fracMask {r i : Nat} (hr : r ≤ 8) (hi : i < 8) : (fracMask r).toNat.testBit i = decide (8 - r ≤ i) := by
  interval_cases r <;> interval_cases i <;> rfl

lemma fracMask_and (x : UInt8) {r : Nat} (hr : r ≤ 8) :
    (x &&& fracMask r).toNat = x.toNat / 2 ^ (8 - r) * 2 ^ (8 - r) := by
  refine Nat.eq_of_testBit_eq fun i => ?_
  rw [UInt8.toNat_and, Nat.testBit_and, Nat.testBit_mul_two_pow]
  rcases Nat.lt_or_ge i 8 with hi | hi
  · rw [testBit_fracMask hr hi, Bool.and_comm]
    by_cases hlow : 8 - r ≤ i
    · rw [Nat.testBit_div_two_pow, Nat.sub_add_cancel hlow]
    · rw [decide_eq_false hlow, Bool.false_and, Bool.false_and]
  · have hnone : x.toNat.testBit i = false :=
      Nat.testBit_lt_two_pow (lt_of_lt_of_le x.toNat_lt (Nat.pow_le_pow_right (by decide) hi))
    rw [Nat.testBit_div_two_pow, Nat.sub_add_cancel (by omega), hnone, Bool.false_and, Bool.and_false]

/-- The first bits of two bytes are compared as the masked bytes are. -/
lemma cmp_byteBits_take (x y : UInt8) {r : Nat} (hr : r ≤ 8) : prefixCmp ((byteBits x).take r) ((byteBits y).take r) =
    cmpThen (x &&& fracMask r).toNat (y &&& fracMask r).toNat .eq := by
  have hlt : ∀ z : UInt8, z.toNat / 2 ^ (8 - r) % 2 ^ r = z.toNat / 2 ^ (8 - r) := by
    intro z
    refine Nat.mod_eq_of_lt ((Nat.div_lt_iff_lt_mul (Nat.two_pow_pos _)).mpr ?_)
    rw [← Nat.pow_add, Nat.add_sub_cancel' hr]
    exact z.toNat_lt
  rw [byteBits_take x hr, byteBits_take y hr, cmp_numBits, hlt, hlt, fracMask_and x hr, fracMask_and y hr,
    cmpThen_mul (Nat.two_pow_pos _)]

lemma byteBits_length (x : UInt8) : (byteBits x).length = 8 := rfl

lemma cmp_byteBits (x y : UInt8) : prefixCmp (byteBits x) (byteBits y) = cmpThen x.toNat y.toNat .eq := by
  have h := cmp_byteBits_take x y le_rfl
  rw [List.take_of_length_le (byteBits_length x).le, List.take_of_length_le (byteBits_length y).le, fracMask_and x le_rfl,
    fracMask_and y le_rfl] at h
  simpa using h

lemma byteBits_take_inj {x y : UInt8} {r : Nat} (hr : r ≤ 8) :
    (byteBits x).take r = (byteBits y).take r ↔ x &&& fracMask r = y &&& fracMask r := by
  have hcmp := cmp_byteBits_take x y hr
  constructor
  · intro h
    rw [h, prefixCmp_self] at hcmp
    unfold cmpThen at hcmp
    split at hcmp
    · cases hcmp
    · split at hcmp
      · cases hcmp
      · exact UInt8.toNat_inj.mp (by omega)
  · intro h
    rw [h] at hcmp
    exact eq_of_prefixCmp (by rw [hcmp]; simp [cmpThen])

lemma byteBits_inj {x y : UInt8} : byteBits x = byteBits y ↔ x = y := by
  constructor
  · intro h
    have hcmp := cmp_byteBits x y
    rw [h, prefixCmp_self] at hcmp
    unfold cmpThen at hcmp
    split at hcmp
    · cases hcmp
    · split at hcmp
      · cases hcmp
      · exact UInt8.toNat_inj.mp (by omega)
  · rintro rfl
    rfl

/-- The bits of an address. -/
abbrev bits (p : List UInt8) : List Bool := p.flatMap byteBits

lemma bits_length (p : List UInt8) : (bits p).length = 8 * p.length := by
  induction p with
  | nil => rfl
  | cons x p ih =>
    rw [bits, List.flatMap_cons, List.length_append, ih, byteBits_length, List.length_cons]
    omega

lemma bits_take_cons (x : UInt8) (p : List UInt8) (n : Nat) :
    (bits (x :: p)).take (8 + n) = byteBits x ++ (bits p).take n := by
  rw [bits, List.flatMap_cons, List.take_append, List.take_of_length_le (by rw [byteBits_length]; omega), byteBits_length,
    Nat.add_sub_cancel_left]

lemma bits_take_lt (x : UInt8) (p : List UInt8) {n : Nat} (hn : n ≤ 8) :
    (bits (x :: p)).take n = (byteBits x).take n := by
  rw [bits, List.flatMap_cons, List.take_append_of_le_length (by rw [byteBits_length]; exact hn)]

lemma cmpData_eq {m : Nat} (hm : m < 8) {k : Nat} {p1 p2 : List UInt8} (h1 : 8 * k + m ≤ 8 * p1.length)
    (h2 : 8 * k + m ≤ 8 * p2.length) (next : Ordering) :
    cmpData m k p1 p2 next = (prefixCmp ((bits p1).take (8 * k + m)) ((bits p2).take (8 * k + m))).then next := by
  induction k generalizing p1 p2 with
  | zero =>
    rw [Nat.mul_zero, Nat.zero_add] at h1 h2 ⊢
    rw [cmpData]
    by_cases h0 : m = 0
    · simp [h0]
    · obtain ⟨x, p1, rfl⟩ := List.exists_cons_of_length_pos (l := p1) (by omega)
      obtain ⟨y, p2, rfl⟩ := List.exists_cons_of_length_pos (l := p2) (by omega)
      rw [if_pos h0, bits_take_lt x p1 hm.le, bits_take_lt y p2 hm.le, cmp_byteBits_take x y hm.le, cmpThen_then]
      rfl
  | succ k ih =>
    obtain ⟨x, p1, rfl⟩ := List.exists_cons_of_length_pos (l := p1) (by omega)
    obtain ⟨y, p2, rfl⟩ := List.exists_cons_of_length_pos (l := p2) (by omega)
    rw [List.length_cons] at h1 h2
    have hlen : 8 * (k + 1) + m = 8 + (8 * k + m) := by omega
    rw [hlen, bits_take_cons, bits_take_cons, prefixCmp_append (by rw [byteBits_length, byteBits_length]),
      cmp_byteBits, Ordering.then_assoc, ← ih (by omega) (by omega), cmpThen_then]
    rfl

/-- The bits of an entry that count. -/
def AclE.key (ae : AclE) : List Bool := (bits ae.data).take ae.mask

/-- The mask does not go beyond the address. -/
def AclE.Fits (ae : AclE) : Prop := ae.mask ≤ 8 * ae.data.length

lemma AclE.key_length {ae : AclE} (h : AclE.Fits ae) : (AclE.key ae).length = ae.mask := by
  rw [AclE.key, List.length_take, bits_length, min_eq_left h]

/-- Of two strings one of which is empty, the longer one comes first. -/
lemma prefixCmp_of_length {s t : List Bool} (h : s = [] ∨ t = []) : prefixCmp s t = cmpThen t.length s.length .eq := by
  rcases h with rfl | rfl
  · cases t with
    | nil => rfl
    | cons b t => rfl
  · cases s with
    | nil => rfl
    | cons a s => simp [prefixCmp, cmpThen]

lemma vclAclCmp_eq {ae1 ae2 : AclE} (h1 : AclE.Fits ae1) (h2 : AclE.Fits ae2) :
    vclAclCmp ae1 ae2 = prefixCmp (AclE.key ae1) (AclE.key ae2) := by
  have hm : (if ae2.mask < ae1.mask then ae2.mask else ae1.mask) = min ae1.mask ae2.mask := by
    split <;> omega
  unfold vclAclCmp
  rw [hm]
  have hsplit : ∀ (ae : AclE) {m : Nat}, m ≤ ae.mask →
      AclE.key ae = (bits ae.data).take m ++ (AclE.key ae).drop m := by
    intro ae m hle
    conv_lhs => rw [← List.take_append_drop m (AclE.key ae)]
    rw [AclE.key, List.take_take, min_eq_left hle]
  have hlen1 := AclE.key_length h1
  have hlen2 := AclE.key_length h2
  unfold AclE.Fits at h1 h2
  generalize hmin : min ae1.mask ae2.mask = m
  have hdiv : 8 * (m / 8) + m % 8 = m := Nat.div_add_mod m 8
  have hrest : prefixCmp ((AclE.key ae1).drop m) ((AclE.key ae2).drop m) = cmpThen ae2.mask ae1.mask .eq := by
    rw [prefixCmp_of_length, List.length_drop, List.length_drop, hlen1, hlen2]
    · unfold cmpThen
      by_cases hlt : ae2.mask < ae1.mask
      · rw [if_pos hlt, if_pos (by omega)]
      · rw [if_neg hlt, if_neg (by omega)]
        by_cases hgt : ae1.mask < ae2.mask
        · rw [if_pos hgt, if_pos (by omega)]
        · rw [if_neg hgt, if_neg (by omega)]
    · rw [← List.length_eq_zero_iff, ← List.length_eq_zero_iff, List.length_drop, List.length_drop, hlen1, hlen2]
      omega
  rw [cmpData_eq (Nat.mod_lt m (by decide)) (by omega) (by omega), hdiv, hsplit ae1 (by omega : m ≤ ae1.mask),
    hsplit ae2 (by omega : m ≤ ae2.mask), prefixCmp_append, hrest]
  rw [List.length_take, List.length_take, bits_length, bits_length]
  omega

/-- The list of entries in order. -/
def AclSorted (acl : List AclE) : Prop := acl.Pairwise (fun a b => prefixCmp (AclE.key a) (AclE.key b) = .lt)

/-- What `vcc_acl_add_entry` does to the list: the entry is on it, or one that is the same. -/
structure Inserted (aen : AclE) (acl acl' : List AclE) : Prop where
  sorted : AclSorted acl'
  origin : ∀ x ∈ acl', x = aen ∨ x ∈ acl
  stay : ∀ x ∈ acl, x ∈ acl'
  kept : ∃ x ∈ acl', AclE.key x = AclE.key aen ∧ x.not = aen.not

lemma aclInsert_ok {aen : AclE} {acl acl' : List AclE} (haen : AclE.Fits aen) (hfits : ∀ x ∈ acl, AclE.Fits x)
    (hsorted : AclSorted acl) (h : aclInsert aen acl = .ok acl') : Inserted aen acl acl' := by
  induction acl generalizing acl' with
  | nil =>
    cases h
    exact ⟨List.pairwise_singleton _ _, by simp, by simp, aen, by simp⟩
  | cons ae2 acl ih =>
    obtain ⟨hfirst, htail⟩ := List.pairwise_cons.mp hsorted
    have hcmp := vclAclCmp_eq haen (hfits ae2 List.mem_cons_self)
    rw [aclInsert, hcmp] at h
    cases ho : prefixCmp (AclE.key aen) (AclE.key ae2) with
    | lt =>
      rw [ho] at h
      cases h
      refine ⟨List.pairwise_cons.mpr ⟨?_, hsorted⟩, by simp, ?_, aen, by simp⟩
      · intro x hx
        rcases List.mem_cons.mp hx with rfl | hx
        · exact ho
        · exact prefixCmp_trans ho (hfirst x hx)
      · intro x hx
        exact List.mem_cons_of_mem aen hx
    | eq =>
      rw [ho] at h
      simp only at h
      split at h
      · rename_i hnot
        cases h
        refine ⟨hsorted, fun x hx => Or.inr hx, fun x hx => hx, ae2, List.mem_cons_self, ?_, hnot.symm⟩
        exact (eq_of_prefixCmp ho).symm
      · cases h
    | gt =>
      rw [ho] at h
      cases hins : aclInsert aen acl with
      | error e =>
        rw [hins] at h
        cases h
      | ok l =>
        rw [hins] at h
        cases h
        have hl := ih (fun x hx => hfits x (List.mem_cons_of_mem ae2 hx)) htail hins
        refine ⟨List.pairwise_cons.mpr ⟨?_, hl.sorted⟩, ?_, ?_, ?_⟩
        · intro x hx
          rcases hl.origin x hx with rfl | hx
          · exact prefixCmp_gt_iff.mp ho
          · exact hfirst x hx
        · intro x hx
          rcases List.mem_cons.mp hx with rfl | hx
          · exact Or.inr List.mem_cons_self
          · exact (hl.origin x hx).imp_right (List.mem_cons_of_mem ae2)
        · intro x hx
          rcases List.mem_cons.mp hx with rfl | hx
          · exact List.mem_cons_self
          · exact List.mem_cons_of_mem ae2 (hl.stay x hx)
        · obtain ⟨x, hx, hkey⟩ := hl.kept
          exact ⟨x, List.mem_cons_of_mem ae2 hx, hkey⟩

/-- The list for the entries `es`: in order, with an entry for each of them and no others. -/
structure AclListOf (es : List AclEntry) (acl : List AclE) : Prop where
  sorted : AclSorted acl
  origin : ∀ ae ∈ acl, ∃ e ∈ es, ae = e.toE
  fits : ∀ e ∈ es, AclE.Fits e.toE
  kept : ∀ e ∈ es, ∃ ae ∈ acl, AclE.key ae = AclE.key e.toE ∧ ae.not = e.not

lemma vccAclAddEntry_ok {es : List AclEntry} {acl acl' : List AclE} {e : AclEntry} (hi : AclListOf es acl)
    (h : vccAclAddEntry acl e = .ok acl') : AclListOf (es ++ [e]) acl' := by
  have hfits : AclE.Fits e.toE ∧ aclInsert e.toE acl = .ok acl' := by
    unfold vccAclAddEntry at h
    split at h
    · cases h
    split at h
    · cases h
    rename_i h4 h6
    refine ⟨?_, h⟩
    have hlen := e.u_length
    unfold AclE.Fits AclEntry.toE
    simp only [List.length_cons, hlen]
    cases hf : e.fam with
    | inet =>
      have hle : e.mask ≤ 32 := not_lt.mp (fun hlt => h4 ⟨hf, hlt⟩)
      simp only [AclFam.width]
      omega
    | inet6 =>
      have hle : e.mask ≤ 128 := not_lt.mp (fun hlt => h6 ⟨hf, hlt⟩)
      simp only [AclFam.width]
      omega
  have hall : ∀ x ∈ acl, AclE.Fits x := by
    intro x hx
    obtain ⟨y, hy, rfl⟩ := hi.origin x hx
    exact hi.fits y hy
  have hins := aclInsert_ok hfits.1 hall hi.sorted hfits.2
  refine ⟨hins.sorted, ?_, ?_, ?_⟩
  · intro x hx
    rcases hins.origin x hx with rfl | hx
    · exact ⟨e, by simp, rfl⟩
    · obtain ⟨y, hy, rfl⟩ := hi.origin x hx
      exact ⟨y, List.mem_append_left [e] hy, rfl⟩
  · intro y hy
    rcases List.mem_append.mp hy with hy | hy
    · exact hi.fits y hy
    · obtain rfl := List.mem_singleton.mp hy
      exact hfits.1
  · intro y hy
    rcases List.mem_append.mp hy with hy | hy
    · obtain ⟨x, hx, hkey⟩ := hi.kept y hy
      exact ⟨x, hins.stay x hx, hkey⟩
    · obtain rfl := List.mem_singleton.mp hy
      exact hins.kept

lemma vccAclAdd_ok {es es' : List AclEntry} {acl acl' : List AclE} (hi : AclListOf es acl)
    (h : vccAclAdd acl es' = .ok acl') : AclListOf (es ++ es') acl' := by
  induction es' generalizing es acl with
  | nil =>
    cases h
    rw [List.append_nil]
    exact hi
  | cons e es' ih =>
    rw [vccAclAdd] at h
    cases he : vccAclAddEntry acl e with
    | error x =>
      rw [he] at h
      cases h
    | ok acl1 =>
      rw [he] at h
      have hnext := ih (vccAclAddEntry_ok hi he) h
      rw [List.append_assoc] at hnext
      exact hnext

lemma vccAclAdd_listOf {es : List AclEntry} {acl : List AclE} (h : vccAclAdd [] es = .ok acl) : AclListOf es acl := by
  have hempty : AclListOf [] [] := ⟨List.Pairwise.nil, by simp, by simp, by simp⟩
  exact vccAclAdd_ok hempty h

end VarnishCache.Proofs
