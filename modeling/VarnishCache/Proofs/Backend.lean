import VarnishCache.Lib.RefCount
import VarnishCache.Backend

/-!
# References to backends

A connection in use has a reference to its backend and counts as a connection; an idle one only counts. A session that
uses a connection has a VCL, and that VCL has a reference of its own, so what a session drops is never the last one.
-/

namespace VarnishCache.Proofs
open RefCount

variable {s s' : VbeState} {b sp : Nat} {v : Backend}

/-- The references of VCLs to a backend. -/
def vclRefcount (s : VbeState) (b : Nat) : Nat := (s.vclRefs.map (·.2)).count b

structure VbeInv (s : VbeState) : Prop where
  refcount : ∀ b v, s.backend b = some v → refs s.used b + vclRefcount s b = v.refcount
  nConn : ∀ b v, s.backend b = some v → refs s.used b + v.connlist.length = v.nConn
  vclRef : ∀ q ∈ s.vclRefs, ∃ v, s.backend q.2 = some v
  used : ∀ sp b, s.used sp = some b → ∃ vcl, (s.sess sp).vcl = some vcl ∧ (vcl, b) ∈ s.vclRefs
  held : ∀ sp vcl, (s.sess sp).vcl = some vcl → s.nuked vcl = false
  cli : s.lastOutsideCli = false

/-! ## Sessions -/

lemma used_setConn (sp : Nat) (c : VbeConn) : (s.setConn sp c).used = Function.update s.used sp c.backend := by
  funext a
  by_cases ha : a = sp
  · subst ha
    simp [VbeState.used, VbeState.setConn]
  · simp [VbeState.used, VbeState.setConn, ha]

lemma vcl_setConn (sp : Nat) (c : VbeConn) (a : Nat) : ((s.setConn sp c).sess a).vcl = (s.sess a).vcl := by
  by_cases ha : a = sp
  · subst ha
    simp [VbeState.setConn]
  · simp [VbeState.setConn, ha]

/-- One session turns to another backend or to none, and the counts go along. -/
lemma VbeInv.turn (h : VbeInv s) (sp : Nat) (o : Option Nat) (hused : s'.used = Function.update s.used sp o)
    (hvcl : ∀ a, (s'.sess a).vcl = (s.sess a).vcl) (hrefs : s'.vclRefs = s.vclRefs) (hnuked : s'.nuked = s.nuked)
    (hcli : s'.lastOutsideCli = s.lastOutsideCli)
    (hnew : ∀ b, o = some b → ∃ vcl, (s.sess sp).vcl = some vcl ∧ (vcl, b) ∈ s.vclRefs)
    (hback : ∀ a v', s'.backend a = some v' → ∃ v, s.backend a = some v ∧
      v'.refcount + ref (s.used sp) a = v.refcount + ref o a ∧
      v'.connlist.length + ref o a + v.nConn = v.connlist.length + ref (s.used sp) a + v'.nConn)
    (hkeep : ∀ a v, s.backend a = some v → ∃ v', s'.backend a = some v') : VbeInv s' where
  refcount := by
    intro a v' hv'
    obtain ⟨v, hv, hcount, -⟩ := hback a v' hv'
    have hsame : vclRefcount s' a = vclRefcount s a := by rw [vclRefcount, hrefs, vclRefcount]
    rw [hused, hsame]
    refine balance (h.refcount a v hv) (refs_update s.used sp o a) ?_
    omega
  nConn := by
    intro a v' hv'
    obtain ⟨v, hv, -, hconn⟩ := hback a v' hv'
    rw [hused]
    exact balance (h.nConn a v hv) (refs_update s.used sp o a) hconn
  vclRef := by
    intro q hq
    rw [hrefs] at hq
    obtain ⟨v, hv⟩ := h.vclRef q hq
    exact hkeep q.2 v hv
  used := by
    intro a b ha
    rw [hvcl, hrefs]
    rw [hused] at ha
    by_cases has : a = sp
    · subst has
      rw [Function.update_self] at ha
      exact hnew b ha
    · rw [Function.update_of_ne has] at ha
      exact h.used a b ha
  held := by
    intro a vcl ha
    rw [hvcl] at ha
    rw [hnuked]
    exact h.held a vcl ha
  cli := hcli.trans h.cli

/-- A session changes the record of one backend. -/
lemma VbeInv.write (h : VbeInv s) (sp : Nat) (c : VbeConn) {v' : Backend} (hv : s.backend b = some v)
    (hold : s.used sp = none ∨ s.used sp = some b) (hc : c.backend = none ∨ c.backend = some b)
    (hnew : c.backend = some b → ∃ vcl, (s.sess sp).vcl = some vcl ∧ (vcl, b) ∈ s.vclRefs)
    (hcount : v'.refcount + ref (s.used sp) b = v.refcount + ref c.backend b)
    (hconn : v'.connlist.length + ref c.backend b + v.nConn = v.connlist.length + ref (s.used sp) b + v'.nConn) :
    VbeInv ((s.setBackend b v').setConn sp c) := by
  have hother : ∀ o : Option Nat, o = none ∨ o = some b → ∀ a, a ≠ b → ref o a = 0 := by
    rintro o (rfl | rfl) a ha
    · exact ref_none a
    · exact ref_of_ne (by simpa using fun h => ha h.symm)
  refine h.turn sp c.backend (used_setConn sp c) (vcl_setConn sp c) rfl rfl rfl ?_ ?_ ?_
  · rintro a ha
    rcases hc with hc | hc
    · rw [hc] at ha
      cases ha
    · obtain rfl : b = a := Option.some.inj (hc.symm.trans ha)
      exact hnew hc
  · intro a u hu
    by_cases ha : a = b
    · subst ha
      simp only [VbeState.setConn, VbeState.setBackend, Function.update_self, Option.some.injEq] at hu
      subst hu
      exact ⟨v, hv, hcount, hconn⟩
    · simp only [VbeState.setConn, VbeState.setBackend, Function.update_of_ne ha] at hu
      refine ⟨u, hu, ?_, ?_⟩
      · rw [hother _ hold a ha, hother _ hc a ha]
      · rw [hother _ hold a ha, hother _ hc a ha]
  · intro a u hu
    by_cases ha : a = b
    · subst ha
      exact ⟨v', Function.update_self _ _ _⟩
    · simp only [VbeState.setConn, VbeState.setBackend, Function.update_of_ne ha]
      exact ⟨u, hu⟩

/-- A session's own reference and that of its VCL. -/
lemma VbeInv.two_le (h : VbeInv s) (hv : s.backend b = some v) (hsp : s.used sp = some b) :
    2 ≤ v.refcount ∧ 1 ≤ v.nConn := by
  have hrefs : refs s.used b ≠ 0 := fun h0 => refs_eq_zero.mp h0 sp hsp
  have hone : 1 ≤ refs s.used b := Order.one_le_iff_ne_zero.mpr hrefs
  have hcount := h.refcount b v hv
  have hconn := h.nConn b v hv
  obtain ⟨vcl, -, hmem⟩ := h.used sp b hsp
  have hvcl : 1 ≤ vclRefcount s b := List.count_pos_iff.mpr (List.mem_map.mpr ⟨(vcl, b), hmem, rfl⟩)
  have htop : refs s.used b ≠ ⊤ := by
    intro htop
    rw [htop, top_add] at hcount
    exact ENat.top_ne_natCast _ hcount
  lift refs s.used b to ℕ using htop with n
  norm_cast at hone hcount hconn
  omega

/-- `VBE_DropRefLocked` in a session is not the last one. -/
lemma dropRefLocked_cases (hdrop : s.dropRefLocked false b v = some s') (hpos : 2 ≤ v.refcount) :
    s' = s.setBackend b { v with refcount := v.refcount - 1 } := by
  unfold VbeState.dropRefLocked at hdrop
  rw [if_neg (by omega), if_neg (by omega)] at hdrop
  exact (Option.some.inj hdrop).symm

/-- A session closes its connection. -/
lemma VbeInv.dropRefConn {s1 : VbeState} (h : VbeInv s) (hsp : s.used sp = some b) (hdrop : s.dropRefConn b = some s1) :
    VbeInv (s1.setConn sp .idle) := by
  unfold VbeState.dropRefConn at hdrop
  split at hdrop
  next => cases hdrop
  next v hv =>
    split at hdrop
    next => cases hdrop
    next =>
      obtain ⟨htwo, hone⟩ := h.two_le hv hsp
      rw [dropRefLocked_cases hdrop htwo]
      refine h.write sp .idle hv (Or.inr hsp) (Or.inl rfl) (fun hc => by cases hc) ?_ ?_
      · rw [hsp, ref_self]
        simp only [VbeConn.backend, ref_none]
        omega
      · rw [hsp, ref_self]
        simp only [VbeConn.backend, ref_none]
        omega

lemma VbeInv.recycleFd {s1 : VbeState} {vc : Nat} (h : VbeInv s) (hsp : s.used sp = some b) (hv : s.backend b = some v)
    (hdrop : s.dropRefLocked false b { v with connlist := vc :: v.connlist } = some s1) :
    VbeInv (s1.setConn sp .idle) := by
  obtain ⟨htwo, hone⟩ := h.two_le hv hsp
  rw [dropRefLocked_cases hdrop htwo]
  refine h.write sp .idle hv (Or.inr hsp) (Or.inl rfl) (fun hc => by cases hc) ?_ ?_
  · rw [hsp, ref_self]
    simp only [VbeConn.backend, ref_none]
    omega
  · rw [hsp, ref_self]
    simp only [VbeConn.backend, ref_none, List.length_cons]

lemma mayUse_cases (h : s.mayUse sp b = true) : ∃ vcl, (s.sess sp).vcl = some vcl ∧ (vcl, b) ∈ s.vclRefs := by
  unfold VbeState.mayUse at h
  split at h
  next => cases h
  next vcl hvcl => exact ⟨vcl, hvcl, by simpa using h⟩

lemma VbeInv.recycle {vc : Nat} {connlist : List Nat} (h : VbeInv s) (hmay : s.mayUse sp b = true)
    (hidle : (s.sess sp).conn = .idle) (hv : s.backend b = some v) (hlist : v.connlist = vc :: connlist) :
    VbeInv ((s.setBackend b { v with refcount := v.refcount + 1, connlist := connlist }).setConn sp (.check b vc)) := by
  have hused : s.used sp = none := by rw [VbeState.used, hidle, VbeConn.backend]
  refine h.write sp _ hv (Or.inl hused) (Or.inr rfl) (fun _ => mayUse_cases hmay) ?_ ?_
  · rw [hused]
    simp only [VbeConn.backend, ref_none, ref_self]
  · rw [hused, hlist]
    simp only [VbeConn.backend, ref_none, ref_self, List.length_cons]

lemma VbeInv.connTry (h : VbeInv s) (hmay : s.mayUse sp b = true) (hidle : (s.sess sp).conn = .idle)
    (hv : s.backend b = some v) :
    VbeInv ((s.setBackend b { v with refcount := v.refcount + 1, nConn := v.nConn + 1 }).setConn sp (.connecting b)) := by
  have hused : s.used sp = none := by rw [VbeState.used, hidle, VbeConn.backend]
  refine h.write sp _ hv (Or.inl hused) (Or.inr rfl) (fun _ => mayUse_cases hmay) ?_ ?_
  · rw [hused]
    simp only [VbeConn.backend, ref_none, ref_self]
  · rw [hused]
    simp only [VbeConn.backend, ref_none, ref_self]
    omega

lemma VbeInv.failed (h : VbeInv s) (hsp : s.used sp = some b) (hv : s.backend b = some v) :
    VbeInv ((s.setBackend b { v with refcount := v.refcount - 1, nConn := v.nConn - 1 }).setConn sp .idle) := by
  obtain ⟨htwo, hone⟩ := h.two_le hv hsp
  refine h.write sp .idle hv (Or.inr hsp) (Or.inl rfl) (fun hc => by cases hc) ?_ ?_
  · rw [hsp, ref_self]
    simp only [VbeConn.backend, ref_none]
    omega
  · rw [hsp, ref_self]
    simp only [VbeConn.backend, ref_none]
    omega

/-- The session goes on with the same backend. -/
lemma VbeInv.same (h : VbeInv s) {c : VbeConn} (hsp : s.used sp = c.backend) : VbeInv (s.setConn sp c) := by
  have hsame : (s.setConn sp c).used = s.used := by rw [used_setConn, ← hsp, Function.update_eq_self]
  refine ⟨by rw [hsame]; exact h.refcount, by rw [hsame]; exact h.nConn, h.vclRef, ?_, ?_, h.cli⟩
  · intro a b ha
    rw [hsame] at ha
    rw [vcl_setConn]
    exact h.used a b ha
  · intro a vcl ha
    rw [vcl_setConn] at ha
    exact h.held a vcl ha

/-! ## The CLI thread -/

lemma vclRefcount_append (s : VbeState) (vcl a : Nat) :
    ((s.vclRefs ++ [(vcl, b)]).map (·.2)).count a = vclRefcount s a + if a = b then 1 else 0 := by
  rw [List.map_append, List.count_append, List.map_cons, List.map_nil, List.count_singleton, vclRefcount]
  by_cases ha : a = b
  · simp [ha]
  · rw [if_neg ha, if_neg (by simpa using fun h => ha h.symm)]

/-- A VCL gets a reference to a backend that is there or new. -/
lemma VbeInv.addRef (h : VbeInv s) {vcl : Nat} {v' : Backend}
    (hrefs : s'.vclRefs = s.vclRefs ++ [(vcl, b)]) (hback : s'.backend = Function.update s.backend b (some v'))
    (hsess : s'.sess = s.sess) (hnuked : s'.nuked = s.nuked) (hcli : s'.lastOutsideCli = s.lastOutsideCli)
    (hcount : refs s.used b + (vclRefcount s b + 1 : ℕ) = v'.refcount)
    (hconn : refs s.used b + v'.connlist.length = v'.nConn) : VbeInv s' := by
  have hused : s'.used = s.used := by
    funext a
    rw [VbeState.used, hsess, VbeState.used]
  have hnew : ∀ a, vclRefcount s' a = vclRefcount s a + if a = b then 1 else 0 := by
    intro a
    rw [vclRefcount, hrefs, vclRefcount_append]
  refine ⟨?_, ?_, ?_, ?_, ?_, hcli.trans h.cli⟩
  · intro a u hu
    rw [hused, hnew]
    rw [hback] at hu
    by_cases ha : a = b
    · subst ha
      rw [Function.update_self] at hu
      cases hu
      rw [if_pos rfl]
      exact hcount
    · rw [Function.update_of_ne ha] at hu
      rw [if_neg ha]
      exact h.refcount a u hu
  · intro a u hu
    rw [hused]
    rw [hback] at hu
    by_cases ha : a = b
    · subst ha
      rw [Function.update_self] at hu
      cases hu
      exact hconn
    · rw [Function.update_of_ne ha] at hu
      exact h.nConn a u hu
  · intro q hq
    rw [hback]
    by_cases hqb : q.2 = b
    · rw [hqb, Function.update_self]
      exact ⟨v', rfl⟩
    · rw [Function.update_of_ne hqb]
      rw [hrefs] at hq
      rcases List.mem_append.mp hq with hq | hq
      · exact h.vclRef q hq
      · obtain rfl := List.mem_singleton.mp hq
        exact absurd rfl hqb
  · intro a c ha
    rw [hused] at ha
    rw [hsess, hrefs]
    obtain ⟨vcl, hv, hmem⟩ := h.used a c ha
    exact ⟨vcl, hv, List.mem_append_left _ hmem⟩
  · intro a vcl ha
    rw [hsess] at ha
    rw [hnuked]
    exact h.held a vcl ha

lemma VbeInv.addBackend (h : VbeInv s) {vcl new : Nat} {vb : BackendKey}
    (hstep : s.step (.addBackend vcl vb new) = some s') : VbeInv s' := by
  simp only [VbeState.step] at hstep
  split at hstep
  next => cases hstep
  next hvcl =>
    split at hstep
    next b hfind =>
      split at hstep
      next => cases hstep
      next v hv =>
        cases hstep
        refine h.addRef rfl rfl rfl rfl rfl ?_ (h.nConn b v hv)
        have hcount := h.refcount b v hv
        push_cast
        rw [← hcount]
        ring
    next hfind =>
      split at hstep
      next => cases hstep
      next hfree =>
        cases hstep
        have hnone : s.backend new = none := by simpa using hfree
        -- nobody uses a number that is free, and no VCL refers to it
        have hzero : vclRefcount s new = 0 := by
          refine List.count_eq_zero_of_not_mem ?_
          intro hmem
          obtain ⟨q, hq, rfl⟩ := List.mem_map.mp hmem
          obtain ⟨v, hv⟩ := h.vclRef q hq
          rw [hnone] at hv
          cases hv
        have hrefs : refs s.used new = 0 := by
          refine refs_eq_zero.mpr ?_
          intro sp hsp
          obtain ⟨vcl, -, hmem⟩ := h.used sp new hsp
          obtain ⟨v, hv⟩ := h.vclRef _ hmem
          rw [hnone] at hv
          cases hv
        refine h.addRef rfl rfl rfl rfl rfl ?_ ?_
        · rw [hrefs, hzero]
          rfl
        · rw [hrefs]
          rfl

lemma vclRefcount_eraseIdx {i : Nat} {q : Nat × Nat} (hi : s.vclRefs[i]? = some q) (a : Nat) :
    ((s.vclRefs.eraseIdx i).map (·.2)).count a + (if q.2 = a then 1 else 0) = vclRefcount s a := by
  obtain ⟨hlt, rfl⟩ := List.getElem?_eq_some_iff.mp hi
  have hperm := ((List.getElem_cons_eraseIdx_perm hlt).map (·.2)).count_eq a
  rw [List.map_cons, List.count_cons] at hperm
  simpa [vclRefcount] using hperm

/-- The references of a nuked VCL are not those of a session's. -/
lemma VbeInv.used_eraseIdx (h : VbeInv s) {i vcl : Nat} (hi : s.vclRefs[i]? = some (vcl, b)) (hvcl : s.nuked vcl = true)
    {a c : Nat} (ha : s.used a = some c) : ∃ vcl, (s.sess a).vcl = some vcl ∧ (vcl, c) ∈ s.vclRefs.eraseIdx i := by
  obtain ⟨vcl', hheld, hmem⟩ := h.used a c ha
  refine ⟨vcl', hheld, ?_⟩
  obtain ⟨hlt, hget⟩ := List.getElem?_eq_some_iff.mp hi
  have hperm := List.getElem_cons_eraseIdx_perm hlt
  rw [hget] at hperm
  rcases List.mem_cons.mp (hperm.symm.subset hmem) with heq | hrest
  · cases heq
    rw [h.held a vcl hheld] at hvcl
    cases hvcl
  · exact hrest

lemma VbeInv.dropRefVcl {s1 : VbeState} (h : VbeInv s) {i vcl : Nat} (hi : s.vclRefs[i]? = some (vcl, b))
    (hvcl : s.nuked vcl = true) (hdrop : s.dropRefVcl b = some s1) :
    VbeInv { s1 with vclRefs := s1.vclRefs.eraseIdx i } := by
  have herase := fun a => vclRefcount_eraseIdx hi a
  have hsub : ∀ q ∈ s.vclRefs.eraseIdx i, q ∈ s.vclRefs := fun q hq => List.mem_of_mem_eraseIdx hq
  unfold VbeState.dropRefVcl at hdrop
  split at hdrop
  next => cases hdrop
  next v hv =>
    have hcount := h.refcount b v hv
    have hb := herase b
    rw [if_pos rfl] at hb
    unfold VbeState.dropRefLocked at hdrop
    split at hdrop
    next => cases hdrop
    next =>
      split at hdrop
      next hlast =>
        -- the last one: nobody uses it, and no VCL refers to it any more
        cases hdrop
        rw [hlast] at hcount
        obtain ⟨hrefs, hone⟩ := none_left hcount (by omega)
        have hgone : ∀ q ∈ s.vclRefs.eraseIdx i, q.2 ≠ b := by
          intro q hq hqb
          have hpos : 0 < ((s.vclRefs.eraseIdx i).map (·.2)).count b :=
            List.count_pos_iff.mpr (List.mem_map.mpr ⟨q, hq, hqb⟩)
          omega
        have hback : ∀ a u, (s.nuke b).backend a = some u → a ≠ b ∧ s.backend a = some u := by
          intro a u hu
          by_cases ha : a = b
          · subst ha
            simp [VbeState.nuke] at hu
          · simp only [VbeState.nuke, Function.update_of_ne ha] at hu
            exact ⟨ha, hu⟩
        refine ⟨?_, ?_, ?_, fun a c ha => h.used_eraseIdx hi hvcl ha, h.held, ?_⟩
        · intro a u hu
          obtain ⟨ha, hu⟩ := hback a u hu
          have hsame := herase a
          rw [if_neg (fun h => ha h.symm), Nat.add_zero] at hsame
          have hold := h.refcount a u hu
          rw [← hsame] at hold
          exact hold
        · intro a u hu
          exact h.nConn a u (hback a u hu).2
        · intro q hq
          obtain ⟨u, hu⟩ := h.vclRef q (hsub q hq)
          refine ⟨u, ?_⟩
          simp only [VbeState.nuke, Function.update_of_ne (hgone q hq)]
          exact hu
        · simp [h.cli]
      next hmore =>
        cases hdrop
        refine ⟨?_, ?_, ?_, fun a c ha => h.used_eraseIdx hi hvcl ha, h.held, h.cli⟩
        · intro a u hu
          by_cases ha : a = b
          · subst ha
            simp only [VbeState.setBackend, Function.update_self, Option.some.injEq] at hu
            subst hu
            refine balance hcount (c := 0) (d := 0) rfl ?_
            change ((s.vclRefs.eraseIdx i).map (·.2)).count a + 0 + v.refcount = vclRefcount s a + 0 + (v.refcount - 1)
            omega
          · simp only [VbeState.setBackend, Function.update_of_ne ha] at hu
            have hsame := herase a
            rw [if_neg (fun h => ha h.symm), Nat.add_zero] at hsame
            have hold := h.refcount a u hu
            rw [← hsame] at hold
            exact hold
        · intro a u hu
          by_cases ha : a = b
          · subst ha
            simp only [VbeState.setBackend, Function.update_self, Option.some.injEq] at hu
            subst hu
            exact h.nConn a v hv
          · simp only [VbeState.setBackend, Function.update_of_ne ha] at hu
            exact h.nConn a u hu
        · intro q hq
          obtain ⟨u, hu⟩ := h.vclRef q (hsub q hq)
          by_cases hqb : q.2 = b
          · rw [hqb]
            exact ⟨_, Function.update_self _ _ _⟩
          · refine ⟨u, ?_⟩
            simp only [VbeState.setBackend, Function.update_of_ne hqb]
            exact hu

lemma VbeInv.setVcl (h : VbeInv s) {o : Option Nat} {c : VbeConn} (hc : c = (s.sess sp).conn)
    (ho : ∀ vcl, o = some vcl → s.nuked vcl = false)
    (hfree : (s.sess sp).vcl = none ∨ (s.sess sp).conn = .idle) :
    VbeInv { s with sess := Function.update s.sess sp { vcl := o, conn := c } } := by
  have hused : VbeState.used { s with sess := Function.update s.sess sp { vcl := o, conn := c } } = s.used := by
    funext a
    by_cases ha : a = sp
    · subst ha
      simp [VbeState.used, hc]
    · simp [VbeState.used, ha]
  have hidle : s.used sp = none := by
    rcases hfree with hnone | hidle
    · cases hsp : s.used sp with
      | none => rfl
      | some b =>
        obtain ⟨vcl, hv, -⟩ := h.used sp b hsp
        rw [hnone] at hv
        cases hv
    · rw [VbeState.used, hidle, VbeConn.backend]
  refine ⟨by rw [hused]; exact h.refcount, by rw [hused]; exact h.nConn, h.vclRef, ?_, ?_, h.cli⟩
  · intro a b ha
    rw [hused] at ha
    have has : a ≠ sp := by
      rintro rfl
      rw [hidle] at ha
      cases ha
    simp only [Function.update_of_ne has]
    exact h.used a b ha
  · intro a vcl ha
    by_cases has : a = sp
    · subst has
      simp only [Function.update_self] at ha
      exact ho vcl ha
    · simp only [Function.update_of_ne has] at ha
      exact h.held a vcl ha

/-! ## Runs -/

lemma VbeInv.step (h : VbeInv s) {c : VbeStep} (hok : s.NukeOk c) (hstep : s.step c = some s') : VbeInv s' := by
  cases c with
  | addBackend vcl vb new => exact h.addBackend hstep
  | nukeVcl vcl =>
    cases hstep
    refine ⟨h.refcount, h.nConn, h.vclRef, h.used, ?_, h.cli⟩
    intro a vcl' ha
    have hne : vcl' ≠ vcl := by
      rintro rfl
      exact hok a ha
    simp only [Function.update_of_ne hne]
    exact h.held a vcl' ha
  | dropRefVcl i =>
    simp only [VbeState.step] at hstep
    split at hstep
    next => cases hstep
    next vcl b hi =>
      split at hstep
      next hvcl =>
        obtain ⟨s1, hdrop, rfl⟩ := Option.map_eq_some_iff.mp hstep
        exact h.dropRefVcl hi hvcl hdrop
      next => cases hstep
  | getVcl sp vcl =>
    simp only [VbeState.step] at hstep
    split at hstep
    next => cases hstep
    next hfree =>
      cases hstep
      simp only [Bool.or_eq_true, not_or, Bool.not_eq_true] at hfree
      refine h.setVcl rfl ?_ (Or.inl (by simpa using hfree.2))
      intro a ha
      cases ha
      exact hfree.1
  | relVcl sp =>
    simp only [VbeState.step] at hstep
    split at hstep
    next hidle =>
      cases hstep
      exact h.setVcl hidle.symm (fun a ha => by cases ha) (Or.inr hidle)
    next => cases hstep
  | recycle sp b =>
    simp only [VbeState.step] at hstep
    split at hstep
    next hmay =>
      rw [Bool.and_eq_true, beq_iff_eq] at hmay
      split at hstep
      next => cases hstep
      next v hv =>
        split at hstep
        next =>
          cases hstep
          exact h
        next vc connlist hlist =>
          cases hstep
          exact h.recycle hmay.1 hmay.2 hv hlist
    next => cases hstep
  | good sp =>
    simp only [VbeState.step] at hstep
    split at hstep
    next b vc hsp =>
      cases hstep
      exact h.same (by rw [VbeState.used, hsp]; rfl)
    next => cases hstep
  | tooLate sp =>
    simp only [VbeState.step] at hstep
    split at hstep
    next b vc hsp =>
      obtain ⟨s1, hdrop, rfl⟩ := Option.map_eq_some_iff.mp hstep
      exact h.dropRefConn (by rw [VbeState.used, hsp]; rfl) hdrop
    next => cases hstep
  | connTry sp b =>
    simp only [VbeState.step] at hstep
    split at hstep
    next hmay =>
      rw [Bool.and_eq_true, beq_iff_eq] at hmay
      split at hstep
      next => cases hstep
      next v hv =>
        cases hstep
        exact h.connTry hmay.1 hmay.2 hv
    next => cases hstep
  | connected sp vc =>
    simp only [VbeState.step] at hstep
    split at hstep
    next b hsp =>
      cases hstep
      exact h.same (by rw [VbeState.used, hsp]; rfl)
    next => cases hstep
  | failed sp =>
    simp only [VbeState.step] at hstep
    split at hstep
    next b hsp =>
      split at hstep
      next => cases hstep
      next v hv =>
        cases hstep
        exact h.failed (by rw [VbeState.used, hsp]; rfl) hv
    next => cases hstep
  | recycleFd sp =>
    simp only [VbeState.step] at hstep
    split at hstep
    next b vc hsp =>
      split at hstep
      next => cases hstep
      next v hv =>
        obtain ⟨s1, hdrop, rfl⟩ := Option.map_eq_some_iff.mp hstep
        exact h.recycleFd (by rw [VbeState.used, hsp]; rfl) hv hdrop
    next => cases hstep
  | closeFd sp =>
    simp only [VbeState.step] at hstep
    split at hstep
    next b vc hsp =>
      obtain ⟨s1, hdrop, rfl⟩ := Option.map_eq_some_iff.mp hstep
      exact h.dropRefConn (by rw [VbeState.used, hsp]; rfl) hdrop
    next => cases hstep

lemma vbeInv_init : VbeInv VbeState.init :=
  ⟨fun _ _ hv => (by cases hv), fun _ _ hv => (by cases hv), fun _ hq => absurd hq List.not_mem_nil,
    fun _ _ hu => (by cases hu), fun _ _ hu => (by cases hu), rfl⟩

lemma vbeReach_inv (h : VbeReach s) : VbeInv s := by
  induction h with
  | init => exact vbeInv_init
  | step c _ hok hstep ih => exact ih.step hok hstep

/-- In every reachable state the references of a backend are those of VCLs and of connections in use, its connections are
those in use and idle, no last reference has been dropped outside the CLI thread, and none can be: a backend to which a
session has a connection has another reference. -/
theorem backend_refs (h : VbeReach s) :
    (∀ b v, s.backend b = some v →
      refs s.used b + vclRefcount s b = v.refcount ∧ refs s.used b + v.connlist.length = v.nConn) ∧
      s.lastOutsideCli = false ∧
      ∀ sp b, s.used sp = some b → ∃ v, s.backend b = some v ∧ 2 ≤ v.refcount ∧ 1 ≤ v.nConn := by
  have hinv := vbeReach_inv h
  refine ⟨fun b v hv => ⟨hinv.refcount b v hv, hinv.nConn b v hv⟩, hinv.cli, fun sp b hsp => ?_⟩
  obtain ⟨vcl, -, hmem⟩ := hinv.used sp b hsp
  obtain ⟨v, hv⟩ := hinv.vclRef (vcl, b) hmem
  exact ⟨v, hv, hinv.two_le hv hsp⟩

/-- Two VCLs with one backend, an idle connection and one in use; when that is closed and the sessions are gone, the
VCLs are nuked, and the backend with the second. -/
theorem backend_refs_two_vcls :
    (∃ s, VbeReach s ∧
      s.backend 0 = some { key := ⟨"b", some [127, 0, 0, 1], none⟩, refcount := 3, nConn := 2, connlist := [9] } ∧
      refs s.used 0 + vclRefcount s 0 = (3 : ℕ) ∧ refs s.used 0 + (1 : ℕ) = (2 : ℕ)) ∧
    ∃ s, VbeReach s ∧ s.backend 0 = none ∧ s.vclRefs = [] ∧ s.lastOutsideCli = false := by
  have h1 := VbeReach.step (.addBackend 0 ⟨"b", some [127, 0, 0, 1], none⟩ 0) .init trivial rfl
  have h2 := VbeReach.step (.addBackend 1 ⟨"b", some [127, 0, 0, 1], none⟩ 7) h1 trivial rfl
  have h3 := VbeReach.step (.getVcl 3 0) h2 trivial rfl
  have h4 := VbeReach.step (.getVcl 4 1) h3 trivial rfl
  have h5 := VbeReach.step (.connTry 3 0) h4 trivial rfl
  have h6 := VbeReach.step (.connTry 4 0) h5 trivial rfl
  have h7 := VbeReach.step (.connected 3 9) h6 trivial rfl
  have h8 := VbeReach.step (.recycleFd 3) h7 trivial rfl
  have hcount := (backend_refs h8).1 0 ⟨⟨"b", some [127, 0, 0, 1], none⟩, 3, 2, [9]⟩ rfl
  have h9 := VbeReach.step (.connected 4 8) h8 trivial rfl
  have h10 := VbeReach.step (.closeFd 4) h9 trivial rfl
  have h11 := VbeReach.step (.relVcl 3) h10 trivial rfl
  have h12 := VbeReach.step (.relVcl 4) h11 trivial rfl
  have h13 := VbeReach.step (.nukeVcl 0) h12 (fun sp => by
    by_cases h4 : sp = 4
    · subst h4
      exact nofun
    · by_cases h3 : sp = 3
      · subst h3
        exact nofun
      · simp [VbeState.setConn, VbeState.setBackend, VbeState.init, h3, h4]) rfl
  have h14 := VbeReach.step (.dropRefVcl 0) h13 trivial rfl
  have h15 := VbeReach.step (.nukeVcl 1) h14 (fun sp => by
    by_cases h4 : sp = 4
    · subst h4
      exact nofun
    · by_cases h3 : sp = 3
      · subst h3
        exact nofun
      · simp [VbeState.setConn, VbeState.setBackend, VbeState.init, h3, h4]) rfl
  have h16 := VbeReach.step (.dropRefVcl 0) h15 trivial rfl
  exact ⟨⟨_, h8, rfl, hcount.1, hcount.2⟩, _, h16, rfl, rfl, (backend_refs h16).2.1⟩

/-! ## Identity -/

def keyOf (s : VbeState) (b : Nat) : Option BackendKey := (s.backend b).map (·.key)

/-- The addresses that are given for the second are those of the first, under the same name. -/
def Describes (k' k : BackendKey) : Prop :=
  k'.vclName = k.vclName ∧ (k.ipv4 = none ∨ k'.ipv4 = k.ipv4) ∧ (k.ipv6 = none ∨ k'.ipv6 = k.ipv6)

/-- `VBE_AddBackend` returns a backend with the name and the addresses of the definition, an existing one if and only if
there is one. -/
def AddIdentity (s : VbeState) (vb : BackendDef) (new : Nat) : Prop :=
  ∃ s' b, s.vbeAddBackend vb new = some (s', b) ∧ keyOf s' b = some vb.key ∧
    (b ∈ s.backends ↔ ∃ a ∈ s.backends, keyOf s a = some vb.key)

/-- A backend that agrees in what is given but has an address that is not given comes behind one that agrees in all,
and the text of a new backend fits. -/
structure AddOk (s : VbeState) (vb : BackendDef) : Prop where
  first : ∀ l b r k, s.backends = l ++ b :: r → keyOf s b = some k → Describes k vb.key → k ≠ vb.key →
    ∃ a ∈ l, keyOf s a = some vb.key
  text : (∀ b ∈ s.backends, ∀ k, keyOf s b = some k → ¬ Describes k vb.key) → vb.text.utf8ByteSize < 128

variable {vb : BackendDef} {new : Nat} {k k' : BackendKey}

lemma Describes.refl (k : BackendKey) : Describes k k := ⟨rfl, Or.inr rfl, Or.inr rfl⟩

lemma same_iff (v : Backend) (k : BackendKey) : v.same k = true ↔ Describes v.key k := by
  simp [Backend.same, Describes, and_assoc]

/-- What the loop of `VBE_AddBackend` looks for. -/
lemma matches_iff (b : Nat) : ((s.backend b).map (fun v => v.same k)).getD false = true ↔
    ∃ k', keyOf s b = some k' ∧ Describes k' k := by
  rw [keyOf]
  cases s.backend b with
  | none => simp
  | some v => simpa using same_iff v k

lemma find_none (h : s.findBackend k = none) : ∀ b ∈ s.backends, ∀ k', keyOf s b = some k' → ¬ Describes k' k := by
  intro b hb k' hk' hcov
  rw [VbeState.findBackend, List.find?_eq_none] at h
  exact h b hb ((matches_iff b).mpr ⟨k', hk', hcov⟩)

lemma find_some (h : s.findBackend k = some b) :
    (∃ k', keyOf s b = some k' ∧ Describes k' k) ∧ ∃ l r, s.backends = l ++ b :: r ∧ ∀ a ∈ l, keyOf s a ≠ some k := by
  rw [VbeState.findBackend, List.find?_eq_some_iff_append] at h
  obtain ⟨hb, l, r, hlist, hl⟩ := h
  refine ⟨(matches_iff b).mp hb, l, r, hlist, ?_⟩
  intro a ha heq
  have hmatch := (matches_iff (s := s) a).mpr ⟨k, heq, Describes.refl k⟩
  have hno := hl a ha
  rw [hmatch] at hno
  cases hno

@[simp] lemma keyOf_setBackend_self (v : Backend) : keyOf (s.setBackend b v) b = some v.key := by
  simp [keyOf, VbeState.setBackend]

lemma keyOf_setBackend_ne (v : Backend) {a : Nat} (ha : a ≠ b) : keyOf (s.setBackend b v) a = keyOf s a := by
  simp [keyOf, VbeState.setBackend, ha]

lemma keyOf_setBackend (hv : s.backend b = some v) (r n : Nat) (l : List Nat) (a : Nat) :
    keyOf (s.setBackend b ⟨v.key, r, n, l⟩) a = keyOf s a := by
  by_cases ha : a = b
  · subst ha
    rw [keyOf_setBackend_self, keyOf, hv]
    rfl
  · exact keyOf_setBackend_ne _ ha

/-- What `VBE_AddBackend` does when its loop finds a backend. -/
lemma vbeAddBackend_found (h : s.findBackend vb.key = some b) (hv : s.backend b = some v) :
    s.vbeAddBackend vb new = some (s.setBackend b { v with refcount := v.refcount + 1 }, b) := by
  simp [VbeState.vbeAddBackend, h, hv]

lemma vbeAddBackend_new (h : s.findBackend vb.key = none) (htext : vb.text.utf8ByteSize < 128) :
    s.vbeAddBackend vb new = some ({ s.setBackend new { key := vb.key, refcount := 1, nConn := 0, connlist := [] } with
      backends := s.backends ++ [new] }, new) := by
  simp [VbeState.vbeAddBackend, h, htext]

lemma vbeAddBackend_long (h : s.findBackend vb.key = none) (htext : ¬ vb.text.utf8ByteSize < 128) :
    s.vbeAddBackend vb new = none := by
  rw [VbeState.vbeAddBackend, h]
  exact if_pos (not_lt.mp htext)

/-- A backend that matches is what the loop finds, or the loop ends before it. -/
lemma find_before {l r : List Nat} {b' : Nat} (h : s.findBackend k = some b) (hlist : s.backends = l ++ b' :: r)
    (hk' : keyOf s b' = some k') (hcov : Describes k' k) : b = b' ∨ b ∈ l := by
  have hmatch := (matches_iff (s := s) b').mpr ⟨k', hk', hcov⟩
  rw [VbeState.findBackend, hlist, List.find?_append,
    List.find?_cons_of_pos (p := fun b => ((s.backend b).map (fun v => v.same k)).getD false) hmatch] at h
  cases hl : l.find? (fun b => ((s.backend b).map (fun v => v.same k)).getD false) with
  | none =>
    rw [hl] at h
    exact Or.inl (Option.some.inj h).symm
  | some a =>
    rw [hl] at h
    obtain rfl : a = b := Option.some.inj h
    exact Or.inr (List.mem_of_find?_eq_some hl)

/-- A call returns the right backend if and only if no backend with more addresses stands in the way. -/
lemma addIdentity_iff (hlive : ∀ b ∈ s.backends, s.backend b ≠ none) (hnew : s.backend new = none) :
    AddIdentity s vb new ↔ AddOk s vb := by
  cases hfind : s.findBackend vb.key with
  | none =>
    have hnone := find_none hfind
    have hfirst : ∀ l b r k, s.backends = l ++ b :: r → keyOf s b = some k → Describes k vb.key → k ≠ vb.key →
        ∃ a ∈ l, keyOf s a = some vb.key := by
      intro l b r k hlist hk hcov
      exact absurd hcov (hnone b (by rw [hlist]; exact List.mem_append_right l List.mem_cons_self) k hk)
    by_cases htext : vb.text.utf8ByteSize < 128
    · refine iff_of_true ⟨_, _, vbeAddBackend_new hfind htext, ?_, ?_⟩ ⟨hfirst, fun _ => htext⟩
      · exact keyOf_setBackend_self (s := s) _
      · refine iff_of_false (fun hmem => hlive new hmem hnew) ?_
        rintro ⟨a, ha, heq⟩
        exact hnone a ha vb.key heq (Describes.refl _)
    · refine iff_of_false ?_ (fun hok => htext (hok.text hnone))
      rintro ⟨s', b, hadd, -⟩
      rw [vbeAddBackend_long hfind htext] at hadd
      cases hadd
  | some b =>
    obtain ⟨⟨k, hk, hcov⟩, l, r, hlist, hl⟩ := find_some hfind
    have hmem : b ∈ s.backends := by
      rw [hlist]
      exact List.mem_append_right l List.mem_cons_self
    obtain ⟨v, hv, hvk⟩ := Option.map_eq_some_iff.mp hk
    constructor
    · rintro ⟨s', b', hadd, hkey, -⟩
      rw [vbeAddBackend_found hfind hv] at hadd
      obtain ⟨rfl, rfl⟩ := Prod.mk.inj (Option.some.inj hadd)
      rw [keyOf_setBackend hv] at hkey
      constructor
      · intro l' b' r' k' hlist' hk' hcov' hne
        rcases find_before hfind hlist' hk' hcov' with rfl | hbefore
        · exact absurd (Option.some.inj (hk'.symm.trans hkey)) hne
        · exact ⟨b, hbefore, hkey⟩
      · intro hnone
        exact absurd hcov (hnone b hmem k hk)
    · intro hok
      have heq : k = vb.key := by
        by_contra hne
        obtain ⟨a, ha, hka⟩ := hok.first l b r k hlist hk hcov hne
        exact hl a ha hka
      refine ⟨_, _, vbeAddBackend_found hfind hv, ?_, ?_⟩
      · rw [keyOf_setBackend_self, hvk, heq]
      · exact iff_of_true hmem ⟨b, hmem, by rw [hk, heq]⟩

/-- A run of loads and discards among what sessions do, with the definition behind each reference of a VCL. Every call of
`VBE_AddBackend` so far met the condition. -/
inductive VbeLoads : VbeState → List BackendKey → Prop where
  | init : VbeLoads .init []
  | add {s s' : VbeState} {defs : List BackendKey} {vcl b new : Nat} {vb : BackendDef} (h : VbeLoads s defs)
      (hok : AddOk s vb)
      (hvcl : s.nuked vcl = false) (hnew : s.backend new = none) (hadd : s.vbeAddBackend vb new = some (s', b)) :
      VbeLoads { s' with vclRefs := s'.vclRefs ++ [(vcl, b)] } (defs ++ [vb.key])
  | drop {s s' : VbeState} {defs : List BackendKey} (i : Nat) (h : VbeLoads s defs)
      (hstep : s.step (.dropRefVcl i) = some s') :
      VbeLoads s' (defs.eraseIdx i)
  | session {s s' : VbeState} {defs : List BackendKey} (c : VbeStep) (h : VbeLoads s defs)
      (hadd : ∀ vcl k new, c ≠ .addBackend vcl k new) (hdrop : ∀ i, c ≠ .dropRefVcl i) (hok : s.NukeOk c)
      (hstep : s.step c = some s') : VbeLoads s' defs

/-- The call as a step. -/
lemma vbeAddBackend_step {vcl : Nat} (hvcl : s.nuked vcl = false) (hnew : s.backend new = none)
    (hadd : s.vbeAddBackend vb new = some (s', b)) :
    s.step (.addBackend vcl vb.key new) = some { s' with vclRefs := s'.vclRefs ++ [(vcl, b)] } := by
  cases hfind : s.findBackend vb.key with
  | none =>
    by_cases htext : vb.text.utf8ByteSize < 128
    · rw [vbeAddBackend_new hfind htext] at hadd
      cases hadd
      simp [VbeState.step, hvcl, hfind, hnew, VbeState.setBackend]
    · rw [vbeAddBackend_long hfind htext] at hadd
      cases hadd
  | some a =>
    cases hv : s.backend a with
    | none => simp [VbeState.vbeAddBackend, hfind, hv] at hadd
    | some v =>
      rw [vbeAddBackend_found hfind hv] at hadd
      cases hadd
      simp [VbeState.step, hvcl, hfind, hv, VbeState.setBackend]

lemma VbeLoads.reach {defs : List BackendKey} (h : VbeLoads s defs) : VbeReach s := by
  induction h with
  | init => exact .init
  | @add s s' defs vcl b new vb h hok hvcl hnew hadd ih =>
    exact .step (.addBackend vcl vb.key new) ih trivial (vbeAddBackend_step hvcl hnew hadd)
  | drop i h hstep ih => exact .step (.dropRefVcl i) ih trivial hstep
  | session c h hadd hdrop hok hstep ih => exact .step c ih hok hstep

/-- A step that leaves the backends, their names and addresses, and the references of VCLs as they are. -/
structure SameBackends (s s' : VbeState) : Prop where
  key : ∀ a, keyOf s' a = keyOf s a
  backends : s'.backends = s.backends
  vclRefs : s'.vclRefs = s.vclRefs

lemma SameBackends.setConn {s1 : VbeState} (h : SameBackends s s1) (sp : Nat) (c : VbeConn) :
    SameBackends s (s1.setConn sp c) :=
  ⟨h.key, h.backends, h.vclRefs⟩

lemma sameBackends_set (hv : s.backend b = some v) (r n : Nat) (l : List Nat) :
    SameBackends s (s.setBackend b ⟨v.key, r, n, l⟩) :=
  ⟨keyOf_setBackend hv r n l, rfl, rfl⟩

/-- What a session drops is not the last reference. -/
lemma VbeInv.sameBackends_drop {s1 : VbeState} (h : VbeInv s) (hsp : s.used sp = some b)
    (hdrop : s.dropRefConn b = some s1) :
    SameBackends s s1 := by
  unfold VbeState.dropRefConn at hdrop
  split at hdrop
  next => cases hdrop
  next v hv =>
    split at hdrop
    next => cases hdrop
    next =>
      rw [dropRefLocked_cases hdrop (h.two_le hv hsp).1]
      exact sameBackends_set hv _ _ _

lemma VbeInv.sameBackends_session (h : VbeInv s) {c : VbeStep} (hadd : ∀ vcl k new, c ≠ .addBackend vcl k new)
    (hdrop : ∀ i, c ≠ .dropRefVcl i) (hstep : s.step c = some s') : SameBackends s s' := by
  have hsame : SameBackends s s := ⟨fun _ => rfl, rfl, rfl⟩
  cases c with
  | addBackend vcl k new => exact absurd rfl (hadd vcl k new)
  | nukeVcl vcl =>
    cases hstep
    exact ⟨fun _ => rfl, rfl, rfl⟩
  | dropRefVcl i => exact absurd rfl (hdrop i)
  | getVcl sp vcl =>
    simp only [VbeState.step] at hstep
    split at hstep
    next => cases hstep
    next =>
      cases hstep
      exact ⟨fun _ => rfl, rfl, rfl⟩
  | relVcl sp =>
    simp only [VbeState.step] at hstep
    split at hstep
    next =>
      cases hstep
      exact ⟨fun _ => rfl, rfl, rfl⟩
    next => cases hstep
  | recycle sp b =>
    simp only [VbeState.step] at hstep
    split at hstep
    next =>
      split at hstep
      next => cases hstep
      next v hv =>
        split at hstep
        next =>
          cases hstep
          exact hsame
        next =>
          cases hstep
          exact (sameBackends_set hv _ _ _).setConn sp _
    next => cases hstep
  | good sp =>
    simp only [VbeState.step] at hstep
    split at hstep
    next =>
      cases hstep
      exact hsame.setConn sp _
    next => cases hstep
  | tooLate sp =>
    simp only [VbeState.step] at hstep
    split at hstep
    next b vc hsp =>
      obtain ⟨s1, hs1, rfl⟩ := Option.map_eq_some_iff.mp hstep
      exact (h.sameBackends_drop (by rw [VbeState.used, hsp]; rfl) hs1).setConn sp _
    next => cases hstep
  | connTry sp b =>
    simp only [VbeState.step] at hstep
    split at hstep
    next =>
      split at hstep
      next => cases hstep
      next v hv =>
        cases hstep
        exact (sameBackends_set hv _ _ _).setConn sp _
    next => cases hstep
  | connected sp vc =>
    simp only [VbeState.step] at hstep
    split at hstep
    next =>
      cases hstep
      exact hsame.setConn sp _
    next => cases hstep
  | failed sp =>
    simp only [VbeState.step] at hstep
    split at hstep
    next b hsp =>
      split at hstep
      next => cases hstep
      next v hv =>
        cases hstep
        exact (sameBackends_set hv _ _ _).setConn sp _
    next => cases hstep
  | recycleFd sp =>
    simp only [VbeState.step] at hstep
    split at hstep
    next b vc hsp =>
      split at hstep
      next => cases hstep
      next v hv =>
        obtain ⟨s1, hs1, rfl⟩ := Option.map_eq_some_iff.mp hstep
        rw [dropRefLocked_cases hs1 (h.two_le hv (by rw [VbeState.used, hsp]; rfl)).1]
        exact (sameBackends_set hv _ _ _).setConn sp _
    next => cases hstep
  | closeFd sp =>
    simp only [VbeState.step] at hstep
    split at hstep
    next b vc hsp =>
      obtain ⟨s1, hs1, rfl⟩ := Option.map_eq_some_iff.mp hstep
      exact (h.sameBackends_drop (by rw [VbeState.used, hsp]; rfl) hs1).setConn sp _
    next => cases hstep

/-- The backends of the list are there, and what a VCL refers to is what its definition says. -/
structure DefsOk (s : VbeState) (defs : List BackendKey) : Prop where
  live : ∀ b ∈ s.backends, s.backend b ≠ none
  refs : List.Forall₂ (fun r d => keyOf s r.2 = some d) s.vclRefs defs

variable {defs : List BackendKey}

lemma keyOf_ne_none (b : Nat) : keyOf s b ≠ none ↔ s.backend b ≠ none := by
  rw [keyOf, ne_eq, Option.map_eq_none_iff]

lemma DefsOk.sameBackends (h : DefsOk s defs) (hsame : SameBackends s s') : DefsOk s' defs := by
  constructor
  · intro b hb
    rw [hsame.backends] at hb
    rw [← keyOf_ne_none, hsame.key, keyOf_ne_none]
    exact h.live b hb
  · rw [hsame.vclRefs]
    exact h.refs.imp fun r d hr => (hsame.key r.2).trans hr

lemma vbeAddBackend_frame (hnew : s.backend new = none) (hadd : s.vbeAddBackend vb new = some (s', b)) :
    s'.vclRefs = s.vclRefs ∧ (∀ a k, keyOf s a = some k → keyOf s' a = some k) ∧
      ∀ a ∈ s'.backends, a ∈ s.backends ∨ s'.backend a ≠ none := by
  cases hfind : s.findBackend vb.key with
  | none =>
    by_cases htext : vb.text.utf8ByteSize < 128
    · rw [vbeAddBackend_new hfind htext] at hadd
      cases hadd
      refine ⟨rfl, ?_, ?_⟩
      · intro a k ha
        have hne : a ≠ b := by
          rintro rfl
          exact (keyOf_ne_none a).mp (by rw [ha]; exact Option.some_ne_none k) hnew
        exact (keyOf_setBackend_ne (s := s) _ hne).trans ha
      · intro a ha
        rcases List.mem_append.mp ha with ha | ha
        · exact Or.inl ha
        · obtain rfl := List.mem_singleton.mp ha
          right
          simp [VbeState.setBackend]
    · rw [vbeAddBackend_long hfind htext] at hadd
      cases hadd
  | some c =>
    cases hv : s.backend c with
    | none => simp [VbeState.vbeAddBackend, hfind, hv] at hadd
    | some v =>
      rw [vbeAddBackend_found hfind hv] at hadd
      cases hadd
      exact ⟨rfl, fun a k ha => (keyOf_setBackend hv _ _ _ a).trans ha, fun a ha => Or.inl ha⟩

lemma DefsOk.add {vcl : Nat} (h : DefsOk s defs) (hok : AddOk s vb) (hnew : s.backend new = none)
    (hadd : s.vbeAddBackend vb new = some (s', b)) :
    DefsOk { s' with vclRefs := s'.vclRefs ++ [(vcl, b)] } (defs ++ [vb.key]) := by
  obtain ⟨hrefs, hkeep, hlist⟩ := vbeAddBackend_frame hnew hadd
  obtain ⟨s1, b1, hadd1, hkey, -⟩ := (addIdentity_iff h.live hnew).mpr hok
  obtain ⟨rfl, rfl⟩ := Prod.mk.inj (Option.some.inj (hadd.symm.trans hadd1))
  constructor
  · intro a ha
    rcases hlist a ha with hold | hthere
    · obtain ⟨k, hk⟩ := Option.ne_none_iff_exists'.mp ((keyOf_ne_none a).mpr (h.live a hold))
      have hthere : keyOf s' a ≠ none := by
        rw [hkeep a k hk]
        exact Option.some_ne_none k
      exact (keyOf_ne_none a).mp hthere
    · exact hthere
  · change List.Forall₂ _ (s'.vclRefs ++ [(vcl, b)]) (defs ++ [vb.key])
    rw [hrefs]
    refine List.rel_append (h.refs.imp fun r d hr => hkeep r.2 d hr) ?_
    exact List.Forall₂.cons hkey List.Forall₂.nil

lemma forall₂_eraseIdx {α β : Type} {R : α → β → Prop} {l : List α} {l' : List β} (h : List.Forall₂ R l l') (i : Nat) :
    List.Forall₂ R (l.eraseIdx i) (l'.eraseIdx i) := by
  induction h generalizing i with
  | nil => exact List.Forall₂.nil
  | cons hab hrest ih =>
    cases i with
    | zero => exact hrest
    | succ i => exact List.Forall₂.cons hab (ih i)

/-- What is left behind a dropped reference is as it was. -/
lemma dropRefVcl_frame {s1 : VbeState} (hdrop : s.dropRefVcl b = some s1) :
    s1.vclRefs = s.vclRefs ∧ (∀ a v, s1.backend a = some v → keyOf s a = some v.key) ∧
      ∀ a ∈ s1.backends, a ∈ s.backends ∧ (s.backend a ≠ none → s1.backend a ≠ none) := by
  unfold VbeState.dropRefVcl at hdrop
  cases hv : s.backend b with
  | none =>
    rw [hv] at hdrop
    cases hdrop
  | some v =>
    rw [hv] at hdrop
    dsimp only [VbeState.dropRefLocked] at hdrop
    split_ifs at hdrop with h0 h1
    · cases hdrop
      refine ⟨rfl, ?_, ?_⟩
      · intro a u hu
        have hne : a ≠ b := by
          rintro rfl
          simp [VbeState.nuke] at hu
        have hold : s.backend a = some u := by simpa [VbeState.nuke, hne] using hu
        rw [keyOf, hold]
        rfl
      · intro a ha
        obtain ⟨hold, hne⟩ := List.mem_filter.mp ha
        have hne : a ≠ b := of_decide_eq_true hne
        refine ⟨hold, fun hlive => ?_⟩
        simpa [VbeState.nuke, hne] using hlive
    · cases hdrop
      refine ⟨rfl, ?_, fun a ha => ⟨ha, fun hlive => ?_⟩⟩
      · intro a u hu
        have hkey := keyOf_setBackend hv (v.refcount - 1) v.nConn v.connlist a
        rw [← hkey, keyOf, hu]
        rfl
      · rw [← keyOf_ne_none, keyOf_setBackend hv, keyOf_ne_none]
        exact hlive

lemma DefsOk.drop {i : Nat} (h : DefsOk s defs) (hinv : VbeInv s') (hstep : s.step (.dropRefVcl i) = some s') :
    DefsOk s' (defs.eraseIdx i) := by
  simp only [VbeState.step] at hstep
  cases hi : s.vclRefs[i]? with
  | none => simp [hi] at hstep
  | some q =>
    simp only [hi] at hstep
    split_ifs at hstep with hvcl
    obtain ⟨s1, hdrop, rfl⟩ := Option.map_eq_some_iff.mp hstep
    obtain ⟨hrefs, hkey, hlist⟩ := dropRefVcl_frame hdrop
    constructor
    · intro b hb
      obtain ⟨hold, hkeep⟩ := hlist b hb
      exact hkeep (h.live b hold)
    · obtain ⟨hlen, hall⟩ := List.forall₂_iff_zip.mp (forall₂_eraseIdx h.refs i)
      rw [← hrefs] at hlen hall
      refine List.forall₂_iff_zip.mpr ⟨hlen, ?_⟩
      intro r d hmem
      -- a reference that is left is to a backend that is still there
      obtain ⟨v, hv⟩ := hinv.vclRef r (List.of_mem_zip hmem).1
      have hold : keyOf s r.2 = some v.key := hkey r.2 v hv
      have hd : v.key = d := Option.some.inj (hold.symm.trans (hall hmem))
      rw [keyOf, hv, ← hd]
      rfl

lemma VbeLoads.defsOk (h : VbeLoads s defs) : DefsOk s defs := by
  induction h with
  | init => exact ⟨fun b hb => absurd hb List.not_mem_nil, List.Forall₂.nil⟩
  | add h hok hvcl hnew hadd ih => exact ih.add hok hnew hadd
  | drop i h hstep ih => exact ih.drop (vbeReach_inv (VbeLoads.drop i h hstep).reach) hstep
  | session c h hadd hdrop hok hstep ih =>
      exact ih.sameBackends ((vbeReach_inv h.reach).sameBackends_session hadd hdrop hstep)

/-- A VCL has for each of its definitions a backend with that name and these addresses, different definitions have
different backends, and the next call returns the backend of its definition if and only if nothing stands in its
way. -/
structure BackendIdentity (s : VbeState) (defs : List BackendKey) : Prop where
  length : defs.length = s.vclRefs.length
  key : ∀ (i : Nat) (d : BackendKey), defs[i]? = some d → ∃ r : Nat × Nat, s.vclRefs[i]? = some r ∧ keyOf s r.2 = some d
  apart : ∀ (i j : Nat) (r q : Nat × Nat) (d e : BackendKey), s.vclRefs[i]? = some r → defs[i]? = some d →
    s.vclRefs[j]? = some q → defs[j]? = some e → d ≠ e → r.2 ≠ q.2
  next : ∀ vb new, s.backend new = none → (AddIdentity s vb new ↔ AddOk s vb)

theorem backend_identity (h : VbeLoads s defs) : BackendIdentity s defs := by
  have hok := h.defsOk
  have hkey : ∀ (i : Nat) (r : Nat × Nat) (d : BackendKey), s.vclRefs[i]? = some r → defs[i]? = some d →
      keyOf s r.2 = some d := by
    intro i r d hr hd
    obtain ⟨hi, rfl⟩ := List.getElem?_eq_some_iff.mp hr
    obtain ⟨hj, rfl⟩ := List.getElem?_eq_some_iff.mp hd
    exact hok.refs.get hi hj
  constructor
  case length => exact hok.refs.length_eq.symm
  case key =>
    intro i d hd
    obtain ⟨hi, -⟩ := List.getElem?_eq_some_iff.mp hd
    have hlt : i < s.vclRefs.length := by
      rw [hok.refs.length_eq]
      exact hi
    have hr := List.getElem?_eq_getElem hlt
    exact ⟨_, hr, hkey i _ d hr hd⟩
  case apart =>
    intro i j r q d e hr hd hq he hne heq
    have hdkey := hkey i r d hr hd
    rw [heq, hkey j q e hq he] at hdkey
    exact hne (Option.some.inj hdkey).symm
  case next =>
    intro vb new hnew
    exact addIdentity_iff hok.live hnew

/-- A backend with both addresses, and the definition of one of the same name with the second alone. -/
def dualKey : BackendKey := ⟨"b", some [127, 0, 0, 1], some [0, 1]⟩

def dualDef : BackendDef :=
  ⟨dualKey, some "127.0.0.1", some "::1", "80", Or.inl (Option.some_ne_none _), by decide, by decide⟩

def singleDef : BackendDef :=
  ⟨⟨"b", none, some [0, 1]⟩, none, some "::1", "80", Or.inr (Option.some_ne_none _), by decide, by decide⟩

def dualState : VbeState :=
  { VbeState.init with
    backend := Function.update (fun _ => none) 0 (some ⟨dualKey, 1, 0, []⟩), backends := [0], vclRefs := [(0, 0)] }

lemma addOk_empty {vb : BackendDef} (hlist : s.backends = []) (htext : vb.text.utf8ByteSize < 128) : AddOk s vb := by
  refine ⟨?_, fun _ => htext⟩
  intro l b r k h
  rw [hlist] at h
  exact absurd (congrArg List.length h) (by simp)

lemma dualState_loads : VbeLoads dualState [dualKey] :=
  have hok : AddOk VbeState.init dualDef := addOk_empty rfl (by decide +kernel)
  have hvcl : VbeState.init.nuked 0 = false := rfl
  have hnew : VbeState.init.backend 0 = none := rfl
  .add .init hok hvcl hnew rfl

theorem backend_identity_one_vcl : VbeLoads dualState [dualKey] ∧ BackendIdentity dualState [dualKey] :=
  ⟨dualState_loads, backend_identity dualState_loads⟩

/-- The second VCL's backend without an IPv4 address is taken for the first one's. -/
theorem absent_address_matches : ¬ ∀ s defs, VbeLoads s defs → ∀ vb new, s.backend new = none →
    AddIdentity s vb new := by
  intro hall
  obtain ⟨s', b, hadd, hkey, -⟩ := hall dualState [dualKey] dualState_loads singleDef 1 rfl
  have hfound : dualState.findBackend singleDef.key = some 0 := by decide +kernel
  rw [vbeAddBackend_found hfound (v := ⟨dualKey, 1, 0, []⟩) rfl] at hadd
  cases hadd
  exact absurd hkey (by decide)

end VarnishCache.Proofs
