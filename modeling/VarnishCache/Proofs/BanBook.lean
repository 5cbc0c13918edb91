import VarnishCache.BanRef
import VarnishCache.Lib.RefCount
import VarnishCache.Proofs.BanSteps

/-!
# The counts and lists of bans

The bans from `last` to `first`, each with its list of objcores and its count, go with the ban that each objcore
belongs to, with the calls of `BAN_Insert` that hunt for duplicates, and with the tail references of silo threads.
There is one lemma for each thing that a critical section of `cache_ban.c` does to them.
-/

namespace VarnishCache.Proofs

open VarnishCache RefCount

variable {first last : Nat} {ban ban' : Nat → Ban} {ptr : Nat → Option Nat} {hunts : List (Nat × Nat)}
  {tails : Nat → Option Nat} {x t a b : Nat}

structure BanBook (first last : Nat) (ban : Nat → Ban) (ptr : Nat → Option Nat) (hunts : List (Nat × Nat))
    (tails : Nat → Option Nat) : Prop where
  one_le : 1 ≤ last
  order : last ≤ first
  listed : ∀ x a, x ∈ (ban a).objcore ↔ ptr x = some a
  nodup : ∀ a, (ban a).objcore.Nodup
  inList : ∀ x a, ptr x = some a → last ≤ a ∧ a ≤ first
  hunt : ∀ p ∈ hunts, p.2 = last ∧ last < p.1 ∧ p.1 ≤ first
  tail : ∀ t a, tails t = some a → last ≤ a ∧ a ≤ first
  count : ∀ a, refs tails a + ((ban a).objcore.length + hunts.countP (fun p => p.2 = a) : ℕ) = (ban a).refcount

/-- Flags and specs do not matter, nor does the order of a list. -/
lemma BanBook.congr (h : BanBook first last ban ptr hunts tails)
    (hban : ∀ a, (ban' a).refcount = (ban a).refcount ∧ (ban' a).objcore.Perm (ban a).objcore) :
    BanBook first last ban' ptr hunts tails :=
  { h with
    listed := by
      intro x a
      rw [(hban a).2.mem_iff]
      exact h.listed x a
    nodup := fun a => (hban a).2.nodup_iff.mpr (h.nodup a)
    count := by
      intro a
      rw [(hban a).1, (hban a).2.length_eq]
      exact h.count a }

/-- Objcore `x` goes to the end of the list of ban `b`, with a reference. -/
structure Attaches (b x : Nat) (ban ban' : Nat → Ban) : Prop where
  refcount : (ban' b).refcount = (ban b).refcount + 1
  objcore : (ban' b).objcore = (ban b).objcore ++ [x]
  rest : ∀ a, a ≠ b → (ban' a).refcount = (ban a).refcount ∧ (ban' a).objcore = (ban a).objcore

lemma BanBook.attach (h : BanBook first last ban ptr hunts tails) (hx : ptr x = none) (hlo : last ≤ b) (hhi : b ≤ first)
    (hatt : Attaches b x ban ban') : BanBook first last ban' (Function.update ptr x (some b)) hunts tails := by
  have hnot : ∀ a, x ∉ (ban a).objcore := by
    intro a hmem
    rw [h.listed, hx] at hmem
    cases hmem
  exact
    { h with
      listed := by
        intro y a
        by_cases ha : a = b
        · subst ha
          rw [hatt.objcore, List.mem_append, List.mem_singleton, h.listed]
          by_cases hy : y = x
          · simp [hy]
          · simp [hy]
        · rw [(hatt.rest a ha).2, h.listed]
          by_cases hy : y = x
          · subst hy
            simp [hx, Ne.symm ha]
          · simp [hy]
      nodup := by
        intro a
        by_cases ha : a = b
        · subst ha
          rw [hatt.objcore]
          exact List.Nodup.append (h.nodup a) (List.nodup_singleton x) (by simpa using hnot a)
        · rw [(hatt.rest a ha).2]
          exact h.nodup a
      inList := by
        intro y a hy
        by_cases hyx : y = x
        · subst hyx
          rw [Function.update_self] at hy
          cases hy
          exact ⟨hlo, hhi⟩
        · rw [Function.update_of_ne hyx] at hy
          exact h.inList y a hy
      count := by
        intro a
        by_cases ha : a = b
        · subst ha
          rw [hatt.refcount, hatt.objcore, List.length_append, List.length_singleton]
          exact balance (c := 0) (d := 0) (h.count a) (by simp) (by omega)
        · rw [(hatt.rest a ha).1, (hatt.rest a ha).2]
          exact h.count a }

/-- Objcore `x` leaves the list of ban `b`, and its reference goes. -/
structure Detaches (b x : Nat) (ban ban' : Nat → Ban) : Prop where
  refcount : (ban' b).refcount = (ban b).refcount - 1
  objcore : (ban' b).objcore = (ban b).objcore.erase x
  rest : ∀ a, a ≠ b → (ban' a).refcount = (ban a).refcount ∧ (ban' a).objcore = (ban a).objcore

lemma BanBook.detach (h : BanBook first last ban ptr hunts tails) (hx : ptr x = some b)
    (hdet : Detaches b x ban ban') : BanBook first last ban' (Function.update ptr x none) hunts tails := by
  have hmem : x ∈ (ban b).objcore := (h.listed x b).mpr hx
  exact
    { h with
      listed := by
        intro y a
        by_cases ha : a = b
        · subst ha
          rw [hdet.objcore, (h.nodup a).mem_erase_iff, h.listed]
          by_cases hy : y = x
          · simp [hy]
          · simp [hy]
        · rw [(hdet.rest a ha).2, h.listed]
          by_cases hy : y = x
          · subst hy
            simp [hx, Ne.symm ha]
          · simp [hy]
      nodup := by
        intro a
        by_cases ha : a = b
        · subst ha
          rw [hdet.objcore]
          exact (h.nodup a).erase x
        · rw [(hdet.rest a ha).2]
          exact h.nodup a
      inList := by
        intro y a hy
        by_cases hyx : y = x
        · subst hyx
          simp at hy
        · rw [Function.update_of_ne hyx] at hy
          exact h.inList y a hy
      count := by
        intro a
        by_cases ha : a = b
        · subst ha
          have hpos := List.length_pos_of_mem hmem
          have hle := own_le (h.count a)
          rw [hdet.refcount, hdet.objcore, List.length_erase_of_mem hmem]
          exact balance (c := 0) (d := 0) (h.count a) (by simp) (by omega)
        · rw [(hdet.rest a ha).1, (hdet.rest a ha).2]
          exact h.count a }

/-- A ban whose count and members stay. -/
lemma setBan_books (st : BanState) (b : Nat) (f : Ban → Ban) (hr : (f (st.ban b)).refcount = (st.ban b).refcount)
    (ho : (f (st.ban b)).objcore.Perm (st.ban b).objcore) (a : Nat) :
    ((st.setBan b f).ban a).refcount = (st.ban a).refcount ∧
      ((st.setBan b f).ban a).objcore.Perm (st.ban a).objcore := by
  rw [setBan_apply]
  by_cases ha : a = b
  · subst ha
    rw [if_pos rfl]
    exact ⟨hr, ho⟩
  · rw [if_neg ha]
    exact ⟨rfl, .rfl⟩

lemma attaches_setBan {st : BanState} {f : Ban → Ban} (h : st.ban = ban)
    (hf : (f (ban b)).refcount = (ban b).refcount + 1)
    (ho : (f (ban b)).objcore = (ban b).objcore ++ [x]) : Attaches b x ban (st.setBan b f).ban := by
  subst h
  refine ⟨?_, ?_, ?_⟩
  · rw [setBan_apply, if_pos rfl, hf]
  · rw [setBan_apply, if_pos rfl, ho]
  · intro a ha
    rw [setBan_apply, if_neg ha]
    exact ⟨rfl, rfl⟩

lemma detaches_setBan {st : BanState} {f : Ban → Ban} (h : st.ban = ban)
    (hf : (f (ban b)).refcount = (ban b).refcount - 1)
    (ho : (f (ban b)).objcore = (ban b).objcore.erase x) : Detaches b x ban (st.setBan b f).ban := by
  subst h
  refine ⟨?_, ?_, ?_⟩
  · rw [setBan_apply, if_pos rfl, hf]
  · rw [setBan_apply, if_pos rfl, ho]
  · intro a ha
    rw [setBan_apply, if_neg ha]
    exact ⟨rfl, rfl⟩

/-- `BAN_Insert` puts a new ban at the front. -/
lemma BanBook.insert (h : BanBook first last ban ptr hunts tails) {y : Ban} (href : y.refcount = 0)
    (hobj : y.objcore = []) : BanBook (first + 1) last (Function.update ban (first + 1) y) ptr hunts tails := by
  have hempty : ∀ z, ptr z ≠ some (first + 1) := by
    intro z hz
    have := h.inList z _ hz
    omega
  have hnone : refs tails (first + 1) = 0 := by
    rw [refs_eq_zero]
    intro t ht
    have := h.tail t _ ht
    omega
  have hcount : hunts.countP (fun p => p.2 = first + 1) = 0 := by
    rw [List.countP_eq_zero]
    intro p hp
    have := h.hunt p hp
    simp only [decide_eq_true_eq]
    omega
  exact
    { one_le := h.one_le
      order := h.order.trans (Nat.le_succ first)
      listed := by
        intro z a
        by_cases ha : a = first + 1
        · subst ha
          rw [Function.update_self, hobj]
          simpa using hempty z
        · rw [Function.update_of_ne ha]
          exact h.listed z a
      nodup := by
        intro a
        by_cases ha : a = first + 1
        · subst ha
          rw [Function.update_self, hobj]
          exact List.nodup_nil
        · rw [Function.update_of_ne ha]
          exact h.nodup a
      inList := fun z a hz => ⟨(h.inList z a hz).1, (h.inList z a hz).2.trans (Nat.le_succ first)⟩
      hunt := fun p hp => ⟨(h.hunt p hp).1, (h.hunt p hp).2.1, (h.hunt p hp).2.2.trans (Nat.le_succ first)⟩
      tail := fun t a ht => ⟨(h.tail t a ht).1, (h.tail t a ht).2.trans (Nat.le_succ first)⟩
      count := by
        intro a
        by_cases ha : a = first + 1
        · subst ha
          rw [Function.update_self, hobj, href, hnone, hcount]
          rfl
        · rw [Function.update_of_ne ha]
          exact h.count a }

/-- The lists stay as they are, and other references come or go. -/
lemma BanBook.recount {hunts' : List (Nat × Nat)} {tails' : Nat → Option Nat}
    (h : BanBook first last ban ptr hunts tails) (hobj : ∀ a, (ban' a).objcore = (ban a).objcore)
    (hhunt : ∀ p ∈ hunts', p.2 = last ∧ last < p.1 ∧ p.1 ≤ first)
    (htail : ∀ t a, tails' t = some a → last ≤ a ∧ a ≤ first)
    (hcount : ∀ a, refs tails' a + ((ban a).objcore.length + hunts'.countP (fun p => p.2 = a) : ℕ) = (ban' a).refcount) :
    BanBook first last ban' ptr hunts' tails' :=
  { h with
    listed := by
      intro y a
      rw [hobj]
      exact h.listed y a
    nodup := by
      intro a
      rw [hobj]
      exact h.nodup a
    hunt := hhunt
    tail := htail
    count := by
      intro a
      rw [hobj]
      exact hcount a }

/-- `BAN_Insert` takes a reference to the last ban for the hunt. -/
lemma BanBook.hunting (h : BanBook first last ban ptr hunts tails) (hlo : last < b) (hhi : b ≤ first)
    (hban : ∀ a, (ban' a).refcount = (ban a).refcount + (if a = last then 1 else 0) ∧
      (ban' a).objcore = (ban a).objcore) : BanBook first last ban' ptr (hunts ++ [(b, last)]) tails := by
  refine h.recount (fun a => (hban a).2) ?_ h.tail ?_
  · intro p hp
    rw [List.mem_append, List.mem_singleton] at hp
    rcases hp with hp | rfl
    · exact h.hunt p hp
    · exact ⟨rfl, hlo, hhi⟩
  · intro a
    rw [(hban a).1, List.countP_append, List.countP_singleton]
    refine balance (c := 0) (d := 0) (h.count a) (by simp) ?_
    by_cases ha : a = last
    · simp only [ha, decide_true, if_true]
      omega
    · simp only [ha, Ne.symm ha, decide_false, if_false, Bool.false_eq_true]
      omega

/-- The end of a hunt. -/
lemma BanBook.hunted (h : BanBook first last ban ptr hunts tails) {p : Nat × Nat} (hp : p ∈ hunts)
    (hban : ∀ a, (ban' a).refcount = (ban a).refcount - (if a = p.2 then 1 else 0) ∧
      (ban' a).objcore = (ban a).objcore) : BanBook first last ban' ptr (hunts.erase p) tails := by
  refine h.recount (fun a => (hban a).2) (fun q hq => h.hunt q (List.mem_of_mem_erase hq)) h.tail ?_
  intro a
  have hle := own_le (h.count a)
  have hpos : a = p.2 → 0 < hunts.countP (fun q => q.2 = a) := by
    rintro rfl
    rw [List.countP_pos_iff]
    exact ⟨p, hp, by simp⟩
  rw [(hban a).1, List.countP_erase]
  refine balance (c := 0) (d := 0) (h.count a) (by simp) ?_
  by_cases ha : a = p.2
  · have hc := hpos ha
    rw [if_pos ha, if_pos ⟨hp, by simp [ha]⟩]
    omega
  · rw [if_neg ha, if_neg (by simp [Ne.symm ha])]
    omega

/-- A silo thread takes a tail reference, or gives it up. -/
lemma BanBook.retail {v : Option Nat} (h : BanBook first last ban ptr hunts tails)
    (hv : ∀ a, v = some a → last ≤ a ∧ a ≤ first)
    (hban : ∀ a, (ban' a).refcount + ref (tails t) a = (ban a).refcount + ref v a ∧
      (ban' a).objcore = (ban a).objcore) : BanBook first last ban' ptr hunts (Function.update tails t v) := by
  refine h.recount (fun a => (hban a).2) h.hunt ?_ ?_
  · intro u a hu
    by_cases hut : u = t
    · subst hut
      rw [Function.update_self] at hu
      exact hv a hu
    · rw [Function.update_of_ne hut] at hu
      exact h.tail u a hu
  · intro a
    have hb := (hban a).1
    exact balance (h.count a) (refs_update tails t v a) (by omega)

lemma BanBook.tail_pos (h : BanBook first last ban ptr hunts tails) (ht : tails t = some a) : 1 ≤ (ban a).refcount := by
  have hc := h.count a
  by_contra hlt
  obtain ⟨hnone, -⟩ := none_left hc (by omega)
  rw [refs_eq_zero] at hnone
  exact hnone t ht

/-- `ban_CheckLast` takes the last ban off. -/
lemma BanBook.retire (h : BanBook first last ban ptr hunts tails) (hne : last ≠ first) (href : (ban last).refcount = 0) :
    (ban last).objcore = [] ∧ BanBook first (last + 1) ban ptr hunts tails := by
  have hc := h.count last
  rw [href] at hc
  obtain ⟨hnone, hzero⟩ := none_left hc (Nat.zero_le _)
  rw [refs_eq_zero] at hnone
  have hobj : (ban last).objcore = [] := by
    rw [← List.length_eq_zero_iff]
    omega
  have hhunts : hunts = [] := by
    have hcount : hunts.countP (fun p => p.2 = last) = 0 := by omega
    rw [List.countP_eq_zero] at hcount
    refine List.eq_nil_iff_forall_not_mem.mpr ?_
    intro p hp
    exact hcount p hp (by simpa using (h.hunt p hp).1)
  have hup : ∀ {a}, last ≤ a → a ≠ last → last + 1 ≤ a := by
    intro a hle hne'
    omega
  have horder := h.order
  refine ⟨hobj, { h with one_le := Nat.le_add_left 1 last, order := by omega, inList := ?_, hunt := ?_, tail := ?_ }⟩
  · intro z a hz
    obtain ⟨hlo, hhi⟩ := h.inList z a hz
    refine ⟨hup hlo ?_, hhi⟩
    rintro rfl
    rw [← h.listed, hobj] at hz
    cases hz
  · intro p hp
    rw [hhunts] at hp
    cases hp
  · intro t a ht
    obtain ⟨hlo, hhi⟩ := h.tail t a ht
    refine ⟨hup hlo ?_, hhi⟩
    rintro rfl
    exact hnone t ht

end VarnishCache.Proofs
