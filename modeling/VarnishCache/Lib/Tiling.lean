import Mathlib.Data.List.Basic
import Mathlib.Tactic

/-!
# Lists of mapped segments

A segment maps `len` addresses from `start` on to offsets from `off` on. A list of segments covers
what its members map, and is apart when each member ends before the next one starts. Cutting a
segment in two and joining two segments that fit change neither.
-/

namespace Tiling

structure Seg where
  start : Nat
  len : Nat
  off : Nat

namespace Seg

def stop (s : Seg) : Nat := s.start + s.len

/-- The segment maps address `a` to offset `o`. -/
def Maps (s : Seg) (a o : Nat) : Prop := s.start ≤ a ∧ a < s.stop ∧ o = s.off + (a - s.start)

/-- `t` goes on where `s` ends. -/
def Meets (s t : Seg) : Prop := t.start = s.stop ∧ t.off = s.off + s.len

def front (s : Seg) (n : Nat) : Seg := { s with len := n }

def back (s : Seg) (n : Nat) : Seg := { start := s.start + n, len := s.len - n, off := s.off + n }

def join (s t : Seg) : Seg := { s with len := s.len + t.len }

lemma maps_cut {s : Seg} {n : Nat} (h : n ≤ s.len) (a o : Nat) :
    s.Maps a o ↔ (s.front n).Maps a o ∨ (s.back n).Maps a o := by
  simp only [Maps, stop, front, back]
  omega

lemma maps_join {s t : Seg} (h : s.Meets t) (a o : Nat) : (s.join t).Maps a o ↔ s.Maps a o ∨ t.Maps a o := by
  obtain ⟨h1, h2⟩ := h
  simp only [Maps, stop, join] at *
  omega

end Seg

def Covers (l : List Seg) (a o : Nat) : Prop := ∃ s ∈ l, s.Maps a o

def Apart (l : List Seg) : Prop := l.Pairwise (fun s t => s.stop ≤ t.start)

lemma covers_append (l m : List Seg) (a o : Nat) : Covers (l ++ m) a o ↔ Covers l a o ∨ Covers m a o := by
  simp only [Covers, List.mem_append, or_and_right, exists_or]

lemma covers_cons (s : Seg) (l : List Seg) (a o : Nat) : Covers (s :: l) a o ↔ s.Maps a o ∨ Covers l a o := by
  simp [Covers]

/-- Putting segments that cover the same in the place of others keeps what the list covers. -/
lemma covers_replace {pre old mid post : List Seg} {a o : Nat} (h : Covers old a o ↔ Covers mid a o) :
    Covers (pre ++ old ++ post) a o ↔ Covers (pre ++ mid ++ post) a o := by
  rw [covers_append, covers_append, covers_append, covers_append, h]

/-- Segments that stay within the bounds of those they replace stay apart from the others. -/
lemma apart_replace {pre old mid post : List Seg} (h : Apart (pre ++ old ++ post)) (hmid : Apart mid)
    (hlo : ∀ m ∈ mid, ∃ s ∈ old, s.start ≤ m.start) (hhi : ∀ m ∈ mid, ∃ s ∈ old, m.stop ≤ s.stop) :
    Apart (pre ++ mid ++ post) := by
  obtain ⟨hpo, hpost, hpp⟩ := List.pairwise_append.mp h
  obtain ⟨hpre, hold, hpo'⟩ := List.pairwise_append.mp hpo
  refine List.pairwise_append.mpr ⟨List.pairwise_append.mpr ⟨hpre, hmid, ?_⟩, hpost, ?_⟩
  · intro s hs m hm
    obtain ⟨t, ht, hle⟩ := hlo m hm
    exact (hpo' s hs t ht).trans hle
  · intro s hs t ht
    rcases List.mem_append.mp hs with hs | hs
    · exact hpp s (List.mem_append_left _ hs) t ht
    · obtain ⟨u, hu, hle⟩ := hhi s hs
      exact hle.trans (hpp u (List.mem_append_right _ hu) t ht)

end Tiling
