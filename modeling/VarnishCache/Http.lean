import Mathlib.Data.List.DropRight
import Mathlib.Tactic

/-!
# Bytes and header lines

Character classes of `lib/libvarnish/vct.c`, C strings as byte lists, and the header search of
`bin/varnishd/cache_http.c`. A failed assertion is `none`.
-/

namespace VarnishCache

/-- The bytes of an ASCII string. -/
def bytes (s : String) : List UInt8 := s.toList.map (fun c => c.toNat.toUInt8)

lemma forall_mem_of_all {x : List UInt8} {p : UInt8 → Prop} [DecidablePred p]
    (h : x.all (fun c => decide (p c)) = true) :
    ∀ c ∈ x, p c :=
  fun c hc => of_decide_eq_true (List.all_eq_true.mp h c hc)

abbrev chColon : UInt8 := 0x3a
abbrev chComma : UInt8 := 0x2c

def vctIssp (c : UInt8) : Bool := c = 0x20 || c = 0x09

/-- `tolower` of the C locale. -/
def toLower (c : UInt8) : UInt8 := if 0x41 ≤ c ∧ c ≤ 0x5a then c + 0x20 else c

/-- The C string that starts here. -/
def cstr (p : List UInt8) : List UInt8 := p.takeWhile (fun c => c ≠ 0)

lemma cstr_nul (p : List UInt8) : 0 ∉ cstr p := by
  intro h
  have := List.mem_takeWhile_imp h
  simp at this

/-- `!strcasecmp` of two C strings. -/
def strcaseEq (a b : List UInt8) : Bool := (cstr a).map toLower = (cstr b).map toLower

/-- `strncasecmp` of two C strings finds no difference. -/
def strncaseEq (l : Nat) (a b : List UInt8) : Bool := (cstr (a.take l)).map toLower = (cstr (b.take l)).map toLower

def vbe16enc (u : Nat) : List UInt8 := [(u / 2 ^ 8).toUInt8, u.toUInt8]

def vbe16dec (p : List UInt8) : Nat := (p.getD 0 0).toNat * 2 ^ 8 + (p.getD 1 0).toNat

/-! ## Header lines -/

/-- The test in the loop of `http_findhdr`: `l` bytes of name equal to `hdr`, and a colon. -/
def isNamed (l : Nat) (hdr b : List UInt8) : Bool :=
  decide (l + 1 ≤ b.length) && b.getD l 0 == chColon && strncaseEq l hdr b

/-- `http_findhdr`: the first slot with such a header, if there is one; a slot that is `NULL` fails an assertion. -/
def findhdr (l : Nat) (hdr : List UInt8) : List (Option (List UInt8)) → Option (Option Nat)
  | [] => some none
  | none :: _ => none
  | some b :: hd => if isNamed l hdr b then some (some 0) else (findhdr l hdr hd).map (Option.map (· + 1))

/-- `http_GetHdr`: the value as a C string. The first byte of `hdr` is the length of the rest, read as a signed `char`; a
negative one indexes far outside of the string. -/
def getHdr (hd : List (Option (List UInt8))) (hdr : List UInt8) : Option (Option (List UInt8)) :=
  let l := (hdr.getD 0 0).toNat
  if 128 ≤ l then none
  else if hdr.getD l 0 ≠ chColon then none
  else (findhdr (l - 1) (hdr.drop 1) hd).map <| Option.map fun u =>
    cstr ((((hd.getD u none).getD []).drop l).dropWhile vctIssp)

/-- The header lines of a message that has them all, without the request or status line. -/
structure Http where
  hd : List (List UInt8)

def Http.getHdr (hp : Http) (hdr : List UInt8) : Option (Option (List UInt8)) := VarnishCache.getHdr (hp.hd.map some) hdr

/-- The first line with this name. -/
def Http.named (hp : Http) (l : Nat) (hdr : List UInt8) : Option (List UInt8) := hp.hd.find? (isNamed l hdr)

lemma findhdr_map (l : Nat) (hdr : List UInt8) (ls : List (List UInt8)) :
    findhdr l hdr (ls.map some) = some (ls.findIdx? (isNamed l hdr)) := by
  induction ls with
  | nil => rfl
  | cons b ls ih =>
    rw [List.map_cons, findhdr, ih, List.findIdx?_cons]
    split <;> rfl

lemma map_findIdx (p : List UInt8 → Bool) {β : Type} (f : List UInt8 → β) (ls : List (List UInt8)) :
    (ls.findIdx? p).map (fun u => f (((ls.map some).getD u none).getD [])) = (ls.find? p).map f := by
  induction ls with
  | nil => rfl
  | cons b ls ih =>
    rw [List.findIdx?_cons, List.find?_cons]
    cases p b with
    | true => rfl
    | false =>
      rw [← ih]
      exact Option.map_map _ _ _

/-- The search comes to the first line with the name. -/
lemma Http.getHdr_eq (hp : Http) (hdr : List UInt8) : hp.getHdr hdr =
    let l := (hdr.getD 0 0).toNat
    if 128 ≤ l then none
    else if hdr.getD l 0 ≠ chColon then none
    else some ((hp.named (l - 1) (hdr.drop 1)).map fun b => cstr ((b.drop l).dropWhile vctIssp)) := by
  simp only [Http.getHdr, VarnishCache.getHdr, findhdr_map, Option.map_some, Http.named]
  split
  · rfl
  · split
    · rfl
    · rw [map_findIdx _ fun b => cstr ((b.drop (hdr.getD 0 0).toNat).dropWhile vctIssp)]

end VarnishCache
