import VarnishCache.Lib.NestedIfs
import Mathlib.Logic.Function.Basic

/-!
# Compilation of ACLs

Model of `lib/libvcl/vcc_acl.c`: the list of entries that `vcc_acl_add_entry` keeps, and the function that `vcc_acl_emit`
writes for it, as lines of nested ifs. A failed assertion is `none`.
-/

namespace VarnishCache

inductive AclFam where
  | inet
  | inet6
  deriving DecidableEq

/-- `PF_INET` and `PF_INET6`. -/
def AclFam.pf : AclFam → UInt8
  | .inet => 2
  | .inet6 => 10

/-- The bytes of an address. -/
def AclFam.width : AclFam → Nat
  | .inet => 4
  | .inet6 => 16

/-- An entry as `vcc_acl_add_entry` gets it, with the texts of its tokens. -/
structure AclEntry where
  fam : AclFam
  u : List UInt8
  u_length : u.length = fam.width
  mask : Nat
  not : Bool
  tAddr : String
  tMask : Option String

/-- `struct acl_e`: the family is the first byte of the address. -/
structure AclE where
  data : List UInt8
  mask : Nat
  not : Bool
  tAddr : String
  tMask : Option String

inductive AclError where
  | tooWideInet (mask : Nat) (t : Option String)
  | tooWideInet6 (mask : Nat) (t : Option String)
  | conflict (tAddr2 tAddr : String)
  deriving DecidableEq

/-- The text in front of the tokens. -/
def AclError.text : AclError → String
  | .tooWideInet mask _ => "Too wide mask (" ++ toString mask ++ ") for IPv4 address"
  | .tooWideInet6 mask _ => "Too wide mask (" ++ toString mask ++ ") for IPv6 address"
  | .conflict _ _ => "Conflicting ACL entries:\n"

/-- The mask `(0xff00 >> m) & 0xff`. -/
def fracMask (m : Nat) : UInt8 := ((0xff00 >>> m) &&& 0xff).toUInt8

/-- The macro `CMP`, with what comes after it. -/
def cmpThen (a b : Nat) (next : Ordering) : Ordering := if a < b then .lt else if b < a then .gt else next

/-- The loop of `vcl_acl_cmp` over whole bytes, and the `m` bits after them. -/
def cmpData (m : Nat) : Nat → List UInt8 → List UInt8 → Ordering → Ordering
  | 0, p1, p2, next =>
    if m ≠ 0 then cmpThen (p1.headD 0 &&& fracMask m).toNat (p2.headD 0 &&& fracMask m).toNat next else next
  | k + 1, p1, p2, next => cmpThen (p1.headD 0).toNat (p2.headD 0).toNat (cmpData m k p1.tail p2.tail next)

def vclAclCmp (ae1 ae2 : AclE) : Ordering :=
  let m := if ae2.mask < ae1.mask then ae2.mask else ae1.mask
  cmpData (m % 8) (m / 8) ae1.data ae2.data (cmpThen ae2.mask ae1.mask .eq)

/-- The loop of `vcc_acl_add_entry`. -/
def aclInsert (aen : AclE) : List AclE → Except AclError (List AclE)
  | [] => .ok [aen]
  | ae2 :: acl =>
    match vclAclCmp aen ae2 with
    | .eq => if aen.not = ae2.not then .ok (ae2 :: acl) else .error (.conflict ae2.tAddr aen.tAddr)
    | .lt => .ok (aen :: ae2 :: acl)
    | .gt => (aclInsert aen acl).map (ae2 :: ·)

/-- The copy of the entry that goes on the list. -/
def AclEntry.toE (ae : AclEntry) : AclE :=
  { data := ae.fam.pf :: ae.u, mask := ae.mask + 8, not := ae.not, tAddr := ae.tAddr, tMask := ae.tMask }

def vccAclAddEntry (acl : List AclE) (ae : AclEntry) : Except AclError (List AclE) :=
  if ae.fam = .inet ∧ 32 < ae.mask then .error (.tooWideInet ae.mask (ae.tMask.or (some ae.tAddr)))
  else if ae.fam = .inet6 ∧ 128 < ae.mask then .error (.tooWideInet6 ae.mask ae.tMask)
  else aclInsert ae.toE acl

/-- All entries of an ACL, one after the other. -/
def vccAclAdd : List AclE → List AclEntry → Except AclError (List AclE)
  | acl, [] => .ok acl
  | acl, ae :: aes =>
    match vccAclAddEntry acl ae with
    | .error e => .error e
    | .ok acl => vccAclAdd acl aes

/-- The tests of the generated function: `fam == n`, `a[i] == n` and `(a[i] & m) == n`. -/
inductive AclTest where
  | fam (n : UInt8)
  | byte (i : Nat) (n : UInt8)
  | frac (i : Nat) (m n : UInt8)
  deriving DecidableEq

/-- The calls of `VRT_acl_log` in it. -/
inductive AclLog where
  | noFam (acln : String)
  | hit (neg : Bool) (acln tAddr : String) (tMask : Option String)
  | noMatch (acln : String)
  deriving DecidableEq

abbrev AclLine := NestedIfs.Line AclTest AclLog Nat

/-- The variables of `vcc_acl_emit`, with what it has written; `depth` blocks are open, one more than in the source. -/
structure AclEmit where
  depth : Nat
  at_ : Nat → Nat
  out : List AclLine

def AclE.wholeTest (ae : AclE) (i : Nat) : AclTest :=
  if i = 0 then .fam (ae.data.getD i 0) else .byte (i - 1) (ae.data.getD i 0)

def AclE.fracTest (ae : AclE) (m i : Nat) : AclTest :=
  .frac (i - 1) (fracMask m) (ae.data.getD i 0 &&& fracMask m)

namespace AclEmit

/-- An if for one test. -/
def open_ (st : AclEmit) (i : Nat) (t : AclTest) (v : Nat) : AclEmit :=
  { depth := i + 1, at_ := Function.update st.at_ i v, out := st.out ++ [.ifOpen t] }

/-- How much common prefix there is with the ifs that are open. -/
def common (st : AclEmit) (ae : AclE) : Nat :=
  ((List.range st.depth).takeWhile (fun l => l * 8 < ae.mask - 7 ∧ (ae.data.getD l 0).toNat = st.at_ l)).length

/-- The code for one entry. -/
def entry (anon : Bool) (acln : String) (st : AclEmit) (ae : AclE) : Option AclEmit :=
  let l := st.common ae
  if ae.mask < l * 8 then none
  else
    let st := { st with depth := l, out := st.out ++ List.replicate (st.depth - l) NestedIfs.Line.close }
    let m := ae.mask - l * 8
    let st := (List.range' l (m / 8)).foldl
      (fun st i => st.open_ i (ae.wholeTest i) (ae.data.getD i 0).toNat) st
    let i := l + m / 8
    let st := if 0 < m % 8 then st.open_ i (ae.fracTest (m % 8) i) 256 else st
    let log : List AclLine := if anon then [] else [.stmt (.hit ae.not acln ae.tAddr ae.tMask)]
    some { st with out := st.out ++ log ++ [NestedIfs.Line.ret (if ae.not then 0 else 1)] }

end AclEmit

/-- The body of the function that `vcc_acl_emit` writes, after `a` and `fam` are set. -/
def vccAclEmit (anon : Bool) (acln : String) (acl : List AclE) : Option (List AclLine) := do
  let st ← acl.foldlM (AclEmit.entry anon acln) { depth := 0, at_ := fun _ => 256, out := [] }
  let log : List AclLine := if anon then [] else [.stmt (.noMatch acln)]
  some (st.out ++ List.replicate st.depth NestedIfs.Line.close ++ log ++ [NestedIfs.Line.ret 0])

/-- A `struct sockaddr` with the bytes that `a` points to. -/
structure AclAddr where
  fam : Nat
  a : List UInt8
  a_length : ∀ f : AclFam, fam = f.pf.toNat → a.length = f.width

def AclTest.holds (p : AclAddr) : AclTest → Bool
  | .fam n => p.fam = n.toNat
  | .byte i n => p.a.getD i 0 = n
  | .frac i m n => p.a.getD i 0 &&& m = n

/-- The function `match_acl_…`: what it returns, and its log. -/
def matchAcl (acln : String) (lines : List AclLine) (p : AclAddr) : Option (Nat × List AclLog) :=
  if p.fam ≠ AclFam.inet.pf.toNat ∧ p.fam ≠ AclFam.inet6.pf.toNat then some (0, [.noFam acln])
  else
    match NestedIfs.exec (AclTest.holds p) (.going 0 []) lines with
    | .going _ _ => none
    | .done r log => some (r, log)

/-- The bits of a byte, the highest first. -/
def byteBits (x : UInt8) : List Bool := [7, 6, 5, 4, 3, 2, 1, 0].map (fun i => x.toNat.testBit i)

/-- What it means that an entry matches an address: the family, and as many bits as the mask says. -/
def AclEntry.Matches (ae : AclEntry) (p : AclAddr) : Prop :=
  p.fam = ae.fam.pf.toNat ∧ (p.a.flatMap byteBits).take ae.mask = (ae.u.flatMap byteBits).take ae.mask

end VarnishCache
