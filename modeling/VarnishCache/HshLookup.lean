import VarnishCache.Vary
import Mathlib.Logic.Function.Basic

/-!
# What `HSH_Lookup` selects

`HSH_Lookup` of `bin/varnishd/cache_hash.c` from `Lck_Lock` on, for the objhead that `hash->lookup` has found, with
`EXP_Ttl` and `EXP_Grace` of `cache_expire.c` and `VRY_Validate` of `cache_vary.c`. The objcores of the list have
numbers, and their objects are with them. Times are exact. What a ban does to an object, and whether the director is
healthy, is given. A failed assertion is `none`. The log is left out.
-/

namespace VarnishCache

/-- `struct exp`, but for `keep` and `age`. -/
structure ObjExp where
  entered : ℚ
  ttl : ℚ
  grace : ℚ
  deriving DecidableEq

/-- `EXP_Clr`. -/
def ObjExp.clr : ObjExp := ⟨0, -1, -1⟩

/-- An object, with its vary string. -/
structure LookupObj where
  exp : ObjExp
  vary : Option (List UInt8)
  hits : Nat
  deriving DecidableEq

/-- What an objcore has: with `OC_F_BUSY` a `busyobj` with its vary string, and without it an object. -/
inductive OcBody where
  | busy (vary : Option (List UInt8))
  | obj (o : LookupObj)
  deriving DecidableEq

structure LookupOc where
  objhead : Nat
  refcnt : Nat
  body : OcBody
  deriving DecidableEq

/-- The session, with the parameters `http_gzip_support` and `default_grace`, the `nobjcore` of its worker, and what
`BAN_CheckObject` and `VDI_Healthy` return. -/
structure LookupReq where
  http : Http
  hashIgnoreBusy : Bool
  hashAlwaysMiss : Bool
  esiLevel : Nat
  tReq : ℚ
  ttl : ℚ
  grace : ℚ
  gzip : Bool
  defaultGrace : ℚ
  nobjcore : Nat
  banned : Nat → Bool
  healthy : Bool

structure LookupHead where
  refcnt : Nat
  objcs : List Nat
  waitinglist : Option (List Nat)
  deriving DecidableEq

namespace LookupReq

/-- `EXP_Ttl`. -/
def expTtl (sp : LookupReq) (o : ObjExp) : ℚ :=
  o.entered + if 0 < sp.ttl ∧ sp.ttl < o.ttl then sp.ttl else o.ttl

/-- `EXP_Grace`. -/
def expGrace (sp : LookupReq) (o : ObjExp) : ℚ :=
  let r := if 0 ≤ o.grace then o.grace else sp.defaultGrace
  sp.expTtl o + if 0 < sp.grace ∧ sp.grace < r then sp.grace else r

/-- `vary != NULL && !VRY_Match`, the other way round. -/
def varyOk (sp : LookupReq) (buf : VaryBuf) : Option (List UInt8) → Option (Bool × VaryBuf)
  | none => some (true, buf)
  | some vary => vryMatch sp.gzip sp.http buf vary

end LookupReq

/-! ## The loop -/

/-- The variables of the loop, with the objcores and the predictive buffer of the session. -/
structure LookupVars where
  cores : Nat → Option LookupOc
  buf : VaryBuf
  busyOc : Option Nat
  graceOc : Option (Nat × ℚ)

namespace LookupVars

/-- A busy objcore. -/
def busyRound (v : LookupVars) (sp : LookupReq) (x : Nat) (vary : Option (List UInt8)) : Option (Bool × LookupVars) :=
  if sp.hashIgnoreBusy || sp.hashAlwaysMiss then some (false, v)
  else
    (sp.varyOk v.buf vary).map fun (m, buf) =>
      (false, { v with buf := buf, busyOc := if m then some x else v.busyOc })

/-- An object in grace is remembered if there is none, or the one there is more expired. -/
def remember (v : LookupVars) (x : Nat) (o : ObjExp) : LookupVars :=
  match v.graceOc with
  | none => { v with graceOc := some (x, o.entered + o.ttl) }
  | some (_, graceTtl) =>
    if graceTtl < o.entered + o.ttl then { v with graceOc := some (x, o.entered + o.ttl) } else v

/-- An objcore with an object. -/
def objRound (v : LookupVars) (sp : LookupReq) (x : Nat) (oc : LookupOc) (o : LookupObj) : Option (Bool × LookupVars) :=
  if o.exp.ttl ≤ 0 then some (false, v)
  else if sp.banned x then
    some (false, { v with cores := Function.update v.cores x (some { oc with body := .obj { o with exp := .clr } }) })
  else
    (sp.varyOk v.buf o.vary).map fun (m, buf) =>
      let v := { v with buf := buf }
      if !m then (false, v)
      else if sp.tReq ≤ sp.expTtl o.exp then (true, v)
      else if sp.tReq ≤ sp.expGrace o.exp then (false, v.remember x o.exp)
      else (false, v)

/-- One round: whether it ends with the `break`. -/
def round (v : LookupVars) (sp : LookupReq) (oh refcnt x : Nat) : Option (Bool × LookupVars) :=
  (v.cores x).bind fun oc =>
  if refcnt ≤ 1 ∨ oc.objhead ≠ oh then none
  else
    match oc.body with
    | .busy vary => v.busyRound sp x vary
    | .obj o => v.objRound sp x oc o

/-- The loop over `oh->objcs`. -/
def scan (sp : LookupReq) (oh refcnt : Nat) : List Nat → LookupVars → Option (Option Nat × LookupVars)
  | [], v => some (none, v)
  | x :: xs, v => (v.round sp oh refcnt x).bind fun (brk, v) => if brk then some (some x, v) else scan sp oh refcnt xs v

/-- The object to use, after the tests for grace. -/
def chosen (v : LookupVars) (sp : LookupReq) (oc : Option Nat) : Option Nat :=
  let oc := if oc.isNone && v.graceOc.isSome && (v.busyOc.isSome || !sp.healthy) then v.graceOc.map Prod.fst else oc
  if sp.hashAlwaysMiss then none else oc

end LookupVars

/-! ## After the loop -/

/-- What `HSH_Lookup` returns: an object, `NULL`, or the new busy objcore. -/
inductive LookupRet where
  | hit (oc : Nat)
  | parked
  | miss (oc : Nat)
  deriving DecidableEq

structure LookupOut where
  ret : LookupRet
  head : LookupHead
  cores : Nat → Option LookupOc
  buf : VaryBuf

/-- `strlen` of the string at `o` is `n`. -/
def strlenAt (m : Nat → UInt8) (o n : Nat) : Bool := (readAt m o n).all (fun c => c ≠ 0) && m (o + n) = 0

/-- `VRY_Validate`, for a number of entries at most. -/
def vryValidate (m : Nat → UInt8) : Nat → Nat → Bool
  | 0, _ => false
  | n + 1, o =>
    if m (o + 2) = 0 then true else strlenAt m (o + 3) (m (o + 2)).toNat && vryValidate m n (o + vryLen (readAt m o 3))

namespace LookupVars

/-- "We found an object we like". -/
def hit (v : LookupVars) (oh : Nat) (h : LookupHead) (x : Nat) : Option LookupOut :=
  (v.cores x).bind fun oc =>
  match oc.body with
  | .busy _ => none
  | .obj o =>
    if oc.objhead ≠ oh ∨ h.refcnt ≤ 1 then none
    else
      some
        { ret := .hit x
          head := { h with refcnt := h.refcnt - 1 }
          cores :=
            Function.update v.cores x
              (some
                { oc with
                  refcnt := oc.refcnt + 1
                  body := .obj { o with hits := if o.hits < 2 ^ 31 - 1 then o.hits + 1 else o.hits } })
          buf := v.buf }

/-- "There are one or more busy objects, wait for them". -/
def park (v : LookupVars) (sp : LookupReq) (sess : Nat) (h : LookupHead) : LookupOut where
  ret := .parked
  head := if sp.esiLevel = 0 then { h with waitinglist := some (h.waitinglist.getD [] ++ [sess]) } else h
  cores := v.cores
  buf := v.buf

/-- "Insert (precreated) objcore in objecthead". -/
def insert (v : LookupVars) (sp : LookupReq) (oh : Nat) (h : LookupHead) : Option LookupOut :=
  if vryValidate v.buf.mem (v.buf.e + 1) 0 then
    some
      { ret := .miss sp.nobjcore
        head := { h with objcs := h.objcs ++ [sp.nobjcore] }
        cores := Function.update v.cores sp.nobjcore (some ⟨oh, 1, .busy (v.buf.l.map (readAt v.buf.mem 0))⟩)
        buf := v.buf }
  else none

end LookupVars

/-- `HSH_Lookup`, for a session with the number `sess`. -/
def hshLookup (sp : LookupReq) (sess oh : Nat) (h : LookupHead) (cores : Nat → Option LookupOc) (buf : VaryBuf) :
    Option LookupOut :=
  if h.refcnt = 0 then none
  else
    (LookupVars.scan sp oh h.refcnt h.objcs { cores := cores, buf := buf, busyOc := none, graceOc := none }).bind
      fun (oc, v) =>
      match v.chosen sp oc with
      | some x => v.hit oh h x
      | none => if v.busyOc.isSome then some (v.park sp sess h) else v.insert sp oh h

end VarnishCache
