import VarnishCache.Http

/-!
# Vary matching strings

Model of `bin/varnishd/cache_vary.c`. The predictive buffer of a session is memory addressed from
`vary_b` on, with `e` the distance of `vary_e`; a failed assertion is `none`.
-/

namespace VarnishCache

def hVary : List UInt8 := 5 :: bytes "Vary:" ++ [0]
def hAcceptEncoding : List UInt8 := 16 :: bytes "Accept-Encoding:" ++ [0]

def int8Max : Nat := 127

/-- What `VRY_Create` returns: no `Vary:` header, a parse error, or the string. -/
inductive VryCreate where
  | noVary
  | error
  | string (sb : List UInt8)
  deriving DecidableEq

/-- The header-matching string of a name. -/
def hdrString (name : List UInt8) : List UInt8 := (1 + name.length).toUInt8 :: name ++ [chColon, 0]

/-- A header value without its trailing white space. -/
def trimTail (h : List UInt8) : List UInt8 := h.rdropWhile vctIssp

/-- The length field of an entry: `0xffff` for a header that the request does not have. -/
def vryLenField (v : Option (List UInt8)) : Nat :=
  match v with
  | some h => h.length
  | none => 0xffff

/-- The loop of `VRY_Create` over the value of the `Vary:` header, with the string built so far. -/
def vryCreateLoop (req : Http) : Nat → List UInt8 → List UInt8 → Option VryCreate
  | _, [], sb => some (.string (sb ++ [0xff, 0xff, 0]))
  | 0, _ :: _, _ => none
  | fuel + 1, c :: r, sb =>
    if vctIssp c then vryCreateLoop req fuel r sb
    else
      let name := (c :: r).takeWhile (fun c => !vctIssp c && c ≠ chComma)
      let q := (c :: r).drop name.length
      if int8Max < name.length then some .error
      else do
        let h ← req.getHdr (hdrString name)
        let v := h.map trimTail
        if v.isSome ∧ 0xffff - 1 < vryLenField v then some .error
        else
          let sb := sb ++ vbe16enc (vryLenField v) ++ hdrString name ++ v.getD []
          match q.dropWhile vctIssp with
          | [] => some (.string (sb ++ [0xff, 0xff, 0]))
          | d :: q => if d ≠ chComma then some .error else vryCreateLoop req fuel q sb

/-- `VRY_Create`, for the request of the session and the response of the backend. -/
def vryCreate (req beresp : Http) : Option VryCreate := do
  match ← beresp.getHdr hVary with
  | none => some .noVary
  | some v => vryCreateLoop req v.length v []

/-- `vry_len` of the entry at `p`. -/
def vryLen (p : List UInt8) : Nat :=
  2 + (p.getD 2 0).toNat + 2 + (if vbe16dec p = 0xffff then 0 else vbe16dec p)

def readAt (m : Nat → UInt8) (o n : Nat) : List UInt8 := (List.range n).map (fun i => m (o + i))

def writeAt (m : Nat → UInt8) (o : Nat) (b : List UInt8) : Nat → UInt8 :=
  fun i => if o ≤ i ∧ i < o + b.length then b.getD (i - o) 0 else m i

/-- `vry_cmp` of a stored entry with the entry at `o` in the buffer. -/
def vryCmp (gzip : Bool) (v1 : List UInt8) (m : Nat → UInt8) (o : Nat) : Nat :=
  if v1.take (vryLen v1) = readAt m o (vryLen v1) then 0
  else if (v1.drop 2).take ((v1.getD 2 0).toNat + 2) ≠ readAt m (o + 2) ((v1.getD 2 0).toNat + 2)
    then 1
  else if gzip ∧ strcaseEq hAcceptEncoding (v1.drop 2) then 0
  else 2

/-- The variables of the loop in `VRY_Match`. -/
structure VryLoop where
  mem : Nat → UInt8
  vsp : Nat
  retval : Bool
  oflo : Bool

/-- "Build a new entry": the request's value for the header of the stored entry. -/
def vryBuild (req : Http) (e : Nat) (vary : List UInt8) (st : VryLoop) : Option VryLoop := do
  let h ← req.getHdr (vary.drop 2)
  let v := h.map trimTail
  if v.isSome ∧ 0xffff ≤ vryLenField v then none
  else
    let n := (vary.getD 2 0).toNat
    let ln := 2 + n + 2 + (v.getD []).length
    let st := if e ≤ st.vsp + ln then { st with vsp := 0, oflo := true } else st
    if e ≤ st.vsp + ln + 2 then none
    else
      let m := writeAt st.mem st.vsp (vbe16enc (vryLenField v))
      let m := writeAt m (st.vsp + 2) ((vary.drop 2).take (n + 2))
      let m := writeAt m (st.vsp + 2 + n + 2) (v.getD [])
      let m := writeAt m (st.vsp + 2 + n + 2 + (v.getD []).length + 2) [0]
      some { st with mem := m }

/-- One round of the loop: compare, rebuild if the header differs, and step both cursors. -/
def vryEntry (gzip : Bool) (req : Http) (e : Nat) (vary : List UInt8) (st : VryLoop) :
    Option VryLoop := do
  let i := vryCmp gzip vary st.mem st.vsp
  let (i, st) ←
    if i = 1 then do
      let st ← vryBuild req e vary st
      let i := vryCmp gzip vary st.mem st.vsp
      if i = 1 then none else some (i, st)
    else some (i, st)
  some { st with
    retval := if i ≠ 0 then false else st.retval
    vsp := st.vsp + vryLen (readAt st.mem st.vsp 3) }

def vryLoop (gzip : Bool) (req : Http) (e : Nat) : Nat → List UInt8 → VryLoop → Option VryLoop
  | 0, _, st => some st
  | fuel + 1, vary, st =>
    if vary.getD 2 0 = 0 then some st
    else do
      let st ← vryEntry gzip req e vary st
      vryLoop gzip req e fuel (vary.drop (vryLen vary)) st

/-- The predictive buffer of a session: `vary_b`, `vary_e` and `vary_l`. -/
structure VaryBuf where
  mem : Nat → UInt8
  e : Nat
  l : Option Nat

/-- `cnt_lookup` reserves the rest of the workspace, from `vary_b` to `vary_e`, and writes an end marker. -/
def varyBegin (m : Nat → UInt8) (e : Nat) : VaryBuf := { mem := writeAt m 2 [0], e := e, l := none }

/-- `VRY_Match`: the verdict and the buffer it leaves. -/
def vryMatch (gzip : Bool) (req : Http) (buf : VaryBuf) (vary : List UInt8) :
    Option (Bool × VaryBuf) := do
  let st ← vryLoop gzip req buf.e vary.length vary ⟨buf.mem, 0, true, false⟩
  let oflo := st.oflo || decide (buf.e < st.vsp + 3)
  let vsp := if oflo then 0 else st.vsp
  some (st.retval,
    { buf with
      mem := writeAt st.mem vsp [0xff, 0xff, 0]
      l := if oflo then none else some (vsp + 3) })

/-- The strings that `HSH_Lookup` matches one after another for one request. -/
def vryMatchAll (gzip : Bool) (req : Http) : VaryBuf → List (List UInt8) → Option (List Bool × VaryBuf)
  | buf, [] => some ([], buf)
  | buf, v :: vs => do
    let (r, buf) ← vryMatch gzip req buf v
    let (rs, buf) ← vryMatchAll gzip req buf vs
    some (r :: rs, buf)

/-! ## What the strings say -/

/-- The value of a request header: absent, or without surrounding white space. -/
def Http.value (hp : Http) (name : List UInt8) : Option (List UInt8) :=
  (hp.named name.length name).map
    (fun b => trimTail (cstr ((b.drop (name.length + 1)).dropWhile vctIssp)))

/-- An entry of a vary string: a header name as a `Vary:` header can list it, and the value that the
request of the object had for it. -/
structure VaryEntry where
  name : List UInt8
  value : Option (List UInt8)
  name_len : name.length < int8Max
  name_nul : 0 ∉ name
  value_len : ∀ v, value = some v → v.length < 0xffff

namespace VaryEntry

def encode (x : VaryEntry) : List UInt8 :=
  vbe16enc (vryLenField x.value) ++ hdrString x.name ++ x.value.getD []

/-- The request has the value that the entry asks for. -/
def Agrees (gzip : Bool) (req : Http) (x : VaryEntry) : Prop :=
  (gzip ∧ x.name.map toLower = (bytes "Accept-Encoding").map toLower) ∨ req.value x.name = x.value

instance (gzip : Bool) (req : Http) (x : VaryEntry) : Decidable (x.Agrees gzip req) :=
  inferInstanceAs (Decidable (_ ∨ _))

/-- Bytes that the entry of the request for this header takes in the predictive buffer. -/
def room (req : Http) (x : VaryEntry) : Nat := x.name.length + 5 + ((req.value x.name).getD []).length

end VaryEntry

def varyString (es : List VaryEntry) : List UInt8 := es.flatMap VaryEntry.encode ++ [0xff, 0xff, 0]

/-- The entries of a string meet the buffer: walking from offset `o`, each entry of the request has
a length that the format can hold, and either it ends three bytes or more before `e`, or it does not
fit behind the others at all and does so at the front. -/
def VaryFits (req : Http) (e : Nat) : Nat → List VaryEntry → Prop
  | _, [] => True
  | o, x :: es =>
    (∀ v, req.value x.name = some v → v.length < 0xffff) ∧
      ((o + x.room req + 2 < e ∧ VaryFits req e (o + x.room req) es) ∨
        (e ≤ o + x.room req ∧ x.room req + 2 < e ∧ VaryFits req e (x.room req) es))

end VarnishCache
