import VarnishCache.Argv

/-!
# Ban specifications

The record format of `bin/varnishd/cache_ban.c`: `BAN_AddTest` appends a test to the string of a ban,
`BAN_Insert` freezes the string, `ban_iter` takes it apart, `ban_render` prints it for `ban.list` and
`ccf_ban` reads the arguments that `VAV_Parse` of `lib/libvarnish/argv.c` splits a command into. C
strings are byte lists without the final NUL. `pcre_compile` is the parameter `re`: the compiled
expression of a pattern, if it has one.
-/

namespace VarnishCache

def banOperEq : UInt8 := 0x10
def banOperNeq : UInt8 := 0x11
def banOperMatch : UInt8 := 0x12
def banOperNmatch : UInt8 := 0x13

def banArgUrl : UInt8 := 0x18
def banArgReqhttp : UInt8 := 0x19
def banArgObjhttp : UInt8 := 0x1a
def banArgObjstatus : UInt8 := 0x1b

structure Pvar where
  name : List UInt8
  req : Bool
  http : Bool
  tag : UInt8
  deriving DecidableEq

/-- `ban_vars.h`. -/
def pvars : List Pvar :=
  [{ name := bytes "req.url", req := true, http := false, tag := banArgUrl },
   { name := bytes "req.http.", req := true, http := true, tag := banArgReqhttp },
   { name := bytes "obj.http.", req := false, http := true, tag := banArgObjhttp },
   { name := bytes "obj.status", req := false, http := false, tag := banArgObjstatus }]

/-- Why a test is not added: a message to the CLI, or the assertion in `ban_parse_http`. -/
inductive BanError where
  | unknownField (a1 : List UInt8)
  | badConditional (a2 : List UInt8)
  | badRegexp (a3 : List UInt8)
  | nameTooLong
  | wrongNumber
  | expectedAnd (av : List UInt8)
  deriving DecidableEq

/-- A ban that is being built: its string and `BAN_F_REQ`. -/
structure BanBuild where
  vsb : List UInt8
  req : Bool
  deriving DecidableEq

def BanBuild.new : BanBuild := ⟨[], false⟩

def vbe32enc (u : Nat) : List UInt8 :=
  [(u / 2 ^ 24).toUInt8, (u / 2 ^ 16).toUInt8, (u / 2 ^ 8).toUInt8, u.toUInt8]

def vbe32dec (p : List UInt8) : Nat :=
  (((p.getD 0 0).toNat * 2 ^ 8 + (p.getD 1 0).toNat) * 2 ^ 8 + (p.getD 2 0).toNat) * 2 ^ 8 +
    (p.getD 3 0).toNat

def banAddLump (p : List UInt8) : List UInt8 := vbe32enc p.length ++ p

/-- `ban_parse_http`. -/
def banParseHttp (a1 : List UInt8) : Except BanError (List UInt8) :=
  let l := a1.length + 1
  if l ≤ 127 then .ok (l.toUInt8 :: a1 ++ [chColon, 0]) else .error .nameTooLong

def banParseRegexp (re : List UInt8 → Option (List UInt8)) (a3 : List UInt8) :
    Except BanError (List UInt8) :=
  match re a3 with
  | some blob => .ok (banAddLump blob)
  | none => .error (.badRegexp a3)

/-- The operator of a test, with the regexp behind it. -/
def banParseOper (re : List UInt8 → Option (List UInt8)) (a2 a3 : List UInt8) :
    Except BanError (List UInt8) :=
  if a2 = bytes "~" then do
    let blob ← banParseRegexp re a3
    .ok (banOperMatch :: blob)
  else if a2 = bytes "!~" then do
    let blob ← banParseRegexp re a3
    .ok (banOperNmatch :: blob)
  else if a2 = bytes "==" then .ok [banOperEq]
  else if a2 = bytes "!=" then .ok [banOperNeq]
  else .error (.badConditional a2)

/-- What follows the tag of the variable: a header name, or nothing. -/
def banParseArg1 (pv : Pvar) (a1 : List UInt8) : Except BanError (List UInt8) :=
  if pv.http then banParseHttp (a1.drop pv.name.length) else .ok []

/-- `BAN_AddTest`. -/
def banAddTest (re : List UInt8 → Option (List UInt8)) (b : BanBuild) (a1 a2 a3 : List UInt8) :
    Except BanError BanBuild :=
  match pvars.find? (fun pv => pv.name.isPrefixOf a1) with
  | none => .error (.unknownField a1)
  | some pv => do
    let hdr ← banParseArg1 pv a1
    let oper ← banParseOper re a2 a3
    .ok ⟨b.vsb ++ pv.tag :: (hdr ++ banAddLump (a3 ++ [0]) ++ oper), b.req || pv.req⟩

/-- The tests of a ban one after another, each as `a1`, `a2` and `a3`. -/
def banAddTests (re : List UInt8 → Option (List UInt8)) (b : BanBuild)
    (ts : List (List UInt8 × List UInt8 × List UInt8)) : Except BanError BanBuild :=
  ts.foldlM (fun b t => banAddTest re b t.1 t.2.1 t.2.2) b

/-- The specification that `BAN_Insert` freezes: the time, the length, the request flag, the tests. -/
def banFreeze (t0 : List UInt8) (b : BanBuild) : List UInt8 :=
  t0 ++ vbe32enc (b.vsb.length + 13) ++ [if b.req then 1 else 0] ++ b.vsb

def banLen (spec : List UInt8) : Nat := vbe32dec (spec.drop 8)

/-- `ban_get_lump`; `none` when the lump ends outside of the string. -/
def banGetLump (bs : List UInt8) : Option (List UInt8 × List UInt8) :=
  let ln := vbe32dec bs
  if bs.length < 4 + ln then none else some ((bs.drop 4).take ln, bs.drop (4 + ln))

/-- `struct ban_test`: `arg1_spec` is the header string, `arg2` a C string, `arg2_spec` a regexp. -/
structure BanTestSpec where
  arg1 : UInt8
  arg1Spec : Option (List UInt8)
  oper : UInt8
  arg2 : List UInt8
  arg2Spec : Option (List UInt8)
  deriving DecidableEq

/-- The second half of `ban_iter`: operand, operator and regexp. -/
def banIterArg2 (arg1 : UInt8) (arg1Spec : Option (List UInt8)) (bs : List UInt8) :
    Option (BanTestSpec × List UInt8) := do
  let (arg2, bs) ← banGetLump bs
  match bs with
  | [] => none
  | oper :: bs =>
    if oper = banOperMatch ∨ oper = banOperNmatch then do
      let (arg2Spec, bs) ← banGetLump bs
      some (⟨arg1, arg1Spec, oper, cstr arg2, some arg2Spec⟩, bs)
    else some (⟨arg1, arg1Spec, oper, cstr arg2, none⟩, bs)

/-- `ban_iter`; `none` when a record ends outside of the string. -/
def banIter : List UInt8 → Option (BanTestSpec × List UInt8)
  | [] => none
  | arg1 :: bs =>
    let n := (bs.getD 0 0).toNat + 2
    if arg1 = banArgReqhttp ∨ arg1 = banArgObjhttp then
      if bs.length < n then none else banIterArg2 arg1 (some (bs.take n)) (bs.drop n)
    else banIterArg2 arg1 none bs

/-- The loop `while (bs < be)` around `ban_iter`. -/
def banIterLoop : Nat → List UInt8 → Option (List BanTestSpec)
  | _, [] => some []
  | 0, _ :: _ => none
  | fuel + 1, bs => do
    let (bt, bs) ← banIter bs
    let bts ← banIterLoop fuel bs
    some (bt :: bts)

/-- The tests of a specification, from byte 13 up to `ban_len`. -/
def banTests (spec : List UInt8) : Option (List BanTestSpec) :=
  let body := (spec.take (banLen spec)).drop 13
  banIterLoop body.length body

/-- The `%.*s` of a header string. -/
def banSpecName : Option (List UInt8) → List UInt8
  | some s => cstr ((s.drop 1).take ((s.getD 0 0).toNat - 1))
  | none => []

/-- What `ban_render` prints for `arg1`; there is no case for `BAN_ARG_OBJSTATUS`. -/
def banRenderArg (bt : BanTestSpec) : Option (List UInt8) :=
  if bt.arg1 = banArgUrl then some (bytes "req.url")
  else if bt.arg1 = banArgReqhttp then some (bytes "req.http." ++ banSpecName bt.arg1Spec)
  else if bt.arg1 = banArgObjhttp then some (bytes "obj.http." ++ banSpecName bt.arg1Spec)
  else none

def banRenderOper (bt : BanTestSpec) : Option (List UInt8) :=
  if bt.oper = banOperEq then some (bytes " == ")
  else if bt.oper = banOperNeq then some (bytes " != ")
  else if bt.oper = banOperMatch then some (bytes " ~ ")
  else if bt.oper = banOperNmatch then some (bytes " !~ ")
  else none

/-- The loop of `ban_render`; `none` is `INCOMPL()`. -/
def banRenderLoop : Nat → List UInt8 → Option (List UInt8)
  | _, [] => some []
  | 0, _ :: _ => none
  | fuel + 1, bs => do
    let (bt, bs) ← banIter bs
    let arg1 ← banRenderArg bt
    let oper ← banRenderOper bt
    let out ← banRenderLoop fuel bs
    some (arg1 ++ oper ++ bt.arg2 ++ (if bs ≠ [] then bytes " && " else []) ++ out)

def banRender (spec : List UInt8) : Option (List UInt8) :=
  let body := (spec.take (banLen spec)).drop 13
  banRenderLoop body.length body

/-! ## The command line -/

/-- The tests of `ccf_ban`: every fourth argument is the conjunction. -/
def ccfBanTests : List (List UInt8) → List (List UInt8 × List UInt8 × List UInt8)
  | a1 :: a2 :: a3 :: _ :: av => (a1, a2, a3) :: ccfBanTests av
  | [a1, a2, a3] => [(a1, a2, a3)]
  | _ => []

/-- The arguments that `ccf_ban` compares with `&&`. -/
def ccfBanAnds : List (List UInt8) → List (List UInt8)
  | _ :: _ :: _ :: a4 :: av => a4 :: ccfBanAnds av
  | _ => []

/-- `ccf_ban` up to `BAN_Insert`. -/
def ccfBan (re : List UInt8 → Option (List UInt8)) (av : List (List UInt8)) :
    Except BanError BanBuild :=
  if av.length % 4 ≠ 3 then .error .wrongNumber
  else match (ccfBanAnds av).find? (fun a => a ≠ bytes "&&") with
  | some a => .error (.expectedAnd a)
  | none => banAddTests re .new (ccfBanTests av)

/-! ## What a specification says -/

/-- The record that a test reads back as: the variable and header name, the operator, the operand. -/
structure BanReads (re : List UInt8 → Option (List UInt8)) (t : List UInt8 × List UInt8 × List UInt8)
    (bt : BanTestSpec) : Prop where
  arg1 : ∃ pv ∈ pvars, pv.name <+: t.1 ∧ bt.arg1 = pv.tag ∧
    if pv.http then (t.1.drop pv.name.length).length ≤ 126 ∧ bt.arg1Spec =
      some (((t.1.drop pv.name.length).length + 1).toUInt8 :: t.1.drop pv.name.length ++ [chColon, 0])
    else bt.arg1Spec = none
  oper : (t.2.1, bt.oper) ∈ [(bytes "~", banOperMatch), (bytes "!~", banOperNmatch),
    (bytes "==", banOperEq), (bytes "!=", banOperNeq)]
  arg2 : bt.arg2 = t.2.2
  regexp : if bt.oper = banOperMatch ∨ bt.oper = banOperNmatch
    then bt.arg2Spec.isSome ∧ bt.arg2Spec = re t.2.2 else bt.arg2Spec = none

/-- The header name of a test, empty for the other variables. -/
def banHeaderName (a1 : List UInt8) : List UInt8 :=
  match pvars.find? (fun pv => pv.name.isPrefixOf a1) with
  | some pv => if pv.http then a1.drop pv.name.length else []
  | none => []

/-- A word that the command line splits off as it stands. -/
def PlainWord (w : List UInt8) : Prop :=
  w ≠ [] ∧ w.head? ≠ some chQuote ∧ ∀ c ∈ w, isspace c = false ∧ c ≠ chBackslash

/-- `ban.list` prints the test as words that the command line reads back. -/
def BanPrintable (t : List UInt8 × List UInt8 × List UInt8) : Prop :=
  ¬ bytes "obj.status" <+: t.1 ∧ (∀ c ∈ banHeaderName t.1, isspace c = false ∧ c ≠ chBackslash) ∧
    PlainWord t.2.2

end VarnishCache
