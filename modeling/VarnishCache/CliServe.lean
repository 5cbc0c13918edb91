import VarnishCache.Argv

/-!
# A CLI session of the manager

`cls_vlu`, `cls_vlu2`, `cls_dispatch` and `VCLS_func_help` of `lib/libvarnish/cli_serve.c`, `mcf_auth` and the
tables of `bin/varnishd/mgt_cli.c`. What is written to the session is left out, apart from the challenges;
`VCLI_AuthResponse`, a hash of the secret and the challenge, is a parameter. The functions of the tables are
recorded as they are called. What those behind the authentication do to the manager is not modelled: to the session
they can only end it. A failed assertion in the parser is `none`.
-/

namespace VarnishCache

abbrev mcfNoauth : Nat := 0
abbrev mcfAuthed : Nat := 16

inductive CliFunc where
  | help
  | ping
  | auth
  | close
  | banner
  | serverStatus
  | serverStartstop
  | configLoad
  | configInline
  | configUse
  | configDiscard
  | configList
  | configShow
  | paramShow
  | paramSet
  | panicShow
  | panicClear
  | panic
  | stvCliList
  | askchild
  deriving DecidableEq

/-- `struct cli_proto`. -/
structure CliProto where
  request : List UInt8
  minarg : Nat
  maxarg : Nat
  flags : List Char
  func : CliFunc

def cliAuth : List CliProto :=
  [⟨bytes "help", 0, 1, [], .help⟩, ⟨bytes "ping", 0, 1, [], .ping⟩, ⟨bytes "auth", 1, 1, [], .auth⟩,
    ⟨bytes "quit", 0, 0, [], .close⟩]

def cliProto : List CliProto :=
  [⟨bytes "banner", 0, 0, [], .banner⟩, ⟨bytes "status", 0, 0, [], .serverStatus⟩,
    ⟨bytes "start", 0, 0, [], .serverStartstop⟩, ⟨bytes "stop", 0, 0, [], .serverStartstop⟩,
    ⟨bytes "vcl.load", 2, 2, [], .configLoad⟩, ⟨bytes "vcl.inline", 2, 2, [], .configInline⟩,
    ⟨bytes "vcl.use", 1, 1, [], .configUse⟩, ⟨bytes "vcl.discard", 1, 1, [], .configDiscard⟩,
    ⟨bytes "vcl.list", 0, 0, [], .configList⟩, ⟨bytes "vcl.show", 1, 1, [], .configShow⟩,
    ⟨bytes "param.show", 0, 2, [], .paramShow⟩, ⟨bytes "param.set", 2, 2, [], .paramSet⟩,
    ⟨bytes "panic.show", 0, 0, [], .panicShow⟩, ⟨bytes "panic.clear", 0, 0, [], .panicClear⟩]

def cliDebug : List CliProto := [⟨bytes "debug.panic.master", 0, 0, ['d'], .panic⟩]

def cliStv : List CliProto := [⟨bytes "storage.list", 0, 0, [], .stvCliList⟩]

def cliAskchild : List CliProto := [⟨bytes "*", 0, 9999, ['h', '*'], .askchild⟩]

/-- `mgt_cli_init_cls`. -/
def cliFuncs : List (Nat × List CliProto) :=
  [(mcfNoauth, cliAuth), (mcfAuthed, cliProto), (mcfAuthed, cliDebug), (mcfAuthed, cliStv), (mcfAuthed, cliAskchild)]

/-- What a line finds: the secret file, which may not be configured or not be there, the next random challenge, and
whether the session is closed after it, by a function behind the authentication or an error in writing to it. -/
structure CliEnv where
  secretFile : Option (Option (List UInt8))
  random : List UInt8
  close : Bool

inductive CliEvent where
  | challenge (c : List UInt8)
  /-- A function of a table of this level is called. -/
  | call (level : Nat) (func : CliFunc) (av : List (List UInt8)) (env : CliEnv)

/-- `struct cli` and `struct VCLS_fd`. -/
structure CliSess where
  auth : Nat
  challenge : List UInt8
  /-- The arguments of a command that ends in a here-document, and the document so far. -/
  argv : Option (List (List UInt8) × List UInt8)
  closed : Bool
  trace : List CliEvent

namespace CliSess

variable (authResponse : List UInt8 → List UInt8 → List UInt8) (env : CliEnv) (cli : CliSess)

def log (e : CliEvent) : CliSess := { cli with trace := cli.trace ++ [e] }

/-- `mgt_cli_challenge`. -/
def mgtCliChallenge : CliSess := { cli with challenge := env.random }.log (.challenge env.random)

/-- `mcf_auth`. The banner is a function of `cli_proto`. -/
def mcfAuth (av : List (List UInt8)) : CliSess :=
  match env.secretFile with
  | none => cli
  | some none => cli
  | some (some secret) =>
    if strcaseEq (authResponse secret cli.challenge) (av.getD 1 []) then
      { cli with auth := mcfAuthed, challenge := List.replicate 34 0 }.log (.call mcfAuthed .banner av env)
    else cli.mgtCliChallenge env

/-- The functions that `VCLS_func_help` calls for one table: those of wild-card entries. -/
def helpTable (level : Nat) (av : List (List UInt8)) : List CliProto → CliSess → CliSess
  | [], cli => cli
  | cp :: clp, cli =>
    if cp.flags.contains 'i' then helpTable level av clp cli
    else if cp.flags.contains '*' then helpTable level av clp (cli.log (.call level cp.func av env))
    else helpTable level av clp cli

def helpAll (av : List (List UInt8)) : List (Nat × List CliProto) → CliSess → CliSess
  | [], cli => cli
  | (level, clp) :: funcs, cli =>
    if cli.auth < level then helpAll av funcs cli else helpAll av funcs (helpTable env level av clp cli)

/-- The search of `VCLS_func_help` in one table, which ends at the request or at a wild-card entry. -/
def helpFind (level : Nat) (av : List (List UInt8)) : List CliProto → CliSess → Option CliSess
  | [], _ => none
  | cp :: clp, cli =>
    if cp.request = av.getD 1 [] then some cli
    else if cp.flags.contains '*' then some (cli.log (.call level cp.func av env))
    else helpFind level av clp cli

def helpOne (av : List (List UInt8)) : List (Nat × List CliProto) → CliSess → CliSess
  | [], cli => cli
  | (level, clp) :: funcs, cli =>
    if cli.auth < level then helpOne av funcs cli
    else (helpFind env level av clp cli).getD (helpOne av funcs cli)

/-- `VCLS_func_help`. -/
def vclsFuncHelp (av : List (List UInt8)) : CliSess :=
  match av[1]? with
  | none => helpAll env av cliFuncs cli
  | some arg =>
    if arg = bytes "-a" ∨ arg = bytes "-d" then helpAll env av cliFuncs cli else helpOne env av cliFuncs cli

/-- A function of a table is called. -/
def callFunc (level : Nat) (func : CliFunc) (av : List (List UInt8)) : CliSess :=
  let cli := cli.log (.call level func av env)
  match func with
  | .help => cli.vclsFuncHelp env av
  | .auth => cli.mcfAuth authResponse env av
  | .close => { cli with closed := true }
  | _ => cli

/-- `cls_dispatch`, for the arguments from `av[1]` on. -/
def clsDispatch (level : Nat) (clp : List CliProto) (av : List (List UInt8)) : Option CliSess :=
  match clp.find? (fun cp => av.headD [] = cp.request || bytes "*" = cp.request) with
  | none => none
  | some cp =>
    if av.length - 1 < cp.minarg then some cli
    else if cp.maxarg < av.length - 1 then some cli
    else some (cli.callFunc authResponse env level cp.func av)

/-- The loop of `cls_vlu2`. -/
def dispatchAll (av : List (List UInt8)) : List (Nat × List CliProto) → CliSess → CliSess
  | [], cli => cli
  | (level, clp) :: funcs, cli =>
    if cli.auth < level then dispatchAll av funcs cli
    else (cli.clsDispatch authResponse env level clp av).getD (dispatchAll av funcs cli)

/-- `cls_vlu2`: `none` is an error of the parser. -/
def clsVlu2 (av : Option (List (List UInt8))) : CliSess :=
  let cli := match av with
    | none => cli
    | some av =>
      let c := (av.headD []).headD 0
      if 0x61 ≤ c ∧ c ≤ 0x7a then dispatchAll authResponse env av cliFuncs cli else cli
  { cli with closed := cli.closed || env.close }

/-- `cls_vlu`. -/
def clsVlu (line : List UInt8) : Option CliSess :=
  match cli.argv with
  | none =>
    let p := (cstr line).dropWhile isspace
    if p = [] then some cli
    else
      match vavParse sscanfHex { comment := false, comma := false, noesc := false } p with
      | none => none
      | some (.error _) => some (cli.clsVlu2 authResponse env none)
      | some (.ok av) =>
        if av.length < 2 ∨ cli.auth = 0 ∨ av.getD (av.length - 2) [] ≠ bytes "<<" then
          some (cli.clsVlu2 authResponse env (some av))
        else some { cli with argv := some (av, []) }
  | some (av, doc) =>
    if cstr line ≠ av.getD (av.length - 1) [] then some { cli with argv := some (av, doc ++ cstr line ++ [chNl]) }
    else
      some ({ cli with argv := none }.clsVlu2 authResponse env (some (av.take (av.length - 2) ++ [doc])))

/-- A session that `mgt_cli_setup` makes behind a secret. -/
def setup (challenge : List UInt8) : CliSess :=
  { auth := mcfNoauth, challenge := challenge, argv := none, closed := false, trace := [.challenge challenge] }

/-- The lines of a session, until it is closed. -/
def run : CliSess → List (List UInt8 × CliEnv) → Option CliSess
  | cli, [] => some cli
  | cli, (line, env) :: lines =>
    if cli.closed then some cli else (cli.clsVlu authResponse env line).bind (fun cli => run cli lines)

end CliSess

/-- The challenge that was issued last. -/
def lastChallenge (trace : List CliEvent) : Option (List UInt8) :=
  (trace.filterMap (fun e => match e with
    | .challenge c => some c
    | .call .. => none)).getLast?

/-- There was an `auth` command whose argument is right for the challenge issued last before it. -/
def AuthGiven (authResponse : List UInt8 → List UInt8 → List UInt8) (right : List UInt8 → List UInt8 → Prop)
    (trace : List CliEvent) : Prop :=
  ∃ pre post av env secret c, trace = pre ++ .call mcfNoauth .auth av env :: post ∧
    env.secretFile = some (some secret) ∧ lastChallenge pre = some c ∧ right (authResponse secret c) (av.getD 1 [])

/-- No function of a higher level is called before that. -/
def AuthFirst (authResponse : List UInt8 → List UInt8 → List UInt8) (right : List UInt8 → List UInt8 → Prop)
    (trace : List CliEvent) : Prop :=
  ∀ pre post level func av env, trace = pre ++ .call level func av env :: post → mcfNoauth < level →
    AuthGiven authResponse right pre

end VarnishCache
