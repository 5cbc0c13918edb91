import VarnishCache.BanSpec
import VarnishCache.HttpHdr

/-!
# What VCL calls

`VRT_StringList`, `VRT_String`, `VRT_SetHdr` and `VRT_ban_string` of `bin/varnishd/cache_vrt.c`, `VRT_regsub` of
`cache_vrt_re.c`, and `ccf_ban` of `cache_ban.c` with `BAN_Insert`. A list of strings ends at
`vrt_magic_string_end`; a `NULL` in it is `none`. The engine behind `VRE_exec` is a function with what its
documentation promises of the offsets. The list of bans has the specifications, the newest first, and `t0` is what
`TIM_real` writes into a new one. A failed assertion is `none`.
-/

namespace VarnishCache

/-! ## Setting a header -/

/-- `VRT_StringList`, from what is in the buffer on. What goes to the end of the buffer or over it is `none`. -/
def vrtStringList (ml : Nat) : Option Txt → List (Option Txt) → Option Txt
  | b, [] => b
  | b, none :: ps => vrtStringList ml b ps
  | b, some p :: ps => vrtStringList ml (tadd ml b p) ps

/-- `VRT_String`: the string, with `h` and a space before it. The string may not fill the reservation to its last
byte. -/
def vrtString (ws : Ws) (h : Option Txt) (ps : List (Option Txt)) : Option (Option Txt × Ws) :=
  ws.reserve.bind fun (u, ws) =>
  let b :=
    match h with
    | none => some []
    | some h => tadd u (tadd u (some []) h) [0x20]
  match vrtStringList u b ps with
  | none => (ws.release 0).map fun ws => (none, ws)
  | some t =>
    if u ≤ t.length + 1 then (ws.release 0).map fun ws => (none, ws)
    else (ws.release (t.length + 1)).map fun ws => (some t, ws)

/-- What VCL sets a header to. -/
inductive HdrValue where
  | unset
  | strings (ps : List (Option Txt))

namespace HttpMsg

/-- `VRT_SetHdr`. -/
def vrtSetHdr (hp : HttpMsg) (hdr : HdrName) : HdrValue → Option HttpMsg
  | .unset => some (hp.unset hdr)
  | .strings ps =>
    (vrtString hp.ws (some hdr.key) ps).map fun (b, ws) =>
      match b with
      | none => { hp with ws := ws }
      | some b => ({ hp with ws := ws }.unset hdr).setHeader b

end HttpMsg

/-! ## Regular expression substitution -/

/-- The offset vector: the match, and the groups from 1 on. A group that is not set is `none`. -/
structure Ovector where
  start : Nat
  stop : Nat
  group : Nat → Option (Nat × Nat)

inductive VreResult where
  | noMatch
  | error
  | matched (ov : Ovector)

/-- The offsets are in order and inside of the subject. -/
structure Ovector.Within (ov : Ovector) (s : Txt) : Prop where
  order : ov.start ≤ ov.stop
  le : ov.stop ≤ s.length
  groups : ∀ k g, ov.group k = some g → g.1 ≤ g.2 ∧ g.2 ≤ s.length

/-- `VRE_exec` for one expression, by the subject and whether `VRE_NOTEMPTY` is set. -/
structure Vre where
  exec : Txt → Bool → VreResult
  within : ∀ s b ov, exec s b = .matched ov → ov.Within s
  notempty : ∀ s ov, exec s true = .matched ov → ov.start < ov.stop

/-- The text of a group, of which 0 is the match. -/
def Ovector.text (ov : Ovector) (str : Txt) (x : Nat) : Txt :=
  match if x = 0 then some (ov.start, ov.stop) else ov.group x with
  | none => []
  | some (s, e) => (str.drop s).take (e - s)

def isdigit (c : UInt8) : Bool := 0x30 ≤ c && c ≤ 0x39

/-- The loop of `VRT_regsub` over the substitution. -/
def regsubExpand (ml : Nat) (str : Txt) (ov : Ovector) : Option Txt → Txt → Option Txt
  | res, [] => res
  | res, [c] => tadd ml res [c]
  | res, c :: d :: s =>
    if c ≠ 0x5c then regsubExpand ml str ov (tadd ml res [c]) (d :: s)
    else if isdigit d then regsubExpand ml str ov (tadd ml res (ov.text str (d.toNat - 0x30))) s
    else regsubExpand ml str ov (tadd ml res [d]) s

/-- What is left of the subject behind the last match, and the text so far, or no text after an error. -/
structure RegsubEnd where
  str : Txt
  res : Option (Option Txt)

/-- The `do` loop of `VRT_regsub`, for a match of the subject. -/
def regsubLoop (re : Vre) (ml : Nat) (all : Bool) (sub str : Txt) (ov : Ovector) (res : Option Txt) : RegsubEnd :=
  let res := regsubExpand ml str ov (tadd ml res (str.take ov.start)) sub
  let rest := str.drop ov.stop
  if all then
    match _h : re.exec rest true with
    | .noMatch => ⟨rest, some res⟩
    | .error => ⟨rest, none⟩
    | .matched ov' => regsubLoop re ml all sub rest ov' res
  else ⟨rest, some res⟩
termination_by str.length - ov.stop
decreasing_by
  have hlt := re.notempty _ _ _h
  have hle := (re.within _ _ _ _h).le
  simp only [rest, List.length_drop] at hle ⊢
  omega

/-- `VRT_regsub`: the string, and the workspace. -/
def vrtRegsub (ws : Ws) (all : Bool) (str : Option Txt) (re : Vre) (sub : Option Txt) : Option (Txt × Ws) :=
  let str := str.getD []
  match re.exec str false with
  | .noMatch => some (str, ws)
  | .error => some (str, ws)
  | .matched ov =>
    ws.reserve.bind fun (u, ws) =>
    let r := regsubLoop re u all (sub.getD []) str ov (some [])
    match r.res with
    | none => (ws.release 0).map fun ws => (r.str, ws)
    | some res =>
      match tadd u res (r.str ++ [0]) with
      | none => (ws.release 0).map fun ws => (r.str, ws)
      | some t => (ws.release t.length).map fun ws => (t.dropLast, ws)

/-! ## Submitting a ban -/

/-- The loop of `VRT_ban_string`, from a test on: the ban and `good`, which is 0 there. -/
def vrtBanLoop (re : List UInt8 → Option (List UInt8)) : BanBuild → List (List UInt8) → Option (BanBuild × Bool)
  | b, a1 :: a2 :: a3 :: av =>
    match banAddTest re b a1 a2 a3 with
    | .error .nameTooLong => none
    | .error _ => some (b, false)
    | .ok b =>
      match av with
      | [] => some (b, true)
      | a4 :: av => if a4 ≠ bytes "&&" then some (b, false) else vrtBanLoop re b av
  | b, _ => some (b, false)

/-- `VRT_ban_string` with the arguments of the string. -/
def vrtBanArgs (re : List UInt8 → Option (List UInt8)) (t0 : List UInt8) (bans : List (List UInt8))
    (av : List (List UInt8)) : Option (List (List UInt8)) := do
  let (b, good) ← vrtBanLoop re .new av
  if good then some (banFreeze t0 b :: bans) else some bans

def vrtBanString (re : List UInt8 → Option (List UInt8)) (t0 : List UInt8) (bans : List (List UInt8))
    (str : List UInt8) : Option (List (List UInt8)) := do
  match ← vavParse sscanfHex { comment := false, comma := false, noesc := true } str with
  | .error _ => some bans
  | .ok av => vrtBanArgs re t0 bans av

/-- `ccf_ban` with the arguments behind the command. -/
def ccfBanArgs (re : List UInt8 → Option (List UInt8)) (t0 : List UInt8) (bans : List (List UInt8))
    (av : List (List UInt8)) : Option (List (List UInt8)) :=
  match ccfBan re av with
  | .ok b => some (banFreeze t0 b :: bans)
  | .error .nameTooLong => none
  | .error _ => some bans

end VarnishCache
