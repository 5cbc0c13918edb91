import VarnishCache.Http

/-!
# CLI lines

`VAV_Parse` of `lib/libvarnish/argv.c`, `VSB_quote` of `lib/libvarnish/vsb.c`, and the line that `mcf_askchild` of
`bin/varnishd/mgt_cli.c` sends to the child. Strings are byte lists, without the NUL at their end; the character
classes are those of the C locale. A pointer that goes on by `k` bytes is a count of bytes to pass over, so that the
loops go through the list. A failed assertion and a read behind the NUL are `none`. `sscanf` with `%02x` is the
parameter `hex` of the parser: the number that it reads behind the `x` of an escape, if it reads one.
-/

namespace VarnishCache

abbrev chNl : UInt8 := 0x0a
abbrev chCr : UInt8 := 0x0d
abbrev chSpace : UInt8 := 0x20
abbrev chBackslash : UInt8 := 0x5c
abbrev chQuote : UInt8 := 0x22

def isspace (c : UInt8) : Bool := c = 0x20 || (0x09 ≤ c && c ≤ 0x0d)
def isOctal (c : UInt8) : Bool := 0x30 ≤ c && c ≤ 0x37

def isGraph (c : UInt8) : Bool := 0x21 ≤ c && c ≤ 0x7e

def hexValue (c : UInt8) : Option Nat :=
  if 0x30 ≤ c ∧ c ≤ 0x39 then some (c.toNat - 0x30)
  else if 0x41 ≤ c ∧ c ≤ 0x46 then some (c.toNat - 0x41 + 10)
  else if 0x61 ≤ c ∧ c ≤ 0x66 then some (c.toNat - 0x61 + 10)
  else none

/-- `sscanf` with `%02x`: two bytes at most, after space, one of which may be a sign. -/
def sscanfHex (s : List UInt8) : Option Nat :=
  match s.dropWhile isspace with
  | [] => none
  | c :: s =>
    let d := s.getD 0 0
    match hexValue c with
    | some u => if c = 0x30 ∧ (d = 0x78 ∨ d = 0x58) then none else some ((hexValue d).elim u (u * 16 + ·))
    | none =>
      if c = 0x2b then hexValue d
      else if c = 0x2d then (hexValue d).map (fun u => (2 ^ 32 - u) % 2 ^ 32)
      else none

structure VavFlags where
  comment : Bool
  comma : Bool
  noesc : Bool

inductive VavError where
  | invalidBackslash
  | missingQuote
  deriving DecidableEq

/-- Where in a line the parser is. -/
inductive VavPlace where
  | between
  | word
  | quoted
  deriving DecidableEq

/-- Where it is after a byte that opens no escape. A comment goes on to the end of the line. -/
def VavFlags.next (flag : VavFlags) : VavPlace → UInt8 → Option VavPlace
  | .between, c =>
    if isspace c then some .between
    else if flag.comment ∧ c = 0x23 then none
    else if c = chQuote ∧ flag.noesc = false then some .quoted
    else if flag.comma ∧ c = chComma then some .between
    else some .word
  | .word, c => if isspace c ∨ (flag.comma ∧ c = chComma) then some .between else some .word
  | .quoted, c => if c = chQuote ∧ flag.noesc = false then some .between else some .quoted

section Parse

variable (hex : List UInt8 → Option Nat)

/-- `VAV_BackSlash`: how many bytes the escape has, 0 for none, and its byte. -/
def vavBackSlash (s : List UInt8) : Option (Nat × UInt8) :=
  let c := s.getD 1 0
  if c = 0x6e then some (2, chNl)
  else if c = 0x72 then some (2, chCr)
  else if c = 0x74 then some (2, 0x09)
  else if c = chQuote then some (2, chQuote)
  else if c = chBackslash then some (2, chBackslash)
  else if isOctal c then
    let digits := ((s.drop 1).take 3).takeWhile isOctal
    some (1 + digits.length, digits.foldl (fun c d => c <<< 3 ||| (d - 0x30)) 0)
  else if c = 0x78 then
    match hex (s.drop 2) with
    | some u => if 0xff < u then none else some (4, u.toUInt8)
    | none => some (0, 0)
  else some (0, 0)

/-- `VAV_BackSlashDecode` of the first `n` bytes of `s`, from byte `k` on. -/
def vavBackSlashDecode : Nat → Nat → List UInt8 → Option (List UInt8)
  | _, 0, _ => some []
  | _, _ + 1, [] => none
  | k + 1, n + 1, _ :: s => vavBackSlashDecode k n s
  | 0, n + 1, c :: s =>
    if c ≠ chBackslash then (vavBackSlashDecode 0 n s).map (c :: ·)
    else
      match vavBackSlash hex (c :: s) with
      | some (i + 1, r) => (vavBackSlashDecode i n s).map (r :: ·)
      | _ => none

/-- The inner loop of `VAV_Parse`, from byte `k` of `s` on: the number of bytes up to the end of the argument. -/
def vavScan (flag : VavFlags) (quote : Bool) : Nat → List UInt8 → Option (Except VavError Nat)
  | k + 1, _ :: s => (vavScan flag quote k s).map (Except.map (· + 1))
  | _ + 1, [] => none
  | 0, [] => some (if quote then .error .missingQuote else .ok 0)
  | 0, c :: s =>
    if c = chBackslash ∧ flag.noesc = false then
      match vavBackSlash hex (c :: s) with
      | none => none
      | some (0, _) => some (.error .invalidBackslash)
      | some (i + 1, _) => (vavScan flag quote i s).map (Except.map (· + 1))
    else if quote = false then
      if isspace c ∨ (flag.comma ∧ c = chComma) then some (.ok 0)
      else (vavScan flag quote 0 s).map (Except.map (· + 1))
    else if c = chQuote ∧ flag.noesc = false then some (.ok 0)
    else (vavScan flag quote 0 s).map (Except.map (· + 1))

/-- An argument as the C string that `argv` gets. -/
def vavArg (flag : VavFlags) (p : List UInt8) (n : Nat) : Option (List UInt8) :=
  if flag.noesc then some (p.take n) else (vavBackSlashDecode hex 0 n p).map cstr

/-- The outer loop of `VAV_Parse`, from byte `k` of `s` on, with the arguments so far. -/
def vavLoop (flag : VavFlags) : List (List UInt8) → Nat → List UInt8 → Option (Except VavError (List (List UInt8)))
  | argv, _, [] => some (.ok argv)
  | argv, k + 1, _ :: s => vavLoop flag argv k s
  | argv, 0, c :: s =>
    if isspace c then vavLoop flag argv 0 s
    else if flag.comment ∧ c = 0x23 then some (.ok argv)
    else
      let quote := c = chQuote && !flag.noesc
      let p := if quote then s else c :: s
      match vavScan hex flag quote 0 p with
      | none => none
      | some (.error e) => some (.error e)
      | some (.ok n) =>
        match vavArg hex flag p n with
        | none => none
        | some arg => vavLoop flag (argv ++ [arg]) (if quote then n + 1 else n) s

/-- `VAV_Parse`; an error is `argv[0]`. -/
def vavParse (flag : VavFlags) (s : List UInt8) : Option (Except VavError (List (List UInt8))) := vavLoop hex flag [] 0 s

/-- The escapes of a line from byte `k` on, each with what follows it in the line. Behind one that is not valid
there are none. -/
def vavEscapes (flag : VavFlags) : VavPlace → Nat → List UInt8 → List (List UInt8)
  | _, _, [] => []
  | m, k + 1, _ :: s => vavEscapes flag m k s
  | m, 0, c :: s =>
    if c = chBackslash ∧ flag.noesc = false then
      (c :: s) :: match vavBackSlash hex (c :: s) with
        | some (i + 1, _) => vavEscapes flag (if m = .quoted then .quoted else .word) i s
        | _ => []
    else
      match flag.next m c with
      | some m => vavEscapes flag m 0 s
      | none => []

end Parse

section Equations

variable {hex : List UInt8 → Option Nat} {flag : VavFlags} {quote : Bool} {argv : List (List UInt8)} {m : VavPlace}
  {c : UInt8} {s : List UInt8} {k n : Nat}

lemma vavBackSlashDecode_none : vavBackSlashDecode hex 0 0 s = some [] := by cases s <;> rfl

lemma vavBackSlashDecode_cons : vavBackSlashDecode hex 0 (n + 1) (c :: s) =
    if c ≠ chBackslash then (vavBackSlashDecode hex 0 n s).map (c :: ·)
    else
      match vavBackSlash hex (c :: s) with
      | some (i + 1, r) => (vavBackSlashDecode hex i n s).map (r :: ·)
      | _ => none := rfl

lemma vavScan_past : vavScan hex flag quote (k + 1) (c :: s) = (vavScan hex flag quote k s).map (Except.map (· + 1)) := rfl

lemma vavScan_cons : vavScan hex flag quote 0 (c :: s) =
    if c = chBackslash ∧ flag.noesc = false then
      match vavBackSlash hex (c :: s) with
      | none => none
      | some (0, _) => some (.error .invalidBackslash)
      | some (i + 1, _) => (vavScan hex flag quote i s).map (Except.map (· + 1))
    else if quote = false then
      if isspace c ∨ (flag.comma ∧ c = chComma) then some (.ok 0)
      else (vavScan hex flag quote 0 s).map (Except.map (· + 1))
    else if c = chQuote ∧ flag.noesc = false then some (.ok 0)
    else (vavScan hex flag quote 0 s).map (Except.map (· + 1)) := rfl

lemma vavLoop_nil : vavLoop hex flag argv k [] = some (.ok argv) := rfl

lemma vavLoop_cons : vavLoop hex flag argv 0 (c :: s) =
    if isspace c then vavLoop hex flag argv 0 s
    else if flag.comment ∧ c = 0x23 then some (.ok argv)
    else
      let quote := c = chQuote && !flag.noesc
      let p := if quote then s else c :: s
      match vavScan hex flag quote 0 p with
      | none => none
      | some (.error e) => some (.error e)
      | some (.ok n) =>
        match vavArg hex flag p n with
        | none => none
        | some arg => vavLoop hex flag (argv ++ [arg]) (if quote then n + 1 else n) s := rfl

lemma vavEscapes_cons : vavEscapes hex flag m 0 (c :: s) =
    if c = chBackslash ∧ flag.noesc = false then
      (c :: s) :: match vavBackSlash hex (c :: s) with
        | some (i + 1, _) => vavEscapes hex flag (if m = .quoted then .quoted else .word) i s
        | _ => []
    else
      match flag.next m c with
      | some m => vavEscapes hex flag m 0 s
      | none => [] := rfl

end Equations

/-- A sign and a digit, of a number below 0. -/
def hexNegative : List UInt8 → Bool
  | c :: d :: _ => c = 0x2d && (hexValue d).any fun u => 0 < u
  | _ => false

/-- A hexadecimal escape with one digit at the end of the line, or of a negative number. -/
def hexUnreadable (e : List UInt8) : Bool :=
  e.getD 1 0 = 0x78 && match e.drop 2 with
    | [d] => (hexValue d).isSome
    | s => hexNegative (s.dropWhile isspace)

/-- The slots that `argv` has when so many arguments are in it. -/
def vavLargv : Nat → Nat
  | 0 => 16
  | nargv + 1 => if nargv + 2 < vavLargv nargv then vavLargv nargv else 2 * vavLargv nargv

/-- `%o` of a byte. -/
def octal (c : UInt8) : List UInt8 :=
  if c < 8 then [0x30 + c]
  else if c < 64 then [0x30 + c / 8, 0x30 + c % 8]
  else [0x30 + c / 64, 0x30 + c / 8 % 8, 0x30 + c % 8]

/-- What `VSB_quote` writes for a byte between quotes. -/
def quoteByte (c : UInt8) : List UInt8 :=
  if c = chSpace then [c]
  else if c = chBackslash ∨ c = chQuote then [chBackslash, c]
  else if c = chNl then [chBackslash, 0x6e]
  else if c = chCr then [chBackslash, 0x72]
  else if c = 0x09 then [chBackslash, 0x74]
  else if isGraph c then [c]
  else chBackslash :: octal c

def vsbQuote (p : List UInt8) : List UInt8 :=
  if p.any (fun q => !isGraph q || q = chQuote || q = chBackslash) then chQuote :: p.flatMap quoteByte ++ [chQuote]
  else p

/-- The line that `mcf_askchild` writes, for the arguments from `av[1]` on. -/
def mcfAskchild (av : List (List UInt8)) : List UInt8 := av.flatMap (fun a => vsbQuote a ++ [chSpace]) ++ [chNl]

/-- The first line that `LineUpProcess` finds. -/
def vluLine (p : List UInt8) : List UInt8 := p.takeWhile (fun c => c ≠ chNl ∧ c ≠ chCr)

/-- The arguments that the child gets. -/
def childArgv (av : List (List UInt8)) : Option (Except VavError (List (List UInt8))) :=
  vavParse sscanfHex { comment := false, comma := false, noesc := false } (vluLine (mcfAskchild av))

end VarnishCache
