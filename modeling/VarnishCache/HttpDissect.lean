import VarnishCache.FetchChunked
import VarnishCache.HttpHdr

/-!
# Dissecting a message

`http_splitline` and `http_dissect_hdrs` of `bin/varnishd/cache_http.c`, with the classes of bytes of `vct.c`. The
buffer is the list of its bytes from `rxbuf.b` on: first those up to `rxbuf.e`, then what was read behind them. A
byte behind the list is the `NUL` that `cache_httpconn.c` puts there. The log and the counter of lost headers are
left out.
-/

namespace VarnishCache

def vctIscrlf (c : UInt8) : Bool := c = chCr || c = chNl

def vctIsctl (c : UInt8) : Bool := c < 0x20 || c = 0x7f

def vctIssep (c : UInt8) : Bool :=
  c = 0x09 || c = 0x20 || c = 0x22 || c = 0x28 || c = 0x29 || c = 0x2c || c = 0x2f || 0x3a ≤ c && c ≤ 0x40 ||
    0x5b ≤ c && c ≤ 0x5d || c = 0x7b || c = 0x7d

/-- `vct_skipcrlf`. -/
def skipcrlf (p : List UInt8) : Nat := if p.head? = some chCr ∧ p.tail.head? = some chNl then 2 else 1

/-! ## The headers -/

/-- "Clear line continuation LWS to spaces". -/
def clearLws (p : List UInt8) : List UInt8 :=
  List.replicate (p.takeWhile vctIslws).length chSpace ++ p.dropWhile vctIslws

/-- Where the pointers are when the end of a header is found: the bytes from `p` to `r` and those from `r` on, how
many of them come before `t.e`, and `q - p`. -/
structure HdrScan where
  seg : List UInt8
  rest : List UInt8
  n : Nat
  q : Nat
  deriving DecidableEq

/-- The `while` loop: `r` is behind `seg`, and `n` bytes before `t.e`. -/
def hdrScan : Nat → List UInt8 → List UInt8 → Nat → HdrScan
  | 0, seg, rest, q => ⟨seg, rest, 0, q⟩
  | _ + 1, seg, [], q => ⟨seg, [], 0, q⟩
  | n + 1, seg, c :: rest, q =>
    if !vctIscrlf c then hdrScan n (seg ++ [c]) rest q
    else
      let k := skipcrlf (c :: rest)
      if n + 1 ≤ k ∨ !vctIssp (((c :: rest).drop k).headD 0) then
        ⟨seg ++ (c :: rest).take k, (c :: rest).drop k, n + 1 - k, seg.length⟩
      else
        -- `r` is behind the line break, which is spaces by now: from its second byte on it comes to the same place
        hdrScan n (seg ++ [chSpace]) (clearLws rest) (seg.length + 1 + (rest.takeWhile vctIslws).length)

/-- The headers so far: the buffer up to `p` and from `p` on, and how many bytes come before `t.e`. -/
structure Dissect where
  done : List UInt8
  rest : List UInt8
  n : Nat
  hd : List Txt
  conds : Bool
  deriving DecidableEq

namespace Dissect

/-- The header is one of the conditionals, which start with `If-`. -/
def ifDash (p : List UInt8) : Bool :=
  (p.getD 0 0 = 0x69 || p.getD 0 0 = 0x49) && (p.getD 1 0 = 0x66 || p.getD 1 0 = 0x46) && p.getD 2 0 = 0x2d

/-- The `for` loop, for the slots that are left, with what it returns. Where it stops, `done` goes up to `r`. -/
def loop (maxhdr : Nat) : Nat → Dissect → Nat × Dissect
  | slots, d =>
    if d.n = 0 then (0, d)
    else
      let s := hdrScan d.n [] d.rest 0
      let p := s.seg ++ s.rest
      if maxhdr < s.q then (413, { d with rest := p })
      else if s.q = 0 then (0, { d with done := d.done ++ s.seg, rest := s.rest, n := s.n })
      else
        let txt := (p.take s.q).rdropWhile vctIssp
        let p' := p.set txt.length 0
        let d := { d with conds := d.conds || ifDash p }
        match slots with
        | 0 => (413, { d with rest := p' })
        | slots + 1 =>
          loop maxhdr slots
            { d with
              done := d.done ++ p'.take s.seg.length
              rest := p'.drop s.seg.length
              n := s.n
              hd := d.hd ++ [txt] }

/-- `http_dissect_hdrs`. -/
def hdrs (maxhdr slots : Nat) (done rest : List UInt8) (n : Nat) : Nat × Dissect :=
  if rest.head? = some chCr then
    loop maxhdr slots { done := done ++ [chCr], rest := rest.tail, n := n - 1, hd := [], conds := false }
  else loop maxhdr slots { done := done, rest := rest, n := n, hd := [], conds := false }

end Dissect

/-! ## The first line -/

/-- The bytes up to one of `stop`, without one of `bad`. -/
def lineField (stop bad : UInt8 → Bool) : List UInt8 → Except Nat (Txt × List UInt8)
  | [] => .error 400
  | c :: p =>
    if stop c then .ok ([], c :: p) else if bad c then .error 400 else (lineField stop bad p).map fun x => (c :: x.1, x.2)

/-- The fields of the first line, the `SP` between them, and what is behind them. -/
structure FirstLine where
  f1 : Txt
  s1 : Txt
  f2 : Txt
  s2 : Txt
  f3 : Txt
  rest : List UInt8
  deriving DecidableEq

/-- The loops of `http_splitline`. -/
def firstLine (p : List UInt8) : Except Nat FirstLine := do
  let (f1, p) ← lineField vctIssp vctIsctl p
  let (s1, p) ← lineField (fun c => !vctIssp c) vctIsctl p
  let (f2, p) ← lineField vctIslws vctIsctl p
  if f2 = [] then throw 413
  let (s2, p) ← lineField (fun c => !vctIssp c) vctIsctl p
  let (f3, p) ← lineField vctIscrlf (fun c => !vctIssep c && vctIsctl c) p
  return ⟨f1, s1, f2, s2, f3, p⟩

/-- What `http_splitline` returns, with the fields of the first line, the headers, and the buffer. -/
structure DissectedMsg where
  status : Nat
  line : List Txt
  hd : List Txt
  conds : Bool
  buf : List UInt8
  /-- How far it has come. -/
  r : Nat
  deriving DecidableEq

/-- `http_splitline`, for a `rxbuf` of `e` bytes. -/
def httpSplitline (maxhdr slots e : Nat) (buf : List UInt8) : DissectedMsg :=
  let lead := buf.takeWhile vctIslws
  match firstLine (buf.dropWhile vctIslws) with
  | .error status => { status := status, line := [], hd := [], conds := false, buf := buf, r := 0 }
  | .ok l =>
    let e1 := lead.length + l.f1.length
    let e2 := e1 + l.s1.length + l.f2.length
    let e3 := e2 + l.s2.length + l.f3.length
    let p := e3 + skipcrlf l.rest
    let buf := ((buf.set e1 0).set e2 0).set e3 0
    let (status, d) := Dissect.hdrs maxhdr slots (buf.take p) (buf.drop p) (e - p)
    { status := status, line := [l.f1, l.f2, l.f3], hd := d.hd, conds := d.conds, buf := d.done ++ d.rest,
      r := d.done.length }

end VarnishCache
