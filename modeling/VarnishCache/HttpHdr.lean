import VarnishCache.Http
import VarnishCache.Workspace

/-!
# The header slots of a message

`struct http` of `bin/varnishd/cache.h` and the functions of `cache_http.c` that look for, join, filter, copy and
set its headers. `hd` and `hdf` are two arrays, as in the source: a slot is in use as long as `hd` is, and `hdf` can
go on behind. A slot that `http_CopyHome` has emptied is `none`. The first five slots, of the request or status
line, are `line`; nothing sets a flag there. The log and the counter of lost headers are left out. A failed
assertion is `none`.
-/

namespace VarnishCache

/-- The bytes of a header, or of a field of the first line. -/
abbrev Txt := List UInt8

/-- The name of a header, as in `H_Connection`, where the length and a colon stand around it. -/
structure HdrName where
  name : Txt
  nonul : 0 ∉ name
  nocolon : chColon ∉ name
  short : name.length < 127
  deriving DecidableEq

namespace HdrName

/-- `hdr + 1`. -/
def key (hdr : HdrName) : Txt := hdr.name ++ [chColon]

/-- `hdr[0]`. -/
def len (hdr : HdrName) : Nat := hdr.name.length + 1

/-- The string itself. -/
def str (hdr : HdrName) : Txt := hdr.len.toUInt8 :: hdr.key

end HdrName

/-- `http_IsHdr`. -/
def isHdr (hdr : HdrName) (hh : Txt) : Bool := strncaseEq hdr.len hdr.key hh

/-- `struct http`. -/
structure HttpMsg where
  ws : Ws
  shd : Nat
  line : List (Option Txt)
  hd : List (Option Txt)
  hdf : List Bool
  deriving DecidableEq

/-- The masks of `http_headers.h`. -/
structure FilterHow where
  rPass : Bool
  aPass : Bool
  rPipe : Bool
  rFetch : Bool
  aIns : Bool
  aDeliver : Bool
  deriving DecidableEq

namespace FilterHow

def none : FilterHow := ⟨false, false, false, false, false, false⟩

/-- The masks have a bit in common. -/
def meets (a b : FilterHow) : Bool :=
  a.rPass && b.rPass || a.aPass && b.aPass || a.rPipe && b.rPipe || a.rFetch && b.rFetch || a.aIns && b.aIns ||
    a.aDeliver && b.aDeliver

/-- `HTTPH_R_PASS | HTTPH_A_PASS | HTTPH_R_FETCH`. -/
def hop : FilterHow := { none with rPass := true, aPass := true, rFetch := true }

/-- `HTTPH_R_PASS | HTTPH_A_PASS | HTTPH_R_FETCH | HTTPH_A_INS`. -/
def hopIns : FilterHow := { hop with aIns := true }

/-- `HTTPH_R_FETCH | HTTPH_A_INS`. -/
def fetchIns : FilterHow := { none with rFetch := true, aIns := true }

end FilterHow

/-- The headers of `http_headers.h` that some mask suppresses. -/
def httpHeaders : List (Txt × FilterHow) :=
  [(bytes "Keep-Alive", .hop), (bytes "Accept-Ranges", .fetchIns), (bytes "Age", { FilterHow.none with aIns := true }),
    (bytes "Cache-Control", { FilterHow.none with rFetch := true }), (bytes "Connection", .hopIns),
    (bytes "Content-Length", .fetchIns), (bytes "Content-Range", .fetchIns),
    (bytes "Date", { FilterHow.none with aDeliver := true }),
    (bytes "If-Match", { FilterHow.none with rFetch := true }),
    (bytes "If-Modified-Since", { FilterHow.none with rFetch := true }),
    (bytes "If-None-Match", { FilterHow.none with rFetch := true }),
    (bytes "If-Range", { FilterHow.none with rFetch := true }),
    (bytes "If-Unmodified-Since", { FilterHow.none with rFetch := true }),
    (bytes "Proxy-Authenticate", .fetchIns), (bytes "Proxy-Authorization", .fetchIns), (bytes "Range", .fetchIns),
    (bytes "TE", .hopIns), (bytes "Trailer", .hopIns), (bytes "Transfer-Encoding", .hopIns), (bytes "Upgrade", .hopIns)]

/-- The `HTTPH` lines in a filter: the header has the name of one that `how` suppresses. -/
def suppressed (how : FilterHow) (hh : Txt) : Bool :=
  httpHeaders.any fun x => how.meets x.2 && strncaseEq (x.1.length + 1) (x.1 ++ [chColon]) hh

namespace HttpMsg

/-- `hp->nhd`, where `HTTP_HDR_FIRST` is 5. -/
def nhd (hp : HttpMsg) : Nat := 5 + hp.hd.length

/-- The arrays have `shd` slots, from `HTTP_create` on. -/
structure Ok (hp : HttpMsg) : Prop where
  line : hp.line.length = 5
  room : hp.nhd ≤ hp.shd
  flags : 5 + hp.hdf.length = hp.shd

/-! ## Joining headers -/

/-- The variables of `http_CollectHdr`: the slots behind which `u` is, `f`, `b` once it is not `NULL`, and the
workspace. -/
structure Collect where
  seen : List Txt
  f : Option Nat
  b : Option (Option Txt)
  ml : Nat
  ws : Ws

/-- The second header starts the collection, with the first one. -/
def Collect.start (c : Collect) (f : Nat) : Option Collect :=
  match c.b with
  | some _ => some c
  | none =>
    c.ws.reserve.map fun (ml, ws) => { c with b := some (tadd ml (some []) (c.seen.getD f [])), ml := ml, ws := ws }

/-- A comma, and the header without its name. -/
def Collect.append (c : Collect) (hdr : HdrName) (h : Txt) : Collect :=
  { c with b := c.b.map fun b => tadd c.ml (tadd c.ml b [chComma]) (h.drop hdr.len) }

/-- The loop of `http_CollectHdr` over the slots from `u` on. -/
def collectLoop (hdr : HdrName) : List Txt → Collect → Option Collect
  | [], c => some c
  | h :: hs, c =>
    if isHdr hdr h then
      match c.f with
      | none => collectLoop hdr hs { c with seen := c.seen ++ [h], f := some c.seen.length }
      | some f => (c.start f).bind fun c => collectLoop hdr hs (c.append hdr h)
    else collectLoop hdr hs { c with seen := c.seen ++ [h] }

/-- `http_CollectHdr`. A slot that is `NULL` fails an assertion. -/
def collectHdr (hp : HttpMsg) (hdr : HdrName) : Option HttpMsg :=
  (hp.hd.mapM id).bind fun hd =>
  (collectLoop hdr hd { seen := [], f := none, b := none, ml := 0, ws := hp.ws }).bind fun c =>
  match c.b with
  | none => some { hp with hd := c.seen.map some, ws := c.ws }
  | some none => (c.ws.release 0).map fun ws => { hp with hd := c.seen.map some, ws := ws }
  | some (some t) =>
    (c.ws.release (t.length + 1)).map fun ws =>
      { hp with hd := (c.seen.set (c.f.getD 0) t).map some, ws := ws }

/-! ## Filtering -/

def hConnection : HdrName := ⟨bytes "Connection", by decide, by decide, by decide⟩

/-- The tokens that the loop of `http_DoConnection` finds, with `t` as the one that it is in. -/
def connectionTokens (t : Txt) : Txt → List Txt
  | [] => if t = [] then [] else [t]
  | c :: p =>
    if c = 0 then if t = [] then [] else [t]
    else if vctIssp c || c == chComma then (if t = [] then [] else [t]) ++ connectionTokens [] p
    else connectionTokens (t ++ [c]) p

/-- `hp->hdf[u] |= HDF_FILTER` for the header that has the token as its name. -/
def markHdr (hp : HttpMsg) (t : Txt) : Option HttpMsg :=
  (findhdr t.length t hp.hd).map fun
    | none => hp
    | some u => { hp with hdf := hp.hdf.set u true }

/-- `http_DoConnection`, but for what it returns. -/
def doConnection (hp : HttpMsg) : Option HttpMsg :=
  (getHdr hp.hd hConnection.str).bind fun
    | none => some hp
    | some p => (connectionTokens [] p).foldlM markHdr hp

/-- A slot is left out by a filter. -/
def filtered (how : FilterHow) (h : Option Txt × Bool) : Bool :=
  match h.1 with
  | none => true
  | some b => h.2 || suppressed how b

/-- `http_copyheader`. -/
def copyheader (to' : HttpMsg) (h : Option Txt) : HttpMsg :=
  if to'.nhd < to'.shd then { to' with hd := to'.hd ++ [h], hdf := to'.hdf.set to'.hd.length false } else to'

/-- `http_FilterFields`. -/
def filterFields (to' fm : HttpMsg) (how : FilterHow) : HttpMsg :=
  (fm.hd.zip fm.hdf).foldl (fun to' h => if filtered how h then to' else to'.copyheader h.1) { to' with hd := [] }

/-- The room of a field in `http_EstimateWS`. -/
def room (h : Option Txt) : Nat := prndup ((h.getD []).length + 1)

/-- What `http_EstimateWS` counts. -/
def estimated (fm : HttpMsg) (how : FilterHow) : List (Option Txt) :=
  (((fm.line.map fun h => (h, false)) ++ fm.hd.zip fm.hdf).filter fun h => !filtered how h).map Prod.fst

/-- `http_EstimateWS`: the bytes, and the slots as an `uint16_t`. -/
def estimateWS (fm : HttpMsg) (how : FilterHow) : Nat × Nat :=
  (((fm.estimated how).map room).sum, (5 + (fm.estimated how).length) % 2 ^ 16)

/-! ## Setting headers -/

/-- The loop of `http_CopyHome`, for fields that are all in foreign storage. -/
def copySlots : List (Option Txt) → Ws → Option (List (Option Txt) × Ws)
  | [], ws => some ([], ws)
  | none :: hs, ws => (copySlots hs ws).map fun x => (none :: x.1, x.2)
  | some b :: hs, ws =>
    (ws.alloc (b.length + 1)).bind fun r =>
    (copySlots hs r.2).map fun x => ((if r.1.isSome then some b else none) :: x.1, x.2)

/-- `http_CopyHome`. -/
def copyHome (hp : HttpMsg) : Option HttpMsg :=
  (copySlots hp.line hp.ws).bind fun l =>
  (copySlots hp.hd l.2).map fun h => { hp with line := l.1, hd := h.1, ws := h.2 }

/-- `http_Unset`. The flags behind the headers that stay are left as they were. -/
def unset (hp : HttpMsg) (hdr : HdrName) : HttpMsg :=
  let kept := (hp.hd.zip hp.hdf).filter fun h => h.1.any fun b => !isHdr hdr b
  { hp with hd := kept.map Prod.fst, hdf := kept.map Prod.snd ++ hp.hdf.drop kept.length }

/-- `http_SetHeader`. -/
def setHeader (hp : HttpMsg) (hdr : Txt) : HttpMsg :=
  if hp.shd ≤ hp.nhd then hp
  else { hp with hd := hp.hd ++ [some hdr], hdf := hp.hdf.set hp.hd.length false }

/-- `http_PrintfHeader`, with the header that is printed. -/
def printfHeader (hp : HttpMsg) (txt : Txt) : Option HttpMsg :=
  hp.ws.reserve.bind fun r =>
  if r.1 ≤ txt.length + 1 ∨ hp.shd ≤ hp.nhd then (r.2.release 0).map fun ws => { hp with ws := ws }
  else (r.2.release (txt.length + 1)).map fun ws => { hp.setHeader txt with ws := ws }

end HttpMsg

end VarnishCache
