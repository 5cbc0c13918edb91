import VarnishCache.Http

/-!
# Data for the hash of a request

`VRT_hashdata` of `bin/varnishd/cache_vrt.c` and `HSH_AddString` of `bin/varnishd/cache_hash.c`. `sha256ctx` has the
bytes that were given to `SHA256_Update` so far.
-/

namespace VarnishCache

abbrev chHash : UInt8 := 0x23

/-- The part of a worker that these functions write, with the `SLT_Hash` records of its log. -/
structure HashCtx where
  sha256ctx : List UInt8
  log : List (List UInt8)

/-- A call of `VRT_hashdata`, without `vrt_magic_string_end`; a string may be `NULL`. -/
structure HashCall where
  str : Option (List UInt8)
  ap : List (Option (List UInt8))

namespace HashCtx

/-- `SHA256_Init`. -/
def init : HashCtx := { sha256ctx := [], log := [] }

/-- `HSH_AddString`; `logHash` is the parameter `log_hash`. -/
def addString (logHash : Bool) (ctx : HashCtx) (str : Option (List UInt8)) : HashCtx :=
  let str := str.getD []
  { sha256ctx := ctx.sha256ctx ++ str ++ [chHash], log := if logHash then ctx.log ++ [str] else ctx.log }

def hashdata (logHash : Bool) (ctx : HashCtx) (call : HashCall) : HashCtx :=
  call.ap.foldl (addString logHash) (ctx.addString logHash call.str)

/-- `vcl_hash` of a request that makes these calls, up to `SHA256_Final`. -/
def vclHash (logHash : Bool) (calls : List HashCall) : HashCtx := calls.foldl (hashdata logHash) init

end HashCtx

/-- `sp->digest` at the end of `cnt_recv`. -/
def cntRecvDigest {δ : Type} (sha256 : List UInt8 → δ) (logHash : Bool) (calls : List HashCall) : δ :=
  sha256 (HashCtx.vclHash logHash calls).sha256ctx

/-- The strings of all calls, `NULL` being the empty string. -/
def hashStrings (calls : List HashCall) : List (List UInt8) :=
  calls.flatMap (fun call => (call.str :: call.ap).map (fun str => str.getD []))

end VarnishCache
