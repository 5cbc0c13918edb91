import VarnishCache.HttpHdr

/-!
# The space for the headers of an object

How `cnt_fetchbody` of `bin/varnishd/cache_center.c` sizes an object, with what `STV_NewObject` and `STV_MkObject`
of `stevedore.c` make of the sizes, and how the headers get into it. The last of them is the `Content-Length` that
`FetchBody` of `cache_fetch.c` prints. A failed assertion, and a write outside of the slots, is `none`. The bytes of
a response are in one workspace, and their sum does not wrap; the number of slots is an `uint16_t`, and can.
-/

namespace VarnishCache

/-- A number as `%jd` prints it. -/
def decimal (n : Nat) : Txt := (Nat.toDigits 10 n).map fun c => c.toNat.toUInt8

def hContentLength : HdrName := ⟨bytes "Content-Length", by decide, by decide, by decide⟩

/-- `strlen("Content-Length: XxxXxxXxxXxxXxxXxx") + sizeof(void *)`. -/
def contentLengthRoom : Nat := 34 + 8

lemma prndup_pos (wsl : Nat) (h : 0 < wsl) : 0 < prndup wsl := Nat.lt_of_lt_of_le h (le_prndup wsl)

lemma empty_mod : 0 % 8 = 0 := rfl

lemma empty_le (wsl : Nat) : 0 ≤ prndup wsl := Nat.zero_le _

lemma unreserved (wsl : Nat) : ∀ p ∈ (none : Option Nat), p % 8 = 0 ∧ 0 ≤ p ∧ p ≤ prndup wsl := fun p hp =>
  absurd hp (Option.not_mem_none p)

/-- The workspace of a new object, of `wsl` bytes. -/
def objectWs (wsl : Nat) (h : 0 < wsl) : Ws where
  e := prndup wsl
  f := 0
  r := none
  pos := prndup_pos wsl h
  e_ok := prndup_mod wsl
  f_ok := empty_mod
  le := empty_le wsl
  r_ok := unreserved wsl

/-- `STV_NewObject`, as far as the headers go. -/
def stvNewHttp (wsl nhttp : Nat) : Option HttpMsg :=
  if h : 0 < wsl then
    if nhttp < 5 then none
    else
      some
        { ws := objectWs wsl h, shd := nhttp, line := List.replicate 5 none, hd := [],
          hdf := List.replicate (nhttp - 5) false }
  else none

namespace HttpMsg

/-- `http_CopyResp`. -/
def copyResp (to' fm : HttpMsg) : Option HttpMsg :=
  match fm.line with
  | [_, _, _, _, some response] => some { to' with line := [none, none, some (bytes "HTTP/1.1"), none, some response] }
  | _ => none

/-- `cnt_fetchbody`: the headers of a new object, for a response and a `Vary` string, which may be empty. -/
def fetchbodyHttp (beresp : HttpMsg) (how : FilterHow) (vary : Txt) : Option HttpMsg :=
  let (l, nhttp) := beresp.estimateWS how
  (stvNewHttp (l + vary.length + contentLengthRoom) nhttp).bind fun obj =>
  (if vary = [] then some obj
    else (obj.ws.alloc vary.length).bind fun (p, ws) => if p.isSome then some { obj with ws := ws } else none).bind
      fun obj =>
  (obj.copyResp beresp).bind fun obj =>
  (obj.filterFields beresp how).copyHome

/-- The end of `FetchBody`, for `mklen`. -/
def fetchContentLength (obj : HttpMsg) (len : Nat) : Option HttpMsg :=
  (obj.unset hContentLength).printfHeader (bytes "Content-Length: " ++ decimal len)

end HttpMsg

end VarnishCache
