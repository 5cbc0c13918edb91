import Mathlib.Data.Nat.Bitwise
import Mathlib.Logic.Function.Basic
import Mathlib.Tactic

/-!
# The file stevedore

Model of `bin/varnishd/storage_file.c`. The `order` list holds the `struct smf` records themselves,
each with its address; the free buckets and the `used` list hold addresses. A failed assertion is
`none`. `malloc` returns an address that no record has.
-/

namespace VarnishCache

def nbucket : Nat := 128 / 4 + 1
def minpages : Nat := 128

structure Smf where
  addr : Nat
  size : Nat
  offset : Nat
  ptr : Nat
  alloc : Bool
  flist : Option Nat
  space : Nat
  deriving DecidableEq

structure SmfStats where
  gSmf : Int
  gSmfFrag : Int
  gSmfLarge : Int
  gAlloc : Int
  gBytes : Int
  gSpace : Int
  cReq : Int
  cFail : Int
  cBytes : Int
  cFreed : Int

structure SmfSc where
  pagesize : Nat
  filesize : Nat
  order : List Smf
  free : Nat → List Nat
  used : List Nat
  stats : SmfStats

/-- A range that `mmap` has mapped. -/
structure MapRange where
  ptr : Nat
  offset : Nat
  size : Nat

/-- A list cut at the record with the given address. -/
def locate (addr : Nat) : List Smf → Option (List Smf × Smf × List Smf)
  | [] => none
  | c :: l =>
    if c.addr = addr then some ([], c, l)
    else (locate addr l).map (fun r => (c :: r.1, r.2.1, r.2.2))

namespace SmfSc

def smf (sc : SmfSc) (a : Nat) : Option Smf := (locate a sc.order).map (fun r => r.2.1)

/-- The record at address `a` becomes `f` of it. -/
def modify (sc : SmfSc) (a : Nat) (f : Smf → Smf) : SmfSc :=
  match locate a sc.order with
  | some (pre, c, post) => { sc with order := pre ++ f c :: post }
  | none => sc

/-- The bucket for a number of bytes. -/
def bucket (sc : SmfSc) (size : Nat) : Nat := min (size / sc.pagesize) (nbucket - 1)

/-- The counter that goes with the bucket of a chunk. -/
def countFree (sc : SmfSc) (size : Nat) (d : Int) : SmfStats :=
  if nbucket ≤ size / sc.pagesize then { sc.stats with gSmfLarge := sc.stats.gSmfLarge + d }
  else { sc.stats with gSmfFrag := sc.stats.gSmfFrag + d }

/-- The walk of `insfree` along bucket `b` to the first chunk behind `sp`. -/
def insertFree (sc : SmfSc) (sp : Smf) (b : Nat) : List Nat → Option (List Nat)
  | [] => some [sp.addr]
  | a :: l => do
    let sp2 ← sc.smf a
    if ¬ b * sc.pagesize ≤ sp2.size then none
    else if sp2.alloc then none
    else if sp2.flist ≠ some b then none
    else if sp.offset < sp2.offset then some (sp.addr :: a :: l)
    else (sc.insertFree sp b l).map (a :: ·)

def insfree (sc : SmfSc) (a : Nat) : Option SmfSc := do
  let sp ← sc.smf a
  if sp.alloc then none
  else if sp.flist.isSome then none
  else
    let b := sc.bucket sp.size
    let l ← sc.insertFree sp b (sc.free b)
    let sc1 := sc.modify a (fun c => { c with flist := some b })
    some { sc1 with free := Function.update sc.free b l, stats := sc.countFree sp.size 1 }

def remfree (sc : SmfSc) (a : Nat) : Option SmfSc := do
  let sp ← sc.smf a
  if sp.alloc then none
  else if sp.flist = none then none
  else
    let b := sc.bucket sp.size
    if sp.flist ≠ some b then none
    else
      let sc1 := sc.modify a (fun c => { c with flist := none })
      some { sc1 with
        free := Function.update sc.free b ((sc.free b).erase a)
        stats := sc.countFree sp.size (-1) }

/-- The first chunk of the buckets from `b` up to the last but one. -/
def firstFree (sc : SmfSc) : Nat → Nat → Option Nat
  | 0, _ => none
  | n + 1, b =>
    match (sc.free b).head? with
    | some a => some a
    | none => sc.firstFree n (b + 1)

/-- The first chunk of the last bucket that is large enough. -/
def firstLarge (sc : SmfSc) (bytes : Nat) : List Nat → Option (Option Nat)
  | [] => some none
  | a :: l => do
    let sp ← sc.smf a
    if bytes ≤ sp.size then some (some a) else sc.firstLarge bytes l

def pickFree (sc : SmfSc) (bytes : Nat) : Option (Option Nat) :=
  let b := sc.bucket bytes
  match sc.firstFree (nbucket - 1 - b) b with
  | some a => some (some a)
  | none => sc.firstLarge bytes (sc.free (nbucket - 1))

/-- An address for a new record. -/
def fresh (sc : SmfSc) : Nat := (sc.order.map Smf.addr).foldr max 0 + 1

/-- The split of `alloc_smf`: the front of the chunk at `a` becomes a chunk of its own. -/
def splitFront (sc : SmfSc) (a bytes : Nat) : Option (SmfSc × Nat) := do
  let (pre, sp, post) ← locate a sc.order
  let sp2 := { sp with addr := sc.fresh, size := bytes, alloc := true }
  let sp := { sp with offset := sp.offset + bytes, ptr := sp.ptr + bytes, size := sp.size - bytes }
  some ({ sc with
    order := pre ++ sp2 :: sp :: post
    used := sc.used ++ [sc.fresh]
    stats := { sc.stats with gSmf := sc.stats.gSmf + 1 } }, sc.fresh)

/-- `alloc_smf`; the result is the address of the chunk, `NULL` being `none`. -/
def allocSmf (sc : SmfSc) (bytes : Nat) : Option (SmfSc × Option Nat) :=
  if bytes % sc.pagesize ≠ 0 then none
  else do
    match ← sc.pickFree bytes with
    | none => some (sc, none)
    | some a =>
      let sp ← sc.smf a
      if sp.size < bytes then none
      else
        let sc ← sc.remfree a
        if sp.size = bytes then
          let sc := sc.modify a (fun c => { c with alloc := true })
          some ({ sc with used := sc.used ++ [a] }, some a)
        else
          let (sc, new) ← sc.splitFront a bytes
          let sc ← sc.insfree a
          some (sc, some new)

/-- The chunks are neighbours in memory and in the file. -/
def contiguous (c d : Smf) : Prop := d.ptr = c.ptr + c.size ∧ d.offset = c.offset + c.size

instance (c d : Smf) : Decidable (contiguous c d) := inferInstanceAs (Decidable (_ ∧ _))

/-- `free_smf` takes in the next chunk when that is free and contiguous. -/
def mergeNext (sc : SmfSc) (a : Nat) : Option SmfSc := do
  let (pre, sp, post) ← locate a sc.order
  match post with
  | [] => some sc
  | sp2 :: _ =>
    if sp2.alloc = false ∧ contiguous sp sp2 then
      let sc ← sc.remfree sp2.addr
      some { sc with
        order := pre ++ { sp with size := sp.size + sp2.size } :: post.tail
        stats := { sc.stats with gSmf := sc.stats.gSmf - 1 } }
    else some sc

/-- `free_smf` lets the previous chunk take in this one when that is free and contiguous. The result
holds the address of the chunk that is left. -/
def mergePrev (sc : SmfSc) (a : Nat) : Option (SmfSc × Nat) := do
  let (pre, sp, post) ← locate a sc.order
  match pre.getLast? with
  | none => some (sc, a)
  | some sp2 =>
    if sp2.alloc = false ∧ contiguous sp2 sp then
      let sc ← sc.remfree sp2.addr
      some ({ sc with
        order := pre.dropLast ++ { sp2 with flist := none, size := sp2.size + sp.size } :: post
        stats := { sc.stats with gSmf := sc.stats.gSmf - 1 } }, sp2.addr)
    else some (sc, a)

def freeSmf (sc : SmfSc) (a : Nat) : Option SmfSc := do
  let sp ← sc.smf a
  if sp.alloc = false then none
  else if sp.size = 0 then none
  else if sp.size % sc.pagesize ≠ 0 then none
  else
    let sc := sc.modify a (fun c => { c with alloc := false })
    let sc := { sc with used := sc.used.erase a }
    let sc ← sc.mergeNext a
    let (sc, a) ← sc.mergePrev a
    sc.insfree a

def trimSmf (sc : SmfSc) (a bytes : Nat) : Option SmfSc := do
  let (pre, sp, post) ← locate a sc.order
  if sp.alloc = false then none
  else if bytes = 0 then none
  else if sp.size ≤ bytes then none
  else if bytes % sc.pagesize ≠ 0 then none
  else if sp.size % sc.pagesize ≠ 0 then none
  else
    let new := sc.fresh
    let sp2 := { sp with addr := new, size := sp.size - bytes, ptr := sp.ptr + bytes, offset := sp.offset + bytes }
    let sc := { sc with
      order := pre ++ { sp with size := bytes } :: sp2 :: post
      used := sc.used ++ [new]
      stats := { sc.stats with gSmf := sc.stats.gSmf + 1 } }
    sc.freeSmf new

/-- The place of a new chunk on the `order` list. -/
def insertOrder (sp : Smf) : List Smf → List Smf
  | [] => [sp]
  | sp2 :: l => if sp.ptr < sp2.ptr then sp :: sp2 :: l else sp2 :: insertOrder sp l

def newSmf (sc : SmfSc) (ptr off len : Nat) : Option SmfSc :=
  if len % sc.pagesize ≠ 0 then none
  else
    let new := sc.fresh
    let sp : Smf := { addr := new, size := len, offset := off, ptr := ptr, alloc := true, flist := none, space := 0 }
    let sc := { sc with
      order := insertOrder sp sc.order
      used := new :: sc.used
      stats := { sc.stats with gSmf := sc.stats.gSmf + 1 } }
    sc.freeSmf new

end SmfSc

/-- What `smf_open_chunk` works on: the stevedore, the ranges mapped so far, `*fail` and `*sum`. -/
structure SmfOpen where
  sc : SmfSc
  maps : List MapRange
  fail : Nat
  sum : Nat

def ssizeMax : Nat := 2 ^ 63 - 1

namespace SmfOpen

/-- A successful `mmap` in `smf_open_chunk`. -/
def mapped (s : SmfOpen) (p sz off : Nat) : Option SmfOpen := do
  let sc ← s.sc.newSmf p off sz
  some { s with sc := sc, maps := s.maps ++ [{ ptr := p, offset := off, size := sz }], sum := s.sum + sz }

/-- `smf_open_chunk`; the size shrinks with every call, so it bounds the depth. What `mmap` does may
depend on what is mapped already. -/
def openChunk (mmap : List MapRange → Nat → Nat → Option Nat) : Nat → SmfOpen → Nat → Nat → Option SmfOpen
  | 0, _, _, _ => none
  | fuel + 1, s, sz, off =>
    if sz = 0 then none
    else if sz % s.sc.pagesize ≠ 0 then none
    else if s.fail < s.sc.pagesize * minpages then some s
    else
      match if sz < s.fail ∧ sz < ssizeMax then mmap s.maps sz off else none with
      | some p => s.mapped p sz off
      | none => do
        let s := { s with fail := min sz s.fail }
        let h := min (sz / 2) ssizeMax
        let h := h - h % s.sc.pagesize
        let s ← openChunk mmap fuel s h off
        openChunk mmap fuel s (sz - h) (off + h)

end SmfOpen

namespace SmfSc

/-- The stevedore after `smf_init`. -/
def init (pagesize filesize : Nat) : SmfSc :=
  { pagesize := pagesize, filesize := filesize, order := [], free := fun _ => [], used := []
    stats := { gSmf := 0, gSmfFrag := 0, gSmfLarge := 0, gAlloc := 0, gBytes := 0, gSpace := 0
               cReq := 0, cFail := 0, cBytes := 0, cFreed := 0 } }

/-- `smf_open`, with the ranges it mapped. When these are too small it exits, which is not an error here. -/
def smfOpen (mmap : List MapRange → Nat → Nat → Option Nat) (sc : SmfSc) : Option (SmfSc × List MapRange) := do
  let s ← SmfOpen.openChunk mmap (sc.filesize + 1) { sc := sc, maps := [], fail := 1 <<< 30, sum := 0 }
    sc.filesize 0
  some ({ s.sc with stats := { s.sc.stats with gSpace := s.sc.stats.gSpace + sc.filesize } }, s.maps)

/-- `size += (sc->pagesize - 1); size &= ~(sc->pagesize - 1)`: `size` has 64 bits and `pagesize` 32. -/
def roundUp (sc : SmfSc) (size : Nat) : Nat :=
  (size + (sc.pagesize - 1)) % 2 ^ 64 &&& (2 ^ 32 - 1 - (sc.pagesize - 1))

def smfAlloc (sc : SmfSc) (size : Nat) : Option (SmfSc × Option Nat) := do
  if size = 0 then none
  else
    let size := sc.roundUp size
    let sc := { sc with stats := { sc.stats with cReq := sc.stats.cReq + 1 } }
    let (sc, r) ← sc.allocSmf size
    match r with
    | none => some ({ sc with stats := { sc.stats with cFail := sc.stats.cFail + 1 } }, none)
    | some a =>
      let smf ← sc.smf a
      if smf.size ≠ size then none
      else
        let sc := { sc with stats := { sc.stats with
          gAlloc := sc.stats.gAlloc + 1
          cBytes := sc.stats.cBytes + smf.size
          gBytes := sc.stats.gBytes + smf.size
          gSpace := sc.stats.gSpace - smf.size } }
        some (sc.modify a (fun c => { c with space := size }), some a)

def smfTrim (sc : SmfSc) (a size : Nat) : Option SmfSc := do
  let smf ← sc.smf a
  if size = 0 then none
  else if smf.space < size then none
  else if smf.size < size then none
  else
    let size := sc.roundUp size
    if size < smf.size then
      let d : Int := smf.size - size
      let sc := { sc with stats := { sc.stats with
        cFreed := sc.stats.cFreed + d
        gBytes := sc.stats.gBytes - d
        gSpace := sc.stats.gSpace + d } }
      let sc ← sc.trimSmf a size
      let smf ← sc.smf a
      if smf.size ≠ size then none
      else some (sc.modify a (fun c => { c with space := size }))
    else some sc

def smfFree (sc : SmfSc) (a : Nat) : Option SmfSc := do
  let smf ← sc.smf a
  let sc := { sc with stats := { sc.stats with
    gAlloc := sc.stats.gAlloc - 1
    cFreed := sc.stats.cFreed + smf.size
    gBytes := sc.stats.gBytes - smf.size
    gSpace := sc.stats.gSpace + smf.size } }
  sc.freeSmf a

end SmfSc

/-- The calls on an open stevedore. -/
inductive SmfOp where
  | alloc (size : Nat)
  | trim (a size : Nat)
  | free (a : Nat)

namespace SmfSc

def exec (sc : SmfSc) : SmfOp → Option SmfSc
  | .alloc size => (sc.smfAlloc size).map Prod.fst
  | .trim a size => sc.smfTrim a size
  | .free a => sc.smfFree a

/-- What the callers see to: storage is trimmed and freed while it is allocated, and trimmed to what it has. -/
def Admits (sc : SmfSc) : SmfOp → Prop
  | .alloc size => 0 < size ∧ size < 2 ^ 64
  | .trim a size => 0 < size ∧ ∃ c ∈ sc.order, c.addr = a ∧ c.alloc = true ∧ size ≤ c.space
  | .free a => ∃ c ∈ sc.order, c.addr = a ∧ c.alloc = true

instance (sc : SmfSc) : (op : SmfOp) → Decidable (sc.Admits op)
  | .alloc size => inferInstanceAs (Decidable (0 < size ∧ size < 2 ^ 64))
  | .trim a size =>
    inferInstanceAs (Decidable (0 < size ∧ ∃ c ∈ sc.order, c.addr = a ∧ c.alloc = true ∧ size ≤ c.space))
  | .free a => inferInstanceAs (Decidable (∃ c ∈ sc.order, c.addr = a ∧ c.alloc = true))

end SmfSc

/-- The states of a stevedore, with the ranges it has mapped, after runs whose calls all meet `P`. -/
inductive SmfReach (mmap : List MapRange → Nat → Nat → Option Nat) (pagesize filesize : Nat)
    (P : SmfSc → SmfOp → Prop) : SmfSc → List MapRange → Prop
  | opened {sc maps} (h : SmfSc.smfOpen mmap (SmfSc.init pagesize filesize) = some (sc, maps)) :
      SmfReach mmap pagesize filesize P sc maps
  | call {sc sc' maps op} (h : SmfReach mmap pagesize filesize P sc maps) (hop : sc.Admits op) (hP : P sc op)
      (hexec : sc.exec op = some sc') : SmfReach mmap pagesize filesize P sc' maps

end VarnishCache
