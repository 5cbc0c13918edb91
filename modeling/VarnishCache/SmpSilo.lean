import Mathlib.Data.List.Basic

/-!
# Segments of a persistent silo

`bin/varnishd/storage_persistent_silo.c`, and `smp_open_segs`, `smp_allocx` and the debug command of
`storage_persistent.c`. Places in the silo are numbers, relative to its base. A segment record is named by a number that
stands for its address. Aborting, `exit` and a `NULL` pointer are `none`: the run ends there.
-/

namespace VarnishCache

/-- `IRNDN` for the alignment `2 * sizeof(void*)`. -/
def irndn (x : Nat) : Nat := x / 16 * 16

/-- `IRNUP`. -/
def irnup (x : Nat) : Nat := (x + 15) / 16 * 16

/-- `SMP_SIGN_SPACE`, rounded up. -/
abbrev smpSignSpace : Nat := 64

/-- `sizeof(struct smp_object)`. -/
abbrev smpObjectSize : Nat := 56

/-- What does not change in a silo. The space begins on a page and the medium is a number of pages. -/
structure Silo where
  /-- `ident->stuff[SMP_SPC_STUFF]`. -/
  spc : Nat
  mediasize : Nat
  aimSegl : Nat
  freeReserve : Nat
  /-- `sizeof(struct storage)`, rounded up. -/
  storageSize : Nat
  spc_pos : 0 < spc
  spc_align : 16 ∣ spc
  mediasize_align : 16 ∣ mediasize
  storageSize_align : 16 ∣ storageSize
  aimSegl_ge : 128 ≤ aimSegl

structure SmpSegptr where
  offset : Nat
  length : Nat
  objlist : Nat
  lobjlist : Nat
  deriving DecidableEq

namespace SmpSegptr

/-- `smp_segend`. -/
def segend (p : SmpSegptr) : Nat := p.offset + p.length

end SmpSegptr

structure SmpSeg where
  id : Nat
  p : SmpSegptr
  nobj : Nat
  nalloc : Nat
  nfixed : Nat
  deriving DecidableEq

/-- The state of a silo, `struct smp_sc`, with the two segment tables on the medium. -/
structure SmpSc where
  segments : List SmpSeg
  curSeg : Option Nat
  nextBot : Nat
  nextTop : Nat
  freeOffset : Nat
  /-- The segment list that was written last. -/
  seg1 : List SmpSegptr
  /-- The one before it, which is still there while the first table is written. -/
  seg2 : List SmpSegptr
  nextId : Nat
  deriving DecidableEq

namespace SmpSc

variable (silo : Silo) (sc : SmpSc)

def find (id : Nat) : Option SmpSeg := sc.segments.find? (fun sg => sg.id = id)

def modify (id : Nat) (f : SmpSeg → SmpSeg) : List SmpSeg :=
  sc.segments.map (fun sg => if sg.id = id then f sg else sg)

/-- `smp_spaceleft`, with its assertions. -/
def spaceleft (p : SmpSegptr) : Option Nat :=
  if sc.nextBot % 16 = 0 ∧ sc.nextBot + smpSignSpace ≤ sc.nextTop ∧ p.offset ≤ sc.nextBot ∧ sc.nextTop < p.segend then
    some (sc.nextTop - sc.nextBot - smpSignSpace)
  else none

/-- The loop of `smp_save_segs`: empty segments are removed from the front of the list. -/
def trim (cur : Option Nat) : List SmpSeg → List SmpSeg
  | [] => []
  | sg :: segs =>
    if 0 < sg.nobj then sg :: segs
    else if some sg.id = cur then sg :: trim cur segs
    else trim cur segs

/-- `smp_save_segs`. -/
def saveSegs : Option SmpSc :=
  let segs := trim sc.curSeg sc.segments
  if segs.all (fun sg => sg.p.offset < silo.mediasize && sg.p.segend ≤ silo.mediasize) then
    some { sc with segments := segs, seg1 := segs.map (·.p), seg2 := sc.seg1 }
  else none

/-- `smp_new_seg`. -/
def newSeg : Option SmpSc :=
  let length := silo.aimSegl / 8 * 8
  if sc.freeOffset < silo.spc ∨ silo.mediasize ≤ sc.freeOffset then none
  else
    let first := sc.segments.head?
    -- where it goes, once it is known not to go behind the end of the medium
    let place : Option Nat :=
      if silo.mediasize < sc.freeOffset + length then
        match first with
        | none => none
        | some sg2 => if sg2.p.offset < silo.spc + length then none else some silo.spc
      else some sc.freeOffset
    match place with
    | none => none
    | some offset =>
      if silo.mediasize < offset + length then none
      else if (first.map (fun sg2 => offset < sg2.p.offset && sg2.p.offset < offset + length)).getD false then none
      else
        let p : SmpSegptr := { offset := irnup offset, length := irndn length, objlist := 0, lobjlist := 0 }
        some { sc with
          segments := sc.segments ++ [{ id := sc.nextId, p := p, nobj := 0, nalloc := 0, nfixed := 0 }],
          curSeg := some sc.nextId, nextBot := p.offset + smpSignSpace, nextTop := p.segend - smpSignSpace,
          freeOffset := p.segend, nextId := sc.nextId + 1 }

/-- `smp_close_seg` of the current segment. Its record is read again after `smp_save_segs`; if that has freed it,
`stale` is what is found there. -/
def closeSeg (stale : Nat) : Option SmpSc :=
  match sc.curSeg.bind sc.find with
  | none => none
  | some sg =>
    if sg.nalloc = 0 then
      some { sc with curSeg := none, segments := sc.segments.filter (fun s => s.id ≠ sg.id) }
    else
      match sc.spaceleft sg.p with
      | none => none
      | some left =>
        let len := smpObjectSize * sg.p.lobjlist
        let dst := sc.nextBot + smpSignSpace
        let (nextTop, length) :=
          if len < left then (dst, dst - sg.p.offset + len + smpSignSpace) else (sc.nextTop, sg.p.length)
        if nextTop < sc.nextBot + smpSignSpace then none
        else
          let p := { sg.p with length := length, objlist := nextTop }
          let closed := { sc with
            curSeg := none, nextTop := nextTop - smpSignSpace, segments := sc.modify sg.id (fun s => { s with p := p }) }
          match closed.saveSegs silo with
          | none => none
          | some saved =>
            some { saved with freeOffset := if (saved.find sg.id).isSome then p.segend else stale }

/-- Close the current segment and open a new one: the debug command `sync`, and a try of `smp_allocx`. -/
def sync (stale : Nat) : Option SmpSc := (sc.closeSeg silo stale).bind (newSeg silo)

/-- The `for` loop of `smp_allocx`, with so many tries to go: the state, and the space that was left when it was last
looked up. -/
def allocTries (need : Nat) (stale : Nat → Nat) : Nat → SmpSc → Nat → Option (SmpSc × Nat)
  | 0, sc, left => some (sc, left)
  | tries + 1, sc, _ =>
    match sc.curSeg.bind sc.find with
    | none => none
    | some sg =>
      match sc.spaceleft sg.p with
      | none => none
      | some left =>
        if need ≤ left then some (sc, left)
        else
          match sc.sync silo (stale tries) with
          | none => none
          | some sc => allocTries need stale tries sc left

/-- `smp_allocx`, with an object or without: the state, and the record of the segment, if there was space. -/
def allocx (minSize maxSize : Nat) (so : Bool) (stale : Nat → Nat) : Option (SmpSc × Option Nat) :=
  let extra := silo.storageSize + if so then smpObjectSize else 0
  match allocTries silo (extra + irnup minSize) stale 3 sc 0 with
  | none => none
  | some (sc, left) =>
    if left < extra + irnup minSize then some (sc, none)
    else
      let maxSize := if left < extra + irnup maxSize then irndn (left - extra) else irnup maxSize
      match sc.curSeg.bind sc.find with
      | none => none
      | some sg =>
        let p := if so then { sg.p with lobjlist := sg.p.lobjlist + 1 } else sg.p
        let sc' := { sc with
          nextBot := sc.nextBot + maxSize + silo.storageSize,
          nextTop := sc.nextTop - if so then smpObjectSize else 0,
          segments := sc.modify sg.id (fun s => { s with p := p, nalloc := s.nalloc + 1 }) }
        match sc'.spaceleft p with
        | none => none
        | some _ => some (sc', some sg.id)

/-- The end of `smp_allocobj`: the object counts. -/
def countObj (id : Nat) : Option SmpSc :=
  if (sc.find id).isSome then
    some { sc with segments := sc.modify id (fun sg => { sg with nobj := sg.nobj + 1, nfixed := sg.nfixed + 1 }) }
  else none

/-- `smp_oc_freeobj`. -/
def freeobj (id : Nat) : Option SmpSc :=
  match sc.find id with
  | none => none
  | some sg =>
    if sg.nobj = 0 ∨ sg.nfixed = 0 then none
    else some { sc with segments := sc.modify id (fun sg => { sg with nobj := sg.nobj - 1, nfixed := sg.nfixed - 1 }) }

/-- `smp_load_seg`, and later fixups: a segment is found to have `nobj` objects, `nfixed` of them fixed. -/
def loadSeg (id nobj nfixed : Nat) : Option SmpSc :=
  if (sc.find id).isSome then
    some { sc with segments := sc.modify id (fun sg => { sg with nobj := nobj, nfixed := nfixed }) }
  else none

end SmpSc

/-! ## Opening a silo -/

/-- Drop segments at the end of the medium, while they leave not more than the reserve behind `se`; `l` is the space
that was found last. -/
def dropEnd (reserve : Nat) (se : SmpSegptr) : Nat → List SmpSegptr → Nat × List SmpSegptr
  | l, [] => (l, [])
  | l, [ss] => (l, [ss])
  | l, ss :: s2 :: segs =>
    if se.offset < ss.offset then
      if reserve < ss.offset - se.segend then (ss.offset - se.segend, ss :: s2 :: segs)
      else dropEnd reserve se (ss.offset - se.segend) (s2 :: segs)
    else (l, ss :: s2 :: segs)

/-- Drop segments at the front of the medium. -/
def dropFront (reserve spc : Nat) : Nat → List SmpSegptr → Nat × List SmpSegptr
  | l, [] => (l, [])
  | l, [ss] => (l, [ss])
  | _, ss :: s2 :: segs =>
    if reserve < ss.offset - spc then (ss.offset - spc, ss :: s2 :: segs)
    else dropFront reserve spc (ss.offset - spc) (s2 :: segs)

/-- The assertion of `smp_open_segs` for two segments. -/
def apart (a b : SmpSegptr) : Bool :=
  a.offset ≠ b.offset && (if a.offset < b.offset then a.segend ≤ b.offset else b.segend ≤ a.offset)

/-- The loop that makes the records: each segment is compared with the first one and the one before it. -/
def checkSegs (sg1 : SmpSegptr) : SmpSegptr → List SmpSegptr → Bool
  | _, [] => true
  | sg2, sg :: segs => apart sg1 sg && apart sg2 sg && checkSegs sg1 sg segs

/-- `smp_open_segs` on a table: the segments that are kept and `free_offset`. -/
def smpOpenSegs (silo : Silo) (table : List SmpSegptr) : Option (List SmpSegptr × Nat) :=
  match table, table.getLast? with
  | ss :: _, some se =>
    let l := silo.mediasize - se.segend
    let (l, segs) :=
      if ss.offset < se.offset ∧ silo.freeReserve ≤ l then (l, table)
      else if se.offset < ss.offset then dropEnd silo.freeReserve se l table
      else (l, table)
    let (l, segs, freeOffset) :=
      if l < silo.freeReserve then
        let (l, segs) := dropFront silo.freeReserve silo.spc l segs
        (l, segs, silo.spc)
      else (l, segs, se.segend)
    if l < silo.freeReserve then none
    else
      match segs with
      | [] => none
      | sg1 :: segs => if checkSegs sg1 sg1 segs then some (sg1 :: segs, freeOffset) else none
  | _, _ => some ([], silo.spc)

/-- The records of a list of segments. Each holds a bogus object until it is loaded. -/
def openRecords (table : List SmpSegptr) : List SmpSeg :=
  table.zipIdx.map (fun q => { id := q.2, p := q.1, nobj := 1, nalloc := 0, nfixed := 0 })

namespace SmpSc

/-- The state after `smp_open_segs`. -/
def opened (segs : List SmpSegptr) (freeOffset : Nat) (seg1 seg2 : List SmpSegptr) : SmpSc :=
  { segments := openRecords segs, curSeg := none, nextBot := 0, nextTop := 0, freeOffset := freeOffset, seg1 := seg1,
    seg2 := seg2, nextId := segs.length }

/-- `smp_open` up to `smp_new_seg`. -/
def openSilo (silo : Silo) (table seg1 seg2 : List SmpSegptr) : Option SmpSc :=
  (smpOpenSegs silo table).map (fun r => opened r.1 r.2 seg1 seg2)

end SmpSc

/-- What happens to a silo. -/
inductive SmpOp where
  | alloc (minSize maxSize : Nat) (so : Bool) (stale : Nat → Nat)
  | sync (stale : Nat)
  | countObj (id : Nat)
  | freeobj (id : Nat)
  | loadSeg (id nobj nfixed : Nat)
  | saveSegs
  /-- The process ends, anywhere, and the silo is opened again from one of its tables. -/
  | reopen (second : Bool)

/-- An operation, or one that ends where it calls `smp_new_seg`, after `n` other such calls: the process exits there
or is stopped, and the silo is opened again. `smp_close` ends where a sync calls `smp_new_seg`. -/
inductive SiloEvent where
  | op (o : SmpOp)
  | stop (o : SmpOp) (n : Nat) (second : Bool)

namespace SmpSc

variable (silo : Silo) (sc : SmpSc)

/-- The table that is read. -/
def table (second : Bool) : List SmpSegptr := if second then sc.seg2 else sc.seg1

def op : SmpOp → Option SmpSc
  | .alloc minSize maxSize so stale =>
    if minSize ≤ maxSize then (sc.allocx silo minSize maxSize so stale).map (·.1) else none
  | .sync stale => sc.sync silo stale
  | .countObj id => sc.countObj id
  | .freeobj id => sc.freeobj id
  | .loadSeg id nobj nfixed => sc.loadSeg id nobj nfixed
  | .saveSegs => sc.saveSegs silo
  | .reopen second => (openSilo silo (sc.table second) sc.seg1 sc.seg2).bind (newSeg silo)

/-- A silo that has just been made and is opened. -/
def fresh : Option SmpSc := (openSilo silo [] [] []).bind (newSeg silo)

/-- The states in which the tries of `smp_allocx` call `smp_new_seg`. -/
def triesNewSegs (need : Nat) (stale : Nat → Nat) : Nat → SmpSc → List SmpSc
  | 0, _ => []
  | tries + 1, sc =>
    match (sc.curSeg.bind sc.find).bind (fun sg => sc.spaceleft sg.p) with
    | none => []
    | some left =>
      if need ≤ left then []
      else
        match sc.closeSeg silo (stale tries) with
        | none => []
        | some closed => closed :: ((closed.newSeg silo).map (triesNewSegs need stale tries)).getD []

/-- The states in which an operation calls `smp_new_seg`. -/
def newSegs : SmpOp → List SmpSc
  | .alloc minSize _ so stale =>
    triesNewSegs silo (silo.storageSize + (if so then smpObjectSize else 0) + irnup minSize) stale 3 sc
  | .sync stale => (sc.closeSeg silo stale).toList
  | .reopen second => (openSilo silo (sc.table second) sc.seg1 sc.seg2).toList
  | _ => []

/-- The operation that is done, and the state before it. -/
def before : SiloEvent → Option (SmpSc × SmpOp)
  | .op o => some (sc, o)
  | .stop o n second => (sc.newSegs silo o)[n]?.map (fun s => (s, .reopen second))

def event (e : SiloEvent) : Option SmpSc := (sc.before silo e).bind (fun r => r.1.op silo r.2)

def run : SmpSc → List SiloEvent → Option SmpSc
  | sc, [] => some sc
  | sc, e :: es => (sc.event silo e).bind (fun sc => run sc es)

/-- The states in which an operation that stops has called `smp_new_seg` before. -/
def passed : SiloEvent → List SmpSc
  | .op _ => []
  | .stop o n _ => (sc.newSegs silo o).take n

/-- All space up to the first segment is used: `free_offset` is where it begins. -/
def Full : Prop := sc.segments.head?.map (·.p.offset) = some sc.freeOffset

instance : Decidable sc.Full := inferInstanceAs (Decidable (_ = _))

/-- Every segment is inside the silo, and no two of them overlap. -/
def SegsApart : Prop :=
  (∀ sg ∈ sc.segments, silo.spc ≤ sg.p.offset ∧ sg.p.segend ≤ silo.mediasize) ∧
    sc.segments.Pairwise (fun a b => a.p.segend ≤ b.p.offset ∨ b.p.segend ≤ a.p.offset)

instance : Decidable (sc.SegsApart silo) := inferInstanceAs (Decidable (_ ∧ _))

end SmpSc

end VarnishCache
