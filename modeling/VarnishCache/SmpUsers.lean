import VarnishCache.SmpSilo

/-!
# Users of the segments of a persistent silo

`smp_allocobj` and `smp_alloc` of `bin/varnishd/storage_persistent.c` and the objcore methods of
`storage_persistent_silo.c`, one critical section of `sc->mtx` at a time. `smp_allocobj` has two of them: between them
its thread only remembers the segment that `smp_allocx` gave it.
-/

namespace VarnishCache

/-- A live object: the segment its objcore points at, and those its body is stored in. -/
structure SmpLive where
  priv : Nat
  store : List Nat
  deriving DecidableEq

structure SmpUsers where
  sc : SmpSc
  /-- The segments of the calls of `smp_allocobj` that are between their critical sections. -/
  pending : List Nat
  live : List SmpLive

/-- A critical section. -/
inductive SmpSection where
  /-- `smp_allocx` for `smp_allocobj`. -/
  | allocobj (ltot : Nat) (stale : Nat → Nat)
  /-- The rest of that `smp_allocobj`. -/
  | countObj (i : Nat)
  /-- `smp_alloc` for the body of a live object. -/
  | alloc (i size : Nat) (stale : Nat → Nat)
  /-- The fixup in `smp_oc_getobj`. -/
  | getobj (i : Nat)
  | freeobj (i : Nat)
  /-- The debug command. -/
  | sync (stale : Nat)
  /-- `smp_close`. -/
  | close (stale : Nat)
  /-- The silo thread. -/
  | saveSegs

namespace SmpSc

variable (silo : Silo) (sc : SmpSc)

/-- An object that was loaded is fixed. -/
def fixObj (id : Nat) : Option SmpSc :=
  if (sc.find id).isSome then some { sc with segments := sc.modify id (fun sg => { sg with nfixed := sg.nfixed + 1 }) }
  else none

/-- `smp_load_seg` for the segments of a table: `found` has the number of objects in each, or `none` where the signature
is bad and the bogus object stays. -/
def loadSegs (found : Nat → Option Nat) : SmpSc :=
  { sc with segments := sc.segments.map (fun (sg : SmpSeg) => { sg with nobj := (found sg.id).getD sg.nobj }) }

/-- The segments that `smp_save_segs` finds empty at the front of the list. -/
def front : List SmpSeg := sc.segments.takeWhile (fun sg => sg.nobj = 0)

/-- The states in which the tries of `smp_allocx` call `smp_close_seg`. -/
def triesCloses (need : Nat) (stale : Nat → Nat) : Nat → SmpSc → List SmpSc
  | 0, _ => []
  | tries + 1, sc =>
    match (sc.curSeg.bind sc.find).bind (fun sg => sc.spaceleft sg.p) with
    | none => []
    | some left =>
      if need ≤ left then []
      else sc :: ((sc.sync silo (stale tries)).map (triesCloses need stale tries)).getD []

def allocxCloses (minSize : Nat) (so : Bool) (stale : Nat → Nat) : List SmpSc :=
  triesCloses silo (silo.storageSize + (if so then smpObjectSize else 0) + irnup minSize) stale 3 sc

end SmpSc

namespace SmpUsers

variable (silo : Silo) (sys : SmpUsers)

/-- The objects of the segments of a table: `found` has, for each object of a segment, the segments its body is
stored in. -/
def loaded (sc : SmpSc) (found : Nat → Option (List (List Nat))) : List SmpLive :=
  sc.segments.flatMap (fun (sg : SmpSeg) => ((found sg.id).getD []).map (fun body => { priv := sg.id, store := body }))

/-- Bodies are in segments of the table, and not in front of their objects. -/
def bodiesBehind (sc : SmpSc) (found : Nat → Option (List (List Nat))) : Bool :=
  (loaded sc found).all (fun o => o.store.all (fun id => o.priv ≤ id && (sc.segments.map (·.id)).contains id))

/-- The silo was opened from a table and the silo thread has loaded its segments. -/
def start (table seg1 seg2 : List SmpSegptr) (found : Nat → Option (List (List Nat))) : Option SmpUsers :=
  match SmpSc.openSilo silo table seg1 seg2 with
  | none => none
  | some sc =>
    if bodiesBehind sc found then
      ((sc.loadSegs (fun id => (found id).map List.length)).newSeg silo).map (fun sc' =>
        { sc := sc', pending := [], live := loaded sc found })
    else none

def step : SmpSection → Option SmpUsers
  | .allocobj ltot stale =>
    (sys.sc.allocx silo (irnup ltot) (irnup ltot) true stale).map (fun r =>
      { sys with sc := r.1, pending := sys.pending ++ r.2.toList })
  | .countObj i =>
    match sys.pending[i]? with
    | none => none
    | some id =>
      (sys.sc.countObj id).map (fun sc =>
        { sc := sc, pending := sys.pending.eraseIdx i, live := sys.live ++ [{ priv := id, store := [] }] })
  | .alloc i size stale =>
    match sys.live[i]? with
    | none => none
    | some o =>
      (sys.sc.allocx silo (min size 4096) size false stale).map (fun r =>
        { sys with sc := r.1, live := sys.live.set i { o with store := o.store ++ r.2.toList } })
  | .getobj i =>
    match sys.live[i]? with
    | none => none
    | some o => (sys.sc.fixObj o.priv).map (fun sc => { sys with sc := sc })
  | .freeobj i =>
    match sys.live[i]? with
    | none => none
    | some o => (sys.sc.freeobj o.priv).map (fun sc => { sys with sc := sc, live := sys.live.eraseIdx i })
  | .sync stale => (sys.sc.sync silo stale).map (fun sc => { sys with sc := sc })
  | .close stale => (sys.sc.closeSeg silo stale).map (fun sc => { sys with sc := sc })
  | .saveSegs => (sys.sc.saveSegs silo).map (fun sc => { sys with sc := sc })

/-- The states in which a critical section calls `smp_close_seg`. -/
def closes : SmpSection → List SmpSc
  | .allocobj ltot stale => sys.sc.allocxCloses silo (irnup ltot) true stale
  | .alloc _ size stale => sys.sc.allocxCloses silo (min size 4096) false stale
  | .sync _ => [sys.sc]
  | .close _ => [sys.sc]
  | _ => []

/-- The segments that objcores, bodies of live objects and unfinished calls of `smp_allocobj` point at. -/
def users : List Nat := sys.pending ++ sys.live.flatMap (fun o => o.priv :: o.store)

/-- Nobody points at a segment that is gone. -/
def Held : Prop := ∀ id ∈ sys.users, id ∈ sys.sc.segments.map (·.id)

instance : Decidable sys.Held := inferInstanceAs (Decidable (∀ id ∈ sys.users, id ∈ sys.sc.segments.map (·.id)))

/-- When `smp_close_seg` returns in a state of this critical section, nobody points at a segment that is gone, and the
segment that was closed was not, unless nothing had been allocated from it. -/
def CloseHeld (sc : SmpSc) : Prop :=
  ∀ stale closed, sc.closeSeg silo stale = some closed →
    { sys with sc := closed }.Held ∧
      ∀ sg, sc.curSeg.bind sc.find = some sg → 0 < sg.nalloc → sg.id ∈ closed.segments.map (·.id)

/-- In all states of a run, and at the end of every `smp_close_seg` in it, the users' segments are there. -/
def HeldThrough : SmpUsers → List SmpSection → Prop
  | sys, [] => sys.Held
  | sys, s :: run =>
    sys.Held ∧ (∀ sc ∈ sys.closes silo s, sys.CloseHeld silo sc) ∧
      ∀ sys', sys.step silo s = some sys' → HeldThrough sys' run

/-- A segment that is closed after it was used, and those of unfinished calls of `smp_allocobj`, are not in the front
that `smp_save_segs` drops. -/
def CloseSafe (sc : SmpSc) : Prop :=
  ∀ sg, sc.curSeg.bind sc.find = some sg → 0 < sg.nalloc → ∀ s ∈ sc.front, s.id ≠ sg.id ∧ s.id ∉ sys.pending

/-- The same for the silo thread, which does not drop the current segment. -/
def SaveSafe : Prop := ∀ s ∈ sys.sc.front, s.id ∈ sys.pending → sys.sc.curSeg = some s.id

/-- The condition on a critical section. -/
def Safe (s : SmpSection) : Prop :=
  (∀ sc ∈ sys.closes silo s, sys.CloseSafe sc) ∧ match s with
    | .saveSegs => sys.SaveSafe
    | _ => True

/-- The condition on a run. -/
def SafeThrough : SmpUsers → List SmpSection → Prop
  | _, [] => True
  | sys, s :: run => sys.Safe silo s ∧ ∀ sys', sys.step silo s = some sys' → SafeThrough sys' run

end SmpUsers

end VarnishCache
