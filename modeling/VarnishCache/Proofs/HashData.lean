import VarnishCache.HashData
import VarnishCache.Lib.Separated

/-!
# Which requests have the same hash

The bytes that are hashed are the strings of all calls, each with a `#` at its end, so they tell two requests apart up
to the places where a string has a `#` itself.
-/

namespace VarnishCache.Proofs

open VarnishCache Separated

variable {logHash : Bool}

lemma addString_sha256ctx (ctx : HashCtx) (str : Option (List UInt8)) :
    (ctx.addString logHash str).sha256ctx = ctx.sha256ctx ++ terminated chHash [str.getD []] := by
  simp [HashCtx.addString, terminated]

lemma addStrings_sha256ctx (ctx : HashCtx) (strs : List (Option (List UInt8))) :
    (strs.foldl (HashCtx.addString logHash) ctx).sha256ctx =
      ctx.sha256ctx ++ terminated chHash (strs.map (fun str => str.getD [])) := by
  induction strs generalizing ctx with
  | nil => simp [terminated]
  | cons str strs ih =>
    rw [List.foldl_cons, ih, addString_sha256ctx, List.append_assoc, ← terminated_append]
    rfl

lemma hashdata_sha256ctx (ctx : HashCtx) (call : HashCall) :
    (ctx.hashdata logHash call).sha256ctx = ctx.sha256ctx ++ terminated chHash (hashStrings [call]) := by
  have h : (HashCtx.hashdata logHash ctx call).sha256ctx =
      ctx.sha256ctx ++ terminated chHash ((call.str :: call.ap).map (fun str => str.getD [])) :=
    addStrings_sha256ctx ctx (call.str :: call.ap)
  simpa [hashStrings] using h

lemma vclHash_sha256ctx (calls : List HashCall) :
    (HashCtx.vclHash logHash calls).sha256ctx = terminated chHash (hashStrings calls) := by
  have hrun : ∀ ctx : HashCtx, (calls.foldl (HashCtx.hashdata logHash) ctx).sha256ctx =
      ctx.sha256ctx ++ terminated chHash (hashStrings calls) := by
    induction calls with
    | nil => simp [hashStrings, terminated]
    | cons call calls ih =>
      intro ctx
      rw [List.foldl_cons, ih, hashdata_sha256ctx, List.append_assoc, ← terminated_append]
      simp [hashStrings]
  exact hrun .init

/-- Requests whose strings have no `#`. -/
theorem hash_data_injective {calls calls' : List HashCall} (h : ∀ x ∈ hashStrings calls, chHash ∉ x)
    (h' : ∀ x ∈ hashStrings calls', chHash ∉ x) :
    (HashCtx.vclHash logHash calls).sha256ctx = (HashCtx.vclHash logHash calls').sha256ctx ↔
      hashStrings calls = hashStrings calls' := by
  rw [vclHash_sha256ctx, vclHash_sha256ctx, terminated_eq_iff, pieces_of_notMem h, pieces_of_notMem h']

/-- Two requests give different bytes to SHA-256, and so have different digests if these two do not collide, when their
strings still differ after each is cut at every `#`, and only then. -/
theorem hash_data_differs_iff {δ : Type} (sha256 : List UInt8 → δ) (logHash : Bool) (calls calls' : List HashCall)
    (hsha : sha256 (HashCtx.vclHash logHash calls).sha256ctx = sha256 (HashCtx.vclHash logHash calls').sha256ctx →
      (HashCtx.vclHash logHash calls).sha256ctx = (HashCtx.vclHash logHash calls').sha256ctx) :
    ((HashCtx.vclHash logHash calls).sha256ctx ≠ (HashCtx.vclHash logHash calls').sha256ctx ∧
      cntRecvDigest sha256 logHash calls ≠ cntRecvDigest sha256 logHash calls') ↔
      (hashStrings calls).flatMap (List.splitOn chHash) ≠ (hashStrings calls').flatMap (List.splitOn chHash) := by
  have hbytes : (HashCtx.vclHash logHash calls).sha256ctx = (HashCtx.vclHash logHash calls').sha256ctx ↔
      pieces chHash (hashStrings calls) = pieces chHash (hashStrings calls') := by
    rw [vclHash_sha256ctx, vclHash_sha256ctx]
    exact terminated_eq_iff
  have hdigest : cntRecvDigest sha256 logHash calls = cntRecvDigest sha256 logHash calls' ↔
      (HashCtx.vclHash logHash calls).sha256ctx = (HashCtx.vclHash logHash calls').sha256ctx :=
    ⟨hsha, congrArg sha256⟩
  rw [ne_eq, ne_eq, hdigest, and_self, hbytes]
  rfl

/-- The URLs `/a` and `/b` with the host `h`, and their SHA-256. -/
theorem hash_data_differs_urls :
    let calls : List UInt8 → List HashCall := fun url => [⟨some url, []⟩, ⟨some [0x68], []⟩]
    let sha256 : List UInt8 → Nat := fun p =>
      if p = [0x2f, 0x61, 0x23, 0x68, 0x23] then
        0x8c9ed15216e89214c64161e322c651dabc916105851678d23411577e9a92d11a
      else 0xdfa3700a9b031db7f15f2f00f76e9594e282efc44f3d96e873ca9e67b6299421
    (HashCtx.vclHash true (calls [0x2f, 0x61])).sha256ctx ≠ (HashCtx.vclHash true (calls [0x2f, 0x62])).sha256ctx ∧
      cntRecvDigest sha256 true (calls [0x2f, 0x61]) ≠ cntRecvDigest sha256 true (calls [0x2f, 0x62]) := by
  intro calls sha256
  refine (hash_data_differs_iff sha256 true (calls [0x2f, 0x61]) (calls [0x2f, 0x62]) ?_).mpr ?_
  · decide
  · decide

/-- The URL `/x` with the host `y#z`, and the URL `/x#y` with the host `z`. -/
theorem hash_data_same_key :
    let calls : List UInt8 → List UInt8 → List HashCall := fun url host => [⟨some url, []⟩, ⟨some host, []⟩]
    let a := calls [0x2f, 0x78] [0x79, 0x23, 0x7a]
    let b := calls [0x2f, 0x78, 0x23, 0x79] [0x7a]
    hashStrings a ≠ hashStrings b ∧ (HashCtx.vclHash true a).sha256ctx = (HashCtx.vclHash true b).sha256ctx ∧
      ∀ sha256 : List UInt8 → Nat, cntRecvDigest sha256 true a = cntRecvDigest sha256 true b := by
  intro calls a b
  refine ⟨by decide, by decide, ?_⟩
  intro sha256
  exact congrArg sha256 (by decide)

end VarnishCache.Proofs
