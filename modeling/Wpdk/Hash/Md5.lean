import Mathlib.Data.Int.Notation
import Mathlib.Data.List.Basic
import Mathlib.Data.Nat.Notation

/-!
# MD5

`md5.c` wraps the MD5 functions of `cryptdll.dll`, once with the names of the OpenSSL MD5 interface
and once more with those of the EVP interface.  An update of the wrapper has a length of type
`size_t`; the length of the library is an `unsigned int`, and the wrapper casts.  What the library
gets of a chunk is therefore a beginning of it, of the length modulo 2 ^ 32, and nothing tells the
caller.

A digest that does not depend on how a string is cut is a property of the library that is assumed
here, for the calls that can be made of it (`digest_updates`).  The wrapper keeps it if the
beginnings of the chunks, put together, are the beginning of the whole string.

* `Part`: what one call of the library reads; `Cryptdll`: the library.
* `md5Init`, `md5Update`, `md5Final`, `md5`, `evpDigestInitEx`, `evpDigestUpdate`,
  `evpDigestFinalEx`: the wrapper.
* `low`: what the library gets of a chunk; `md5Digest_eq`: the digest of chunks.
* `Cut`: a string that is cut into chunks; `split_independent_iff`: when the cut does not matter.
-/

namespace Wpdk
namespace Hash

/-- `MD5_DIGEST_LENGTH` bytes. -/
abbrev Digest := Vector UInt8 16

/-- The bytes that a call of the library reads: their number is an `unsigned int`. -/
structure Part where
  bytes : List UInt8
  length_lt : bytes.length < 4294967296

/-- The library: its context and its functions, and the digest of a string.  However a string is cut
into parts, **the digest is that of the string**. -/
structure Cryptdll where
  Ctx : Type
  init : Ctx → Ctx
  update : Ctx → Part → Ctx
  final : Ctx → Ctx
  digest : Ctx → Digest
  digestOf : List UInt8 → Digest
  digest_updates : ∀ c (parts : List Part),
    digest (final (parts.foldl update (init c))) = digestOf (parts.flatMap Part.bytes)

/-- The bytes at a pointer up to a length. -/
def readPart (data : List UInt8) (len : BitVec 32) : Part where
  bytes := data.take len.toNat
  length_lt := Nat.lt_of_le_of_lt (List.length_take_le _ _) len.isLt

section Wrapper

variable (lib : Cryptdll)

/-- `wpdk_MD5_Init`: the return value and the context. -/
def md5Init (c : lib.Ctx) : ℤ × lib.Ctx := (1, lib.init c)

/-- `wpdk_MD5_Update`. -/
def md5Update (c : lib.Ctx) (data : List UInt8) (len : BitVec 64) : ℤ × lib.Ctx :=
  (1, lib.update c (readPart data (len.setWidth 32)))

/-- `wpdk_MD5_Final`: the return value and the bytes at `md`. -/
def md5Final (c : lib.Ctx) : ℤ × Digest := (1, lib.digest (lib.final c))

/-- `wpdk_MD5`, whose length is an `unsigned long`. -/
def md5 (context : lib.Ctx) (d : List UInt8) (n : BitVec 32) : Digest :=
  (md5Final lib (md5Update lib (md5Init lib context).2 d (n.setWidth 64)).2).2

/-- `EVP_MD_CTX`. -/
structure EvpMdCtx where
  c : lib.Ctx

/-- `wpdk_EVP_DigestInit_ex`; `type` is whether it was called with `wpdk_md5`. -/
def evpDigestInitEx (ctx : Option (EvpMdCtx lib)) (type : Bool) : ℤ × Option (EvpMdCtx lib) :=
  match ctx with
  | none => (0, none)
  | some ctx =>
    if type = false then (0, some ctx)
    else (if (md5Init lib ctx.c).1 = 1 then 1 else 0, some ⟨(md5Init lib ctx.c).2⟩)

/-- `wpdk_EVP_DigestUpdate`. -/
def evpDigestUpdate (ctx : EvpMdCtx lib) (data : List UInt8) (len : BitVec 64) :
    ℤ × EvpMdCtx lib :=
  ((md5Update lib ctx.c data len).1, ⟨(md5Update lib ctx.c data len).2⟩)

/-- `wpdk_EVP_DigestFinal_ex`. -/
def evpDigestFinalEx (ctx : EvpMdCtx lib) : ℤ × Digest := md5Final lib ctx.c

/-- The length of a chunk, as a `size_t`. -/
def sizeT (chunk : List UInt8) : BitVec 64 := BitVec.ofNat 64 chunk.length

/-- `wpdk_MD5_Init`, `wpdk_MD5_Update` on each chunk and `wpdk_MD5_Final`. -/
def md5Digest (c : lib.Ctx) (chunks : List (List UInt8)) : Digest :=
  (md5Final lib (chunks.foldl (fun c chunk => (md5Update lib c chunk (sizeT chunk)).2)
    (md5Init lib c).2)).2

/-- The same with the EVP interface; nothing if it does not start. -/
def evpDigest (ctx : EvpMdCtx lib) (chunks : List (List UInt8)) : Option Digest :=
  match evpDigestInitEx lib (some ctx) true with
  | (1, some ctx) =>
    some (evpDigestFinalEx lib
      (chunks.foldl (fun ctx chunk => (evpDigestUpdate lib ctx chunk (sizeT chunk)).2) ctx)).2
  | _ => none

/-- **The cut does not matter**: chunk by chunk, with either interface, the digest is that of a
single update. -/
def SplitIndependent (c : lib.Ctx) (ctx : EvpMdCtx lib) (chunks : List (List UInt8)) : Prop :=
  md5Digest lib c chunks = md5Digest lib c [chunks.flatten] ∧
    evpDigest lib ctx chunks = some (md5Digest lib c [chunks.flatten])

end Wrapper

/-! ## What the library gets -/

/-- The beginning of a chunk that is left of it when its length is cast. -/
def low (chunk : List UInt8) : List UInt8 := chunk.take (chunk.length % 4294967296)

theorem low_eq_self {chunk : List UInt8} (h : chunk.length < 4294967296) : low chunk = chunk := by
  rw [low, Nat.mod_eq_of_lt h, List.take_length]

theorem bytes_readPart {chunk : List UInt8} (h : chunk.length < 18446744073709551616) :
    (readPart chunk ((sizeT chunk).setWidth 32)).bytes = low chunk := by
  have hlength : ((sizeT chunk).setWidth 32).toNat = chunk.length % 4294967296 := by
    rw [BitVec.toNat_setWidth, sizeT, BitVec.toNat_ofNat, Nat.mod_eq_of_lt h]
  show chunk.take ((sizeT chunk).setWidth 32).toNat = low chunk
  rw [hlength, low]

section Digests

variable {lib : Cryptdll} {chunks : List (List UInt8)}

/-- Updates of the wrapper are updates of the library with the parts that are left. -/
theorem foldl_md5Update (c : lib.Ctx) :
    chunks.foldl (fun c chunk => (md5Update lib c chunk (sizeT chunk)).2) c =
      (chunks.map fun chunk => readPart chunk ((sizeT chunk).setWidth 32)).foldl lib.update c := by
  rw [List.foldl_map]
  rfl

theorem flatMap_readPart (h : ∀ chunk ∈ chunks, chunk.length < 18446744073709551616) :
    (chunks.map fun chunk => readPart chunk ((sizeT chunk).setWidth 32)).flatMap Part.bytes =
      chunks.flatMap low := by
  rw [List.flatMap_map, List.flatMap, List.flatMap]
  exact congrArg List.flatten (List.map_congr_left fun chunk hc => bytes_readPart (h chunk hc))

/-- **The digest of chunks** is that of their beginnings, put together. -/
theorem md5Digest_eq (c : lib.Ctx) (h : ∀ chunk ∈ chunks, chunk.length < 18446744073709551616) :
    md5Digest lib c chunks = lib.digestOf (chunks.flatMap low) := by
  unfold md5Digest
  rw [foldl_md5Update, ← flatMap_readPart h]
  exact lib.digest_updates c _

/-- A context of the EVP interface is a context. -/
theorem foldl_evpDigestUpdate (ctx : EvpMdCtx lib) :
    (chunks.foldl (fun ctx chunk => (evpDigestUpdate lib ctx chunk (sizeT chunk)).2) ctx).c =
      chunks.foldl (fun c chunk => (md5Update lib c chunk (sizeT chunk)).2) ctx.c := by
  induction chunks generalizing ctx with
  | nil => rfl
  | cons chunk chunks ih => exact ih _

theorem evpDigest_eq (ctx : EvpMdCtx lib) :
    evpDigest lib ctx chunks = some (md5Digest lib ctx.c chunks) := by
  change some (md5Final lib (chunks.foldl (fun ctx chunk =>
    (evpDigestUpdate lib ctx chunk (sizeT chunk)).2) ⟨(md5Init lib ctx.c).2⟩).c).2 = _
  rw [foldl_evpDigestUpdate]
  rfl

/-- `wpdk_MD5` does not lose anything: its length is no larger than that of the library. -/
theorem md5_eq (context : lib.Ctx) {d : List UInt8} {n : BitVec 32} (h : d.length = n.toNat) :
    md5 lib context d n = lib.digestOf d := by
  have hpart : (readPart d ((n.setWidth 64).setWidth 32)).bytes = d := by
    show d.take ((n.setWidth 64).setWidth 32).toNat = d
    rw [BitVec.setWidth_setWidth_of_le n (by decide), BitVec.setWidth_eq, ← h, List.take_length]
  have hdigest := lib.digest_updates context [readPart d ((n.setWidth 64).setWidth 32)]
  rw [List.flatMap_cons, List.flatMap_nil, List.append_nil, hpart] at hdigest
  exact hdigest

end Digests

/-! ## Cutting a string -/

/-- The chunks of a string whose length is a `size_t`. -/
structure Cut where
  chunks : List (List UInt8)
  length_lt : chunks.flatten.length < 18446744073709551616

namespace Cut

variable (cut : Cut)

theorem length_chunk_lt : ∀ chunk ∈ cut.chunks, chunk.length < 18446744073709551616 := by
  intro chunk hchunk
  exact Nat.lt_of_le_of_lt (List.sublist_flatten_of_mem hchunk).length_le cut.length_lt

/-- What a library makes of a cut. -/
theorem splitIndependent_iff_digestOf {lib : Cryptdll} {c : lib.Ctx} {ctx : EvpMdCtx lib} :
    SplitIndependent lib c ctx cut.chunks ↔
      lib.digestOf (cut.chunks.flatMap low) = lib.digestOf (low cut.chunks.flatten) := by
  have hwhole : ∀ chunk ∈ [cut.chunks.flatten], chunk.length < 18446744073709551616 := by
    intro chunk hchunk
    rw [List.mem_singleton.mp hchunk]
    exact cut.length_lt
  rw [SplitIndependent, evpDigest_eq, md5Digest_eq c cut.length_chunk_lt, md5Digest_eq c hwhole,
    md5Digest_eq ctx.c cut.length_chunk_lt, List.flatMap_cons, List.flatMap_nil, List.append_nil,
    Option.some.injEq, and_self]

end Cut

/-- A library that only tells one string from all others. -/
def telling (text : List UInt8) : Cryptdll where
  Ctx := List UInt8
  init _ := []
  update c part := c ++ part.bytes
  final c := c
  digest c := if c = text then Vector.replicate 16 0 else Vector.replicate 16 1
  digestOf c := if c = text then Vector.replicate 16 0 else Vector.replicate 16 1
  digest_updates := by
    intro _ parts
    have hfold : ∀ c : List UInt8,
        parts.foldl (fun c part => c ++ part.bytes) c = c ++ parts.flatMap Part.bytes := by
      induction parts with
      | nil => exact fun c => (List.append_nil c).symm
      | cons part parts ih =>
        intro c
        rw [List.foldl_cons, ih, List.flatMap_cons, List.append_assoc]
    rw [hfold, List.nil_append]

theorem digestOf_telling_inj {text other : List UInt8}
    (h : (telling text).digestOf other = (telling text).digestOf text) : other = text := by
  by_contra hne
  have hother : (telling text).digestOf other = Vector.replicate 16 1 := if_neg hne
  have htext : (telling text).digestOf text = Vector.replicate 16 0 := if_pos rfl
  rw [hother, htext] at h
  exact absurd h (by decide)

/-- For every string and every way of cutting it into chunks: the digest is independent of the cut,
with either interface and whatever the library does that keeps its own law, exactly if the
beginnings that are left of the chunks make up the beginning that is left of the string. -/
theorem split_independent_iff (cut : Cut) :
    (∀ (lib : Cryptdll) (c : lib.Ctx) (ctx : EvpMdCtx lib), SplitIndependent lib c ctx cut.chunks) ↔
      cut.chunks.flatMap low = low cut.chunks.flatten := by
  constructor
  · intro h
    have htelling := h (telling (low cut.chunks.flatten)) [] ⟨[]⟩
    exact digestOf_telling_inj (cut.splitIndependent_iff_digestOf.mp htelling)
  · intro h lib c ctx
    rw [cut.splitIndependent_iff_digestOf, h]

/-- A string of less than 4 GiB can be cut in any way. -/
theorem flatMap_low_of_lt {chunks : List (List UInt8)} (h : chunks.flatten.length < 4294967296) :
    chunks.flatMap low = low chunks.flatten := by
  have hchunk : ∀ chunk ∈ chunks, low chunk = chunk := by
    intro chunk hc
    exact low_eq_self (Nat.lt_of_le_of_lt (List.sublist_flatten_of_mem hc).length_le h)
  rw [low_eq_self h, List.flatMap, List.map_congr_left hchunk, List.map_id']

/-- 4 GiB in two chunks. -/
def fourGib : Cut where
  chunks := [[1], List.replicate 4294967295 0]
  length_lt := by
    rw [List.flatten_cons, List.flatten_cons, List.flatten_nil, List.append_nil, List.length_append,
      List.length_replicate]
    decide

/-- Two updates get all of it to the library; in a single update the length is cast to zero, and the
digest is that of the empty string. -/
theorem fourGib_single_update_empty :
    (∀ (lib : Cryptdll) (c : lib.Ctx),
      md5Digest lib c fourGib.chunks = lib.digestOf (1 :: List.replicate 4294967295 0) ∧
        md5Digest lib c [fourGib.chunks.flatten] = lib.digestOf []) ∧
      ¬ ∀ (lib : Cryptdll) (c : lib.Ctx) (ctx : EvpMdCtx lib),
        SplitIndependent lib c ctx fourGib.chunks := by
  have hflatten : fourGib.chunks.flatten = 1 :: List.replicate 4294967295 0 := by
    rw [fourGib, List.flatten_cons, List.flatten_cons, List.flatten_nil, List.append_nil]
    rfl
  have hlength : (1 :: List.replicate 4294967295 0 : List UInt8).length = 4294967296 := by
    rw [List.length_cons, List.length_replicate]
  have hwhole : low fourGib.chunks.flatten = [] := by
    rw [low, hflatten, hlength]
    rfl
  have hchunks : fourGib.chunks.flatMap low = 1 :: List.replicate 4294967295 0 := by
    have hsecond : low (List.replicate 4294967295 0) = List.replicate 4294967295 0 :=
      low_eq_self (by rw [List.length_replicate]; decide)
    rw [fourGib, List.flatMap_cons, List.flatMap_cons, List.flatMap_nil, hsecond, List.append_nil]
    rfl
  refine ⟨fun lib c => ⟨?_, ?_⟩, ?_⟩
  · rw [md5Digest_eq c fourGib.length_chunk_lt, hchunks]
  · rw [md5Digest_eq c, List.flatMap_cons, List.flatMap_nil, List.append_nil, hwhole]
    intro chunk hchunk
    rw [List.mem_singleton.mp hchunk]
    exact fourGib.length_lt
  · intro h
    have htelling := fourGib.splitIndependent_iff_digestOf.mp (h (telling []) [] ⟨[]⟩)
    rw [hwhole, hchunks] at htelling
    exact List.cons_ne_nil _ _ (digestOf_telling_inj htelling)

end Hash
end Wpdk
