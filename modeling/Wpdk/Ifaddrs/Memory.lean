import Mathlib.Data.List.Nodup
import Wpdk.Ifaddrs.Listing

/-!
# The memory of an interface list

`wpdk_getifaddrs` has two kinds of blocks at a time: the buffer for the adapters, which
`wpdk_get_adapters` makes larger until the answer fits, and the entries of the list, each pointing
to the one before it.  Every way out of the function has to free what it does not hand over: the
buffer always, and the entries if there is no memory for one more.  Behind it, the caller frees the
list with `wpdk_freeifaddrs`, which reads `ifa_next` of an entry before it frees it.

Blocks are numbered in the order of their allocation, and a number is not used twice, so that a
block that is freed twice, or read after it was freed, is one that there is no block for: the
function has no result then.

* `Heap`, `Heap.free`: the blocks, and `free`, which needs one.
* `getAdaptersOn`, `addAddressesOn`, `addAdaptersOn`, `getifaddrsOn`, `freeifaddrs`: the functions
  of `Wpdk.Ifaddrs.Listing` with their memory.
* `Owns`: what has been allocated since some time and has not been freed.
* `Chain`: a list in memory.
* `ifaddrs_memory_balanced`: nothing is lost and nothing is freed twice.
-/

namespace Wpdk
namespace Ifaddrs

/-- A block: the buffer for the adapters, an entry with its `ifa_next`, or one of somebody else. -/
inductive Block where
  | buffer
  | entry (e : IfAddr) (next : Option ℕ)
  | other

/-- The blocks that are allocated. -/
structure Heap where
  allocated : ℕ
  block : ℕ → Option Block
  block_of_le : ∀ p, allocated ≤ p → block p = none

namespace Heap

/-- A new block. -/
def alloc (h : Heap) (b : Block) : Heap where
  allocated := h.allocated + 1
  block := Function.update h.block h.allocated (some b)
  block_of_le p hp := by
    rw [Function.update_of_ne (by omega)]
    exact h.block_of_le p (by omega)

/-- The block at `p` is gone. -/
def remove (h : Heap) (p : ℕ) : Heap where
  allocated := h.allocated
  block := Function.update h.block p none
  block_of_le q hq := by
    by_cases hqp : q = p
    · rw [hqp, Function.update_self]
    · rw [Function.update_of_ne hqp]
      exact h.block_of_le q hq

/-- `free` of a block. -/
def free (h : Heap) (p : ℕ) : Option Heap := if (h.block p).isSome then some (h.remove p) else none

/-- `free` of a pointer that may be null. -/
def freePtr (h : Heap) : Option ℕ → Option Heap
  | none => some h
  | some p => h.free p

/-- A `realloc` that succeeds. -/
def realloc (h : Heap) (buf : Option ℕ) : Option (ℕ × Heap) :=
  ((h.alloc .buffer).freePtr buf).map fun h' => (h.allocated, h')

end Heap

/-! ## The functions -/

/-- `wpdk_get_adapters`, with the buffer that it has so far. -/
def getAdaptersOn :
    List AdaptersAnswer → Option ℕ → Heap → Option (Heap × Except ℕ (ℕ × List Adapter))
  | [], _, _ => none
  | .success first rest :: _, buf, h => buf.map fun p => (h, .ok (p, first :: rest))
  | .failed rc :: _, buf, h => (h.freePtr buf).map fun h => (h, .error (convertToPosix rc))
  | .overflow mem :: answers, buf, h =>
    if mem then (h.realloc buf).bind fun out => getAdaptersOn answers (some out.1) out.2
    else (h.freePtr buf).map fun h => (h, .error Errno.enomem.code)

/-- `wpdk_freeifaddrs`, for lists of at most so many entries. -/
def freeifaddrs : ℕ → Option ℕ → Heap → Option Heap
  | _, none, h => some h
  | 0, some _, _ => none
  | k + 1, some p, h =>
    match h.block p with
    | some (.entry _ next) => (h.free p).bind (freeifaddrs k next)
    | _ => none

section Listing

variable (mem : ℕ → Bool) (buf : ℕ)

/-- The inner loop of `wpdk_getifaddrs`, with the number of entries so far.  If there is no memory,
it frees them and the buffer. -/
def addAddressesOn (ipa : Adapter) :
    List Address → ℕ → Option ℕ → Heap → Option (Heap × Option (ℕ × Option ℕ))
  | [], n, iflist, h => some (h, some (n, iflist))
  | addr :: addrs, n, iflist, h =>
    match getIfInfo ipa addr.family with
    | none => addAddressesOn ipa addrs n iflist h
    | some (name, flags) =>
      if mem n then
        addAddressesOn ipa addrs (n + 1) (some h.allocated)
          (h.alloc (.entry ⟨name, flags, addr.sockaddr⟩ iflist))
      else
        (freeifaddrs n iflist h).bind fun h => (h.free buf).map fun h => (h, none)

/-- The outer loop. -/
def addAdaptersOn :
    List Adapter → ℕ → Option ℕ → Heap → Option (Heap × Option (ℕ × Option ℕ))
  | [], n, iflist, h => some (h, some (n, iflist))
  | ipa :: ipas, n, iflist, h =>
    match addAddressesOn mem buf ipa ipa.addresses n iflist h with
    | none => none
    | some (h, none) => some (h, none)
    | some (h, some (n, iflist)) => addAdaptersOn ipas n iflist h

end Listing

/-- `wpdk_getifaddrs`: the first entry, or the return value and `errno` if it is set. -/
def getifaddrsOn (mem : ℕ → Bool) (ifap : Bool) (answers : List AdaptersAnswer) (h : Heap) :
    Option (Heap × Except (ℤ × Option ℕ) (Option ℕ)) :=
  if ifap = false then some (h, .error (Errno.einval.code, none))
  else
    match getAdaptersOn answers none h with
    | none => none
    | some (h, .error e) => some (h, .error (-1, some e))
    | some (h, .ok (buf, adapters)) =>
      match addAdaptersOn mem buf adapters 0 none h with
      | none => none
      | some (h, none) => some (h, .error (-1, some Errno.enomem.code))
      | some (h, some (_, iflist)) => (h.free buf).map fun h => (h, .ok iflist)

/-! ## What has been allocated -/

/-- The blocks `own` are what there is now and was not there in `h₀`. -/
structure Owns (h₀ h : Heap) (own : List ℕ) : Prop where
  nodup : own.Nodup
  fresh : ∀ p ∈ own, h₀.block p = none
  live : ∀ p ∈ own, (h.block p).isSome = true
  rest : ∀ p, p ∉ own → h.block p = h₀.block p

namespace Owns

variable {h₀ h : Heap} {own : List ℕ} {p : ℕ}

theorem refl (h : Heap) : Owns h h [] :=
  ⟨List.nodup_nil, fun _ hp => absurd hp List.not_mem_nil, fun _ hp => absurd hp List.not_mem_nil,
    fun _ _ => rfl⟩

/-- Nothing is owned any more. -/
theorem block_eq (ho : Owns h₀ h []) : h.block = h₀.block :=
  funext fun p => ho.rest p List.not_mem_nil

theorem allocated_notMem (ho : Owns h₀ h own) : h.allocated ∉ own := by
  intro hmem
  have hlive := ho.live _ hmem
  rw [h.block_of_le _ (Nat.le_refl _)] at hlive
  cases hlive

theorem alloc (ho : Owns h₀ h own) (b : Block) : Owns h₀ (h.alloc b) (h.allocated :: own) where
  nodup := List.nodup_cons.mpr ⟨ho.allocated_notMem, ho.nodup⟩
  fresh p hp := by
    rcases List.mem_cons.mp hp with rfl | hp
    · rw [← ho.rest _ ho.allocated_notMem]
      exact h.block_of_le _ (Nat.le_refl _)
    · exact ho.fresh p hp
  live p hp := by
    dsimp only [Heap.alloc]
    rcases List.mem_cons.mp hp with rfl | hp
    · rw [Function.update_self]
      rfl
    · have hne : p ≠ h.allocated := fun heq => ho.allocated_notMem (heq ▸ hp)
      rw [Function.update_of_ne hne]
      exact ho.live p hp
  rest p hp := by
    have hne : p ≠ h.allocated := fun heq => hp (List.mem_cons.mpr (Or.inl heq))
    dsimp only [Heap.alloc]
    rw [Function.update_of_ne hne]
    exact ho.rest p fun hmem => hp (List.mem_cons_of_mem _ hmem)

theorem free_eq (ho : Owns h₀ h own) (hp : p ∈ own) : h.free p = some (h.remove p) :=
  if_pos (ho.live p hp)

theorem remove (ho : Owns h₀ h own) (hp : p ∈ own) : Owns h₀ (h.remove p) (own.erase p) where
  nodup := ho.nodup.erase p
  fresh q hq := ho.fresh q (List.mem_of_mem_erase hq)
  live q hq := by
    obtain ⟨hne, hmem⟩ := ho.nodup.mem_erase_iff.mp hq
    dsimp only [Heap.remove]
    rw [Function.update_of_ne hne]
    exact ho.live q hmem
  rest q hq := by
    dsimp only [Heap.remove]
    by_cases hqp : q = p
    · rw [hqp, Function.update_self]
      exact (ho.fresh p hp).symm
    · rw [Function.update_of_ne hqp]
      exact ho.rest q fun hmem => hq (ho.nodup.mem_erase_iff.mpr ⟨hqp, hmem⟩)

/-- The last block of all is freed. -/
theorem free_last {p : ℕ} (ho : Owns h₀ h [p]) : ∃ h', h.free p = some h' ∧ Owns h₀ h' [] := by
  refine ⟨_, ho.free_eq List.mem_cons_self, ?_⟩
  have hrest := ho.remove List.mem_cons_self
  rwa [List.erase_cons_head] at hrest

/-- The buffer is freed if there is one. -/
theorem freePtr {buf : Option ℕ} (ho : Owns h₀ h buf.toList) :
    ∃ h', h.freePtr buf = some h' ∧ Owns h₀ h' [] := by
  cases buf with
  | none => exact ⟨h, rfl, ho⟩
  | some p => exact ho.free_last

/-- The buffer is made larger. -/
theorem realloc {buf : Option ℕ} (ho : Owns h₀ h buf.toList) :
    ∃ p h', h.realloc buf = some (p, h') ∧ Owns h₀ h' [p] := by
  have halloc := ho.alloc .buffer
  cases buf with
  | none => exact ⟨_, _, rfl, halloc⟩
  | some q =>
    have hmem : q ∈ h.allocated :: [q] := List.mem_cons_of_mem _ List.mem_cons_self
    have hne : q ≠ h.allocated := fun heq => ho.allocated_notMem (heq ▸ List.mem_cons_self)
    refine ⟨h.allocated, (h.alloc .buffer).remove q, ?_, ?_⟩
    · rw [Heap.realloc, Heap.freePtr, halloc.free_eq hmem]
      rfl
    · have hremoved := halloc.remove hmem
      rwa [Option.toList_some, List.erase_cons_tail (by simpa using hne.symm),
        List.erase_cons_head] at hremoved

end Owns

/-! ## Lists in memory -/

/-- The entries from a pointer on, each with its block. -/
def Chain (h : Heap) : Option ℕ → List (ℕ × IfAddr) → Prop
  | ptr, [] => ptr = none
  | ptr, (p, e) :: l => ptr = some p ∧ ∃ next, h.block p = some (.entry e next) ∧ Chain h next l

theorem Chain.congr {h h' : Heap} {ptr : Option ℕ} {l : List (ℕ × IfAddr)} (hchain : Chain h ptr l)
    (heq : ∀ p ∈ l.map Prod.fst, h'.block p = h.block p) : Chain h' ptr l := by
  induction l generalizing ptr with
  | nil => exact hchain
  | cons x l ih =>
    obtain ⟨hptr, next, hblock, hrest⟩ := hchain
    refine ⟨hptr, next, (heq _ List.mem_cons_self).trans hblock, ih hrest fun p hp => ?_⟩
    exact heq p (List.mem_cons_of_mem _ hp)

/-- **`wpdk_freeifaddrs` frees a list**, and reads no entry that it has freed. -/
theorem freeifaddrs_owns {h₀ h : Heap} {ptr : Option ℕ} {l : List (ℕ × IfAddr)} {own : List ℕ}
    (hchain : Chain h ptr l) (ho : Owns h₀ h (l.map Prod.fst ++ own)) :
    ∃ h', (∀ k, l.length ≤ k → freeifaddrs k ptr h = some h') ∧ Owns h₀ h' own := by
  induction l generalizing h ptr with
  | nil =>
    have hptr : ptr = none := hchain
    subst hptr
    refine ⟨h, fun k _ => ?_, ho⟩
    cases k <;> rfl
  | cons x l ih =>
    obtain ⟨p, e⟩ := x
    obtain ⟨rfl, next, hblock, hrest⟩ := hchain
    have hmem : p ∈ ((p, e) :: l).map Prod.fst ++ own := List.mem_cons_self
    have hremoved := ho.remove hmem
    rw [List.map_cons, List.cons_append, List.erase_cons_head] at hremoved
    have hnotMem : p ∉ l.map Prod.fst := fun hp =>
      (List.nodup_cons.mp ho.nodup).1 (List.mem_append_left _ hp)
    -- the entries behind it are still there
    have hkept : Chain (h.remove p) next l := by
      refine hrest.congr fun q hq => ?_
      have hne : q ≠ p := fun heq => hnotMem (heq ▸ hq)
      exact Function.update_of_ne hne _ _
    obtain ⟨h', hfree, howns⟩ := ih hkept hremoved
    refine ⟨h', fun k hk => ?_, howns⟩
    cases k with
    | zero => exact absurd hk (Nat.not_succ_le_zero _)
    | succ k =>
      have hfreed := ho.free_eq hmem
      simp only [freeifaddrs, hblock, hfreed, Option.bind_some]
      exact hfree k (Nat.le_of_succ_le_succ hk)

/-! ## The loops -/

/-- A list under construction, and the buffer. -/
structure Builds (h₀ h : Heap) (buf : ℕ) (ptr : Option ℕ) (l : List (ℕ × IfAddr)) : Prop where
  chain : Chain h ptr l
  owns : Owns h₀ h (l.map Prod.fst ++ [buf])

/-- One more entry. -/
theorem Builds.push {h₀ h : Heap} {buf : ℕ} {ptr : Option ℕ} {l : List (ℕ × IfAddr)}
    (hb : Builds h₀ h buf ptr l) (e : IfAddr) :
    Builds h₀ (h.alloc (.entry e ptr)) buf (some h.allocated) ((h.allocated, e) :: l) where
  chain := by
    refine ⟨rfl, ptr, Function.update_self _ _ _, hb.chain.congr fun p hp => ?_⟩
    have hne : p ≠ h.allocated := fun heq =>
      hb.owns.allocated_notMem (heq ▸ List.mem_append_left _ hp)
    exact Function.update_of_ne hne _ _
  owns := hb.owns.alloc _

/-- What a loop has come to is what the loop on values comes to. -/
def Agrees (h₀ : Heap) (buf : ℕ) (out : Option (Heap × Option (ℕ × Option ℕ))) :
    Option (List IfAddr) → Prop
  | none => ∃ h', out = some (h', none) ∧ Owns h₀ h' []
  | some entries =>
    ∃ h' ptr l, out = some (h', some (l.length, ptr)) ∧ l.map Prod.snd = entries ∧
      Builds h₀ h' buf ptr l

section Loops

variable {h₀ : Heap} {buf : ℕ} (mem : ℕ → Bool)

/-- There is no memory for one more entry. -/
theorem Builds.giveUp {h : Heap} {ptr : Option ℕ} {l : List (ℕ × IfAddr)}
    (hb : Builds h₀ h buf ptr l) :
    ∃ h', ((freeifaddrs l.length ptr h).bind fun h => (h.free buf).map fun h =>
      (h, (none : Option (ℕ × Option ℕ)))) = some (h', none) ∧ Owns h₀ h' [] := by
  obtain ⟨h₁, hfree, howns⟩ := freeifaddrs_owns hb.chain hb.owns
  obtain ⟨h₂, hlast, hnone⟩ := howns.free_last
  refine ⟨h₂, ?_, hnone⟩
  rw [hfree _ (Nat.le_refl _), Option.bind_some, hlast]
  rfl

theorem addAddressesOn_agrees (ipa : Adapter) (addrs : List Address) {h : Heap} {ptr : Option ℕ}
    {l : List (ℕ × IfAddr)} (hb : Builds h₀ h buf ptr l) :
    Agrees h₀ buf (addAddressesOn mem buf ipa addrs l.length ptr h)
      (addAddresses mem ipa addrs (l.map Prod.snd)) := by
  induction addrs generalizing h ptr l with
  | nil => exact ⟨h, ptr, l, rfl, rfl, hb⟩
  | cons addr addrs ih =>
    rw [addAddressesOn, addAddresses]
    cases getIfInfo ipa addr.family with
    | none => exact ih hb
    | some info =>
      obtain ⟨name, flags⟩ := info
      dsimp only
      rw [List.length_map]
      cases hmem : mem l.length with
      | true => exact ih (hb.push ⟨name, flags, addr.sockaddr⟩)
      | false => exact hb.giveUp

theorem addAdaptersOn_agrees (adapters : List Adapter) {h : Heap} {ptr : Option ℕ}
    {l : List (ℕ × IfAddr)} (hb : Builds h₀ h buf ptr l) :
    Agrees h₀ buf (addAdaptersOn mem buf adapters l.length ptr h)
      (addAdapters mem adapters (l.map Prod.snd)) := by
  induction adapters generalizing h ptr l with
  | nil => exact ⟨h, ptr, l, rfl, rfl, hb⟩
  | cons ipa ipas ih =>
    have hinner := addAddressesOn_agrees mem ipa ipa.addresses hb
    rw [addAdaptersOn, addAdapters]
    cases hvalue : addAddresses mem ipa ipa.addresses (l.map Prod.snd) with
    | none =>
      rw [hvalue] at hinner
      obtain ⟨h', hout, howns⟩ := hinner
      rw [hout]
      exact ⟨h', rfl, howns⟩
    | some entries =>
      rw [hvalue] at hinner
      obtain ⟨h', ptr', l', hout, rfl, hb'⟩ := hinner
      rw [hout]
      exact ih hb'

end Loops

/-- The buffer is the only block that is left, and it is left only with adapters in it. -/
def Supplies (h₀ : Heap) (out : Option (Heap × Except ℕ (ℕ × List Adapter))) :
    Except ℕ (List Adapter) → Prop
  | .error e => ∃ h', out = some (h', .error e) ∧ Owns h₀ h' []
  | .ok adapters => ∃ h' p, out = some (h', .ok (p, adapters)) ∧ Owns h₀ h' [p]

/-- **`wpdk_get_adapters`**; `GetAdaptersAddresses` does not succeed without a buffer. -/
theorem supplies_getAdaptersOn {h₀ : Heap} (answers : List AdaptersAnswer) (buf : Option ℕ)
    {h : Heap} (ho : Owns h₀ h buf.toList)
    (hbuf : buf = none → ∀ first rest more, answers ≠ .success first rest :: more)
    {r : Except ℕ (List Adapter)} (hr : getAdapters answers = some r) :
    Supplies h₀ (getAdaptersOn answers buf h) r := by
  induction answers generalizing buf h with
  | nil => cases hr
  | cons answer answers ih =>
    cases answer with
    | success first rest =>
      obtain rfl := Option.some.inj hr
      cases buf with
      | none => exact absurd rfl (hbuf rfl first rest answers)
      | some p => exact ⟨h, p, rfl, ho⟩
    | failed rc =>
      obtain rfl := Option.some.inj hr
      obtain ⟨h', hfree, howns⟩ := ho.freePtr
      exact ⟨h', by rw [getAdaptersOn, hfree, Option.map_some], howns⟩
    | overflow enough =>
      cases enough with
      | false =>
        obtain rfl := Option.some.inj hr
        obtain ⟨h', hfree, howns⟩ := ho.freePtr
        refine ⟨h', ?_, howns⟩
        rw [getAdaptersOn, hfree, Option.map_some]
        rfl
      | true =>
        obtain ⟨p, h', hrealloc, howns⟩ := ho.realloc
        have hnext : getAdaptersOn (.overflow true :: answers) buf h =
            getAdaptersOn answers (some p) h' := by
          rw [getAdaptersOn, hrealloc]
          rfl
        rw [hnext]
        exact ih (some p) howns (fun hnone => by cases hnone) hr

/-- A call that has failed leaves the memory as it was; one that has succeeded leaves the list in
memory and nothing else, until `wpdk_freeifaddrs` frees it. -/
def Balanced (h : Heap) (out : Option (Heap × Except (ℤ × Option ℕ) (Option ℕ))) :
    Except (ℤ × Option ℕ) (List IfAddr) → Prop
  | .error e => ∃ h', out = some (h', .error e) ∧ h'.block = h.block
  | .ok entries =>
    ∃ h' ptr l h'', out = some (h', .ok ptr) ∧ Chain h' ptr l ∧ l.map Prod.snd = entries ∧
      (∀ p, p ∉ l.map Prod.fst → h'.block p = h.block p) ∧
        (∀ k, l.length ≤ k → freeifaddrs k ptr h' = some h'') ∧ h''.block = h.block

/-- **Nothing is lost and nothing is freed twice**: whatever the system answers and wherever memory
runs out, `wpdk_getifaddrs` frees everything that it has allocated if it fails, and everything but
the entries of the list if it succeeds; and `wpdk_freeifaddrs` frees these. -/
theorem ifaddrs_memory_balanced (mem : ℕ → Bool) (ifap : Bool) {answers : List AdaptersAnswer}
    (hbuf : ∀ first rest more, answers ≠ .success first rest :: more) (h : Heap)
    {r : Except (ℤ × Option ℕ) (List IfAddr)} (hr : getifaddrs mem ifap answers = some r) :
    Balanced h (getifaddrsOn mem ifap answers h) r := by
  unfold getifaddrs at hr
  unfold getifaddrsOn
  cases ifap with
  | false =>
    obtain rfl := Option.some.inj hr
    exact ⟨h, rfl, rfl⟩
  | true =>
    rw [if_neg (by decide)] at hr ⊢
    cases hadapters : getAdapters answers with
    | none =>
      rw [hadapters] at hr
      cases hr
    | some out =>
      have hfirst := supplies_getAdaptersOn answers none (Owns.refl h) (fun _ => hbuf) hadapters
      rw [hadapters] at hr
      cases out with
      | error e =>
        obtain rfl := Option.some.inj hr
        obtain ⟨h', hrun, howns⟩ := hfirst
        refine ⟨h', ?_, howns.block_eq⟩
        rw [hrun]
      | ok adapters =>
        obtain ⟨h₁, buf, hrun, howns⟩ := hfirst
        have hloops := addAdaptersOn_agrees mem adapters (l := []) ⟨rfl, howns⟩
        rw [hrun]
        cases hvalue : addAdapters mem adapters [] with
        | none =>
          rw [List.map_nil, hvalue] at hloops
          obtain ⟨h₂, hout, hnone⟩ := hloops
          simp only [hvalue] at hr
          obtain rfl := Option.some.inj hr
          refine ⟨h₂, ?_, hnone.block_eq⟩
          rw [List.length_nil] at hout
          simp only [hout]
        | some entries =>
          rw [List.map_nil, hvalue] at hloops
          obtain ⟨h₂, ptr, l, hout, hentries, hb⟩ := hloops
          simp only [hvalue] at hr
          obtain rfl := Option.some.inj hr
          -- the buffer is freed behind the list
          have hmem : buf ∈ l.map Prod.fst ++ [buf] :=
            List.mem_append_right _ List.mem_cons_self
          have hnotMem : buf ∉ l.map Prod.fst := fun hp =>
            (List.nodup_append.mp hb.owns.nodup).2.2 buf hp buf List.mem_cons_self rfl
          have hlist := hb.owns.remove hmem
          rw [List.erase_append_right _ hnotMem, List.erase_cons_head] at hlist
          have hchain : Chain (h₂.remove buf) ptr l := by
            refine hb.chain.congr fun p hp => ?_
            have hne : p ≠ buf := fun heq => hnotMem (heq ▸ hp)
            exact Function.update_of_ne hne _ _
          obtain ⟨h'', hfree, hnone⟩ := freeifaddrs_owns hchain hlist
          refine ⟨h₂.remove buf, ptr, l, h'', ?_, hchain, hentries, fun p hp => ?_, hfree,
            hnone.block_eq⟩
          · rw [List.length_nil] at hout
            simp only [hout, hb.owns.free_eq hmem, Option.map_some]
          · exact hlist.rest p (by rwa [List.append_nil])

/-- Two adapters, one of them after a second round for a larger buffer, with memory for both
entries. -/
theorem ifaddrs_memory_balanced_two :
    ∃ entries, getifaddrs (fun _ => true) true
        [.overflow true, .overflow true, .success loopback [ethernet]] = some (.ok entries) ∧
      Balanced ⟨0, fun _ => none, fun _ _ => rfl⟩
        (getifaddrsOn (fun _ => true) true
          [.overflow true, .overflow true, .success loopback [ethernet]]
          ⟨0, fun _ => none, fun _ _ => rfl⟩) (.ok entries) :=
  ⟨_, rfl, ifaddrs_memory_balanced (fun _ => true) true (fun _ _ _ heq => by cases heq) _ rfl⟩

end Ifaddrs
end Wpdk
