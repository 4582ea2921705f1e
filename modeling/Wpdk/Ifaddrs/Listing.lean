import Mathlib.Data.List.Pairwise
import Wpdk.Base.Decimal
import Wpdk.Error

/-!
# Network interfaces

Windows has a list of adapters, each with a list of addresses.  `wpdk_getifaddrs` turns them into a
list of entries, one for an address, and `wpdk_getifflags` looks for the flags of an interface by
its name.  The two go through the adapters in the same way, and what they have in common is
`wpdk_get_if_info`, which makes up a name for an address: `lo` or `en` and an index of the adapter,
of which there is one for each family.

A name stands for one adapter as long as adapters do not share indices.  The first address with a
name is then as good as any other.

* `Adapter`, `Address`: what Windows has; `getAdapters`: how it is asked for.
* `getIfInfo`, `getifaddrs`, `getifflags`: the functions.
* `Adapter.listed`: the entries that an adapter is to have; `addAdapters_eq`: those are made.
* `Separate`: no index is used by two adapters.
* `ifaddrs_ifflags_agree`: the list and the lookup agree.
-/

namespace Wpdk
namespace Ifaddrs

/-- `IP_ADAPTER_UNICAST_ADDRESS`: the family and the bytes of the socket address. -/
structure Address where
  family : ℕ
  sockaddr : List UInt8
deriving DecidableEq

/-- `IP_ADAPTER_ADDRESSES`, as far as it is used. -/
structure Adapter where
  operStatus : ℕ
  ifType : ℕ
  ifIndex : BitVec 32
  ipv6IfIndex : BitVec 32
  addresses : List Address
deriving DecidableEq

/-- `struct ifaddrs`. -/
structure IfAddr where
  name : List Char
  flags : ℕ
  addr : List UInt8
deriving DecidableEq

/-- `AF_INET`. -/
def afInet : ℕ := 2

/-- `AF_INET6`. -/
def afInet6 : ℕ := 23

/-- `IfOperStatusUp`. -/
def ifOperStatusUp : ℕ := 1

/-- `IF_TYPE_SOFTWARE_LOOPBACK`. -/
def softwareLoopback : ℕ := 24

/-- `IFF_UP`. -/
def iffUp : ℕ := 1

/-- `IFF_LOOPBACK`. -/
def iffLoopback : ℕ := 4

/-- `IF_NAMESIZE`. -/
def ifNamesize : ℕ := 16

/-! ## The functions -/

/-- A round of `wpdk_get_adapters`: what `GetAdaptersAddresses` answers, and after an overflow
whether there is memory for a larger buffer. -/
inductive AdaptersAnswer where
  | success (first : Adapter) (rest : List Adapter)
  | overflow (mem : Bool)
  | failed (rc : WinError)

/-- `wpdk_get_adapters`, or the error that it sets; nothing if it has not come to an end. -/
def getAdapters : List AdaptersAnswer → Option (Except ℕ (List Adapter))
  | [] => none
  | .success first rest :: _ => some (.ok (first :: rest))
  | .failed rc :: _ => some (.error (convertToPosix rc))
  | .overflow mem :: answers =>
    if mem then getAdapters answers else some (.error Errno.enomem.code)

/-- `*pflags`. -/
def Adapter.flags (ipa : Adapter) : ℕ :=
  (if ipa.operStatus = ifOperStatusUp then iffUp else 0) |||
    (if ipa.ifType = softwareLoopback then iffLoopback else 0)

/-- `(family == AF_INET6) ? ipa->Ipv6IfIndex : ipa->IfIndex`. -/
def Adapter.index (ipa : Adapter) (family : ℕ) : BitVec 32 :=
  if family = afInet6 then ipa.ipv6IfIndex else ipa.ifIndex

/-- The `sprintf_s` of a name; the index is converted to an `int`. -/
def Adapter.name (ipa : Adapter) (family : ℕ) : List Char :=
  (if ipa.flags &&& iffLoopback ≠ 0 then "lo".toList else "en".toList) ++
    formatInt (ipa.index family).toInt

/-- `wpdk_get_if_info`: the name and the flags. -/
def getIfInfo (ipa : Adapter) (family : ℕ) : Option (List Char × ℕ) :=
  if family ≠ afInet ∧ family ≠ afInet6 then none else some (ipa.name family, ipa.flags)

section Listing

-- whether there is memory for the next entry, by the number of those before it
variable (mem : ℕ → Bool)

/-- The inner loop of `wpdk_getifaddrs`; nothing if there is no memory. -/
def addAddresses (ipa : Adapter) : List Address → List IfAddr → Option (List IfAddr)
  | [], iflist => some iflist
  | addr :: addrs, iflist =>
    match getIfInfo ipa addr.family with
    | none => addAddresses ipa addrs iflist
    | some (name, flags) =>
      if mem iflist.length then addAddresses ipa addrs (⟨name, flags, addr.sockaddr⟩ :: iflist)
      else none

/-- The outer loop. -/
def addAdapters : List Adapter → List IfAddr → Option (List IfAddr)
  | [], iflist => some iflist
  | ipa :: ipas, iflist => (addAddresses mem ipa ipa.addresses iflist).bind (addAdapters ipas)

/-- `wpdk_getifaddrs`: the list, or the return value and `errno` if it is set. -/
def getifaddrs (ifap : Bool) (answers : List AdaptersAnswer) :
    Option (Except (ℤ × Option ℕ) (List IfAddr)) :=
  if ifap = false then some (.error (Errno.einval.code, none))
  else
    match getAdapters answers with
    | none => none
    | some (.error e) => some (.error (-1, some e))
    | some (.ok adapters) =>
      match addAdapters mem adapters [] with
      | none => some (.error (-1, some Errno.enomem.code))
      | some iflist => some (.ok iflist)

end Listing

/-- The loops of `wpdk_getifflags`, which end at the first address with the name. -/
def findFlags (name : List Char) (adapters : List Adapter) : Option ℕ :=
  adapters.findSome? fun ipa => ipa.addresses.findSome? fun addr =>
    match getIfInfo ipa addr.family with
    | none => none
    | some (ifName, flags) => if name = ifName then some flags else none

/-- `wpdk_getifflags`: the flags, or the return value and `errno`. -/
def getifflags (answers : List AdaptersAnswer) (name : List Char) :
    Option (Except (ℤ × ℕ) ℕ) :=
  match getAdapters answers with
  | none => none
  | some (.error e) => some (.error (-1, e))
  | some (.ok adapters) =>
    match findFlags name adapters with
    | some flags => some (.ok flags)
    | none => some (.error (-1, Errno.einval.code))

/-! ## Names -/

theorem length_stem (p : Prop) [Decidable p] :
    (if p then "lo".toList else "en".toList).length = 2 := by
  split <;> simp

/-- A name is not cut off: `sprintf_s` has room for it. -/
theorem length_name_lt (ipa : Adapter) (family : ℕ) : (ipa.name family).length < ifNamesize := by
  have hindex : (ipa.index family).toInt.natAbs < 10 ^ 10 := by
    have hle := BitVec.le_toInt (ipa.index family)
    have hlt := BitVec.toInt_lt (x := ipa.index family)
    have hpow : (2 : ℤ) ^ (32 - 1) = 2147483648 := by decide
    rw [hpow] at hle hlt
    omega
  have hdigits := length_formatInt_le (by decide) hindex
  unfold Adapter.name ifNamesize
  rw [List.length_append]
  rw [length_stem]
  omega

/-- **The index can be told from a name**: both beginnings are of two characters. -/
theorem index_eq_of_name_eq {a b : Adapter} {f g : ℕ} (h : a.name f = b.name g) :
    a.index f = b.index g := by
  have hlength := (length_stem (a.flags &&& iffLoopback ≠ 0)).trans
    (length_stem (b.flags &&& iffLoopback ≠ 0)).symm
  exact BitVec.toInt_inj.mp (formatInt_inj (List.append_inj h hlength).2)

/-! ## The list -/

/-- An address of one of the two families. -/
def Address.IsInet (addr : Address) : Prop := addr.family = afInet ∨ addr.family = afInet6

instance (addr : Address) : Decidable addr.IsInet := inferInstanceAs (Decidable (_ ∨ _))

/-- The addresses of an adapter in the two families. -/
def Adapter.inet (ipa : Adapter) : List Address := ipa.addresses.filter fun a => a.IsInet

/-- The entry for an address. -/
def Adapter.entry (ipa : Adapter) (addr : Address) : IfAddr :=
  ⟨ipa.name addr.family, ipa.flags, addr.sockaddr⟩

/-- **One entry for every address of the two families.** -/
def Adapter.listed (ipa : Adapter) : List IfAddr := ipa.inet.map ipa.entry

theorem getIfInfo_of_isInet {ipa : Adapter} {addr : Address} (h : addr.IsInet) :
    getIfInfo ipa addr.family = some (ipa.name addr.family, ipa.flags) := by
  refine if_neg ?_
  rintro ⟨h4, h6⟩
  exact h.elim h4 h6

theorem getIfInfo_of_not_isInet {ipa : Adapter} {addr : Address} (h : ¬ addr.IsInet) :
    getIfInfo ipa addr.family = none :=
  if_pos (not_or.mp h)

section Listing

variable {mem : ℕ → Bool}

/-- The entries are put in front of those that are there. -/
theorem addAddresses_eq {ipa : Adapter} {addrs : List Address} {iflist l : List IfAddr}
    (h : addAddresses mem ipa addrs iflist = some l) :
    l = ((addrs.filter fun a => a.IsInet).map ipa.entry).reverse ++ iflist := by
  induction addrs generalizing iflist with
  | nil => exact (Option.some.inj h).symm
  | cons addr addrs ih =>
    by_cases hinet : addr.IsInet
    · rw [addAddresses, getIfInfo_of_isInet hinet] at h
      dsimp only at h
      split at h
      · rw [ih h, List.filter_cons_of_pos (by simpa using hinet), List.map_cons,
          List.reverse_cons, List.append_assoc]
        rfl
      · cases h
    · rw [addAddresses, getIfInfo_of_not_isInet hinet] at h
      rw [ih h, List.filter_cons_of_neg (by simpa using hinet)]

theorem addAdapters_eq {adapters : List Adapter} {iflist l : List IfAddr}
    (h : addAdapters mem adapters iflist = some l) :
    l = (adapters.flatMap Adapter.listed).reverse ++ iflist := by
  induction adapters generalizing iflist with
  | nil => exact (Option.some.inj h).symm
  | cons ipa ipas ih =>
    obtain ⟨iflist', hipa, hrest⟩ := Option.bind_eq_some_iff.mp h
    rw [ih hrest, addAddresses_eq hipa, List.flatMap_cons, List.reverse_append, List.append_assoc]
    rfl

/-- With memory the loops come to an end. -/
theorem addAddresses_isSome (hmem : ∀ i, mem i = true) (ipa : Adapter) (addrs : List Address)
    (iflist : List IfAddr) : ∃ l, addAddresses mem ipa addrs iflist = some l := by
  induction addrs generalizing iflist with
  | nil => exact ⟨iflist, rfl⟩
  | cons addr addrs ih =>
    rw [addAddresses]
    cases getIfInfo ipa addr.family with
    | none => exact ih iflist
    | some info =>
      obtain ⟨name, flags⟩ := info
      dsimp only
      rw [if_pos (hmem _)]
      exact ih _

theorem addAdapters_isSome (hmem : ∀ i, mem i = true) (adapters : List Adapter)
    (iflist : List IfAddr) : ∃ l, addAdapters mem adapters iflist = some l := by
  induction adapters generalizing iflist with
  | nil => exact ⟨iflist, rfl⟩
  | cons ipa ipas ih =>
    obtain ⟨iflist', hipa⟩ := addAddresses_isSome hmem ipa ipa.addresses iflist
    obtain ⟨l, hrest⟩ := ih iflist'
    exact ⟨l, Option.bind_eq_some_iff.mpr ⟨iflist', hipa, hrest⟩⟩

end Listing

/-! ## The lookup -/

/-- What is found is at an address with the name. -/
theorem findFlags_eq_some {name : List Char} {adapters : List Adapter} {flags : ℕ}
    (h : findFlags name adapters = some flags) :
    ∃ ipa ∈ adapters, ∃ addr ∈ ipa.inet, name = ipa.name addr.family ∧ flags = ipa.flags := by
  obtain ⟨ipa, hipa, hfound⟩ := List.exists_of_findSome?_eq_some h
  obtain ⟨addr, haddr, hinfo⟩ := List.exists_of_findSome?_eq_some hfound
  by_cases hinet : addr.IsInet
  · rw [getIfInfo_of_isInet hinet] at hinfo
    dsimp only at hinfo
    split at hinfo
    · rename_i hname
      exact ⟨ipa, hipa, addr, List.mem_filter.mpr ⟨haddr, by simpa using hinet⟩, hname,
        (Option.some.inj hinfo).symm⟩
    · cases hinfo
  · rw [getIfInfo_of_not_isInet hinet] at hinfo
    cases hinfo

/-- Something is found if there is an address with the name. -/
theorem findFlags_ne_none {adapters : List Adapter} {ipa : Adapter} {addr : Address}
    (hipa : ipa ∈ adapters) (haddr : addr ∈ ipa.inet) :
    findFlags (ipa.name addr.family) adapters ≠ none := by
  obtain ⟨hmem, hinet⟩ := List.mem_filter.mp haddr
  intro hnone
  have hipa' := List.findSome?_eq_none_iff.mp hnone ipa hipa
  have haddr' := List.findSome?_eq_none_iff.mp hipa' addr hmem
  rw [getIfInfo_of_isInet (by simpa using hinet)] at haddr'
  dsimp only at haddr'
  rw [if_pos rfl] at haddr'
  cases haddr'

/-- The indices that are used for the addresses of an adapter. -/
def Adapter.indices (ipa : Adapter) : List (BitVec 32) := ipa.inet.map fun a => ipa.index a.family

/-- No index that is used for one adapter is used for another. -/
def Separate (adapters : List Adapter) : Prop :=
  adapters.Pairwise fun a b => ∀ x ∈ a.indices, x ∉ b.indices

/-- **A name stands for one adapter.** -/
theorem Separate.eq_of_name_eq {adapters : List Adapter} (h : Separate adapters) {a b : Adapter}
    (ha : a ∈ adapters) (hb : b ∈ adapters) {x y : Address} (hx : x ∈ a.inet) (hy : y ∈ b.inet)
    (hname : a.name x.family = b.name y.family) : a = b := by
  by_contra hne
  have : Std.Symm fun a b : Adapter => ∀ x ∈ a.indices, x ∉ b.indices :=
    ⟨fun a b hab z hz hz' => hab z hz' hz⟩
  have hindex : a.index x.family ∉ b.indices :=
    List.Pairwise.forall h ha hb hne _ (List.mem_map_of_mem hx)
  rw [index_eq_of_name_eq hname] at hindex
  exact hindex (List.mem_map_of_mem hy)

theorem mem_flatMap_listed {adapters : List Adapter} {e : IfAddr} :
    e ∈ adapters.flatMap Adapter.listed ↔
      ∃ ipa ∈ adapters, ∃ addr ∈ ipa.inet, ipa.entry addr = e := by
  rw [List.mem_flatMap]
  refine exists_congr fun ipa => and_congr_right fun _ => ?_
  exact List.mem_map

theorem findFlags_of_mem {adapters : List Adapter} (h : Separate adapters) {e : IfAddr}
    (he : e ∈ adapters.flatMap Adapter.listed) : findFlags e.name adapters = some e.flags := by
  obtain ⟨ipa, hipa, addr, haddr, rfl⟩ := mem_flatMap_listed.mp he
  cases hfind : findFlags (ipa.entry addr).name adapters with
  | none => exact absurd hfind (findFlags_ne_none hipa haddr)
  | some flags =>
    obtain ⟨ipa', hipa', addr', haddr', hname, rfl⟩ := findFlags_eq_some hfind
    rw [h.eq_of_name_eq hipa hipa' haddr haddr' hname]
    rfl

theorem findFlags_of_notMem {adapters : List Adapter} {name : List Char}
    (h : ∀ e ∈ adapters.flatMap Adapter.listed, e.name ≠ name) :
    findFlags name adapters = none := by
  cases hfind : findFlags name adapters with
  | none => rfl
  | some flags =>
    obtain ⟨ipa, hipa, addr, haddr, hname, -⟩ := findFlags_eq_some hfind
    exact absurd hname.symm
      (h (ipa.entry addr) (mem_flatMap_listed.mpr ⟨ipa, hipa, addr, haddr, rfl⟩))

/-- For all adapters without common indices: `wpdk_getifaddrs` returns one entry for every address
of the two families and no other, `wpdk_getifflags` has the flags of an entry under its name, and a
name without an entry is `EINVAL`. -/
theorem ifaddrs_ifflags_agree (adapters : List Adapter) (hseparate : Separate adapters)
    (answers answers' : List AdaptersAnswer) (hlist : getAdapters answers = some (.ok adapters))
    (hflags : getAdapters answers' = some (.ok adapters)) :
    (∀ mem l, getifaddrs mem true answers = some (.ok l) →
        l.reverse = adapters.flatMap Adapter.listed) ∧
      (∀ mem, (∀ i, mem i = true) → ∃ l, getifaddrs mem true answers = some (.ok l)) ∧
      (∀ e ∈ adapters.flatMap Adapter.listed, getifflags answers' e.name = some (.ok e.flags)) ∧
      ∀ name, (∀ e ∈ adapters.flatMap Adapter.listed, e.name ≠ name) →
        getifflags answers' name = some (.error (-1, Errno.einval.code)) := by
  refine ⟨fun mem l h => ?_, fun mem hmem => ?_, fun e he => ?_, fun name hname => ?_⟩
  · simp only [getifaddrs, hlist] at h
    cases hadd : addAdapters mem adapters [] with
    | none =>
      rw [hadd] at h
      cases h
    | some iflist =>
      rw [hadd] at h
      cases h
      rw [addAdapters_eq hadd, List.append_nil, List.reverse_reverse]
  · obtain ⟨l, hadd⟩ := addAdapters_isSome hmem adapters []
    refine ⟨l, ?_⟩
    simp only [getifaddrs, hlist, hadd]
    rfl
  · rw [getifflags, hflags]
    dsimp only
    rw [findFlags_of_mem hseparate he]
  · rw [getifflags, hflags]
    dsimp only
    rw [findFlags_of_notMem hname]

/-- A loopback adapter with an address of each family. -/
def loopback : Adapter := ⟨1, 24, 1, 1, [⟨2, [127, 0, 0, 1]⟩, ⟨23, [0, 1]⟩]⟩

/-- An adapter with different indices for the two families, and an address of a third one. -/
def ethernet : Adapter := ⟨1, 6, 7, 9, [⟨2, [10, 0, 0, 2]⟩, ⟨26, [5]⟩, ⟨23, [0, 2]⟩]⟩

/-- The flags of `en9`, and none for `en1`. -/
theorem ifaddrs_ifflags_agree_two :
    Separate [loopback, ethernet] ∧
      getifflags [.overflow true, .success loopback [ethernet]] "en9".toList =
        some (.ok iffUp) ∧
      getifflags [.overflow true, .success loopback [ethernet]] "en1".toList =
        some (.error (-1, Errno.einval.code)) := by
  have hindices : loopback.indices = [1, 1] ∧ ethernet.indices = [7, 9] := by decide
  have hseparate : Separate [loopback, ethernet] := by
    simp [Separate, hindices.1, hindices.2]
  have hagree := ifaddrs_ifflags_agree [loopback, ethernet] hseparate
    [.overflow true, .success loopback [ethernet]] [.overflow true, .success loopback [ethernet]]
    rfl rfl
  exact ⟨hseparate, hagree.2.2.1 ⟨"en9".toList, 1, [0, 2]⟩ (by decide),
    hagree.2.2.2 "en1".toList (by decide)⟩

end Ifaddrs
end Wpdk
