import Mathlib.Logic.Function.Basic
import Mathlib.Order.Bounds.Defs
import Wpdk.Base.Signed
import Wpdk.Error

/-!
# Mapping files into memory

`wpdk_mmap` and `wpdk_munmap` of `mman.c`.  A view can only start at a multiple of the allocation
granularity, both in the file and in memory.  So `wpdk_mmap` maps from the multiple below the offset
and returns a pointer into the view, and `wpdk_munmap` finds the base of the view by rounding the
pointer down.

The offset is signed, the length is unsigned, and of all that can go wrong with their sum only one
thing is checked: that the upper half of the size of the view is zero.  An offset below zero, a
length of zero and a sum that wraps can all give a small size.

* `Memory`: the file mappings that were created, and the views.
* `Os`: the calls of the operating system, and what is known of where it puts a view.
* `mmap`, `munmap`: the two functions.
* `Placed`: what a call that succeeds should have done; `placed_of_acceptable` shows that it has.
* `mmap_covers_iff`: a call is right exactly if offset and length are in range or no file mapping is
  created.
-/

namespace Wpdk
namespace Mman

open IntType

/-- What `MapViewOfFile` is asked for. -/
structure View where
  file : ℕ
  offset : ℕ
  bytes : ℕ
deriving DecidableEq

/-- The file mappings that were created, each with its file and its maximum size, and the views by
their base addresses. -/
structure Memory where
  created : List (ℕ × ℕ)
  views : ℕ → Option View

/-- The operating system.  A view is put at a multiple of the granularity where there is none yet,
and does not reach past the end of the address space. -/
structure Os where
  granularity : ℕ
  osfhandle : ℤ → Option ℕ
  createFileMapping : Memory → ℕ → ℕ → Except WinError Unit
  mapViewOfFile : Memory → View → Except WinError ℕ
  unmapFailure : Memory → ℕ → WinError
  granularity_pos : 0 < granularity
  granularity_lt : granularity < 4294967296
  dvd_base : ∀ {m view base}, mapViewOfFile m view = .ok base → granularity ∣ base
  free_base : ∀ {m view base}, mapViewOfFile m view = .ok base → m.views base = none
  base_add_bytes_le : ∀ {m view base}, mapViewOfFile m view = .ok base →
    base + view.bytes ≤ 18446744073709551616

/-- The arguments of `wpdk_mmap` that it looks at. -/
structure Request where
  addr : ℕ
  len : ℕ
  fildes : ℤ
  off : ℤ
  len_lt : len < 18446744073709551616
  fits_off : int64.Fits off

/-- `start`.  The product does not overflow, being between zero and the offset. -/
def viewStart (os : Os) (r : Request) : ℤ := r.off.tdiv os.granularity * os.granularity

/-- `end`: the sum is unsigned, since the length is. -/
def viewEnd (r : Request) : ℤ := toInt64 (toSize (toSize r.off + r.len))

/-- The maximum size of the file mapping. -/
def limit (r : Request) : ℕ := ofHalves (toDword (highPart (viewEnd r))) (lowPart (viewEnd r))

/-- The view that is asked for. -/
def requested (os : Os) (r : Request) (file : ℕ) (size : ℤ) : View :=
  { file
    offset := ofHalves (toDword (highPart (viewStart os r))) (lowPart (viewStart os r))
    bytes := lowPart size }

/-- `MapViewOfFile`, and what is returned. -/
def mapView (os : Os) (m : Memory) (r : Request) (view : View) : Memory × Except ℕ ℕ :=
  match os.mapViewOfFile m view with
  | .error e => (m, .error (convertToPosix e))
  | .ok base =>
    ({ m with views := Function.update m.views base (some view) },
      .ok (toSize (base + (r.off - viewStart os r))))

/-- `CreateFileMapping`, and what follows it. -/
def mapFile (os : Os) (m : Memory) (r : Request) (view : View) : Memory × Except ℕ ℕ :=
  match os.createFileMapping m view.file (limit r) with
  | .error e => (m, .error (convertToPosix e))
  | .ok _ => mapView os { m with created := (view.file, limit r) :: m.created } r view

/-- `wpdk_mmap`: a pointer or an `errno`, and nothing at all if the size overflows. -/
def mmap (os : Os) (m : Memory) (r : Request) : Option (Memory × Except ℕ ℕ) :=
  if r.addr ≠ 0 then some (m, .error Errno.einval.code)
  else
    match os.osfhandle r.fildes with
    | none => some (m, .error Errno.ebadf.code)
    | some file =>
      (int64.value (viewEnd r - viewStart os r)).map fun size =>
        if highPart size ≠ 0 then (m, .error Errno.einval.code)
        else mapFile os m r (requested os r file size)

/-- `wpdk_munmap`.  `UnmapViewOfFile` wants the base of a view. -/
def munmap (os : Os) (m : Memory) (addr : ℕ) : Memory × Except ℕ Unit :=
  let base := addr / os.granularity * os.granularity
  match m.views base with
  | none => (m, .error (convertToPosix (os.unmapFailure m base)))
  | some _ => ({ m with views := Function.update m.views base none }, .ok ())

/-! ## What a mapping should be -/

/-- An interval of a file. -/
def InRange (r : Request) : Prop :=
  0 ≤ r.off ∧ 0 < r.len ∧ r.off + r.len ≤ 9223372036854775807

/-- An interval of a file that fits a view. -/
def Acceptable (os : Os) (r : Request) : Prop :=
  InRange r ∧ r.off + r.len - r.off / os.granularity * os.granularity < 4294967296

/-- The view at `base` is new and has the interval of the file in it, `p` points to the start of the
interval, and unmapping `p` removes this view and no other. -/
structure Placed (os : Os) (m : Memory) (r : Request) (m' : Memory) (p base : ℕ) (view : View) :
    Prop where
  free : m.views base = none
  mapped : m'.views = Function.update m.views base (some view)
  start : IsGreatest {k : ℤ | (os.granularity : ℤ) ∣ k ∧ k ≤ r.off} view.offset
  bytes_lt : view.bytes < 4294967296
  covers : r.off + r.len ≤ view.offset + view.bytes
  pointer : (p : ℤ) = base + (r.off - view.offset)
  unmaps : ∀ n : Memory, n.views base = some view →
    munmap os n p = ({ n with views := Function.update n.views base none }, .ok ())
  undoes : munmap os m' p = ({ m' with views := m.views }, .ok ())

/-- **A call is right.**  It has a meaning; if it succeeds, the interval is in range and the view is
placed as it should be; and it fails without any effect for an interval that is not acceptable. -/
def Right (os : Os) (m : Memory) (r : Request) : Prop :=
  ∃ m' ret, mmap os m r = some (m', ret) ∧
    (∀ p, ret = .ok p → InRange r ∧ ∃ base view, Placed os m r m' p base view) ∧
    (¬ Acceptable os r → m' = m ∧ ∃ e, ret = .error e)

/-- No file mapping is created: an address is given, there is no file, the upper half of the size is
not zero, or the operating system refuses. -/
def Refused (os : Os) (m : Memory) (r : Request) : Prop :=
  r.addr ≠ 0 ∨ ∀ file, os.osfhandle r.fildes = some file →
    int64.Fits (viewEnd r - viewStart os r) ∧
      (highPart (viewEnd r - viewStart os r) ≠ 0 ∨
        ∃ e, os.createFileMapping m file (limit r) = .error e)

section

variable {os : Os} {m m' : Memory} {r : Request} {view : View} {base file : ℕ}

/-! ## The base of a view -/

theorem granularity_pos_int (os : Os) : (0 : ℤ) < os.granularity := by
  have hpos := os.granularity_pos
  omega

theorem isGreatest_multiple {g : ℤ} (hg : 0 < g) (x : ℤ) :
    IsGreatest {k : ℤ | g ∣ k ∧ k ≤ x} (x / g * g) := by
  constructor
  · exact ⟨Int.dvd_mul_left _ _, Int.ediv_mul_le x (by omega)⟩
  · rintro k ⟨⟨n, rfl⟩, hle⟩
    have hn : n ≤ x / g := by
      rw [Int.le_ediv_iff_mul_le hg, Int.mul_comm]
      exact hle
    rw [Int.mul_comm g n]
    exact Int.mul_le_mul_of_nonneg_right hn (by omega)

theorem sub_multiple_lt {g : ℤ} (hg : 0 < g) (x : ℤ) : x - x / g * g < g := by
  have hdiv := Int.emod_add_mul_ediv x g
  have hmod := Int.emod_lt_of_pos x hg
  rw [Int.mul_comm] at hdiv
  omega

/-- Rounding a pointer down finds the multiple that it is less than one granularity above. -/
theorem round_pointer {g p d : ℕ} (hbase : g ∣ base) (hp : p = base + d) (hd : d < g) :
    p / g * g = base := by
  obtain ⟨k, rfl⟩ := hbase
  rw [hp, Nat.mul_add_div (by omega), Nat.div_eq_of_lt hd, Nat.add_zero, Nat.mul_comm]

theorem munmap_of_mapped {p : ℕ} (hp : p / os.granularity * os.granularity = base)
    (h : m.views base = some view) :
    munmap os m p = ({ m with views := Function.update m.views base none }, .ok ()) := by
  rw [munmap]
  simp only [hp, h]

/-! ## The numbers of a call in range -/

theorem viewStart_of_nonneg (os : Os) (h : 0 ≤ r.off) :
    viewStart os r = r.off / os.granularity * os.granularity := by
  rw [viewStart, tdiv_of_nonneg _ h]

theorem viewEnd_of_inRange (h : InRange r) : viewEnd r = r.off + r.len := by
  obtain ⟨hoff, hlen, hmax⟩ := h
  have hlt := r.len_lt
  rw [viewEnd, toSize_of_lt hoff (by omega), toSize_of_lt (by omega) (by omega),
    toInt64_of_fits (by rw [fits_int64]; omega)]

theorem viewStart_nonneg (os : Os) (h : 0 ≤ r.off) : 0 ≤ viewStart os r := by
  have hg := granularity_pos_int os
  rw [viewStart_of_nonneg os h]
  exact Int.mul_nonneg (Int.ediv_nonneg h (by omega)) (by omega)

theorem viewStart_le (os : Os) (h : 0 ≤ r.off) : viewStart os r ≤ r.off := by
  rw [viewStart_of_nonneg os h]
  exact (isGreatest_multiple (granularity_pos_int os) r.off).1.2

theorem fits_size_of_inRange (os : Os) (h : InRange r) :
    int64.Fits (viewEnd r - viewStart os r) := by
  have hstart := viewStart_nonneg os h.1
  have hle := viewStart_le os h.1
  obtain ⟨hoff, hlen, hmax⟩ := h
  rw [viewEnd_of_inRange ⟨hoff, hlen, hmax⟩, fits_int64]
  omega

theorem highPart_size_eq_zero_iff (os : Os) (h : InRange r) :
    highPart (viewEnd r - viewStart os r) = 0 ↔ Acceptable os r := by
  have hle := viewStart_le os h.1
  rw [highPart_eq_zero_iff, Acceptable, viewEnd_of_inRange h, ← viewStart_of_nonneg os h.1]
  constructor
  · rintro ⟨-, hlt⟩
    exact ⟨h, hlt⟩
  · rintro ⟨-, hlt⟩
    obtain ⟨-, hlen, -⟩ := h
    exact ⟨by omega, hlt⟩

theorem requested_offset (os : Os) (h : 0 ≤ r.off) (file : ℕ) (size : ℤ) :
    ((requested os r file size).offset : ℤ) = viewStart os r := by
  have hle := viewStart_le os h
  have hmax := r.fits_off
  have hstart := viewStart_nonneg os h
  refine ofHalves_of_nonneg hstart ?_
  rw [fits_int64] at hmax ⊢
  omega

theorem bytes_requested (os : Os) (r : Request) (file : ℕ) (size : ℤ) :
    (requested os r file size).bytes = lowPart size := rfl

theorem requested_bytes (h : Acceptable os r) (file : ℕ) :
    ((requested os r file (viewEnd r - viewStart os r)).bytes : ℤ) =
      r.off + r.len - viewStart os r := by
  have hzero := (highPart_size_eq_zero_iff os h.1).mpr h
  rw [bytes_requested, lowPart_of_highPart hzero, viewEnd_of_inRange h.1]

/-! ## The branches -/

theorem mmap_of_addr (h : r.addr ≠ 0) : mmap os m r = some (m, .error Errno.einval.code) :=
  if_pos h

theorem mmap_of_no_file (haddr : r.addr = 0) (h : os.osfhandle r.fildes = none) :
    mmap os m r = some (m, .error Errno.ebadf.code) := by
  rw [mmap, if_neg (by omega), h]

theorem mmap_of_file (haddr : r.addr = 0) (h : os.osfhandle r.fildes = some file) :
    mmap os m r = (int64.value (viewEnd r - viewStart os r)).map fun size =>
      if highPart size ≠ 0 then (m, .error Errno.einval.code)
      else mapFile os m r (requested os r file size) := by
  rw [mmap, if_neg (by omega), h]

/-- A call that fails without any effect is right. -/
theorem right_of_unchanged {e : ℕ} (h : mmap os m r = some (m, .error e)) : Right os m r := by
  refine ⟨m, .error e, h, ?_, fun _ => ⟨rfl, e, rfl⟩⟩
  intro p hp
  cases hp

theorem mapView_created (os : Os) (m : Memory) (r : Request) (view : View) :
    (mapView os m r view).1.created = m.created := by
  rw [mapView]
  cases os.mapViewOfFile m view with
  | error e => rfl
  | ok base => rfl

theorem mapFile_of_refused {e : WinError}
    (h : os.createFileMapping m view.file (limit r) = .error e) :
    mapFile os m r view = (m, .error (convertToPosix e)) := by
  rw [mapFile, h]

theorem mapFile_of_created (h : os.createFileMapping m view.file (limit r) = .ok ()) :
    mapFile os m r view =
      mapView os { m with created := (view.file, limit r) :: m.created } r view := by
  rw [mapFile, h]

/-! ## A view that is placed as it should be -/

theorem placed_of_acceptable (h : Acceptable os r)
    (hview : view = requested os r file (viewEnd r - viewStart os r))
    (hviews : m'.views = m.views) (hbase : os.mapViewOfFile m' view = .ok base) :
    Placed os m r { m' with views := Function.update m'.views base (some view) }
      (toSize (base + (r.off - viewStart os r))) base view := by
  have hoffset : (view.offset : ℤ) = viewStart os r := by
    rw [hview, requested_offset os h.1.1]
  have hbytes : (view.bytes : ℤ) = r.off + r.len - viewStart os r := by
    rw [hview, requested_bytes h]
  have hle := viewStart_le os h.1.1
  have hroom := os.base_add_bytes_le hbase
  have hlen := h.1.2.1
  -- the start of the interval is in the view, which ends before the address space does
  have hpointer : (toSize (base + (r.off - viewStart os r)) : ℤ) =
      base + (r.off - viewStart os r) := toSize_of_lt (by omega) (by omega)
  have hround : toSize (base + (r.off - viewStart os r)) / os.granularity * os.granularity =
      base := by
    refine round_pointer (d := (r.off - viewStart os r).toNat) (os.dvd_base hbase) (by omega) ?_
    have hlt := sub_multiple_lt (granularity_pos_int os) r.off
    rw [← viewStart_of_nonneg os h.1.1] at hlt
    omega
  have hfree := os.free_base hbase
  constructor
  case free => rw [← hviews, hfree]
  case mapped => rw [← hviews]
  case start =>
    rw [hoffset, viewStart_of_nonneg os h.1.1]
    exact isGreatest_multiple (granularity_pos_int os) r.off
  case bytes_lt =>
    have hsmall := h.2
    rw [← viewStart_of_nonneg os h.1.1] at hsmall
    omega
  case covers => omega
  case pointer => rw [hpointer, hoffset]
  case unmaps =>
    intro n hn
    exact munmap_of_mapped hround hn
  case undoes =>
    rw [munmap_of_mapped hround (Function.update_self base (some view) m'.views)]
    rw [Function.update_idem, ← hviews, ← hfree, Function.update_eq_self]

theorem right_of_acceptable (h : Acceptable os r)
    (hview : view = requested os r file (viewEnd r - viewStart os r))
    (hmmap : mmap os m r = some (mapFile os m r view)) : Right os m r := by
  cases hcreate : os.createFileMapping m view.file (limit r) with
  | error e =>
    rw [mapFile_of_refused hcreate] at hmmap
    exact right_of_unchanged hmmap
  | ok _ =>
    rw [mapFile_of_created hcreate, mapView] at hmmap
    cases hbase : os.mapViewOfFile { m with created := (view.file, limit r) :: m.created } view with
    | error e =>
      rw [hbase] at hmmap
      refine ⟨_, _, hmmap, ?_, fun hnot => absurd h hnot⟩
      intro p hp
      cases hp
    | ok base =>
      rw [hbase] at hmmap
      refine ⟨_, _, hmmap, ?_, fun hnot => absurd h hnot⟩
      intro p hp
      cases hp
      exact ⟨h.1, base, view, placed_of_acceptable h hview rfl hbase⟩

/-- An interval in range is mapped as it should be, or refused. -/
theorem right_of_inRange (m : Memory) (h : InRange r) : Right os m r := by
  by_cases haddr : r.addr = 0
  case neg => exact right_of_unchanged (mmap_of_addr haddr)
  cases hfile : os.osfhandle r.fildes with
  | none => exact right_of_unchanged (mmap_of_no_file haddr hfile)
  | some file =>
    have hmmap := mmap_of_file (m := m) haddr hfile
    rw [value_of_fits (fits_size_of_inRange os h), Option.map_some] at hmmap
    by_cases hacc : Acceptable os r
    · rw [if_neg (not_not_intro ((highPart_size_eq_zero_iff os h).mpr hacc))] at hmmap
      exact right_of_acceptable hacc rfl hmmap
    · rw [if_pos (fun hzero => hacc ((highPart_size_eq_zero_iff os h).mp hzero))] at hmmap
      exact right_of_unchanged hmmap

/-! ## Calls that should be refused -/

theorem right_of_refused (h : Refused os m r) : Right os m r := by
  by_cases haddr : r.addr = 0
  case neg => exact right_of_unchanged (mmap_of_addr haddr)
  cases hfile : os.osfhandle r.fildes with
  | none => exact right_of_unchanged (mmap_of_no_file haddr hfile)
  | some file =>
    obtain ⟨hfits, hrefused⟩ := h.resolve_left (not_not_intro haddr) file hfile
    have hmmap := mmap_of_file (m := m) haddr hfile
    rw [value_of_fits hfits, Option.map_some] at hmmap
    by_cases hhigh : highPart (viewEnd r - viewStart os r) = 0
    · obtain ⟨e, he⟩ := hrefused.resolve_left (not_not_intro hhigh)
      rw [if_neg (not_not_intro hhigh), mapFile_of_refused he] at hmmap
      exact right_of_unchanged hmmap
    · rw [if_pos hhigh] at hmmap
      exact right_of_unchanged hmmap

/-- The file mapping of a call that is neither in range nor refused is there afterwards. -/
theorem refused_of_right (h : Right os m r) (hrange : ¬ InRange r) : Refused os m r := by
  obtain ⟨m', ret, hmmap, -, hreject⟩ := h
  obtain ⟨rfl, -⟩ := hreject fun hacc => hrange hacc.1
  by_cases haddr : r.addr = 0
  case neg => exact Or.inl haddr
  refine Or.inr fun file hfile => ?_
  rw [mmap_of_file haddr hfile, Option.map_eq_some_iff] at hmmap
  obtain ⟨size, hsize, hret⟩ := hmmap
  obtain ⟨hfits, rfl⟩ := value_eq_some_iff.mp hsize
  refine ⟨hfits, or_iff_not_imp_left.mpr fun hhigh => ?_⟩
  rw [if_neg hhigh] at hret
  cases hcreate : os.createFileMapping m' file (limit r) with
  | error e => exact ⟨e, rfl⟩
  | ok _ =>
    rw [mapFile_of_created hcreate] at hret
    have hcreated := mapView_created os
      { m' with created := (file, limit r) :: m'.created } r
      (requested os r file (viewEnd r - viewStart os r))
    exact absurd (hcreated.symm.trans (congrArg (fun x => x.1.created) hret))
      (List.cons_ne_self _ _)

end

/-- **What is mapped covers the request.**  A call is right exactly if the interval is one of a
file, or no file mapping is created for it. -/
theorem mmap_covers_iff (os : Os) (m : Memory) (r : Request) :
    Right os m r ↔ InRange r ∨ Refused os m r := by
  constructor
  · intro h
    by_cases hrange : InRange r
    · exact Or.inl hrange
    · exact Or.inr (refused_of_right h hrange)
  · rintro (hrange | hrefused)
    · exact right_of_inRange m hrange
    · exact right_of_refused hrefused

/-! ## Small sizes of intervals that are not in range -/

/-- A system with room for one view, at its granularity. -/
def oneView : Os where
  granularity := 65536
  osfhandle _ := some 0
  createFileMapping _ _ _ := .ok ()
  mapViewOfFile m view :=
    if m.views 65536 = none ∧ view.bytes ≤ 4294967296 then .ok 65536
    else .error .errorNotEnoughMemory
  unmapFailure _ _ := .errorInvalidAddress
  granularity_pos := by decide
  granularity_lt := by decide
  dvd_base := by
    intro m view base h
    split at h
    · cases h
      exact Nat.dvd_refl 65536
    · cases h
  free_base := by
    intro m view base h
    split at h
    next hroom =>
      cases h
      exact hroom.1
    · cases h
  base_add_bytes_le := by
    intro m view base h
    split at h
    next hroom =>
      cases h
      have hbytes := hroom.2
      omega
    · cases h

/-- Nothing is mapped. -/
def noViews : Memory := ⟨[], fun _ => none⟩

/-- An interval of the file `3`. -/
def interval (off : ℤ) (len : ℕ) (hoff : int64.Fits off) (hlen : len < 18446744073709551616) :
    Request :=
  ⟨0, len, 3, off, hlen, hoff⟩

/-- Ten bytes from the offset `-1` on. -/
def beforeStart : Request := interval (-1) 10 (by decide) (by decide)

/-- No bytes from the offset 8 on. -/
def noBytes : Request := interval 8 0 (by decide) (by decide)

/-- A length for which the sum with the offset 100 wraps to 50. -/
def wrapping : Request := interval 100 18446744073709551566 (by decide) (by decide)

/-- The system creates every file mapping that is asked for. -/
theorem not_right_oneView {m : Memory} {r : Request} (haddr : r.addr = 0) (hrange : ¬ InRange r)
    (hhigh : highPart (viewEnd r - viewStart oneView r) = 0) : ¬ Right oneView m r := by
  intro h
  obtain haddr' | hfile := refused_of_right h hrange
  · exact haddr' haddr
  · obtain ⟨-, hhigh' | ⟨e, he⟩⟩ := hfile 0 rfl
    · exact hhigh' hhigh
    · cases he

/-- The three views start at the offset 0.  The pointer for the first interval is below its view,
so that unmapping it leaves the view; the second interval is empty; and in the third view there are
50 bytes, of which the pointer is past the end. -/
theorem mmap_covers_too_little :
    ((mmap oneView noViews beforeStart).map fun x => (x.1.views 65536, x.2.toOption)) =
        some (some ⟨0, 0, 9⟩, some 65535) ∧
      ((mmap oneView noViews beforeStart).map fun x => (munmap oneView x.1 65535).1.views 65536) =
        some (some ⟨0, 0, 9⟩) ∧
      ((mmap oneView noViews noBytes).map fun x => (x.1.views 65536, x.2.toOption)) =
        some (some ⟨0, 0, 8⟩, some 65544) ∧
      ((mmap oneView noViews wrapping).map fun x => (x.1.views 65536, x.2.toOption)) =
        some (some ⟨0, 0, 50⟩, some 65636) ∧
      ¬ Right oneView noViews beforeStart ∧ ¬ Right oneView noViews noBytes ∧
      ¬ Right oneView noViews wrapping := by
  refine ⟨by decide +kernel, by decide +kernel, by decide +kernel, by decide +kernel, ?_, ?_, ?_⟩
  · exact not_right_oneView rfl (fun h => absurd h.1 (by decide)) (by decide)
  · exact not_right_oneView rfl (fun h => absurd h.2.1 (by decide)) (by decide)
  · exact not_right_oneView rfl (fun h => absurd h.2.2 (by decide)) (by decide)

end Mman
end Wpdk
