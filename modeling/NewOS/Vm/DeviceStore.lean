import NewOS.Basic

/-! # The device store: `vm_store_device.c`

A device store backs a cache with device memory at `base_addr` and pages nothing in: its fault
handler maps the faulting page straight to the device. A cache can be mapped by regions of
several address spaces (after a device region is cloned, say), each region on the cache ref's
`region_list_head`. The handler walks that list and maps the page through every region that
covers the offset, into the translation map of the faulting address space. Addresses are
`addr_t`, `w` bits wide; offsets are `off_t`. -/
namespace NewOS
namespace Vm
open Function

/-- The value of an integer converted to an `addr_t` of `w` bits. -/
def addrT (w : Nat) (x : Int) : Nat := (x % 2 ^ w).toNat

/-- The fields of a `vm_region` on a cache's region list that `device_fault` reads, with the
address space the region belongs to, its `aspace` field, which `device_fault` does not read. -/
structure VmRegion where
  aspace : Nat
  base : Nat
  size : Nat
  cacheOffset : Int
  lock : Nat
  deriving DecidableEq, Repr

/-- A call of the translation map's `map` op: virtual address, physical address, protection. -/
structure Mapping where
  va : Nat
  pa : Nat
  lock : Nat
  deriving DecidableEq, Repr

/-- The fields of a device `vm_store` and its `device_store_data`. -/
structure DeviceStore where
  baseAddr : Nat
  committedSize : Int
  deriving DecidableEq, Repr

/-- Models `vm_store_create_device(base_addr)`; `none` when the `kmalloc` fails. -/
def vmStoreCreateDevice (baseAddr : Nat) (allocOk : Bool) : Option DeviceStore :=
  if allocOk then some ⟨baseAddr, 0⟩ else none

/-- Models `device_commit(store, size)`: the size is recorded and returned. -/
def deviceCommit (store : DeviceStore) (size : Int) : DeviceStore × Int :=
  ({ store with committedSize := size }, size)

/-- `offset >= region->cache_offset && (offset - region->cache_offset) < region->size`. -/
def VmRegion.covers (r : VmRegion) (offset : Int) : Bool :=
  decide (r.cacheOffset ≤ offset ∧ offset - r.cacheOffset < r.size)

/-- The `map` call `device_fault` makes through region `r`: the page's address in the region,
`region->base + (offset - region->cache_offset)`, to `d->base_addr + offset`. -/
def faultMapping (w baseAddr : Nat) (offset : Int) (r : VmRegion) : Mapping :=
  ⟨addrT w (r.base + (offset - r.cacheOffset)), addrT w (baseAddr + offset), r.lock⟩

/-- The `list_for_every_entry` loop of `device_fault` over the cache's regions: each region that
covers `offset` adds its mapping to the translation map of `aspace`. -/
def faultLoop (w baseAddr aspace : Nat) (offset : Int) :
    List VmRegion → (Nat → List Mapping) → Nat → List Mapping
  | [], maps => maps
  | r :: rs, maps =>
    faultLoop w baseAddr aspace offset rs
      (if r.covers offset then update maps aspace (maps aspace ++ [faultMapping w baseAddr offset r])
       else maps)

/-- Models `device_fault(store, aspace, offset)` for a store whose cache's region list is
`regions`, with the translation maps `maps` of the address spaces (each the `map` calls made
on it, in order); it returns 0. The cache ref's lock and the map's lock are held throughout. -/
def deviceFault (w : Nat) (store : DeviceStore) (regions : List VmRegion) (maps : Nat → List Mapping)
    (aspace : Nat) (offset : Int) : Nat → List Mapping :=
  faultLoop w store.baseAddr aspace offset regions maps

variable {w baseAddr aspace : Nat} {offset : Int}

/-- The loop adds to `aspace`'s map the mappings of the covering regions, in list order, and
leaves the other maps as they were. -/
theorem faultLoop_eq (regions : List VmRegion) (maps : Nat → List Mapping) :
    faultLoop w baseAddr aspace offset regions maps =
      update maps aspace
        (maps aspace ++ (regions.filter (·.covers offset)).map (faultMapping w baseAddr offset)) := by
  induction regions generalizing maps with
  | nil => simp [faultLoop]
  | cons r rs ih =>
    rw [faultLoop, ih]
    by_cases hc : r.covers offset
    · simp [hc, List.filter_cons_of_pos]
    · simp [hc, List.filter_cons_of_neg]

/-- `device_fault`, for every device store, every list of regions of any address spaces, every
faulting address space and every offset: one `map` call per region on the list that covers the
offset, in list order, whichever address space the region belongs to, all into the translation
map of the faulting address space; no other map changes. -/
theorem deviceFault_maps (store : DeviceStore) (regions : List VmRegion)
    (maps : Nat → List Mapping) (aspace : Nat) (offset : Int) :
    deviceFault w store regions maps aspace offset aspace =
        maps aspace ++ (regions.filter (·.covers offset)).map (faultMapping w store.baseAddr offset) ∧
      ∀ a, a ≠ aspace → deviceFault w store regions maps aspace offset a = maps a := by
  rw [deviceFault, faultLoop_eq]
  exact ⟨update_same _ _ _, fun a ha => update_noteq ha _ _⟩

/-- `device_fault` never reads a region's address space. For every region list that holds a
region of another address space covering the offset, the fault of `aspace` puts into `aspace`'s
translation map the mapping at that region's address, `r->base + (offset - r->cache_offset)`,
an address of the other address space; and it makes more `map` calls than `aspace` has regions
covering the offset. -/
theorem deviceFault_maps_foreign (store : DeviceStore) {regions : List VmRegion}
    (maps : Nat → List Mapping) {r : VmRegion} (hr : r ∈ regions) (hcov : r.covers offset)
    (hother : r.aspace ≠ aspace) :
    faultMapping w store.baseAddr offset r ∈ deviceFault w store regions maps aspace offset aspace ∧
      (maps aspace).length +
          (regions.filter fun r' => decide (r'.aspace = aspace) && r'.covers offset).length <
        (deviceFault w store regions maps aspace offset aspace).length := by
  have hfaulted : deviceFault w store regions maps aspace offset aspace =
      maps aspace ++ (regions.filter (·.covers offset)).map (faultMapping w store.baseAddr offset) := by
    rw [deviceFault, faultLoop_eq, update_same]
  have hmem : r ∈ regions.filter (·.covers offset) := List.mem_filter.2 ⟨hr, hcov⟩
  have hfewer : (regions.filter fun r' => decide (r'.aspace = aspace) && r'.covers offset).length <
      (regions.filter (·.covers offset)).length := by
    rw [← List.filter_filter (·.covers offset) regions]
    exact List.length_filter_lt_length_iff_exists.2 ⟨r, hmem, by simpa using hother⟩
  rw [hfaulted, List.length_append, List.length_map]
  exact ⟨List.mem_append_right _ (List.mem_map_of_mem _ hmem), by omega⟩

/-- Region 1 of address space 1 covers offset `0x10`: the fault of address space 0 maps its
address `0x8010` into address space 0. -/
theorem deviceFault_maps_foreign_two_spaces :
    faultMapping 32 0xf0000000 0x10 ⟨1, 0x8000, 0x1000, 0, 3⟩ ∈
        deviceFault 32 ⟨0xf0000000, 0⟩ [⟨0, 0x1000, 0x1000, 0, 3⟩, ⟨1, 0x8000, 0x1000, 0, 3⟩]
          (fun _ => []) 0 0x10 0 ∧
      ([] : List Mapping).length +
          ([⟨0, 0x1000, 0x1000, 0, 3⟩, ⟨1, 0x8000, 0x1000, 0, 3⟩].filter
            fun r' : VmRegion => decide (r'.aspace = 0) && r'.covers 0x10).length <
        (deviceFault 32 ⟨0xf0000000, 0⟩ [⟨0, 0x1000, 0x1000, 0, 3⟩, ⟨1, 0x8000, 0x1000, 0, 3⟩]
          (fun _ => []) 0 0x10 0).length :=
  deviceFault_maps_foreign _ _ (by simp) (by decide) (by decide)

end Vm
end NewOS
