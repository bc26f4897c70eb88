import Yloc.PciUnification

/-!
The format of bdfids: what hwloc packs, `print_bdfid` takes apart.

`HwlocAdapter::bdfid` puts the four fields of an address side by side, with sixteen bits
between the domain and the bus that it leaves zero. `print_bdfid` of `rocm_util.h` reads
the fields off again.

* `BdfidFields.ofBdfid`: the decomposition.
* `HwlocApi.ofBdfid_bdfid`, `HwlocApi.bdfid_ofBdfid`: the two undo one another.
* `bdfid_format`: both, and that bdfids are names of addresses.
-/

namespace Yloc

/-- The fields of a bdfid, as `print_bdfid` holds them. -/
structure BdfidFields where
  domain : UInt32
  bus : UInt32
  device : UInt32
  function : UInt32
  deriving DecidableEq, Repr

namespace BdfidFields

/-- `print_bdfid`: the fields that it writes. -/
def ofBdfid (bdfid : UInt64) : BdfidFields where
  domain := ((bdfid >>> 32) &&& 0xffffffff).toUInt32
  bus := ((bdfid >>> 8) &&& 0xff).toUInt32
  device := ((bdfid >>> 3) &&& 0x1f).toUInt32
  function := (bdfid &&& 0x7).toUInt32

/-- The fields as the members of `hwloc_pcidev_attr_s`. -/
def toHwloc (f : BdfidFields) : HwlocPcidevAttr where
  domain := f.domain
  bus := f.bus.toUInt8
  dev := f.device.toUInt8
  func := f.function.toUInt8

end BdfidFields

/-- The address as fields. -/
def PciAddress.fields (a : PciAddress) : BdfidFields where
  domain := .ofBitVec a.domain
  bus := .ofBitVec (a.bus.setWidth 32)
  device := .ofBitVec (a.device.setWidth 32)
  function := .ofBitVec (a.function.setWidth 32)

/-- A field of `m` bits above `i` bits, read off. -/
lemma toNat_field_shift (b mask k : UInt64) (m i : ℕ) (hmask : mask.toNat = 2 ^ m - 1)
    (hk : k.toNat = i) (hi : i < 64) (hm : m ≤ 32) :
    ((b >>> k) &&& mask).toUInt32.toNat = b.toNat / 2 ^ i % 2 ^ m := by
  have hlt : b.toNat / 2 ^ i % 2 ^ m < 2 ^ 32 := calc
    b.toNat / 2 ^ i % 2 ^ m < 2 ^ m := Nat.mod_lt _ (Nat.two_pow_pos m)
    _ ≤ 2 ^ 32 := Nat.pow_le_pow_right (by decide) hm
  rw [UInt64.toNat_toUInt32, toNat_and_mask _ m hmask, UInt64.toNat_shiftRight, hk,
    Nat.mod_eq_of_lt hi, Nat.shiftRight_eq_div_pow, Nat.mod_eq_of_lt hlt]

namespace BdfidFields

variable (b : UInt64)

@[simp] lemma ofBdfid_domain : (ofBdfid b).domain.toNat = b.toNat / 2 ^ 32 % 2 ^ 32 :=
  toNat_field_shift b 0xffffffff 32 32 32 rfl rfl (by decide) (by decide)

@[simp] lemma ofBdfid_bus : (ofBdfid b).bus.toNat = b.toNat / 2 ^ 8 % 2 ^ 8 :=
  toNat_field_shift b 0xff 8 8 8 rfl rfl (by decide) (by decide)

@[simp] lemma ofBdfid_device : (ofBdfid b).device.toNat = b.toNat / 2 ^ 3 % 2 ^ 5 :=
  toNat_field_shift b 0x1f 3 5 3 rfl rfl (by decide) (by decide)

@[simp] lemma ofBdfid_function : (ofBdfid b).function.toNat = b.toNat % 2 ^ 3 := by
  have hmask : (b &&& 0x7).toNat = b.toNat % 2 ^ 3 := toNat_and_mask b 3 rfl
  rw [ofBdfid, UInt64.toNat_toUInt32, hmask]
  omega

end BdfidFields

/-- Fields are told apart by their values. -/
lemma BdfidFields.eq_of_toNat {f f' : BdfidFields} (hdomain : f.domain.toNat = f'.domain.toNat)
    (hbus : f.bus.toNat = f'.bus.toNat) (hdevice : f.device.toNat = f'.device.toNat)
    (hfunction : f.function.toNat = f'.function.toNat) : f = f' := by
  rw [UInt32.toNat_inj] at hdomain hbus hdevice hfunction
  obtain ⟨domain, bus, device, function⟩ := f
  rw [mk.injEq]
  exact ⟨hdomain, hbus, hdevice, hfunction⟩

section

variable {api : HwlocApi} {obj : HwlocObj}

/-- **What hwloc packs is read off**: the fields are those of the address. -/
theorem HwlocApi.ofBdfid_bdfid (hpci : obj.type = .pciDevice) {a : PciAddress}
    (ha : obj.attrs.pcidev = a.toHwloc) :
    (api.bdfid obj).map BdfidFields.ofBdfid = some a.fields := by
  obtain ⟨b, hb, hvalue⟩ := a.bdfid_toHwloc api hpci ha
  have hdomain := a.domain.isLt
  have hbus := a.bus.isLt
  have hdevice := a.device.isLt
  have hfunction := a.function.isLt
  rw [PciAddress.value] at hvalue
  rw [hb, Option.map_some]
  refine congrArg some (BdfidFields.eq_of_toNat ?_ ?_ ?_ ?_)
  all_goals
    simp only [BdfidFields.ofBdfid_domain, BdfidFields.ofBdfid_bus, BdfidFields.ofBdfid_device,
      BdfidFields.ofBdfid_function, PciAddress.fields, UInt32.toNat_ofBitVec,
      BitVec.toNat_setWidth]
    omega

/-- **What is read off is packed again**, for values whose bits 16 to 31 are zero. -/
theorem HwlocApi.bdfid_ofBdfid (hpci : obj.type = .pciDevice) {b : UInt64}
    (hzero : (b >>> 16) &&& 0xffff = 0)
    (hb : obj.attrs.pcidev = (BdfidFields.ofBdfid b).toHwloc) : api.bdfid obj = some b := by
  have hunused : b.toNat / 2 ^ 16 % 2 ^ 16 = 0 := by
    rw [← toNat_field_shift b 0xffff 16 16 16 rfl rfl (by decide) (by decide), hzero]
    rfl
  have hlt := b.toNat_lt
  rw [HwlocApi.bdfid, if_pos (HwlocApi.sameType_iff.mpr hpci)]
  refine congrArg some (UInt64.toNat_inj.mp ?_)
  rw [toNat_bdfid, hb]
  simp only [BdfidFields.toHwloc, UInt32.toNat_toUInt64, UInt8.toNat_toUInt64,
    UInt32.toNat_toUInt8, BdfidFields.ofBdfid_domain, BdfidFields.ofBdfid_bus,
    BdfidFields.ofBdfid_device, BdfidFields.ofBdfid_function]
  omega

end

/-- **The format of bdfids**: `print_bdfid` reads off the address that hwloc has packed,
the fields of a value whose bits 16 to 31 are zero make it up again, and the identifiers of
PCI devices are names of their addresses. -/
theorem bdfid_format (api : HwlocApi) :
    (∀ (a : PciAddress) (obj : HwlocObj), obj.type = .pciDevice → obj.attrs.pcidev = a.toHwloc →
      (api.bdfid obj).map BdfidFields.ofBdfid = some a.fields) ∧
    (∀ (b : UInt64) (obj : HwlocObj), (b >>> 16) &&& 0xffff = 0 → obj.type = .pciDevice →
      obj.attrs.pcidev = (BdfidFields.ofBdfid b).toHwloc → api.bdfid obj = some b) ∧
    ∀ (a a' : PciAddress) (obj obj' : HwlocObj), obj.type = .pciDevice → obj'.type = .pciDevice →
      obj.attrs.pcidev = a.toHwloc → obj'.attrs.pcidev = a'.toHwloc →
        ((api.bdfid obj).map bdfidId = (api.bdfid obj').map bdfidId ↔ a = a') := by
  refine ⟨fun a obj hpci ha => HwlocApi.ofBdfid_bdfid hpci ha,
    fun b obj hzero hpci hb => HwlocApi.bdfid_ofBdfid hpci hzero hb, ?_⟩
  intro a a' obj obj' hpci hpci' ha ha'
  obtain ⟨b, hb, hvalue⟩ := a.bdfid_toHwloc api hpci ha
  obtain ⟨b', hb', hvalue'⟩ := a'.bdfid_toHwloc api hpci' ha'
  rw [hb, hb', Option.map_some, Option.map_some, Option.some.injEq, bdfidId_inj,
    ← UInt64.toNat_inj, hvalue, hvalue', PciAddress.value_inj]

/-- The last address there is, and the device with function number zero in its slot. -/
theorem bdfid_format_last :
    BdfidFields.ofBdfid 0xffffffff0000ffff = ⟨0xffffffff, 0xff, 0x1f, 7⟩ ∧
      HwlocApi.standard.bdfid (pciObj ⟨0xffffffff, 0xff, 0x1f, 7⟩) = some 0xffffffff0000ffff ∧
      (HwlocApi.standard.bdfid (pciObj ⟨0xffffffff, 0xff, 0x1f, 7⟩)).map bdfidId ≠
        (HwlocApi.standard.bdfid (pciObj ⟨0xffffffff, 0xff, 0x1f, 0⟩)).map bdfidId := by
  obtain ⟨hread, hpack, hname⟩ := bdfid_format HwlocApi.standard
  have hlast : HwlocApi.standard.bdfid (pciObj ⟨0xffffffff, 0xff, 0x1f, 7⟩) =
      some 0xffffffff0000ffff := hpack _ _ (by decide) rfl (by decide)
  have hfields := hread ⟨0xffffffff, 0xff, 0x1f, 7⟩ (pciObj ⟨0xffffffff, 0xff, 0x1f, 7⟩) rfl rfl
  rw [hlast] at hfields
  refine ⟨Option.some.inj hfields, hlast, fun h => ?_⟩
  exact absurd ((hname _ _ _ _ rfl rfl rfl rfl).mp h) (by decide)

end Yloc
