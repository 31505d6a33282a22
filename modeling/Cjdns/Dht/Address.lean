import Cjdns.Switch.LabelSplicer

/-!
# Addresses and versions

The address of a node as the DHT knows it: the IPv6 address, the key from which it
is computed, and the path. The prefix by which distances are measured is in the
third quarter of the IPv6 address, which stands first in `ip6.ints`.
-/

namespace Cjdns

/-- `AddressCalc_addressForPublicKey`, two rounds of SHA-512 -/
class AddressCalc where
  addressForPublicKey : BitVec 256 → BitVec 128

/-- For examples: the low bits of the key behind the prefix of all addresses -/
abbrev AddressCalc.plain : AddressCalc :=
  ⟨fun key => 0xFC#8 ++ key.extractLsb' 0 120⟩

/-- `AddressCalc_validAddress` -/
def AddressCalc.validAddress (ip6 : BitVec 128) : Bool :=
  ip6.extractLsb' 120 8 == 0xFC

/-- `struct Address` -/
structure Address where
  ip6 : BitVec 128
  key : BitVec 256
  path : BitVec 64
deriving DecidableEq

namespace Address

variable [AddressCalc]

/-- What `Address_getPrefix` leaves in the address: an all-zero `ip6` is computed from the key. -/
def resolved (addr : Address) : Address :=
  if addr.ip6 = 0 then { addr with ip6 := AddressCalc.addressForPublicKey addr.key } else addr

/-- `Address_getPrefix` -/
def getPrefix (addr : Address) : BitVec 32 :=
  addr.resolved.ip6.extractLsb' 32 32

omit [AddressCalc] in
/-- `Address_isSameIp` -/
def isSameIp (addr addr2 : Address) : Bool :=
  addr.key == addr2.key

/-- `Address_forKey`, with the path that the caller sets -/
def forKey (key : BitVec 256) (path : BitVec 64) : Address :=
  { ip6 := AddressCalc.addressForPublicKey key, key := key, path := path }

@[simp]
theorem resolved_key (addr : Address) : addr.resolved.key = addr.key := by
  unfold resolved
  split <;> rfl

@[simp]
theorem resolved_path (addr : Address) : addr.resolved.path = addr.path := by
  unfold resolved
  split <;> rfl

theorem resolved_of_ne {addr : Address} (filled : addr.ip6 ≠ 0) : addr.resolved = addr :=
  if_neg filled

@[simp]
theorem resolved_resolved (addr : Address) : addr.resolved.resolved = addr.resolved := by
  by_cases empty : addr.ip6 = 0
  · have computed : addr.resolved =
        { addr with ip6 := AddressCalc.addressForPublicKey addr.key } := if_pos empty
    rw [computed, resolved]
    split <;> rfl
  · simp only [resolved_of_ne empty]

end Address

/-- `getSwitchIndex` of `NodeStore.c`: the interface at which a path begins -/
def getSwitchIndex (addr : Address) : ℕ :=
  NumberCompress.getDecompressed addr.path (NumberCompress.bitsUsedForLabel addr.path)

namespace Version

/-- `Version_CURRENT_PROTOCOL` -/
abbrev CURRENT_PROTOCOL : BitVec 32 := 2

/-- `Version_isCompat0` -/
def isCompat0 (x y : ℕ) : Bool :=
  x == y

/-- `Version_isCompat1` -/
def isCompat1 (x y : ℕ) : Bool :=
  isCompat0 x y || x == 1

/-- `Version_isCompat2` -/
def isCompat2 (x y : ℕ) : Bool :=
  isCompat1 x y || (x == 2 && decide (y > 0))

/-- `Version_isCompatConst`, the entry of the table at a column and a row -/
def isCompatConst (x y : ℕ) : Bool :=
  if x > y then isCompat2 x y else isCompat2 y x

/-- `Version_isCompatible` -/
def isCompatible (version1 version2 : BitVec 32) : Bool :=
  let version2 := if version2.toNat ≥ 3 then 2 else version2.toNat
  let version1 := if version1.toNat ≥ 3 then 2 else version1.toNat
  isCompatConst version1 version2

end Version

end Cjdns
