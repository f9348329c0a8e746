/-
**Networks of an IPv4 address.**

`s_addr` is kept in network order, so a method works on it with the `htonl` of its mask; `address` reads
it back in host order, where the identities are about the bits of the prefix.

* `ipv4_networks`: the three methods for the prefix lengths whose mask the language defines, and the
  null pointers beyond 32.
* `networkAddress_first_host`: `networkAddress` yields the first host of the network.
-/
import Wyze.Address.CreateMask

namespace Wyze.Address

open Masks

/-- `AF_INET`. -/
def AF_INET : UInt16 := 2

/-- `sockaddr_in`; port and address are in network order. -/
structure SockaddrIn where
  family : UInt16
  port : UInt16
  addr : BitVec 32
deriving DecidableEq

/-- The bytes of a word in the opposite order. -/
def byteswap (value : BitVec 32) : BitVec 32 :=
  value.extractLsb' 0 8 ++ value.extractLsb' 8 8 ++ value.extractLsb' 16 8 ++
    value.extractLsb' 24 8

/-- `htonl`, and `ntohl` as well. -/
def htonl (target : Target) (value : BitVec 32) : BitVec 32 :=
  if target.bigEndian then value else byteswap value

namespace SockaddrIn

/-- The address in host order. -/
def address (target : Target) (addr : SockaddrIn) : BitVec 32 := htonl target addr.addr

/-- `IPv4Address::broadcastAddress`. -/
def broadcastAddress (target : Target) (addr : SockaddrIn) (prefixLen : UInt32) :
    Option SockaddrIn :=
  if prefixLen > 32 then none
  else
    some { addr with addr := addr.addr ||| htonl target (createMask target 32 prefixLen) }

/-- `IPv4Address::networkAddress`. -/
def networkAddress (target : Target) (addr : SockaddrIn) (prefixLen : UInt32) :
    Option SockaddrIn :=
  if prefixLen > 32 then none
  else
    let masked := addr.addr &&& ~~~ htonl target (createMask target 32 prefixLen)
    some { addr with addr := masked ||| htonl target 1#32 }

/-- `IPv4Address::subnetMask`, which does not test the length. -/
def subnetMask (target : Target) (prefixLen : UInt32) : Option SockaddrIn :=
  some {
    family := AF_INET
    port := 0
    addr := ~~~ htonl target (createMask target 32 prefixLen) }

end SockaddrIn

/-! ### Byte order -/

theorem getLsbD_byteswap (value : BitVec 32) (i : Nat) :
    (byteswap value).getLsbD i = (decide (i < 32) && value.getLsbD (8 * (3 - i / 8) + i % 8)) := by
  simp only [byteswap, BitVec.getLsbD_append, BitVec.getLsbD_extractLsb']
  -- the four bytes
  rcases Nat.lt_or_ge i 16 with low | high
  · rcases Nat.lt_or_ge i 8 with first | second <;> grind
  · rcases Nat.lt_or_ge i 24 with third | fourth <;> grind

theorem byteswap_byteswap (value : BitVec 32) : byteswap (byteswap value) = value := by
  refine BitVec.eq_of_getLsbD_eq fun i inside => ?_
  rw [getLsbD_byteswap, getLsbD_byteswap]
  grind

@[simp]
theorem htonl_htonl (target : Target) (value : BitVec 32) :
    htonl target (htonl target value) = value := by
  unfold htonl
  split
  · rfl
  · exact byteswap_byteswap value

theorem htonl_and (target : Target) (value mask : BitVec 32) :
    htonl target (value &&& mask) = htonl target value &&& htonl target mask := by
  unfold htonl
  split
  · rfl
  · refine BitVec.eq_of_getLsbD_eq fun i inside => ?_
    simp only [BitVec.getLsbD_and, getLsbD_byteswap]
    grind

theorem htonl_or (target : Target) (value mask : BitVec 32) :
    htonl target (value ||| mask) = htonl target value ||| htonl target mask := by
  unfold htonl
  split
  · rfl
  · refine BitVec.eq_of_getLsbD_eq fun i inside => ?_
    simp only [BitVec.getLsbD_or, getLsbD_byteswap]
    grind

theorem htonl_not (target : Target) (value : BitVec 32) :
    htonl target (~~~ value) = ~~~ htonl target value := by
  unfold htonl
  split
  · rfl
  · refine BitVec.eq_of_getLsbD_eq fun i inside => ?_
    simp only [BitVec.getLsbD_not, getLsbD_byteswap]
    grind

/-! ### The three methods -/

/-- Up to 32 the shift leaves the word for the length 0 only. -/
theorem shiftAmount_lt_iff {prefixLen : UInt32} (fits : prefixLen ≤ 32) :
    shiftAmount 32 prefixLen < 32 ↔ 0 < prefixLen := by
  have fits : prefixLen.toNat ≤ 32 := fits
  rw [shiftAmount_of_le fits (by decide)]
  show 32 - prefixLen.toNat < 32 ↔ 0 < prefixLen.toNat
  omega

/-- The prefix's mask, where the language defines it. -/
theorem not_createMask {target : Target} {prefixLen : UInt32} (some : 0 < prefixLen)
    (fits : prefixLen ≤ 32) (wraps : prefixLen = 1 → target.underflow = BitVec.intMax 32) :
    ~~~ createMask target 32 prefixLen = leading 32 prefixLen.toNat := by
  have some : 0 < prefixLen.toNat := some
  have fits : prefixLen.toNat ≤ 32 := fits
  rw [createMask_eq le_rfl fits (by omega), not_low]
  exact fun last => wraps (UInt32.toNat_inj.mp (by simpa using (by omega : prefixLen.toNat = 1)))

/-- **Networks of an IPv4 address.** For a length in 1..32 whose mask the language defines (for 1 where
`INT_MIN - 1` wraps), with the mask of that many leading ones: the shift stays in the word,
`subnetMask` is the mask, `networkAddress` the address under the mask with the last bit set,
`broadcastAddress` the address with the bits outside of the mask set, both with the family and port of
the address. `CountBytes` of the mask is the length, and beyond 32 two of the methods are null. -/
theorem ipv4_networks (target : Target) (addr : SockaddrIn) (prefixLen : UInt32) :
    (0 < prefixLen → prefixLen ≤ 32 →
      (prefixLen = 1 → target.underflow = BitVec.intMax 32) →
      shiftAmount 32 prefixLen < 32 ∧
      (∃ mask, SockaddrIn.subnetMask target prefixLen = some mask ∧
        mask.family = AF_INET ∧ mask.address target = leading 32 prefixLen.toNat) ∧
      (∃ network, addr.networkAddress target prefixLen = some network ∧
        network.family = addr.family ∧ network.port = addr.port ∧
        network.address target = addr.address target &&& leading 32 prefixLen.toNat ||| 1#32) ∧
      ∃ broadcast, addr.broadcastAddress target prefixLen = some broadcast ∧
        broadcast.family = addr.family ∧ broadcast.port = addr.port ∧
        broadcast.address target = addr.address target ||| ~~~ leading 32 prefixLen.toNat) ∧
    (prefixLen ≤ 32 → (countBytes (leading 32 prefixLen.toNat)).toNat = prefixLen.toNat) ∧
    (32 < prefixLen → addr.networkAddress target prefixLen = none ∧
      addr.broadcastAddress target prefixLen = none) := by
  refine ⟨fun some fits wraps => ?_, countBytes_leading le_rfl, fun beyond => ?_⟩
  · have mask := not_createMask some fits wraps
    have guarded : ¬ prefixLen > 32 := UInt32.not_lt.mpr fits
    refine ⟨(shiftAmount_lt_iff fits).mpr some, ⟨_, rfl, rfl, ?_⟩, ?_, ?_⟩
    · rw [SockaddrIn.address, htonl_not, htonl_htonl, mask]
    · rw [SockaddrIn.networkAddress, if_neg guarded]
      refine ⟨_, rfl, rfl, rfl, ?_⟩
      rw [SockaddrIn.address, htonl_or, htonl_and, htonl_not, htonl_htonl, htonl_htonl, mask]
      rfl
    · rw [SockaddrIn.broadcastAddress, if_neg guarded]
      refine ⟨_, rfl, rfl, rfl, ?_⟩
      rw [SockaddrIn.address, htonl_or, htonl_htonl, ← mask, BitVec.not_not]
      rfl
  · rw [SockaddrIn.networkAddress, SockaddrIn.broadcastAddress, if_pos beyond, if_pos beyond]
    exact ⟨rfl, rfl⟩

/-- 192.168.5.68 under a prefix of 24 bits. -/
theorem ipv4_networks_24 :
    ∃ network, SockaddrIn.networkAddress x86 { family := AF_INET, port := 0, addr := 0x4405a8c0#32 }
        24 = some network ∧
      network.address x86 = 0xc0a80544#32 &&& leading 32 24 ||| 1#32 := by
  obtain ⟨_, _, ⟨network, found, _, _, same⟩, _⟩ :=
    (ipv4_networks x86 { family := AF_INET, port := 0, addr := 0x4405a8c0#32 } 24).1
      (by decide) (by decide) (fun _ => rfl)
  exact ⟨network, found, same⟩

/-- **The first host.** `networkAddress` of 192.168.5.68 under a prefix of 24 bits is 192.168.5.1, not
192.168.5.0. -/
theorem networkAddress_first_host :
    ∃ network, SockaddrIn.networkAddress x86 { family := AF_INET, port := 0, addr := 0x4405a8c0#32 }
        24 = some network ∧
      network.address x86 = 0xc0a80501#32 ∧
      network.address x86 ≠ 0xc0a80544#32 &&& leading 32 24 :=
  ⟨_, rfl, by decide, by decide⟩

end Wyze.Address
