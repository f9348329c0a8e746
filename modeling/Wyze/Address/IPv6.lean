/-
**Networks of an IPv6 address.**

The methods change the byte in which the prefix ends and fill the bytes behind or before it. A byte
outside of `s6_addr` ends a method (`none`).

* `ipv6_networks_iff`: a prefix of 128 bits ends in no byte, and the first statement of each method is
  outside. Below, `subnetMask` and `broadcastAddress` are right. `networkAddress` keeps the bits of the
  last byte that it should clear and clears those it should keep; it is right where they are all 0.
-/
import Wyze.Address.CreateMask

namespace Wyze.Address

open Masks

/-- `AF_INET6`. -/
def AF_INET6 : UInt16 := 10

/-- The bytes of an address. -/
abbrev Bytes : Type := Vector (BitVec 8) 16

/-- `sockaddr_in6`. -/
structure SockaddrIn6 where
  family : UInt16
  port : UInt16
  addr : Bytes
deriving DecidableEq

/-- Change one byte of `s6_addr`. -/
def modify (bytes : Bytes) (index : Nat) (change : BitVec 8 → BitVec 8) : Option Bytes :=
  if inside : index < 16 then some (bytes.set index (change bytes[index])) else none

/-- A loop that writes one value to each of the indices. -/
def fill (value : BitVec 8) : List Nat → Bytes → Option Bytes
  | [], bytes => some bytes
  | index :: rest, bytes => (modify bytes index fun _ => value).bind (fill value rest)

namespace SockaddrIn6

/-- `IPv6Address::broadcastAddress`. -/
def broadcastAddress (target : Target) (addr : SockaddrIn6) (prefixLen : UInt32) :
    Option SockaddrIn6 := do
  let last := prefixLen.toNat / 8
  let bytes ← modify addr.addr last (· ||| createMask target 8 (prefixLen % 8))
  let bytes ← fill 0xff#8 (List.range' (last + 1) (16 - (last + 1))) bytes
  return { addr with addr := bytes }

/-- `IPv6Address::networkAddress`. -/
def networkAddress (target : Target) (addr : SockaddrIn6) (prefixLen : UInt32) :
    Option SockaddrIn6 := do
  let last := prefixLen.toNat / 8
  let bytes ← modify addr.addr last (· &&& createMask target 8 (prefixLen % 8))
  let bytes ← fill 0x00#8 (List.range' (last + 1) (16 - (last + 1))) bytes
  return { addr with addr := bytes }

/-- `IPv6Address::subnetMask`. -/
def subnetMask (target : Target) (prefixLen : UInt32) : Option SockaddrIn6 := do
  let last := prefixLen.toNat / 8
  let bytes ← modify (Vector.replicate 16 0#8) last
    fun _ => ~~~ createMask target 8 (prefixLen % 8)
  let bytes ← fill 0xff#8 (List.range last) bytes
  return { family := AF_INET6, port := 0, addr := bytes }

end SockaddrIn6

/-! ### Bytes -/

variable {bytes : Bytes} {index i : Nat}

theorem modify_eq_none (outside : ¬ index < 16) (change : BitVec 8 → BitVec 8) :
    modify bytes index change = none :=
  dif_neg outside

theorem modify_spec (bytes : Bytes) (inside : index < 16) (change : BitVec 8 → BitVec 8) :
    ∃ result, modify bytes index change = some result ∧
      ∀ i (_ : i < 16), result[i] = if i = index then change bytes[i] else bytes[i] := by
  refine ⟨_, dif_pos inside, fun i fits => ?_⟩
  rw [Vector.getElem_set]
  by_cases same : index = i
  · subst same
    rw [if_pos rfl]
  · rw [if_neg same, if_neg (Ne.symm same)]

/-- A loop whose indices are all inside. -/
theorem fill_spec (value : BitVec 8) : ∀ (indices : List Nat) (bytes : Bytes),
    (∀ index ∈ indices, index < 16) →
    ∃ result, fill value indices bytes = some result ∧
      ∀ i (_ : i < 16), result[i] = if i ∈ indices then value else bytes[i]
  | [], bytes, _ => ⟨bytes, rfl, fun i _ => by rw [if_neg List.not_mem_nil]⟩
  | index :: rest, bytes, inside => by
    obtain ⟨here, later⟩ := List.forall_mem_cons.mp inside
    obtain ⟨first, changed, firstByte⟩ := modify_spec bytes here fun _ => value
    obtain ⟨result, filled, byte⟩ := fill_spec value rest first later
    refine ⟨result, by rw [fill, changed, Option.bind_some, filled], fun i fits => ?_⟩
    rw [byte i fits, firstByte i fits]
    grind

/-- The mask of the byte in which the prefix ends. -/
theorem createMask_byte (target : Target) (prefixLen : UInt32) :
    createMask target 8 (prefixLen % 8) = ~~~ leading 8 (prefixLen.toNat % 8) := by
  have rest : (prefixLen % 8).toNat = prefixLen.toNat % 8 := UInt32.toNat_mod prefixLen 8
  have less := Nat.mod_lt prefixLen.toNat (show 0 < 8 by decide)
  rw [createMask_eq (by decide) (by omega) (by omega) (by omega), rest, not_leading]

/-- A byte of the mask of `count` leading ones. -/
def maskByte (count i : Nat) : BitVec 8 := (leading 128 count).extractLsb' (8 * (15 - i)) 8

/-- **A byte of the mask**: what of the prefix lies before it is in the bytes before. -/
theorem maskByte_eq (count : Nat) (inside : i < 16) : maskByte count i = leading 8 (count - 8 * i) := by
  refine BitVec.eq_of_getLsbD_eq fun bit fits => ?_
  rw [maskByte, BitVec.getLsbD_extractLsb', getLsbD_leading, getLsbD_leading]
  grind

theorem maskByte_before (count : Nat) (inside : i < 16) (before : i < count / 8) :
    maskByte count i = 0xff#8 := by
  rw [maskByte_eq count inside, leading, show 8 - (count - 8 * i) = 0 by omega]
  decide

theorem maskByte_last (count : Nat) (inside : count / 8 < 16) :
    maskByte count (count / 8) = leading 8 (count % 8) := by
  rw [maskByte_eq count inside, show count - 8 * (count / 8) = count % 8 by omega]

theorem maskByte_after (count : Nat) (inside : i < 16) (after : count / 8 < i) :
    maskByte count i = 0#8 := by
  rw [maskByte_eq count inside, show count - 8 * i = 0 by omega, leading_zero]

/-! ### The three methods -/

/-- A method that changes the byte in which the prefix ends and fills others. -/
theorem modify_fill_spec (bytes : Bytes) {last : Nat} (inside : last < 16)
    (change : BitVec 8 → BitVec 8) (value : BitVec 8) (indices : List Nat)
    (within : ∀ index ∈ indices, index < 16) :
    ∃ result, (modify bytes last change).bind (fill value indices) = some result ∧
      ∀ i (_ : i < 16), result[i] =
        if i ∈ indices then value else if i = last then change bytes[i] else bytes[i] := by
  obtain ⟨first, changed, firstByte⟩ := modify_spec bytes inside change
  obtain ⟨result, filled, byte⟩ := fill_spec value indices first within
  refine ⟨result, by rw [changed, Option.bind_some, filled], fun i fits => ?_⟩
  rw [byte i fits, firstByte i fits]

/-- The loop over the bytes behind the last one. -/
theorem mem_behind {last : Nat} (inside : i < 16) :
    i ∈ List.range' (last + 1) (16 - (last + 1)) ↔ last < i := by
  rw [List.mem_range'_1]
  omega

theorem behind_inside (last : Nat) :
    ∀ index ∈ List.range' (last + 1) (16 - (last + 1)), index < 16 := by
  intro index member
  rw [List.mem_range'_1] at member
  omega

namespace SockaddrIn6

variable (target : Target) (addr : SockaddrIn6) (prefixLen : UInt32)

/-- `subnetMask` is the mask. -/
def SubnetRight : Prop :=
  ∃ mask, subnetMask target prefixLen = some mask ∧
    ∀ i (_ : i < 16), mask.addr[i] = maskByte prefixLen.toNat i

/-- `networkAddress` is the address under the mask. -/
def NetworkRight : Prop :=
  ∃ network, addr.networkAddress target prefixLen = some network ∧
    ∀ i (_ : i < 16), network.addr[i] = addr.addr[i] &&& maskByte prefixLen.toNat i

/-- `broadcastAddress` is the address with the bits outside of the mask set. -/
def BroadcastRight : Prop :=
  ∃ broadcast, addr.broadcastAddress target prefixLen = some broadcast ∧
    ∀ i (_ : i < 16), broadcast.addr[i] = addr.addr[i] ||| ~~~ maskByte prefixLen.toNat i

variable {target addr prefixLen}

/-- From 128 bits on, the first statement of each method is outside of the address. -/
theorem subnetMask_outside (outside : ¬ prefixLen.toNat / 8 < 16) :
    subnetMask target prefixLen = none := by
  rw [subnetMask, modify_eq_none outside]
  rfl

theorem networkAddress_outside (outside : ¬ prefixLen.toNat / 8 < 16) :
    addr.networkAddress target prefixLen = none := by
  rw [networkAddress, modify_eq_none outside]
  rfl

theorem broadcastAddress_outside (outside : ¬ prefixLen.toNat / 8 < 16) :
    addr.broadcastAddress target prefixLen = none := by
  rw [broadcastAddress, modify_eq_none outside]
  rfl

theorem subnetMask_spec (target : Target) (inside : prefixLen.toNat / 8 < 16) :
    SubnetRight target prefixLen := by
  obtain ⟨result, does, byte⟩ := modify_fill_spec (Vector.replicate 16 0#8) inside
    (fun _ => ~~~ createMask target 8 (prefixLen % 8)) 0xff#8 (List.range (prefixLen.toNat / 8))
    fun index member => by rw [List.mem_range] at member; omega
  refine ⟨{ family := AF_INET6, port := 0, addr := result }, ?_, fun i fits => ?_⟩
  · rw [subnetMask]
    exact (Option.bind_assoc ..).symm.trans (by rw [does]; rfl)
  · show result[i] = _
    rw [byte i fits]
    simp only [List.mem_range]
    rcases Nat.lt_trichotomy i (prefixLen.toNat / 8) with before | rfl | after
    · rw [if_pos before, maskByte_before _ fits before]
    · rw [if_neg (lt_irrefl _), if_pos rfl, createMask_byte, BitVec.not_not, maskByte_last _ fits]
    · rw [if_neg (by omega), if_neg (by omega), maskByte_after _ fits after]
      exact Vector.getElem_replicate ..

theorem broadcastAddress_spec (target : Target) (inside : prefixLen.toNat / 8 < 16) :
    BroadcastRight target addr prefixLen := by
  obtain ⟨result, does, byte⟩ := modify_fill_spec addr.addr inside
    (· ||| createMask target 8 (prefixLen % 8)) 0xff#8 _ (behind_inside (prefixLen.toNat / 8))
  refine ⟨{ addr with addr := result }, ?_, fun i fits => ?_⟩
  · rw [broadcastAddress]
    exact (Option.bind_assoc ..).symm.trans (by rw [does]; rfl)
  · show result[i] = _
    rw [byte i fits]
    simp only [mem_behind fits]
    rcases Nat.lt_trichotomy i (prefixLen.toNat / 8) with before | rfl | after
    · rw [if_neg (by omega), if_neg (by omega), maskByte_before _ fits before]
      exact BitVec.or_zero.symm
    · rw [if_neg (lt_irrefl _), if_pos rfl, createMask_byte, maskByte_last _ fits]
    · rw [if_pos after, maskByte_after _ fits after]
      exact BitVec.or_allOnes.symm

/-- What `networkAddress` makes of each byte. -/
theorem networkAddress_bytes (target : Target) (addr : SockaddrIn6) (inside : prefixLen.toNat / 8 < 16) :
    ∃ network, addr.networkAddress target prefixLen = some network ∧
      ∀ i (_ : i < 16), network.addr[i] =
        if prefixLen.toNat / 8 < i then 0#8
        else if i = prefixLen.toNat / 8 then addr.addr[i] &&& ~~~ leading 8 (prefixLen.toNat % 8)
        else addr.addr[i] := by
  obtain ⟨result, does, byte⟩ := modify_fill_spec addr.addr inside
    (· &&& createMask target 8 (prefixLen % 8)) 0x00#8 _ (behind_inside (prefixLen.toNat / 8))
  refine ⟨{ addr with addr := result }, ?_, fun i fits => ?_⟩
  · rw [networkAddress]
    exact (Option.bind_assoc ..).symm.trans (by rw [does]; rfl)
  · show result[i] = _
    rw [byte i fits]
    simp only [mem_behind fits, createMask_byte]

/-- A prefix shorter than 128 bits ends in a byte of the address. -/
theorem ends_inside_iff : prefixLen.toNat / 8 < 16 ↔ prefixLen < 128 := by
  show _ ↔ prefixLen.toNat < 128
  omega

theorem subnetRight_iff : SubnetRight target prefixLen ↔ prefixLen < 128 := by
  rw [← ends_inside_iff]
  refine ⟨?_, subnetMask_spec target⟩
  rintro ⟨mask, found, _⟩
  by_contra outside
  rw [subnetMask_outside outside] at found
  cases found

theorem broadcastRight_iff : BroadcastRight target addr prefixLen ↔ prefixLen < 128 := by
  rw [← ends_inside_iff]
  refine ⟨?_, broadcastAddress_spec target⟩
  rintro ⟨broadcast, found, _⟩
  by_contra outside
  rw [broadcastAddress_outside outside] at found
  cases found

/-- **`networkAddress`** is right where the byte in which the prefix ends is 0. -/
theorem networkRight_iff : NetworkRight target addr prefixLen ↔
    addr.addr[prefixLen.toNat / 8]? = some 0#8 := by
  by_cases inside : prefixLen.toNat / 8 < 16
  · obtain ⟨network, found, byte⟩ := networkAddress_bytes target addr inside
    have right : NetworkRight target addr prefixLen ↔
        ∀ i (_ : i < 16), network.addr[i] = addr.addr[i] &&& maskByte prefixLen.toNat i := by
      refine ⟨?_, fun bytes => ⟨network, found, bytes⟩⟩
      rintro ⟨other, found', bytes⟩
      rw [found] at found'
      cases found'
      exact bytes
    rw [right, Vector.getElem?_eq_getElem inside, Option.some_inj]
    constructor
    · intro bytes
      have last := bytes _ inside
      rw [byte _ inside, if_neg (lt_irrefl _), if_pos rfl, maskByte_last _ inside] at last
      exact (and_not_eq_and_iff _ _).mp last
    · intro zero i fits
      rw [byte i fits]
      rcases Nat.lt_trichotomy i (prefixLen.toNat / 8) with before | rfl | after
      · rw [if_neg (by omega), if_neg (by omega), maskByte_before _ fits before]
        exact BitVec.and_allOnes.symm
      · rw [if_neg (lt_irrefl _), if_pos rfl, maskByte_last _ fits, zero, BitVec.zero_and,
          BitVec.zero_and]
      · rw [if_pos after, maskByte_after _ fits after, BitVec.and_zero]
  · refine iff_of_false ?_ ?_
    · rintro ⟨network, found, _⟩
      rw [networkAddress_outside inside] at found
      cases found
    · rw [Vector.getElem?_eq_none (by omega)]
      exact nofun

end SockaddrIn6

/-- `CountBytes` of each byte of the mask, and of the mask. -/
theorem countBytes_maskByte (count : Nat) (inside : i < 16) :
    (countBytes (maskByte count i)).toNat = min 8 (count - 8 * i) := by
  rw [maskByte_eq count inside]
  rcases Nat.le_total (count - 8 * i) 8 with some | all
  · rw [countBytes_leading (by decide) some, Nat.min_eq_right some]
  · rw [leading, Nat.sub_eq_zero_of_le all, ← Nat.sub_self 8, ← leading,
      countBytes_leading (by decide) le_rfl, Nat.min_eq_left all]

/-- The number of ones in the mask of `count` leading ones. -/
def maskCount (count : Nat) : Nat :=
  ((List.range 16).map fun i => (countBytes (maskByte count i)).toNat).sum

theorem maskCount_eq (count : Nat) : maskCount count = min 128 count := by
  have upTo : ∀ n ≤ 16, ((List.range n).map fun i => (countBytes (maskByte count i)).toNat).sum =
      min (8 * n) count := by
    intro n
    induction n with
    | zero => exact fun _ => (Nat.zero_min count).symm
    | succ n ih =>
        intro fits
        rw [List.range_succ, List.map_append, List.sum_append, ih (by omega), List.map_singleton,
          List.sum_singleton, countBytes_maskByte count (by omega)]
        omega
  exact upTo 16 le_rfl

open SockaddrIn6 in
/-- **Networks of an IPv6 address.** The three methods and the count are right exactly when the prefix
ends in a byte of the address that is 0: `subnetMask` and `broadcastAddress` for the prefixes
shorter than 128 bits, `networkAddress` where that byte is 0. -/
theorem ipv6_networks_iff (target : Target) (addr : SockaddrIn6) (prefixLen : UInt32) :
    ((SubnetRight target prefixLen ∧ NetworkRight target addr prefixLen ∧
        BroadcastRight target addr prefixLen ∧ maskCount prefixLen.toNat = prefixLen.toNat) ↔
      addr.addr[prefixLen.toNat / 8]? = some 0#8) ∧
    (SubnetRight target prefixLen ↔ prefixLen < 128) ∧
    (NetworkRight target addr prefixLen ↔ addr.addr[prefixLen.toNat / 8]? = some 0#8) ∧
    (BroadcastRight target addr prefixLen ↔ prefixLen < 128) ∧
    (prefixLen ≤ 128 → maskCount prefixLen.toNat = prefixLen.toNat) := by
  have counts : prefixLen ≤ 128 → maskCount prefixLen.toNat = prefixLen.toNat := by
    intro fits
    rw [maskCount_eq]
    exact Nat.min_eq_right fits
  refine ⟨?_, subnetRight_iff, networkRight_iff, broadcastRight_iff, counts⟩
  rw [subnetRight_iff, networkRight_iff, broadcastRight_iff]
  refine ⟨fun right => right.2.1, fun zero => ?_⟩
  have shorter : prefixLen < 128 := by
    rw [← ends_inside_iff]
    by_contra outside
    rw [Vector.getElem?_eq_none (by omega)] at zero
    cases zero
  exact ⟨shorter, zero, shorter, counts (UInt32.le_of_lt shorter)⟩

/-- 2001:db8::211:22ff:fe33:4455. -/
def hostAddress : SockaddrIn6 :=
  { family := AF_INET6
    port := 0
    addr := #v[0x20, 0x01, 0x0d, 0xb8, 0, 0, 0, 0, 0x02, 0x11, 0x22, 0xff, 0xfe, 0x33, 0x44, 0x55] }

/-- The network of 64 bits keeps a byte of the host, and the mask of 128 bits is written outside. -/
theorem networks_fail : ¬ SockaddrIn6.NetworkRight x86 hostAddress 64 ∧
    ¬ SockaddrIn6.SubnetRight x86 128 :=
  ⟨fun right => absurd (SockaddrIn6.networkRight_iff.mp right) (by decide),
    fun right => absurd (SockaddrIn6.subnetRight_iff.mp right) (by decide)⟩

end Wyze.Address
