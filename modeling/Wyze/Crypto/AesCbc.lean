/-
**`AesCbc::encrypt` and `decrypt`.**

OpenSSL is the parameter `cbc`, of which `Inverts` is all that is used. `encrypt` reads the bytes of the
string, the byte 0 behind them and, to the end of a block, whatever lies behind that; `decrypt` makes a
string of what stands before the first byte 0.

* `decrypt_encrypt`: what comes back are the bytes before the first byte 0.
* `aes_round_trip_iff`: when a string comes back, and when `encrypt` stays inside of its storage.
-/
import Mathlib.Data.List.TakeWhile

namespace Wyze.Crypto

/-- `AES_ENCRYPT`, `AES_DECRYPT`. -/
inductive AesMode where
  | encrypt
  | decrypt
deriving DecidableEq

/-- The members of the class. -/
structure AesCbc where
  key : List UInt8
  keybits : Int
  vec : List UInt8
deriving DecidableEq

/-- `AES_set_encrypt_key` or `AES_set_decrypt_key` and then `AES_cbc_encrypt`: what is written for the
bytes that are read. -/
abbrev Cbc : Type := AesMode → AesCbc → List UInt8 → List UInt8

namespace AesCbc

/-- Key and initialisation vector are as the cipher wants them. -/
structure Accepted (aes : AesCbc) : Prop where
  bits : aes.keybits = 128 ∨ aes.keybits = 192 ∨ aes.keybits = 256
  key : aes.keybits ≤ 8 * aes.key.length
  vec : 16 ≤ aes.vec.length

/-- On whole blocks decrypting inverts encrypting, and as many bytes are written as are read. -/
def Inverts (cbc : Cbc) : Prop :=
  ∀ (aes : AesCbc) (blocks : List UInt8), aes.Accepted → 16 ∣ blocks.length →
    (cbc .encrypt aes blocks).length = blocks.length ∧
      cbc .decrypt aes (cbc .encrypt aes blocks) = blocks

/-- The `length` of `encrypt`. -/
def paddedLength (size : Nat) : Nat :=
  let length := size + 1
  if length % 16 ≠ 0 then (length / 16 + 1) * 16 else length

/-- The first `length` bytes from `data.c_str()` on; `behind` is what lies behind the byte 0. -/
def readFrom (data : List UInt8) (behind : Nat → UInt8) (length : Nat) : List UInt8 :=
  (data ++ 0 :: (List.range length).map behind).take length

def encrypt (cbc : Cbc) (aes : AesCbc) (data : List UInt8) (behind : Nat → UInt8) : List UInt8 :=
  cbc .encrypt aes (readFrom data behind (paddedLength data.length))

/-- The string that a pointer to the buffer makes, unless the buffer has no byte 0. -/
def stringAt (buffer : List UInt8) : Option (List UInt8) :=
  if 0 ∈ buffer then some (buffer.takeWhile (· ≠ 0)) else none

/-- `decrypt`; `none` when it reads behind its buffer. -/
def decrypt (cbc : Cbc) (aes : AesCbc) (data : List UInt8) : Option (List UInt8) :=
  if data.length % 16 ≠ 0 then some [] else stringAt (cbc .decrypt aes data)

/-- Each byte that `encrypt` reads is one of the string's storage, which has room for `capacity` bytes
and the byte 0. -/
def ReadsInside (data : List UInt8) (capacity : Nat) : Prop :=
  ∀ i < paddedLength data.length, i ≤ capacity

variable {cbc : Cbc} {aes : AesCbc}

/-- A whole block more than the whole blocks of the string. -/
theorem paddedLength_eq (size : Nat) : paddedLength size = 16 * (size / 16 + 1) := by
  unfold paddedLength
  dsimp only
  split <;> omega

theorem length_readFrom (data : List UInt8) (behind : Nat → UInt8) (length : Nat) :
    (readFrom data behind length).length = length := by
  rw [readFrom, List.length_take, List.length_append, List.length_cons, List.length_map,
    List.length_range]
  omega

/-- What is read begins with the string and the byte 0. -/
theorem readFrom_eq (data : List UInt8) (behind : Nat → UInt8) {length : Nat}
    (longer : data.length < length) :
    ∃ rest, readFrom data behind length = data ++ 0 :: rest := by
  refine ⟨((List.range length).map behind).take (length - data.length - 1), ?_⟩
  obtain ⟨more, rfl⟩ := Nat.exists_eq_add_of_lt longer
  rw [readFrom, Nat.add_assoc, List.take_length_add_append, List.take_succ_cons]
  congr 4
  omega

/-- **What comes back.** -/
theorem decrypt_encrypt (inverts : Inverts cbc) (accepted : aes.Accepted) (data : List UInt8)
    (behind : Nat → UInt8) :
    decrypt cbc aes (encrypt cbc aes data behind) = some (data.takeWhile (· ≠ 0)) := by
  have long : data.length < paddedLength data.length := by
    rw [paddedLength_eq]
    omega
  have whole : 16 ∣ (readFrom data behind (paddedLength data.length)).length := by
    rw [length_readFrom, paddedLength_eq]
    exact Nat.dvd_mul_right 16 _
  obtain ⟨sameLength, back⟩ := inverts aes _ accepted whole
  obtain ⟨rest, read⟩ := readFrom_eq data behind long
  rw [decrypt, encrypt, if_neg (by rw [sameLength]; omega), back, read, stringAt,
    if_pos (List.mem_append_right _ List.mem_cons_self)]
  congr 1
  -- the byte 0 behind the string ends it, if none inside does
  rw [List.takeWhile_append]
  split
  · rename_i all
    rw [List.takeWhile_cons_of_neg (by decide), List.append_nil]
    exact (List.takeWhile_prefix _).eq_of_length all |>.symm
  · rfl

/-- **A string comes back** when it has no byte 0. -/
theorem round_trip_iff (inverts : Inverts cbc) (accepted : aes.Accepted) (data : List UInt8)
    (behind : Nat → UInt8) :
    decrypt cbc aes (encrypt cbc aes data behind) = some data ↔ 0 ∉ data := by
  rw [decrypt_encrypt inverts accepted, Option.some_inj, List.takeWhile_eq_self_iff]
  simp only [ne_eq, decide_not, Bool.not_eq_true', decide_eq_false_iff_not]
  exact ⟨fun all member => all 0 member rfl, fun absent byte member zero => absent (zero ▸ member)⟩

/-- **`encrypt` stays inside** when the storage holds the whole blocks. -/
theorem readsInside_iff (data : List UInt8) (capacity : Nat) :
    ReadsInside data capacity ↔ 16 * (data.length / 16 + 1) ≤ capacity + 1 := by
  rw [ReadsInside, paddedLength_eq]
  constructor
  · intro all
    have last := all (16 * (data.length / 16 + 1) - 1) (by omega)
    omega
  · intro room i less
    omega

/-- **Encrypting and decrypting.** A string comes back and is read inside of its storage exactly when it
has no byte 0 and the storage holds the blocks that it and a byte 0 fill; in a storage that holds no
more than these, when they fill whole blocks. -/
theorem aes_round_trip_iff (cbc : Cbc) (inverts : Inverts cbc) (aes : AesCbc)
    (accepted : aes.Accepted) (data : List UInt8) (behind : Nat → UInt8) :
    (∀ capacity,
      (decrypt cbc aes (encrypt cbc aes data behind) = some data ∧ ReadsInside data capacity) ↔
        0 ∉ data ∧ 16 * (data.length / 16 + 1) ≤ capacity + 1) ∧
    (decrypt cbc aes (encrypt cbc aes data behind) = some data ↔ 0 ∉ data) ∧
    (ReadsInside data data.length ↔ 16 ∣ data.length + 1) := by
  refine ⟨fun capacity => ?_, round_trip_iff inverts accepted data behind, ?_⟩
  · rw [round_trip_iff inverts accepted, readsInside_iff]
  · rw [readsInside_iff]
    omega

/-- A cipher that exchanges two texts. -/
def exchange (plain cipher : List UInt8) : Cbc := fun _ _ data =>
  if data = plain then cipher else if data = cipher then plain else data

theorem exchange_inverts {plain cipher : List UInt8} (same : plain.length = cipher.length) :
    Inverts (exchange plain cipher) := by
  intro aes blocks _ _
  unfold exchange
  grind

/-- The object that the class makes by default: `1234567887654321` and `0123456789abcdef`. -/
def defaultAes : AesCbc :=
  { key := [49, 50, 51, 52, 53, 54, 55, 56, 56, 55, 54, 53, 52, 51, 50, 49]
    keybits := 128
    vec := [48, 49, 50, 51, 52, 53, 54, 55, 56, 57, 97, 98, 99, 100, 101, 102] }

theorem defaultAes_accepted : defaultAes.Accepted where
  bits := Or.inl rfl
  key := by decide
  vec := by decide

/-- `wyze aes secret`. -/
def secret : List UInt8 := [119, 121, 122, 101, 32, 97, 101, 115, 32, 115, 101, 99, 114, 101, 116]

/-- AES-128 on the one block of `secret`. -/
def secretCbc : Cbc :=
  exchange (secret ++ [0]) [163, 229, 100, 115, 209, 107, 176, 133, 207, 195, 63, 252, 17, 62, 140, 179]

/-- A text of 15 bytes fills a block with the byte 0 behind it. -/
theorem aes_round_trip_secret :
    decrypt secretCbc defaultAes (encrypt secretCbc defaultAes secret fun _ => 0) = some secret ∧
      ReadsInside secret 15 :=
  ((aes_round_trip_iff secretCbc (exchange_inverts rfl) defaultAes defaultAes_accepted secret
    fun _ => 0).1 15).mpr ⟨by decide, by decide⟩

/-- AES-128 on the block of `a`, a byte 0 and `b`, behind which lie bytes 0. -/
def binaryCbc : Cbc :=
  exchange [97, 0, 98, 0, 0, 0, 0, 0, 0, 0, 0, 0, 0, 0, 0, 0]
    [185, 184, 202, 21, 44, 138, 4, 84, 116, 226, 203, 161, 75, 86, 253, 172]

/-- **A byte 0 ends the text**, and a text of three bytes is read for thirteen bytes too many. -/
theorem aes_text_cut :
    decrypt binaryCbc defaultAes (encrypt binaryCbc defaultAes [97, 0, 98] fun _ => 0) = some [97] ∧
      ¬ ReadsInside [97, 0, 98] 3 := by
  have inverts : Inverts binaryCbc := exchange_inverts rfl
  refine ⟨decrypt_encrypt inverts defaultAes_accepted _ _, ?_⟩
  rw [readsInside_iff]
  decide

end AesCbc

end Wyze.Crypto
