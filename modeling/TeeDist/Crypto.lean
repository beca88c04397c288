import TeeDist.Layout

/-!
# Slots under encryption

`crypto.c`.  A compute node builds a slot by encrypting the value with
AES-256-CTR under an initialisation vector derived from the key and the epoch,
and authenticating the slot with HMAC-SHA256.  The three primitives come from
OpenSSL and are a parameter, `Openssl`.  Counter mode is the exclusive or with a
key stream, so a primitive gives the stream and `ctrCrypt` is both encryption
and decryption.  The allocation failures of OpenSSL are left out: `makeSlot`
fails only on a value that is too long.

`decodeSlot_builtSlot` is the round trip, and `macInput_inj` says that the bytes
the authentication covers determine every field it covers.
-/

namespace TeeDist

open Bytes

/-! ## Primitives and keys -/

/-- The functions `crypto.c` takes from OpenSSL. -/
structure Openssl where
  /-- `SHA256` of a byte string. -/
  sha256 : List UInt8 → Vector UInt8 32
  /-- `HMAC` with `EVP_sha256`, of a key and a byte string. -/
  hmacSha256 : Vector UInt8 32 → List UInt8 → Vector UInt8 32
  /-- The key stream of `EVP_aes_256_ctr` for a key and an initial counter block,
  byte by byte. -/
  aes256CtrStream : Vector UInt8 32 → Vector UInt8 16 → Nat → UInt8

/-- `td_crypto_ctx_t`. -/
structure CryptoCtx where
  encKey : Vector UInt8 32
  macKey : Vector UInt8 32

/-- Encryption and decryption in counter mode. -/
def ctrCrypt (ssl : Openssl) (key : Vector UInt8 32) (iv : Vector UInt8 16) (bs : List UInt8) :
    List UInt8 :=
  bs.mapIdx fun i b => b ^^^ ssl.aes256CtrStream key iv i

@[simp] theorem length_ctrCrypt (ssl : Openssl) (key : Vector UInt8 32) (iv : Vector UInt8 16)
    (bs : List UInt8) : (ctrCrypt ssl key iv bs).length = bs.length := by
  simp [ctrCrypt]

/-- Decryption inverts encryption. -/
@[simp] theorem ctrCrypt_ctrCrypt (ssl : Openssl) (key : Vector UInt8 32) (iv : Vector UInt8 16)
    (bs : List UInt8) : ctrCrypt ssl key iv (ctrCrypt ssl key iv bs) = bs := by
  apply List.ext_getElem
  · simp
  · intro i h₁ h₂
    simp only [ctrCrypt, List.getElem_mapIdx]
    rw [UInt8.xor_assoc, UInt8.xor_self, UInt8.xor_zero]

/-! ## Building and reading slots -/

/-- `td_crypto_tie_breaker`: the first eight bytes of a digest, highest first. -/
def tieBreaker (ssl : Openssl) (key : Key) (value : Value) (epoch : UInt64) : UInt64 :=
  ((ssl.sha256 (key ++ value ++ ofUInt64 epoch)).toList.take 8).foldl
    (fun acc byte => acc <<< 8 ||| byte.toUInt64) 0

/-- The initialisation vector of a key at an epoch: a digest, cut to 16 bytes. -/
def slotIv (ssl : Openssl) (key : Key) (epoch : UInt64) : Vector UInt8 16 :=
  Vector.ofFn fun i => (ssl.sha256 (key ++ ofUInt64 epoch)).toList.getD i 0

/-- The bytes `td_crypto_mac` feeds to the authentication. -/
def macInput (s : Slot) : List UInt8 :=
  ofUInt64 s.keyHash ++ (ofUInt64 s.visibleEpoch ++ (ofUInt64 s.tieBreaker ++ (ofUInt32 s.flags ++
    (ofUInt32 s.valueLen ++ (s.iv.toList ++ s.ciphertext.toList.take s.valueLen.toNat)))))

/-- `td_crypto_mac`. -/
def slotMac (ssl : Openssl) (ctx : CryptoCtx) (s : Slot) : Vector UInt8 32 :=
  ssl.hmacSha256 ctx.macKey (macInput s)

/-- A slot before its authentication code is computed. -/
def plainSlot (ssl : Openssl) (ctx : CryptoCtx) (key : Key) (value : Value) (flags : UInt32)
    (epoch : UInt64) : Slot :=
  let iv := slotIv ssl key epoch
  let out := ctrCrypt ssl ctx.encKey iv value
  { guardEpoch := epoch
    visibleEpoch := epoch
    keyHash := hash64String key
    tieBreaker := tieBreaker ssl key value epoch
    flags := flags
    valueLen := UInt32.ofNat out.length
    iv := iv
    mac := Vector.replicate 32 0
    ciphertext := Vector.ofFn fun i => out.getD i 0 }

/-- The slot `td_crypto_make_slot` fills in. -/
def builtSlot (ssl : Openssl) (ctx : CryptoCtx) (key : Key) (value : Value) (flags : UInt32)
    (epoch : UInt64) : Slot :=
  { plainSlot ssl ctx key value flags epoch with
    mac := slotMac ssl ctx (plainSlot ssl ctx key value flags epoch) }

/-- `td_crypto_make_slot`. -/
def makeSlot (ssl : Openssl) (ctx : CryptoCtx) (key : Key) (value : Value) (flags : UInt32)
    (epoch : UInt64) : Option Slot :=
  if value.length > maxValueSize then none else some (builtSlot ssl ctx key value flags epoch)

/-- `td_crypto_decode_slot`.  The logical key is not looked at. -/
def decodeSlot (ssl : Openssl) (ctx : CryptoCtx) (_key : Key) (s : Slot) : Option Value :=
  if s.valueLen.toNat > maxValueSize then none
  else if s.guardEpoch ≠ s.visibleEpoch then none
  else if slotMac ssl ctx s ≠ s.mac then none
  else if !s.valid then none
  else some (ctrCrypt ssl ctx.encKey s.iv (s.ciphertext.toList.take s.valueLen.toNat))

/-! ## What a built slot holds -/

section Built

variable (ssl : Openssl) (ctx : CryptoCtx) (key : Key) (value : Value) (flags : UInt32)
  (epoch : UInt64)

@[simp] theorem builtSlot_guardEpoch :
    (builtSlot ssl ctx key value flags epoch).guardEpoch = epoch := rfl

@[simp] theorem builtSlot_visibleEpoch :
    (builtSlot ssl ctx key value flags epoch).visibleEpoch = epoch := rfl

@[simp] theorem builtSlot_keyHash :
    (builtSlot ssl ctx key value flags epoch).keyHash = hash64String key := rfl

@[simp] theorem builtSlot_flags : (builtSlot ssl ctx key value flags epoch).flags = flags := rfl

theorem builtSlot_valid :
    (builtSlot ssl ctx key value flags epoch).valid = (flags &&& slotFlagValid != 0) := rfl

theorem builtSlot_tombstone :
    (builtSlot ssl ctx key value flags epoch).tombstone = (flags &&& slotFlagTombstone != 0) := rfl

@[simp] theorem builtSlot_iv :
    (builtSlot ssl ctx key value flags epoch).iv = slotIv ssl key epoch := rfl

@[simp] theorem builtSlot_tieBreaker :
    (builtSlot ssl ctx key value flags epoch).tieBreaker = tieBreaker ssl key value epoch := rfl

variable {value}

theorem builtSlot_valueLen (h : value.length ≤ maxValueSize) :
    (builtSlot ssl ctx key value flags epoch).valueLen.toNat = value.length := by
  have hlt : value.length < 2 ^ 32 := Nat.lt_of_le_of_lt h (by decide)
  simp only [builtSlot, plainSlot, length_ctrCrypt]
  rw [UInt32.toNat_ofNat', Nat.mod_eq_of_lt hlt]

/-- The ciphertext of a built slot, cut to the value length. -/
theorem builtSlot_ciphertext (h : value.length ≤ maxValueSize) :
    (builtSlot ssl ctx key value flags epoch).ciphertext.toList.take value.length =
      ctrCrypt ssl ctx.encKey (slotIv ssl key epoch) value := by
  have h' : value.length ≤ 256 := h
  apply List.ext_getElem
  · simp [h']
  · intro i h₁ h₂
    simp only [builtSlot, plainSlot, List.getElem_take, Vector.getElem_toList, Vector.getElem_ofFn]
    rw [List.getD_eq_getElem?_getD, List.getElem?_eq_getElem h₂, Option.getD_some]

/-- A valid slot decodes to the value it was built from. -/
theorem decodeSlot_builtSlot (key' : Key) (h : value.length ≤ maxValueSize)
    (hv : (builtSlot ssl ctx key value flags epoch).valid = true) :
    decodeSlot ssl ctx key' (builtSlot ssl ctx key value flags epoch) = some value := by
  have hlen := builtSlot_valueLen ssl ctx key flags epoch h
  have hmac : slotMac ssl ctx (builtSlot ssl ctx key value flags epoch) =
      (builtSlot ssl ctx key value flags epoch).mac := rfl
  rw [decodeSlot, hlen, if_neg (by omega), if_neg (by simp), if_neg (by simp [hmac]),
    if_neg (by simp [hv]), builtSlot_ciphertext ssl ctx key flags epoch h, builtSlot_iv,
    ctrCrypt_ctrCrypt]

end Built

/-! ## What the authentication covers -/

/-- Slots with the same authenticated bytes agree on every authenticated field. -/
theorem macInput_inj {s s' : Slot} (h : macInput s = macInput s') :
    s.keyHash = s'.keyHash ∧ s.visibleEpoch = s'.visibleEpoch ∧ s.tieBreaker = s'.tieBreaker ∧
      s.flags = s'.flags ∧ s.valueLen = s'.valueLen ∧ s.iv = s'.iv ∧
      s.ciphertext.toList.take s.valueLen.toNat = s'.ciphertext.toList.take s'.valueLen.toNat := by
  unfold macInput at h
  obtain ⟨h₁, h⟩ := List.append_inj h (by simp)
  obtain ⟨h₂, h⟩ := List.append_inj h (by simp)
  obtain ⟨h₃, h⟩ := List.append_inj h (by simp)
  obtain ⟨h₄, h⟩ := List.append_inj h (by simp)
  obtain ⟨h₅, h⟩ := List.append_inj h (by simp)
  obtain ⟨h₆, h⟩ := List.append_inj h (by simp)
  exact ⟨ofUInt64_inj h₁, ofUInt64_inj h₂, ofUInt64_inj h₃, ofUInt32_inj h₄, ofUInt32_inj h₅,
    Vector.toList_inj.mp h₆, h⟩

/-! ## Samples -/

/-- The `n` bytes of a number, highest first. -/
def digest (n x : Nat) : Vector UInt8 n := Vector.ofFn fun i => UInt8.ofNat (x >>> (8 * (n - 1 - i)))

/-- The keys `td_crypto_init` derives from the key of the configurations in `build/config`. -/
def CryptoCtx.sample : CryptoCtx where
  encKey := digest 32 0xa9d0d5ee721c97bc47af9b7ee6c54ad6d738a699ce3e8ef62f0f4a4a81908a9c
  macKey := digest 32 0x2af75b9105459ddf8db81cf6cb61e71aad790826acc34fd0b3cdf6ade7cd0eaa

/-- OpenSSL under these keys, on what it is given to build the slots of the samples:
values and tombstones of the keys `a`, `b` and `c` at their first epochs.  Its results
are those of the library.  Other inputs have zero results. -/
def Openssl.sample : Openssl where
  sha256 bs := digest 32 <| (List.lookup bs [
    ([97] ++ ofUInt64 1,
      0x91fe2df35ac49e7a5dd1adbaa5ac939385f1f2d7a4528583f90cbaf6d63aabe8),
    ([97, 49] ++ ofUInt64 1,
      0x8d2450cecc1a7ba447d0241f15391ce9be58cc0c685285a6dadff448146454f5),
    ([97, 50] ++ ofUInt64 1,
      0xde2133ab4d6e6c687521fa542fd39a12925e7fd77b64cc3dd6ef67e4fb900a06),
    ([97] ++ ofUInt64 2,
      0x12c02974e7e9fee1f0835fd49c2ad58c07f765ab188fe36d23d1ccb39385c5b9),
    ([97, 50] ++ ofUInt64 2,
      0x4a9661c4eb5a9610ae3a71a86c7020f1d745e1f90a80e4d6be31140ab1d9dd4f),
    ([99] ++ ofUInt64 1,
      0x1a8f70512e162852ce222d96901af0312a06100dab9b5383cb15e6878e88af4c),
    ([99, 49] ++ ofUInt64 1,
      0x6ab7d3c427d479209591f5ea37c3e62765917991ff7a85d6522353da10f89410),
    ([99] ++ ofUInt64 3,
      0x4af28e5da10e6a3aa73b3e9a47e95ade76a8a4d3e602c21c574fd346434cbe5b),
    ([99, 49] ++ ofUInt64 3,
      0x3c11fddc6884272b625bd0ec79853bc2124b7a3625676080c38f54a50e901815),
    ([98] ++ ofUInt64 1,
      0x106f212a9c4fe80b0362a3c683a88c3e183e2a2de849c299b1624a18942e7eda),
    ([97, 48] ++ ofUInt64 2,
      0xd18125fdbb8677904e43d03baf4e0e1957a7d9595135dc198f9cac74ea78e004),
    ([97, 52] ++ ofUInt64 2,
      0x9b5b26146078bf2729087882f93145a0db43130cc71a963ab96a27a54a377390)]).getD 0
  hmacSha256 _ bs := digest 32 <| (List.lookup bs [
    ((digest 24 0x0699cd73d48abd440100000000000000a47b1accce50248d).toList ++
      (digest 25 0x010000000100000091fe2df35ac49e7a5dd1adbaa5ac939300).toList,
      0x433cf6318e470a37583e79b254c8be94995f0c62ee683c0da59d78ba1faa5782),
    ((digest 24 0x0699cd73d48abd440100000000000000686c6e4dab3321de).toList ++
      (digest 25 0x010000000100000091fe2df35ac49e7a5dd1adbaa5ac939303).toList,
      0x69709fae737972bffa1d83c55acc51c2b5debe29ca9ce6318eb921c3c1217f67),
    ((digest 24 0x0699cd73d48abd440200000000000000e1fee9e77429c012).toList ++
      (digest 24 0x030000000000000012c02974e7e9fee1f0835fd49c2ad58c).toList,
      0xc4d3631071fd6406f6b586bdb0ab0fb8edda92e08e2fe7ac96ef136c85e58ce2),
    ((digest 24 0x0699cd73d48abd44020000000000000010965aebc461964a).toList ++
      (digest 25 0x010000000100000012c02974e7e9fee1f0835fd49c2ad58cde).toList,
      0x088ac293f032e6fbbf58046ec6752884baaa0ef2a1a95de02abc5745a479bab9),
    ((digest 24 0xa095cd73d488bd4401000000000000002079d427c4d3b76a).toList ++
      (digest 25 0x01000000010000001a8f70512e162852ce222d96901af03112).toList,
      0x8bd86bbfb8ad53d80e584da4166e7a0af027a4f98987efae5109c27879bc3198),
    ((digest 24 0xa095cd73d488bd4403000000000000002b278468dcfd113c).toList ++
      (digest 25 0x01000000010000004af28e5da10e6a3aa73b3e9a47e95ade69).toList,
      0xb19a8dba57cd69ec9ab6d72ec80ec39d06bbf4cc22937e141729a87006fcd264),
    ((digest 24 0x5397cd73d489bd4401000000000000000be84f9c2a216f10).toList ++
      (digest 24 0x0300000000000000106f212a9c4fe80b0362a3c683a88c3e).toList,
      0x15ce3508f65688a38ea5cc388749c8411d3295c4aa9b07f9aba3af97215c54ba),
    ((digest 24 0x0699cd73d48abd440200000000000000907786bbfd2581d1).toList ++
      (digest 25 0x010000000100000012c02974e7e9fee1f0835fd49c2ad58cdc).toList,
      0xb8a46d52a051179d4996d013a649bcba13f1255dc270faae21e96c26f4a4b42e),
    ((digest 24 0x0699cd73d48abd44020000000000000027bf786014265b9b).toList ++
      (digest 25 0x010000000100000012c02974e7e9fee1f0835fd49c2ad58cd8).toList,
      0xcfc544375dc9349c93c1334159be42d38e665a5c6e0420e1507abb75ebb8afcd)]).getD 0
  aes256CtrStream _ iv i := (List.lookup (iv, i) [
    ((digest 16 0x91fe2df35ac49e7a5dd1adbaa5ac9393, 0), 0x31),
    ((digest 16 0x12c02974e7e9fee1f0835fd49c2ad58c, 0), 0xec),
    ((digest 16 0x1a8f70512e162852ce222d96901af031, 0), 0x23),
    ((digest 16 0x4af28e5da10e6a3aa73b3e9a47e95ade, 0), 0x58)]).getD 0

end TeeDist
