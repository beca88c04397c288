import Mathlib.Data.List.Basic
import Mathlib.Tactic.Ring

/-!
# Bytes and byte-addressed memory

Numbers in little-endian byte order, and memory as a function from addresses to
bytes with block loads and stores.  A load after a store reads the stored block
back (`load_store`), an older block that does not meet it (`load_store_disjoint`),
or part of each (`load_add`).
-/

namespace Bytes

/-! ## Little-endian numbers -/

/-- The lowest `n` bytes of a number, lowest first. -/
def ofNat : Nat → Nat → List UInt8
  | 0, _ => []
  | n + 1, x => UInt8.ofNat x :: ofNat n (x / 256)

/-- The number whose bytes are given, lowest first. -/
def toNat : List UInt8 → Nat
  | [] => 0
  | b :: bs => b.toNat + 256 * toNat bs

@[simp] theorem length_ofNat : ∀ (n x : Nat), (ofNat n x).length = n
  | 0, _ => rfl
  | n + 1, x => by rw [ofNat, List.length_cons, length_ofNat n]

theorem toNat_lt : ∀ bs : List UInt8, toNat bs < 256 ^ bs.length
  | [] => Nat.one_pos
  | b :: bs => by
      have hb : b.toNat < 256 := b.toNat_lt
      have ih := toNat_lt bs
      rw [toNat, List.length_cons, Nat.pow_succ]
      omega

theorem toNat_ofNat : ∀ (n x : Nat), toNat (ofNat n x) = x % 256 ^ n
  | 0, x => by rw [ofNat, toNat, Nat.pow_zero, Nat.mod_one]
  | n + 1, x => by
      have hpow : 256 ^ (n + 1) = 256 * 256 ^ n := Nat.pow_succ'
      rw [ofNat, toNat, toNat_ofNat n, UInt8.toNat_ofNat', hpow, Nat.mod_mul]

theorem ofNat_toNat : ∀ bs : List UInt8, ofNat bs.length (toNat bs) = bs
  | [] => rfl
  | b :: bs => by
      have hb : b.toNat < 256 := b.toNat_lt
      have hdiv : (b.toNat + 256 * toNat bs) / 256 = toNat bs := by omega
      have hlow : UInt8.ofNat (b.toNat + 256 * toNat bs) = b := by
        apply UInt8.toNat_inj.mp
        rw [UInt8.toNat_ofNat']
        omega
      rw [List.length_cons, toNat, ofNat, hdiv, hlow, ofNat_toNat bs]

/-- The bytes of a 64-bit word. -/
def ofUInt64 (x : UInt64) : List UInt8 := ofNat 8 x.toNat

/-- The 64-bit word whose bytes are given. -/
def toUInt64 (bs : List UInt8) : UInt64 := UInt64.ofNat (toNat bs)

/-- The bytes of a 32-bit word. -/
def ofUInt32 (x : UInt32) : List UInt8 := ofNat 4 x.toNat

/-- The 32-bit word whose bytes are given. -/
def toUInt32 (bs : List UInt8) : UInt32 := UInt32.ofNat (toNat bs)

/-- The bytes of a 16-bit word. -/
def ofUInt16 (x : UInt16) : List UInt8 := ofNat 2 x.toNat

/-- The 16-bit word whose bytes are given. -/
def toUInt16 (bs : List UInt8) : UInt16 := UInt16.ofNat (toNat bs)

@[simp] theorem length_ofUInt16 (x : UInt16) : (ofUInt16 x).length = 2 := length_ofNat 2 _

@[simp] theorem length_ofUInt64 (x : UInt64) : (ofUInt64 x).length = 8 := length_ofNat 8 _

@[simp] theorem length_ofUInt32 (x : UInt32) : (ofUInt32 x).length = 4 := length_ofNat 4 _

@[simp] theorem toUInt64_ofUInt64 (x : UInt64) : toUInt64 (ofUInt64 x) = x := by
  have hx : x.toNat < 2 ^ 64 := x.toNat_lt
  apply UInt64.toNat_inj.mp
  rw [toUInt64, ofUInt64, toNat_ofNat, UInt64.toNat_ofNat']
  omega

@[simp] theorem toUInt32_ofUInt32 (x : UInt32) : toUInt32 (ofUInt32 x) = x := by
  have hx : x.toNat < 2 ^ 32 := x.toNat_lt
  apply UInt32.toNat_inj.mp
  rw [toUInt32, ofUInt32, toNat_ofNat, UInt32.toNat_ofNat']
  omega

@[simp] theorem toUInt16_ofUInt16 (x : UInt16) : toUInt16 (ofUInt16 x) = x := by
  have hx : x.toNat < 2 ^ 16 := x.toNat_lt
  apply UInt16.toNat_inj.mp
  rw [toUInt16, ofUInt16, toNat_ofNat, UInt16.toNat_ofNat']
  omega

theorem ofUInt64_toUInt64 {bs : List UInt8} (h : bs.length = 8) : ofUInt64 (toUInt64 bs) = bs := by
  have hlt := toNat_lt bs
  rw [h] at hlt
  have hmod : (UInt64.ofNat (toNat bs)).toNat = toNat bs := by
    rw [UInt64.toNat_ofNat']
    omega
  rw [ofUInt64, toUInt64, hmod, ← h, ofNat_toNat]

theorem ofUInt64_inj {x y : UInt64} (h : ofUInt64 x = ofUInt64 y) : x = y := by
  rw [← toUInt64_ofUInt64 x, h, toUInt64_ofUInt64]

theorem ofUInt32_inj {x y : UInt32} (h : ofUInt32 x = ofUInt32 y) : x = y := by
  rw [← toUInt32_ofUInt32 x, h, toUInt32_ofUInt32]

/-! ## Memory -/

/-- Byte-addressed memory. -/
abbrev Mem := Nat → UInt8

/-- The `n` bytes from an address on. -/
def load (mem : Mem) (off n : Nat) : List UInt8 := (List.range n).map fun i => mem (off + i)

/-- Memory with a block of bytes written from an address on. -/
def store (mem : Mem) (off : Nat) (bs : List UInt8) : Mem := fun i =>
  if off ≤ i ∧ i < off + bs.length then bs.getD (i - off) 0 else mem i

@[simp] theorem length_load (mem : Mem) (off n : Nat) : (load mem off n).length = n := by
  simp [load]

theorem load_congr {mem mem' : Mem} {off n : Nat} (h : ∀ i < n, mem (off + i) = mem' (off + i)) :
    load mem off n = load mem' off n :=
  List.map_congr_left fun i hi => h i (List.mem_range.mp hi)

theorem load_add (mem : Mem) (off a b : Nat) :
    load mem off (a + b) = load mem off a ++ load mem (off + a) b := by
  simp [load, List.range_add, Nat.add_assoc]

theorem load_store (mem : Mem) (off : Nat) (bs : List UInt8) :
    load (store mem off bs) off bs.length = bs := by
  apply List.ext_getElem
  · simp
  · intro i h₁ h₂
    simp [load, store, h₂]

/-- Part of the stored block. -/
theorem load_store_part (mem : Mem) (off : Nat) (bs : List UInt8) {k n : Nat}
    (h : k + n ≤ bs.length) : load (store mem off bs) (off + k) n = (bs.drop k).take n := by
  apply List.ext_getElem
  · simp
    omega
  · intro i h₁ h₂
    have hi : i < n := by simpa using h₁
    have hlo : off ≤ off + k + i ∧ off + k + i < off + bs.length := by omega
    have hsub : off + k + i - off = k + i := by omega
    have hlt : k + i < bs.length := by omega
    simp [load, store, hlo, hsub, hlt]

theorem load_store_disjoint {mem : Mem} {off off' n : Nat} {bs : List UInt8}
    (h : off + bs.length ≤ off' ∨ off' + n ≤ off) :
    load (store mem off bs) off' n = load mem off' n := by
  apply load_congr
  intro i hi
  rw [store, if_neg]
  omega

end Bytes
