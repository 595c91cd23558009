/-
# `Dolda.Lib.Crc32` — CRC-32 and the bursts it detects

The reflected CRC-32 of IEEE 802.3: polynomial `0xEDB88320`, initial value and
final exclusive or `0xFFFFFFFF`, one bit of the remainder shifted out at a time.

**Proved here.**

    shift (a ^^^ b) = shift a ^^^ shift b                        (`shift_xor`)
    shift is injective: the polynomial has its top bit set       (`shift_injective`)
    k ≤ 4 bytes from s  =  8k shifts of  s ^^^ their word        (`foldl_stepByte_eq`)
    two strings that differ, and only inside a window of at
    most four bytes, have different checksums                    (`crc32_ne_of_window`)

The window theorem is the burst theorem for bursts of up to 32 bits that start
on a byte boundary: after the window the two remainders differ, and every later
byte acts on the remainder by a bijection.
-/
import Mathlib.Data.BitVec
import Mathlib.Logic.Function.Iterate
import Mathlib.Tactic.Ring

namespace Crc32

/-! ## The checksum -/

/-- The IEEE polynomial, reflected. -/
def poly : BitVec 32 := 0xEDB88320#32

/-- One bit shifted out of the remainder. -/
def shift (s : BitVec 32) : BitVec 32 :=
  if s.getLsbD 0 then (s >>> 1) ^^^ poly else s >>> 1

/-- One byte fed to the remainder. -/
def stepByte (s : BitVec 32) (b : UInt8) : BitVec 32 :=
  shift^[8] (s ^^^ b.toBitVec.setWidth 32)

/-- The remainder after a byte string. -/
def update (s : BitVec 32) (bs : List UInt8) : BitVec 32 := bs.foldl stepByte s

def initial : BitVec 32 := 0xFFFFFFFF#32

/-- The CRC-32 of a byte string. -/
def crc32 (bs : List UInt8) : UInt32 := ⟨update initial bs ^^^ 0xFFFFFFFF#32⟩

theorem update_append (s : BitVec 32) (xs ys : List UInt8) :
    update s (xs ++ ys) = update (update s xs) ys := List.foldl_append

/-- The check value of the standard: the checksum of `123456789`. -/
example : crc32 [0x31, 0x32, 0x33, 0x34, 0x35, 0x36, 0x37, 0x38, 0x39] = 0xCBF43926 := by
  decide +kernel

/-! ## One shift is linear and injective

A clear low bit is shifted out and nothing else happens, so while the low bits are clear
a shift only moves the word down. -/

theorem xor_xor_cancel (a b p : BitVec 32) : a ^^^ p ^^^ (b ^^^ p) = a ^^^ b := by
  rw [BitVec.xor_comm b p, BitVec.xor_assoc, ← BitVec.xor_assoc p p b, BitVec.xor_self,
    BitVec.zero_xor]

theorem shift_xor (a b : BitVec 32) : shift (a ^^^ b) = shift a ^^^ shift b := by
  simp only [shift, BitVec.getLsbD_xor, BitVec.ushiftRight_xor_distrib]
  cases ha : a.getLsbD 0 <;> cases hb : b.getLsbD 0
  · rfl
  · simp [BitVec.xor_assoc]
  · simp only [Bool.xor_false, if_true, Bool.false_eq_true, if_false]
    rw [BitVec.xor_assoc, BitVec.xor_assoc, BitVec.xor_comm poly]
  · simp only [Bool.xor_self, Bool.false_eq_true, if_false, if_true]
    exact (xor_xor_cancel _ _ _).symm

/-- Only zero shifts to zero: a set low bit brings in the polynomial's top bit. -/
theorem eq_zero_of_shift {x : BitVec 32} (h : shift x = 0#32) : x = 0#32 := by
  simp only [shift] at h
  cases hx : x.getLsbD 0 with
  | true =>
      rw [hx, if_pos rfl] at h
      have htop := congrArg (fun y : BitVec 32 => y.getLsbD 31) h
      simp [poly] at htop
  | false =>
      rw [hx, if_neg Bool.false_ne_true] at h
      apply BitVec.eq_of_getLsbD_eq
      intro i hi
      cases i with
      | zero => simpa using hx
      | succ i =>
          have hbit := congrArg (fun y : BitVec 32 => y.getLsbD i) h
          simpa [BitVec.getLsbD_ushiftRight, Nat.add_comm] using hbit

theorem shift_injective : Function.Injective shift := by
  intro a b h
  have hz : shift (a ^^^ b) = 0#32 := by rw [shift_xor, h, BitVec.xor_self]
  have hab : a ^^^ b = 0#32 := eq_zero_of_shift hz
  exact BitVec.xor_eq_zero_iff.mp hab

theorem shifts_xor (n : Nat) (a b : BitVec 32) :
    shift^[n] (a ^^^ b) = shift^[n] a ^^^ shift^[n] b := by
  induction n generalizing a b with
  | zero => rfl
  | succ n ih => rw [Function.iterate_succ_apply, shift_xor, ih]; rfl

theorem shifts_injective (n : Nat) : Function.Injective shift^[n] :=
  shift_injective.iterate n

theorem shift_of_low_clear {x : BitVec 32} (h : x.getLsbD 0 = false) : shift x = x >>> 1 := by
  rw [shift, h, if_neg Bool.false_ne_true]

theorem shifts_of_low_clear {x : BitVec 32} (n : Nat) (h : ∀ i < n, x.getLsbD i = false) :
    shift^[n] x = x >>> n := by
  induction n with
  | zero => exact (BitVec.ushiftRight_zero x).symm
  | succ n ih =>
      have hlow : (x >>> n).getLsbD 0 = false := by
        simpa [BitVec.getLsbD_ushiftRight] using h n (Nat.lt_succ_self n)
      rw [Function.iterate_succ_apply', ih (fun i hi => h i (by omega)),
        shift_of_low_clear hlow, BitVec.shiftRight_add]

/-! ## A short byte string as one word -/

/-- The little-endian word of a byte string; exact up to four bytes. -/
def word : List UInt8 → BitVec 32
  | [] => 0#32
  | b :: bs => b.toBitVec.setWidth 32 ^^^ (word bs <<< 8)

theorem byte_getLsbD (b : UInt8) (i : Nat) :
    (b.toBitVec.setWidth 32).getLsbD i = (decide (i < 8) && b.toBitVec.getLsbD i) := by
  by_cases hi : i < 8
  · simp [hi, show i < 32 by omega]
  · simp [BitVec.getLsbD_setWidth, BitVec.getLsbD_of_ge _ _ (show 8 ≤ i by omega)]

theorem word_getLsbD_of_ge (bs : List UInt8) {i : Nat} (h : 8 * bs.length ≤ i) :
    (word bs).getLsbD i = false := by
  induction bs generalizing i with
  | nil => simp [word]
  | cons b bs ih =>
      rw [List.length_cons] at h
      have ih : (word bs).getLsbD (i - 8) = false := ih (by omega)
      rw [word, BitVec.getLsbD_xor, byte_getLsbD, BitVec.getLsbD_shiftLeft, ih]
      simp [show ¬ i < 8 by omega]

/-- Three bytes moved up by one and shifted down again are where they were. -/
theorem shifts_word_up {bs : List UInt8} (h : bs.length ≤ 3) :
    shift^[8] (word bs <<< 8) = word bs := by
  rw [shifts_of_low_clear 8 (fun i hi => by simp [BitVec.getLsbD_shiftLeft, hi])]
  apply BitVec.eq_of_getLsbD_eq
  intro i hi
  rw [BitVec.getLsbD_ushiftRight, BitVec.getLsbD_shiftLeft]
  by_cases hlow : 8 + i < 32
  · simp [hlow]
  · simp [hlow, word_getLsbD_of_ge bs (show 8 * bs.length ≤ i by omega)]

/-- Up to four bytes act on the remainder as their word, followed by shifts. -/
theorem foldl_stepByte_eq (bs : List UInt8) (s : BitVec 32) (h : bs.length ≤ 4) :
    update s bs = shift^[8 * bs.length] (s ^^^ word bs) := by
  induction bs generalizing s with
  | nil => simp [update, word]
  | cons b bs ih =>
      rw [List.length_cons] at h
      have hstep : stepByte s b ^^^ word bs
          = shift^[8] (s ^^^ (b.toBitVec.setWidth 32 ^^^ (word bs <<< 8))) := by
        rw [← BitVec.xor_assoc, shifts_xor, shifts_word_up (by omega)]
        rfl
      have ih := ih (stepByte s b) (by omega)
      show update (stepByte s b) bs = _
      rw [ih, hstep, word, List.length_cons, Nat.mul_succ, Function.iterate_add_apply]

theorem word_injective {xs ys : List UInt8} (hlen : xs.length = ys.length)
    (h4 : xs.length ≤ 4) (h : word xs = word ys) : xs = ys := by
  induction xs generalizing ys with
  | nil => exact (List.length_eq_zero_iff.mp hlen.symm).symm
  | cons x xs ih =>
      obtain ⟨y, ys, rfl⟩ := List.exists_cons_of_length_eq_add_one hlen.symm
      simp only [List.length_cons] at hlen h4
      have hbit : ∀ i, (word (x :: xs)).getLsbD i = (word (y :: ys)).getLsbD i := fun i => by
        rw [h]
      simp only [word, BitVec.getLsbD_xor, byte_getLsbD, BitVec.getLsbD_shiftLeft] at hbit
      have hhead : x = y := by
        apply UInt8.toBitVec_inj.mp
        apply BitVec.eq_of_getLsbD_eq
        intro i hi
        simpa [hi] using hbit i
      have htail : word xs = word ys := by
        apply BitVec.eq_of_getLsbD_eq
        intro i _
        by_cases hi : i + 8 < 32
        · simpa [hi] using hbit (i + 8)
        · rw [word_getLsbD_of_ge xs (by omega), word_getLsbD_of_ge ys (by omega)]
      rw [hhead, ih (by omega) (by omega) htail]

/-! ## Bursts

Every byte string acts on the remainder by an injection, and a short one is determined
by what it does to any one remainder; and checksums agree iff the remainders do. -/

theorem stepByte_injective (b : UInt8) : Function.Injective (stepByte · b) := by
  intro s t h
  have hx := shifts_injective 8 h
  simpa using congrArg (· ^^^ b.toBitVec.setWidth 32) hx

theorem update_injective (bs : List UInt8) : Function.Injective (update · bs) := by
  induction bs with
  | nil =>
      intro s t h
      exact h
  | cons b bs ih =>
      intro s t h
      exact stepByte_injective b (ih h)

theorem update_ne_of_ne {xs ys : List UInt8} {s : BitVec 32} (hlen : xs.length = ys.length)
    (h4 : xs.length ≤ 4) (hne : xs ≠ ys) : update s xs ≠ update s ys := by
  intro h
  rw [foldl_stepByte_eq xs s h4, foldl_stepByte_eq ys s (hlen ▸ h4), ← hlen] at h
  have hx := congrArg (s ^^^ ·) (shifts_injective _ h)
  simp only [← BitVec.xor_assoc, BitVec.xor_self, BitVec.zero_xor] at hx
  exact hne (word_injective hlen h4 hx)

theorem crc32_eq_iff {xs ys : List UInt8} :
    crc32 xs = crc32 ys ↔ update initial xs = update initial ys := by
  constructor
  · intro h
    have hx := congrArg (fun c : UInt32 => c.toBitVec ^^^ 0xFFFFFFFF#32) h
    simpa [crc32, BitVec.xor_assoc] using hx
  · intro h
    rw [crc32, crc32, h]

/-- **The burst theorem** on byte windows. -/
theorem crc32_ne_of_window {pre xs ys post : List UInt8} (hlen : xs.length = ys.length)
    (h4 : xs.length ≤ 4) (hne : xs ≠ ys) :
    crc32 (pre ++ xs ++ post) ≠ crc32 (pre ++ ys ++ post) := by
  intro h
  have hx := crc32_eq_iff.mp h
  simp only [update_append] at hx
  exact update_ne_of_ne hlen h4 hne (update_injective post hx)

/-! ## Bytes the checksum does not see -/

/-- After `pre` the bytes `bs` bring the remainder back to where it was. -/
def Idle (pre bs : List UInt8) : Prop :=
  update (update initial pre) bs = update initial pre

theorem idle_nil (pre : List UInt8) : Idle pre [] := rfl

theorem crc32_append_eq_iff {pre bs : List UInt8} :
    crc32 (pre ++ bs) = crc32 pre ↔ Idle pre bs := by
  rw [crc32_eq_iff, update_append, Idle]

end Crc32
