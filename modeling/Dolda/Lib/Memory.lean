/-
# `Dolda.Lib.Memory` — byte memory, little-endian words, wrapping counters

The three things a program that writes records into a mapped file rests on,
with no program in sight:

* **windows** of a list (`window m a n`, the `n` cells from `a` on) and the
  **splice** that overwrites one (`splice m a w`), with the frame rule
  `window_splice_disjoint`;
* **little-endian words** (`toLE k n`, `ofLE bs`), inverse to one another at a
  fixed width;
* **64-bit counters** that wrap (`U64.add`, `U64.sub`).

`slice` is the checked form of a window: a range that leaves the memory has no
result, which is how an out-of-range index of a slice is read.
-/
import Mathlib.Data.List.TakeDrop
import Mathlib.Tactic.Ring

namespace Memory

/-! ## Windows and splices

The window just written holds what was written, adjacent windows join, and writing at
the end of a filled part extends it. -/

section Window
variable {α : Type*}

/-- The `n` cells of `m` from `a` on. -/
def window (m : List α) (a n : Nat) : List α := (m.drop a).take n

/-- `m` with the cells from `a` on overwritten by `w`. -/
def splice (m : List α) (a : Nat) (w : List α) : List α :=
  m.take a ++ w ++ m.drop (a + w.length)

/-- The range `a..b` of `m`; none when it leaves `m`. -/
def slice (m : List α) (a b : Nat) : Option (List α) :=
  if a ≤ b ∧ b ≤ m.length then some (window m a (b - a)) else none

theorem slice_of_le {m : List α} {a b : Nat} (hab : a ≤ b) (hb : b ≤ m.length) :
    slice m a b = some (window m a (b - a)) := if_pos ⟨hab, hb⟩

@[simp] theorem window_zero (m : List α) (n : Nat) : window m 0 n = m.take n := rfl

theorem window_length {m : List α} {a n : Nat} (h : a + n ≤ m.length) :
    (window m a n).length = n := by
  simp only [window, List.length_take, List.length_drop]
  omega

theorem splice_length {m w : List α} {a : Nat} (h : a + w.length ≤ m.length) :
    (splice m a w).length = m.length := by
  simp only [splice, List.length_append, List.length_take, List.length_drop]
  omega

theorem getElem?_window (m : List α) (a n i : Nat) :
    (window m a n)[i]? = if i < n then m[a + i]? else none := by
  simp only [window, List.getElem?_take, List.getElem?_drop]

theorem getElem?_splice {m w : List α} {a : Nat} (h : a + w.length ≤ m.length) (i : Nat) :
    (splice m a w)[i]? =
      if i < a then m[i]? else if i < a + w.length then w[i - a]? else m[i]? := by
  have htake : (m.take a).length = a := by
    rw [List.length_take]; omega
  simp only [splice]
  by_cases h₁ : i < a
  · rw [if_pos h₁, List.append_assoc, List.getElem?_append_left (by omega),
      List.getElem?_take, if_pos h₁]
  · rw [if_neg h₁]
    by_cases h₂ : i < a + w.length
    · rw [if_pos h₂, List.append_assoc, List.getElem?_append_right (by omega), htake,
        List.getElem?_append_left (by omega)]
    · rw [if_neg h₂, List.getElem?_append_right (by simp only [List.length_append]; omega),
        List.getElem?_drop]
      congr 1
      simp only [List.length_append]
      omega

theorem window_splice_self {m w : List α} {a : Nat} (h : a + w.length ≤ m.length) :
    window (splice m a w) a w.length = w := by
  apply List.ext_getElem?
  intro i
  rw [getElem?_window, getElem?_splice h]
  by_cases hi : i < w.length
  · rw [if_pos hi, if_neg (by omega), if_pos (by omega)]
    congr 1; omega
  · rw [if_neg hi, List.getElem?_eq_none (by omega)]

/-- **The frame rule**: a window that misses the range written is unchanged. -/
theorem window_splice_disjoint {m w : List α} {a b n : Nat} (h : a + w.length ≤ m.length)
    (hd : b + n ≤ a ∨ a + w.length ≤ b) : window (splice m a w) b n = window m b n := by
  apply List.ext_getElem?
  intro i
  rw [getElem?_window, getElem?_window, getElem?_splice h]
  by_cases hi : i < n
  · rw [if_pos hi, if_pos hi]
    rcases hd with hd | hd
    · rw [if_pos (by omega)]
    · rw [if_neg (by omega), if_neg (by omega)]
  · rw [if_neg hi, if_neg hi]

theorem take_splice_end {m w : List α} {a : Nat} (h : a + w.length ≤ m.length) :
    (splice m a w).take (a + w.length) = m.take a ++ w := by
  have hlen : (m.take a ++ w).length = a + w.length := by
    rw [List.length_append, List.length_take]; omega
  rw [splice, List.take_append_of_le_length (by omega), List.take_of_length_le (by omega)]

theorem window_append_left {l t : List α} {a n : Nat} (h : a + n ≤ l.length) :
    window (l ++ t) a n = window l a n := by
  rw [window, window, List.drop_append_of_le_length (by omega),
    List.take_append_of_le_length (by rw [List.length_drop]; omega)]

theorem window_append_right {l t : List α} {a n : Nat} (h : l.length ≤ a) :
    window (l ++ t) a n = window t (a - l.length) n := by
  rw [window, window, List.drop_append, List.drop_of_length_le h, List.nil_append]

/-- Writing right behind what is there overwrites the front of what follows. -/
theorem splice_append {a : Nat} {pre : List α} (h : pre.length = a) (w post : List α) :
    splice (pre ++ post) a w = pre ++ (w ++ post.drop w.length) := by
  rw [splice, List.take_left' h, ← h, List.drop_append, List.append_assoc,
    List.drop_of_length_le (Nat.le_add_right _ _), List.nil_append, Nat.add_sub_cancel_left]

theorem window_append_window (m : List α) (a n k : Nat) :
    window m a n ++ window m (a + n) k = window m a (n + k) := by
  rw [window, window, window, List.take_add, List.drop_drop]

theorem drop_take_window (m : List α) (a b : Nat) : (m.take b).drop a = window m a (b - a) := by
  rw [window, List.drop_take]

/-! ### Changes confined to a range -/

/-- `xs` and `ys` have the same cells except possibly from `a` to `b`. -/
def AgreeOutside (a b : Nat) (xs ys : List α) : Prop :=
  xs.length = ys.length ∧ ∀ i, i < a ∨ b ≤ i → xs[i]? = ys[i]?

section AgreeOutside
variable {a b n : Nat} {xs ys : List α}

theorem AgreeOutside.drop (h : AgreeOutside a b xs ys) (hn : n ≤ a) :
    AgreeOutside (a - n) (b - n) (xs.drop n) (ys.drop n) := by
  refine ⟨by simp only [List.length_drop, h.1], ?_⟩
  intro i hi
  rw [List.getElem?_drop, List.getElem?_drop]
  exact h.2 _ (by omega)

theorem AgreeOutside.drop_eq (h : AgreeOutside a b xs ys) (hn : b ≤ n) :
    xs.drop n = ys.drop n := by
  apply List.ext_getElem?
  intro i
  rw [List.getElem?_drop, List.getElem?_drop]
  exact h.2 _ (Or.inr (by omega))

theorem AgreeOutside.window_eq (h : AgreeOutside a b xs ys) {p : Nat}
    (hp : p + n ≤ a ∨ b ≤ p) : window xs p n = window ys p n := by
  apply List.ext_getElem?
  intro i
  rw [getElem?_window, getElem?_window]
  by_cases hi : i < n
  · rw [if_pos hi, if_pos hi]
    exact h.2 _ (by omega)
  · rw [if_neg hi, if_neg hi]

/-- A change confined to a range is the replacement of one part by another of
the same length. -/
theorem AgreeOutside.exists_parts (h : AgreeOutside a b xs ys) :
    ∃ pre x y post, xs = pre ++ x ++ post ∧ ys = pre ++ y ++ post ∧
      x.length = y.length ∧ x.length ≤ b - a := by
  refine ⟨xs.take a, window xs a (b - a), window ys a (b - a), xs.drop (a + (b - a)), ?_, ?_, ?_, ?_⟩
  · rw [List.append_assoc, ← List.drop_drop, window, List.take_append_drop, List.take_append_drop]
  · have hpre : xs.take a = ys.take a := h.window_eq (p := 0) (Or.inl (by omega))
    rw [h.drop_eq (by omega), hpre, List.append_assoc, ← List.drop_drop, window,
      List.take_append_drop, List.take_append_drop]
  · simp only [window, List.length_take, List.length_drop, h.1]
  · simp only [window, List.length_take]
    exact Nat.min_le_left _ _

theorem agreeOutside_parts (pre post : List α) {x y : List α} (hlen : x.length = y.length) :
    AgreeOutside pre.length (pre.length + x.length) (pre ++ (x ++ post)) (pre ++ (y ++ post)) := by
  refine ⟨by simp only [List.length_append, hlen], ?_⟩
  intro i hi
  rcases hi with hi | hi
  · rw [List.getElem?_append_left hi, List.getElem?_append_left hi]
  · rw [List.getElem?_append_right (by omega), List.getElem?_append_right (by omega),
      List.getElem?_append_right (by omega), List.getElem?_append_right (by omega), hlen]

end AgreeOutside

end Window

/-! ## Little-endian words -/

/-- The low `k` bytes of `n`, least significant first. -/
def toLE : Nat → Nat → List UInt8
  | 0, _ => []
  | k + 1, n => UInt8.ofNat n :: toLE k (n / 256)

/-- The number whose little-endian bytes are given. -/
def ofLE : List UInt8 → Nat
  | [] => 0
  | b :: bs => b.toNat + 256 * ofLE bs

@[simp] theorem toLE_length : ∀ k n : Nat, (toLE k n).length = k
  | 0, _ => rfl
  | k + 1, n => by simp [toLE, toLE_length k]

theorem ofLE_toLE (k n : Nat) : ofLE (toLE k n) = n % 256 ^ k := by
  induction k generalizing n with
  | zero => simp [toLE, ofLE, Nat.mod_one]
  | succ k ih =>
      have hb : (UInt8.ofNat n).toNat = n % 256 := by simp
      rw [toLE, ofLE, ih, hb, Nat.pow_succ', Nat.mod_mul]

theorem toLE_ofLE (bs : List UInt8) : toLE bs.length (ofLE bs) = bs := by
  induction bs with
  | nil => rfl
  | cons b bs ih =>
      have hb : b.toNat < 256 := b.toNat_lt
      have hhead : UInt8.ofNat (b.toNat + 256 * ofLE bs) = b := by
        apply UInt8.toNat_inj.mp
        simp only [UInt8.toNat_ofNat']
        omega
      have htail : (b.toNat + 256 * ofLE bs) / 256 = ofLE bs := by omega
      rw [List.length_cons, ofLE, toLE, hhead, htail, ih]

theorem ofLE_lt (bs : List UInt8) : ofLE bs < 256 ^ bs.length := by
  induction bs with
  | nil => exact Nat.one_pos
  | cons b bs ih =>
      have hb : b.toNat < 256 := b.toNat_lt
      rw [ofLE, List.length_cons, Nat.pow_succ]
      omega

/-- Two bytes as a 16-bit word. -/
def readU16 (bs : List UInt8) : UInt16 := UInt16.ofNat (ofLE bs)

/-- Four bytes as a 32-bit word. -/
def readU32 (bs : List UInt8) : UInt32 := UInt32.ofNat (ofLE bs)

/-- Eight bytes as a 64-bit word. -/
def readU64 (bs : List UInt8) : UInt64 := UInt64.ofNat (ofLE bs)

def writeU16 (x : UInt16) : List UInt8 := toLE 2 x.toNat

def writeU32 (x : UInt32) : List UInt8 := toLE 4 x.toNat

def writeU64 (x : UInt64) : List UInt8 := toLE 8 x.toNat

@[simp] theorem writeU16_length (x : UInt16) : (writeU16 x).length = 2 := toLE_length 2 _

@[simp] theorem writeU32_length (x : UInt32) : (writeU32 x).length = 4 := toLE_length 4 _

@[simp] theorem writeU64_length (x : UInt64) : (writeU64 x).length = 8 := toLE_length 8 _

@[simp] theorem readU16_writeU16 (x : UInt16) : readU16 (writeU16 x) = x := by
  have h : x.toNat < 256 ^ 2 := x.toNat_lt
  rw [readU16, writeU16, ofLE_toLE, Nat.mod_eq_of_lt h, UInt16.ofNat_toNat]

@[simp] theorem readU32_writeU32 (x : UInt32) : readU32 (writeU32 x) = x := by
  have h : x.toNat < 256 ^ 4 := x.toNat_lt
  rw [readU32, writeU32, ofLE_toLE, Nat.mod_eq_of_lt h, UInt32.ofNat_toNat]

@[simp] theorem readU64_writeU64 (x : UInt64) : readU64 (writeU64 x) = x := by
  have h : x.toNat < 256 ^ 8 := x.toNat_lt
  rw [readU64, writeU64, ofLE_toLE, Nat.mod_eq_of_lt h, UInt64.ofNat_toNat]

theorem writeU16_readU16 {bs : List UInt8} (h : bs.length = 2) : writeU16 (readU16 bs) = bs := by
  have hlt := ofLE_lt bs
  rw [h] at hlt
  rw [writeU16, readU16, UInt16.toNat_ofNat_of_lt' hlt, ← h, toLE_ofLE]

theorem writeU32_readU32 {bs : List UInt8} (h : bs.length = 4) : writeU32 (readU32 bs) = bs := by
  have hlt := ofLE_lt bs
  rw [h] at hlt
  rw [writeU32, readU32, UInt32.toNat_ofNat_of_lt' hlt, ← h, toLE_ofLE]

theorem writeU64_readU64 {bs : List UInt8} (h : bs.length = 8) : writeU64 (readU64 bs) = bs := by
  have hlt := ofLE_lt bs
  rw [h] at hlt
  rw [writeU64, readU64, UInt64.toNat_ofNat_of_lt' hlt, ← h, toLE_ofLE]

end Memory

/-! ## Wrapping 64-bit counters -/

namespace U64

/-- Addition of 64-bit words, wrapping. -/
def add (a b : Nat) : Nat := (a + b) % 2 ^ 64

/-- Subtraction of 64-bit words, wrapping. -/
def sub (a b : Nat) : Nat := (a + 2 ^ 64 - b % 2 ^ 64) % 2 ^ 64

theorem add_of_lt {a b : Nat} (h : a + b < 2 ^ 64) : add a b = a + b := Nat.mod_eq_of_lt h

theorem sub_of_le {a b : Nat} (hba : b ≤ a) (ha : a < 2 ^ 64) : sub a b = a - b := by
  simp only [sub]
  omega

theorem sub_add_cancel {a b : Nat} (ha : a < 2 ^ 64) : sub (add a b) b = a := by
  simp only [sub, add]
  omega

/-- The word a count stands for. -/
def wrap (n : Nat) : Nat := n % 2 ^ 64

theorem wrap_of_lt {n : Nat} (h : n < 2 ^ 64) : wrap n = n := Nat.mod_eq_of_lt h

theorem add_wrap (a b : Nat) : add (wrap a) b = wrap (a + b) := Nat.mod_add_mod a _ b

/-- The sum of 64-bit words, wrapping. -/
def sum (ns : List Nat) : Nat := ns.foldl add 0

theorem foldl_add_wrap (ns : List Nat) (a : Nat) : ns.foldl add (wrap a) = wrap (a + ns.sum) := by
  induction ns generalizing a with
  | nil => rfl
  | cons n ns ih => rw [List.foldl_cons, add_wrap, ih, List.sum_cons, Nat.add_assoc]

theorem sum_of_lt {ns : List Nat} (h : ns.sum < 2 ^ 64) : sum ns = ns.sum := by
  have hsum := foldl_add_wrap ns 0
  rw [Nat.zero_add, wrap_of_lt h] at hsum
  exact hsum

theorem sub_wrap (a b : Nat) : sub (wrap (a + b)) b = wrap a := by
  unfold sub wrap
  omega

end U64
