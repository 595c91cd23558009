/-
# `Dolda.Lib.Layout` — fixed-size layouts

A **layout** writes an item as a fixed number of cells, so that every string of
that many cells is the text of exactly one item: writing and reading are inverse
to one another.  Words are layouts in either byte order, and a layout behind a
layout is a layout of pairs; the two laws are proved once for each way of putting
layouts together, and a header of any number of fields has them for nothing.

    the front of a string is an item's text iff the item is what
      is read off it                                  (`take_eq_write_iff`)
-/
import Dolda.Lib.Memory

open Memory

/-- A layout of items `α` in cells `β`. -/
structure Layout (α β : Type*) where
  size : Nat
  write : α → List β
  read : List β → α
  write_length : ∀ a, (write a).length = size
  read_write : ∀ a, read (write a) = a
  write_read : ∀ {bs}, bs.length = size → write (read bs) = bs

namespace Layout

attribute [simp] write_length read_write

section
variable {α α' β : Type*} (f : Layout α β) (g : Layout α' β)

/-- The front of a string is an item's text iff the item is what is read off it. -/
theorem take_eq_write_iff {bs : List β} (h : f.size ≤ bs.length) (a : α) :
    bs.take f.size = f.write a ↔ f.read (bs.take f.size) = a := by
  have hlen : (bs.take f.size).length = f.size := List.length_take_of_le h
  constructor
  · intro htake
    rw [htake, f.read_write]
  · intro hread
    rw [← hread, f.write_read hlen]

/-! ## Byte order -/

/-- The same cells the other way round. -/
def reversed : Layout α β where
  size := f.size
  write a := (f.write a).reverse
  read bs := f.read bs.reverse
  write_length a := by rw [List.length_reverse, f.write_length]
  read_write a := by rw [List.reverse_reverse, f.read_write]
  write_read h := by rw [f.write_read (by rw [List.length_reverse, h]), List.reverse_reverse]

/-! ## Fields -/

/-- One item behind another. -/
def followed : Layout (α × α') β where
  size := f.size + g.size
  write p := f.write p.1 ++ g.write p.2
  read bs := (f.read (bs.take f.size), g.read (bs.drop f.size))
  write_length p := by rw [List.length_append, f.write_length, g.write_length]
  read_write p := by
    rw [List.take_left' (f.write_length p.1), List.drop_left' (f.write_length p.1),
      f.read_write, g.read_write]
  write_read {bs} h := by
    have hfront : (bs.take f.size).length = f.size := List.length_take_of_le (by omega)
    have hback : (bs.drop f.size).length = g.size := by rw [List.length_drop]; omega
    rw [f.write_read hfront, g.write_read hback, List.take_append_drop]

@[simp] theorem followed_size : (f.followed g).size = f.size + g.size := rfl

@[simp] theorem followed_write (a : α) (a' : α') :
    (f.followed g).write (a, a') = f.write a ++ g.write a' := rfl

theorem followed_read (bs : List β) :
    (f.followed g).read bs = (f.read (bs.take f.size), g.read (bs.drop f.size)) := rfl

/-- Reading the window of two items is reading the window of each. -/
theorem followed_read_window (bs : List β) (n : Nat) :
    (f.followed g).read (window bs n (f.followed g).size)
      = (f.read (window bs n f.size), g.read (window bs (n + f.size) g.size)) := by
  have hfront : (window bs n (f.size + g.size)).take f.size = window bs n f.size := by
    rw [window, window, List.take_take, Nat.min_eq_left (Nat.le_add_right _ _)]
  have hback : (window bs n (f.size + g.size)).drop f.size = window bs (n + f.size) g.size := by
    rw [window, window, List.drop_take, List.drop_drop, Nat.add_sub_cancel_left]
  rw [followed_size, followed_read, hfront, hback]

end

/-! ## Words -/

/-- The little-endian words. -/
def u16le : Layout UInt16 UInt8 where
  size := 2
  write := writeU16
  read := readU16
  write_length := writeU16_length
  read_write := readU16_writeU16
  write_read := writeU16_readU16

def u32le : Layout UInt32 UInt8 where
  size := 4
  write := writeU32
  read := readU32
  write_length := writeU32_length
  read_write := readU32_writeU32
  write_read := writeU32_readU32

def u64le : Layout UInt64 UInt8 where
  size := 8
  write := writeU64
  read := readU64
  write_length := writeU64_length
  read_write := readU64_writeU64
  write_read := writeU64_readU64

/-- The big-endian words. -/
def u16be : Layout UInt16 UInt8 := u16le.reversed

def u32be : Layout UInt32 UInt8 := u32le.reversed

def u64be : Layout UInt64 UInt8 := u64le.reversed

@[simp] theorem u16be_size : u16be.size = 2 := rfl

@[simp] theorem u32be_size : u32be.size = 4 := rfl

@[simp] theorem u64be_size : u64be.size = 8 := rfl

end Layout
