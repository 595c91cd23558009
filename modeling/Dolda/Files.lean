/-
# `Dolda.Files` — memory-mapped segment files

Both segment types of the repository (`storage.rs`, `persistq.rs`) are a file of
fixed size mapped into memory, with an atomic write position that appends move
forward.  That part is `MappedFile`; each segment type extends it with its own
fields.

What the operating system answers is not the repository's to decide, so it is a
parameter `fs : Files` of every operation that touches the file system; it may
differ from one call to the next.  The mapped bytes of a file are its old
content, cut or padded with zeros to the length asked for (`resize`), which is
what `File::set_len` does.  `set_len` refuses a length beyond `i64::MAX`
whatever the system says.

Positions are 64-bit words and wrap, as in the release build.  An operation that
can panic answers in `Option`, `none` being the panic.

**The abstraction.**  `f.Filled bs`: the bytes up to the write position are
`bs`.  An append that fits adds its bytes at the end (`append_of_fits`,
`Filled.extended`); one that does not leaves the file as it was
(`append_of_full`).
-/
import Dolda.Lib.Memory

namespace Dolda

open Memory

/-! ## The file system -/

/-- What the operating system answers. -/
structure Files where
  createDirAll : String → Except String Unit
  /-- Open or create a file for reading and writing: the bytes it holds. -/
  openFile : String → Except String (List UInt8)
  setLen : String → Nat → Except String Unit
  mapFile : String → Except String Unit

/-- A file system on which everything succeeds and every file is new. -/
def Files.fresh : Files where
  createDirAll _ := .ok ()
  openFile _ := .ok []
  setLen _ _ := .ok ()
  mapFile _ := .ok ()

/-- Everything succeeds, whatever the files hold. -/
structure Files.Willing (fs : Files) : Prop where
  createDirAll : ∀ path, fs.createDirAll path = .ok ()
  openFile : ∀ path, ∃ content, fs.openFile path = .ok content
  setLen : ∀ path n, fs.setLen path n = .ok ()
  mapFile : ∀ path, fs.mapFile path = .ok ()

theorem Files.fresh_willing : Files.fresh.Willing :=
  ⟨fun _ => rfl, fun _ => ⟨[], rfl⟩, fun _ _ => rfl, fun _ => rfl⟩

/-- The bytes of each file; those of one that is not there are none. -/
abbrev Disk := String → List UInt8

/-- The file system, whose files hold what is on the disk. -/
def Files.on (fs : Files) (disk : Disk) : Files :=
  { fs with
    openFile := fun path =>
      match fs.openFile path with
      | .error e => .error e
      | .ok _ => .ok (disk path) }

theorem Files.Willing.on {fs : Files} (h : fs.Willing) (disk : Disk) : (fs.on disk).Willing where
  createDirAll := h.createDirAll
  openFile path := by
    obtain ⟨content, hopen⟩ := h.openFile path
    simp only [Files.on, hopen]
    exact ⟨_, rfl⟩
  setLen := h.setLen
  mapFile := h.mapFile

/-- The content of a file after `set_len`. -/
def resize (content : List UInt8) (n : Nat) : List UInt8 :=
  content.take n ++ List.replicate (n - content.length) 0

theorem resize_length (content : List UInt8) (n : Nat) : (resize content n).length = n := by
  simp only [resize, List.length_append, List.length_take, List.length_replicate]
  omega

theorem resize_self (content : List UInt8) : resize content content.length = content := by
  rw [resize, List.take_length, Nat.sub_self, List.replicate_zero, List.append_nil]

/-- The longest slice, vector or file there is: `isize::MAX`, `i64::MAX`. -/
def isizeMax : Nat := 2 ^ 63 - 1

/-- The step at which creating a mapped file failed, and the system's message. -/
inductive FileError where
  | opening (message : String)
  | settingLen (message : String)
  | mapping (message : String)
deriving DecidableEq, Repr

/-! ## Mapped files -/

/-- A mapped file.  The map has the length of the file, and no slice is longer
than `isize::MAX`. -/
structure MappedFile where
  maxSize : Nat
  writePos : Nat
  mmap : List UInt8
  mmap_length : mmap.length = maxSize
  maxSize_le : maxSize ≤ isizeMax

namespace MappedFile

/-- Open, set the length, map: the file before the first append. -/
def create (fs : Files) (path : String) (maxSize : Nat) : Except FileError MappedFile :=
  match fs.openFile path with
  | .error e => .error (.opening e)
  | .ok content =>
      if h : maxSize ≤ isizeMax then
        match fs.setLen path maxSize with
        | .error e => .error (.settingLen e)
        | .ok () =>
            match fs.mapFile path with
            | .error e => .error (.mapping e)
            | .ok () =>
                .ok
                  { maxSize
                    writePos := 0
                    mmap := resize content maxSize
                    mmap_length := resize_length content maxSize
                    maxSize_le := h }
      else .error (.settingLen "out of range integral type conversion attempted")

/-- Where everything succeeds a file of admissible size can be created. -/
theorem create_willing {fs : Files} {maxSize : Nat} (hfs : fs.Willing) (path : String)
    (h : maxSize ≤ isizeMax) : ∃ f, create fs path maxSize = .ok f := by
  obtain ⟨content, hopen⟩ := hfs.openFile path
  simp only [create, hopen, dif_pos h, hfs.setLen, hfs.mapFile]
  exact ⟨_, rfl⟩

/-- `write_pos.fetch_add(size)`. -/
def reserve (f : MappedFile) (size : Nat) : MappedFile :=
  { f with writePos := U64.add f.writePos size }

/-- `write_pos.fetch_sub(size)`. -/
def release (f : MappedFile) (size : Nat) : MappedFile :=
  { f with writePos := U64.sub f.writePos size }

@[simp] theorem reserve_maxSize : ∀ (f : MappedFile) (size : Nat),
    (f.reserve size).maxSize = f.maxSize
  | ⟨_, _, _, _, _⟩, _ => rfl

@[simp] theorem reserve_mmap : ∀ (f : MappedFile) (size : Nat), (f.reserve size).mmap = f.mmap
  | ⟨_, _, _, _, _⟩, _ => rfl

@[simp] theorem release_maxSize : ∀ (f : MappedFile) (size : Nat),
    (f.release size).maxSize = f.maxSize
  | ⟨_, _, _, _, _⟩, _ => rfl

@[simp] theorem release_mmap : ∀ (f : MappedFile) (size : Nat), (f.release size).mmap = f.mmap
  | ⟨_, _, _, _, _⟩, _ => rfl

/-- The capacity check on the position fetched. -/
def overflows (f : MappedFile) (offset size : Nat) : Bool :=
  decide (f.maxSize < U64.add offset size)

/-- `mmap[start..start + len].copy_from_slice(bytes)` under the write lock. -/
def store (f : MappedFile) (start : Nat) (bytes : List UInt8) : Option MappedFile :=
  if h : start + bytes.length ≤ f.mmap.length then
    some
      { f with
        mmap := splice f.mmap start bytes
        mmap_length := (splice_length h).trans f.mmap_length }
  else none

/-- The start of both appends: reserve, check, and either roll back (answering
`none`) or copy (answering the offset). -/
def append (f : MappedFile) (bytes : List UInt8) : Option (Option Nat × MappedFile) :=
  let offset := f.writePos
  let f := f.reserve bytes.length
  if f.overflows offset bytes.length then some (none, f.release bytes.length)
  else
    match f.store offset bytes with
    | none => none
    | some f => some (some offset, f)

def hasSpace (f : MappedFile) (size : Nat) : Bool :=
  decide (U64.add f.writePos size ≤ f.maxSize)

/-! ### One append, alone -/

section
variable {f : MappedFile} {bytes bs : List UInt8} {n : Nat}

theorem create_ok {fs : Files} {path : String} {maxSize : Nat}
    (h : create fs path maxSize = .ok f) : f.maxSize = maxSize ∧ f.writePos = 0 := by
  simp only [create] at h
  split at h
  · cases h
  split at h
  · split at h
    · cases h
    split at h
    · cases h
    cases h
    exact ⟨rfl, rfl⟩
  · cases h

/-- No word wraps while positions stay inside the file. -/
theorem add_of_le (hpos : f.writePos ≤ f.maxSize) (hn : n ≤ isizeMax) :
    U64.add f.writePos n = f.writePos + n := by
  have hmax := f.maxSize_le
  apply U64.add_of_lt
  simp only [isizeMax] at hn hmax
  omega

theorem hasSpace_iff (hpos : f.writePos ≤ f.maxSize) (hn : n ≤ isizeMax) :
    f.hasSpace n = true ↔ f.writePos + n ≤ f.maxSize := by
  rw [hasSpace, decide_eq_true_iff, add_of_le hpos hn]

/-- The check an append makes on the position it fetched is that of
`has_space`. -/
theorem reserve_overflows (f : MappedFile) (n : Nat) :
    (f.reserve n).overflows f.writePos n = !f.hasSpace n := by
  rw [overflows, hasSpace, reserve_maxSize, ← decide_not]
  exact decide_eq_decide.mpr Nat.not_le.symm

theorem store_of_le {start : Nat} (h : start + bytes.length ≤ f.maxSize) :
    f.store start bytes = some
      { f with
        mmap := splice f.mmap start bytes
        mmap_length := (splice_length (f.mmap_length ▸ h)).trans f.mmap_length } :=
  dif_pos (f.mmap_length ▸ h)

theorem store_eq_some {f' : MappedFile} {start : Nat} (h : f.store start bytes = some f') :
    f'.maxSize = f.maxSize ∧ f'.writePos = f.writePos := by
  simp only [store] at h
  split at h
  · cases h
    exact ⟨rfl, rfl⟩
  · cases h

/-- The file after an append that fits. -/
def extended (f : MappedFile) (bytes : List UInt8)
    (h : f.writePos + bytes.length ≤ f.maxSize) : MappedFile :=
  { f with
    writePos := f.writePos + bytes.length
    mmap := splice f.mmap f.writePos bytes
    mmap_length := (splice_length (f.mmap_length ▸ h)).trans f.mmap_length }

theorem append_of_fits (h : f.writePos + bytes.length ≤ f.maxSize) :
    f.append bytes = some (some f.writePos, f.extended bytes h) := by
  have hmax := f.maxSize_le
  have hpos : f.writePos ≤ f.maxSize := by omega
  have hsize : bytes.length ≤ isizeMax := by omega
  have hover : (f.reserve bytes.length).overflows f.writePos bytes.length = false := by
    rw [reserve_overflows, (hasSpace_iff hpos hsize).mpr h]
    rfl
  have hstore := store_of_le (f := f.reserve bytes.length) h
  simp only [append, hover, Bool.false_eq_true, if_false, hstore]
  simp only [reserve, add_of_le hpos hsize, extended]

theorem append_of_full (hpos : f.writePos ≤ f.maxSize) (hsize : bytes.length ≤ isizeMax)
    (h : f.maxSize < f.writePos + bytes.length) : f.append bytes = some (none, f) := by
  have hmax := f.maxSize_le
  simp only [isizeMax] at hmax
  have hover : (f.reserve bytes.length).overflows f.writePos bytes.length = true := by
    rw [reserve_overflows, Bool.not_eq_true', ← Bool.not_eq_true, hasSpace_iff hpos hsize]
    exact Nat.not_le.mpr h
  have hback : (f.reserve bytes.length).release bytes.length = f := by
    simp only [reserve, release, U64.sub_add_cancel (show f.writePos < 2 ^ 64 by omega)]
  simp only [append, hover, if_true, hback]

/-! ### What a file holds -/

/-- The bytes up to the write position are `bs`. -/
structure Filled (f : MappedFile) (bs : List UInt8) : Prop where
  writePos : f.writePos = bs.length
  inside : f.writePos ≤ f.maxSize
  bytes : f.mmap.take f.writePos = bs

theorem Filled.create {fs : Files} {path : String} {maxSize : Nat}
    (h : create fs path maxSize = .ok f) : f.Filled [] := by
  obtain ⟨-, hpos⟩ := create_ok h
  exact ⟨hpos, hpos ▸ Nat.zero_le _, by rw [hpos]; rfl⟩

theorem Filled.extended (h : f.Filled bs) (hfit : f.writePos + bytes.length ≤ f.maxSize) :
    (f.extended bytes hfit).Filled (bs ++ bytes) where
  writePos := by
    show f.writePos + bytes.length = _
    rw [h.writePos, List.length_append]
  inside := hfit
  bytes := by
    show (splice f.mmap f.writePos bytes).take (f.writePos + bytes.length) = _
    rw [take_splice_end (by rw [f.mmap_length]; exact hfit), h.bytes]

/-- What a read from `offset` to the write position sees. -/
theorem Filled.slice_eq (h : f.Filled bs) (offset : Nat) (hoff : offset ≤ f.writePos) :
    slice f.mmap offset f.writePos = some (bs.drop offset) := by
  rw [slice_of_le hoff (by rw [f.mmap_length]; exact h.inside), ← drop_take_window, h.bytes]

/-- What is in a file is where it starts. -/
theorem Filled.window_eq {pre post : List UInt8} (h : f.Filled (pre ++ (bytes ++ post))) :
    window f.mmap pre.length bytes.length = bytes := by
  have hlen : pre.length + bytes.length ≤ f.writePos := by
    rw [h.writePos, List.length_append, List.length_append]
    omega
  have hrest : window f.mmap pre.length (f.writePos - pre.length) = bytes ++ post := by
    rw [← drop_take_window, h.bytes, List.drop_left]
  calc window f.mmap pre.length bytes.length
      = (window f.mmap pre.length (f.writePos - pre.length)).take bytes.length := by
        rw [window, window, List.take_take, Nat.min_eq_left (by omega)]
    _ = bytes := by rw [hrest, List.take_left]

end

end MappedFile

end Dolda
