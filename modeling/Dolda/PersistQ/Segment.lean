/-
# `Dolda.PersistQ.Segment` — a segment of bytes

`Segment` of `src/persistq.rs`: a mapped file that payloads are appended to with
nothing between them.  Nobody records how long a payload is, so a read goes from
its offset to the write position.
-/
import Dolda.Files

namespace Dolda.PersistQ

open Memory

structure Segment extends MappedFile where
  path : String

/-- The message with which a segment that could not be created is refused. -/
def fileMessage : FileError → String
  | .opening e => "Failed to open segment file: " ++ e
  | .settingLen e => "Failed to set file length: " ++ e
  | .mapping e => "Failed to mmap file: " ++ e

namespace Segment

def new (fs : Files) (path : String) (maxSize : Nat) : Except String Segment :=
  match MappedFile.create fs path maxSize with
  | .error e => .error (fileMessage e)
  | .ok file => .ok { toMappedFile := file, path }

def append (s : Segment) (data : List UInt8) : Option (Except String Nat × Segment) :=
  match s.toMappedFile.append data with
  | none => none
  | some (none, file) => some (.error "Segment full", { s with toMappedFile := file })
  | some (some offset, file) => some (.ok offset, { s with toMappedFile := file })

def read (s : Segment) (offset : Nat) : Option (Except String (List UInt8)) :=
  let currentPos := s.writePos
  if currentPos ≤ offset then some (.error "Offset out of bounds")
  else
    match slice s.mmap offset currentPos with
    | none => none
    | some data => some (.ok data)

/-! ## What a segment holds -/

/-- The segment has size `cap` and holds the bytes `bs`. -/
structure Holds (cap : Nat) (s : Segment) (bs : List UInt8) : Prop where
  maxSize : s.maxSize = cap
  filled : s.Filled bs

variable {cap : Nat} {s : Segment} {bs data : List UInt8}

theorem new_holds {fs : Files} {path : String} (h : new fs path cap = .ok s) :
    s.Holds cap [] := by
  simp only [new] at h
  split at h
  · cases h
  · rename_i file hfile
    cases h
    exact ⟨(MappedFile.create_ok hfile).1, .create hfile⟩

theorem new_path {fs : Files} {path : String} (h : new fs path cap = .ok s) : s.path = path := by
  simp only [new] at h
  split at h
  · cases h
  · cases h
    rfl

theorem new_error {fs : Files} {path message : String} (h : new fs path cap = .error message) :
    ∃ e, message = fileMessage e := by
  simp only [new] at h
  split at h
  · cases h
    exact ⟨_, rfl⟩
  · cases h

theorem append_path {s' : Segment} {result : Except String Nat}
    (h : s.append data = some (result, s')) : s'.path = s.path := by
  simp only [Segment.append] at h
  split at h
  · cases h
  · cases h
    rfl
  · cases h
    rfl

theorem Holds.hasSpace_iff (h : s.Holds cap bs) (hsize : data.length ≤ isizeMax) :
    s.hasSpace data.length = true ↔ bs.length + data.length ≤ cap := by
  rw [MappedFile.hasSpace_iff h.filled.inside hsize, h.filled.writePos, h.maxSize]

/-- An append that fits adds its bytes at the end. -/
theorem Holds.append (h : s.Holds cap bs) (hfit : bs.length + data.length ≤ cap) :
    ∃ s', s.append data = some (.ok bs.length, s') ∧ s'.Holds cap (bs ++ data) := by
  have hpos := h.filled.writePos
  have hfit' : s.writePos + data.length ≤ s.maxSize := by rwa [hpos, h.maxSize]
  refine ⟨{ s with toMappedFile := s.extended data hfit' }, ?_, h.maxSize, h.filled.extended hfit'⟩
  simp only [Segment.append, MappedFile.append_of_fits hfit', hpos]

/-- A read sees what the segment holds from its offset on. -/
theorem Holds.read (h : s.Holds cap bs) (offset : Nat) :
    s.read offset = some (if bs.length ≤ offset then .error "Offset out of bounds"
      else .ok (bs.drop offset)) := by
  have hpos := h.filled.writePos
  by_cases hlen : bs.length ≤ offset
  · simp only [Segment.read, hpos, if_pos hlen]
  · have hslice := h.filled.slice_eq offset (by omega)
    rw [hpos] at hslice
    simp only [Segment.read, hpos, if_neg hlen, hslice]

end Segment

end Dolda.PersistQ
