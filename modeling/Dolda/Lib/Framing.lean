/-
# `Dolda.Lib.Framing` — self-delimiting frames

A **codec** writes an item as a frame and reads one frame off the front of a
byte string, answering with the item and the size it read.  The one law asked
of it (`decode_iff`) is that it accepts exactly its own frames: this gives at
once that a frame is read back whatever follows it, that an accepted frame is
the canonical one, and that the frames are prefix-free.

From the law:

    reading n frames off their concatenation gives them back   (`readFrames_frames`)
    a byte string is a concatenation of frames iff reading
      frame after frame gets to its end                         (`framed_iff_decode`)

A program that reads from a **stream** has no byte string in hand: each read takes
its frame away.  `ReadsFrames` is the law of such a reader, and from it

    n reads answer as exactly when the stream begins with the
      frames of as, and leave what follows them                 (`ReadsFrames.many`)
    a stream that ends inside a frame is refused                (`ReadsFrames.cut`)
-/
import Mathlib.Data.List.Infix
import Dolda.Lib.Memory

namespace Framing

/-- A codec for items `α` over cells `β`, refusing with an `ε`. -/
structure Codec (α β ε : Type*) where
  encode : α → List β
  decode : List β → Except ε (α × Nat)
  /-- The items that can be written. -/
  Valid : α → Prop
  decode_iff : ∀ b a n, decode b = .ok (a, n) ↔
    Valid a ∧ n = (encode a).length ∧ encode a <+: b

section
variable {α β ε : Type*} (c : Codec α β ε)

/-! ## One frame -/

/-- A frame is read back whatever follows it. -/
theorem Codec.decode_encode {a : α} (h : c.Valid a) (t : List β) :
    c.decode (c.encode a ++ t) = .ok (a, (c.encode a).length) :=
  (c.decode_iff _ _ _).mpr ⟨h, rfl, List.prefix_append _ _⟩

/-! ## Many frames

A place is where an item's frame starts, right behind the frames before it.  The places
lie inside the range of the frames, follow one another and cover it without a gap. -/

/-- The frames of a list of items, one behind the other. -/
def Codec.frames (as : List α) : List β := as.flatMap c.encode

@[simp] theorem Codec.frames_nil : c.frames [] = [] := rfl

@[simp] theorem Codec.frames_cons (a : α) (as : List α) :
    c.frames (a :: as) = c.encode a ++ c.frames as := rfl

@[simp] theorem Codec.frames_append (as bs : List α) :
    c.frames (as ++ bs) = c.frames as ++ c.frames bs := List.flatMap_append

/-- The items of a list with the offset each frame starts at. -/
def Codec.places : Nat → List α → List (Nat × α)
  | _, [] => []
  | off, a :: as => (off, a) :: places (off + (c.encode a).length) as

theorem Codec.places_append (off : Nat) (as bs : List α) :
    c.places off (as ++ bs) = c.places off as ++ c.places (off + (c.frames as).length) bs := by
  induction as generalizing off with
  | nil => simp [places]
  | cons a as ih => simp [places, ih, Nat.add_assoc]

theorem Codec.places_getElem? (off : Nat) (as : List α) (n : Nat) :
    (c.places off as)[n]? = as[n]?.map (fun a => (off + (c.frames (as.take n)).length, a)) := by
  induction as generalizing off n with
  | nil => simp [places]
  | cons a as ih =>
      cases n with
      | zero => simp [places]
      | succ n => simp [places, ih, Nat.add_assoc]

theorem Codec.mem_places {off : Nat} {as : List α} {p : Nat × α} (h : p ∈ c.places off as) :
    ∃ pre post, as = pre ++ p.2 :: post ∧ p.1 = off + (c.frames pre).length := by
  obtain ⟨n, hn⟩ := List.mem_iff_getElem?.mp h
  rw [c.places_getElem?, Option.map_eq_some_iff] at hn
  obtain ⟨a, ha, rfl⟩ := hn
  obtain ⟨hlt, rfl⟩ := List.getElem?_eq_some_iff.mp ha
  exact ⟨as.take n, as.drop (n + 1), by simp, rfl⟩

theorem Codec.places_inside {off : Nat} {as : List α} {p : Nat × α} (h : p ∈ c.places off as) :
    off ≤ p.1 ∧ p.1 + (c.encode p.2).length ≤ off + (c.frames as).length := by
  obtain ⟨pre, post, has, hp⟩ := c.mem_places h
  rw [has, c.frames_append, c.frames_cons, List.length_append, List.length_append, hp]
  omega

theorem Codec.places_pairwise (off : Nat) (as : List α) :
    (c.places off as).Pairwise (fun p q => p.1 + (c.encode p.2).length ≤ q.1) := by
  induction as generalizing off with
  | nil => exact List.Pairwise.nil
  | cons a as ih =>
      refine List.Pairwise.cons ?_ (ih _)
      intro q hq
      exact (c.places_inside hq).1

theorem Codec.places_cover {off : Nat} {as : List α} {x : Nat} (hle : off ≤ x)
    (hlt : x < off + (c.frames as).length) :
    ∃ p ∈ c.places off as, p.1 ≤ x ∧ x < p.1 + (c.encode p.2).length := by
  induction as generalizing off with
  | nil =>
      rw [c.frames_nil, List.length_nil] at hlt
      omega
  | cons a as ih =>
      rw [c.frames_cons, List.length_append, ← Nat.add_assoc] at hlt
      rcases Nat.lt_or_ge x (off + (c.encode a).length) with hx | hx
      · exact ⟨(off, a), List.mem_cons_self, hle, hx⟩
      · obtain ⟨p, hp, hcov⟩ := ih hx hlt
        exact ⟨p, List.mem_cons_of_mem _ hp, hcov⟩

/-- A memory in which every place holds its frame holds all of them in a row. -/
theorem Codec.window_frames (m : List β) (off : Nat) (as : List α)
    (h : ∀ p ∈ c.places off as, Memory.window m p.1 (c.encode p.2).length = c.encode p.2) :
    Memory.window m off (c.frames as).length = c.frames as := by
  induction as generalizing off with
  | nil => rfl
  | cons a as ih =>
      have hhead := h (off, a) List.mem_cons_self
      have htail := ih _ (fun p hp => h p (List.mem_cons_of_mem _ hp))
      rw [c.frames_cons, List.length_append, ← Memory.window_append_window, hhead, htail]

/-- Reading `n` frames one after another from `off` on: the items with their
sizes, and where the reading stopped. -/
def readFrames (decode : List β → Except ε (α × Nat)) (b : List β) :
    Nat → Nat → Except ε (List (α × Nat) × Nat)
  | 0, off => .ok ([], off)
  | n + 1, off =>
      match decode (b.drop off) with
      | .error e => .error e
      | .ok (a, k) =>
          match readFrames decode b n (off + k) with
          | .error e => .error e
          | .ok (as, stop) => .ok ((a, k) :: as, stop)

/-- Reading off a concatenation of frames gives the items back, with their
sizes, and stops where what follows begins. -/
theorem Codec.readFrames_frames (t pre : List β) (as : List α) (h : ∀ a ∈ as, c.Valid a) :
    readFrames c.decode (pre ++ c.frames as ++ t) as.length pre.length
      = .ok (as.map (fun a => (a, (c.encode a).length)), (pre ++ c.frames as).length) := by
  induction as generalizing pre with
  | nil => simp [readFrames]
  | cons a as ih =>
      have hdrop : (pre ++ c.frames (a :: as) ++ t).drop pre.length
          = c.encode a ++ (c.frames as ++ t) := by
        simp
      have hread := c.decode_encode (h a List.mem_cons_self) (c.frames as ++ t)
      have ih := ih (pre ++ c.encode a) (fun b hb => h b (List.mem_cons_of_mem _ hb))
      simp only [List.length_append, List.append_assoc, c.frames_cons] at hdrop ih ⊢
      simp only [List.length_cons, readFrames, hdrop, hread, ih, List.map_cons]

/-! ## Concatenations of frames -/

/-- `b` is a concatenation of frames of valid items. -/
def Codec.Framed (b : List β) : Prop := ∃ as, (∀ a ∈ as, c.Valid a) ∧ b = c.frames as

theorem Codec.framed_nil : c.Framed [] := ⟨[], by simp, rfl⟩

/-- A non-empty byte string is framed iff a frame can be read off its front and
what is left is framed. -/
theorem Codec.framed_iff_decode {b : List β} (hb : b ≠ []) :
    c.Framed b ↔ ∃ a n, c.decode b = .ok (a, n) ∧ c.Framed (b.drop n) := by
  constructor
  · rintro ⟨as, hval, rfl⟩
    cases as with
    | nil => exact absurd rfl hb
    | cons a as =>
        refine ⟨a, _, c.decode_encode (hval a List.mem_cons_self) (c.frames as), as,
          fun x hx => hval x (List.mem_cons_of_mem _ hx), ?_⟩
        simp
  · rintro ⟨a, n, hdec, as, hval, hrest⟩
    obtain ⟨ha, rfl, t, rfl⟩ := (c.decode_iff _ _ _).mp hdec
    refine ⟨a :: as, ?_, ?_⟩
    · intro x hx
      rcases List.mem_cons.mp hx with rfl | hx
      · exact ha
      · exact hval x hx
    · simpa using hrest

end

/-! ## Streams -/

section Stream
variable {α β ε σ : Type} {encode : α → List β} {Valid : α → Prop} {read : EStateM ε σ α}
  {on : List β → σ}

/-- `read` takes the frames of valid items off the front of a stream, and nothing
else; `on b` is the stream on which the cells `b` are still to come. -/
def ReadsFrames (encode : α → List β) (Valid : α → Prop) (read : EStateM ε σ α)
    (on : List β → σ) : Prop :=
  ∀ b a s, read (on b) = .ok a s ↔ Valid a ∧ ∃ t, b = encode a ++ t ∧ s = on t

/-- Reading `n` items, one after another. -/
def readMany (read : EStateM ε σ α) : Nat → EStateM ε σ (List α)
  | 0 => pure []
  | n + 1 => do
      let a ← read
      let as ← readMany read n
      return a :: as

theorem readMany_succ_eq_ok_iff {n : Nat} {s s' : σ} {bs : List α} :
    readMany read (n + 1) s = .ok bs s' ↔
      ∃ a as s₁, bs = a :: as ∧ read s = .ok a s₁ ∧ readMany read n s₁ = .ok as s' := by
  simp only [readMany, bind, EStateM.bind]
  cases hread : read s with
  | error e s₁ => simp
  | ok a s₁ =>
      cases hmany : readMany read n s₁ with
      | error e s₂ => simp [hmany]
      | ok as s₂ => simp [hmany, pure, EStateM.pure, eq_comm]

/-- `n` reads answer `as` exactly when the stream begins with the frames of `as`,
and what follows them is left. -/
theorem ReadsFrames.many (h : ReadsFrames encode Valid read on) (n : Nat) (b : List β)
    (as : List α) (s : σ) : readMany read n (on b) = .ok as s ↔
      as.length = n ∧ (∀ a ∈ as, Valid a) ∧ ∃ t, b = as.flatMap encode ++ t ∧ s = on t := by
  induction n generalizing b as with
  | zero =>
      constructor
      · intro hok
        cases hok
        exact ⟨rfl, by simp, b, rfl, rfl⟩
      · rintro ⟨hlen, -, t, rfl, rfl⟩
        rw [List.length_eq_zero_iff] at hlen
        subst hlen
        rfl
  | succ n ih =>
      rw [readMany_succ_eq_ok_iff]
      constructor
      · rintro ⟨a, as, s₁, rfl, hread, hmany⟩
        obtain ⟨ha, t, rfl, rfl⟩ := (h _ _ _).mp hread
        obtain ⟨hlen, has, t', rfl, rfl⟩ := (ih _ _).mp hmany
        refine ⟨by rw [List.length_cons, hlen], List.forall_mem_cons.mpr ⟨ha, has⟩, t', ?_, rfl⟩
        rw [List.flatMap_cons, List.append_assoc]
      · rintro ⟨hlen, has, t, rfl, rfl⟩
        cases as with
        | nil => cases hlen
        | cons a as =>
            obtain ⟨ha, has⟩ := List.forall_mem_cons.mp has
            refine ⟨a, as, on (as.flatMap encode ++ t), rfl, ?_, ?_⟩
            · refine (h _ _ _).mpr ⟨ha, _, ?_, rfl⟩
              rw [List.flatMap_cons, List.append_assoc]
            · exact (ih _ _).mpr ⟨Nat.succ_injective hlen, has, t, rfl, rfl⟩

/-- A stream that ends inside a frame is refused. -/
theorem ReadsFrames.cut (h : ReadsFrames encode Valid read on) {a : α} (ha : Valid a)
    {b : List β} (hb : b <+: encode a) (hne : b ≠ encode a) :
    ∃ e s, read (on b) = .error e s := by
  cases hread : read (on b) with
  | error e s => exact ⟨e, s, rfl⟩
  | ok a' s =>
      obtain ⟨ha', t, rfl, -⟩ := (h _ _ _).mp hread
      obtain ⟨t', ht'⟩ := hb
      have hwhole : read (on (encode a)) = .ok a (on []) :=
        (h _ _ _).mpr ⟨ha, [], (List.append_nil _).symm, rfl⟩
      have hfront : read (on (encode a)) = .ok a' (on (t ++ t')) :=
        (h _ _ _).mpr ⟨ha', t ++ t', by rw [← List.append_assoc, ht'], rfl⟩
      rw [hwhole] at hfront
      injection hfront with haa
      subst haa
      -- what was read is the whole frame, so nothing of it was missing
      have hnone : t ++ t' = [] := by
        rw [List.append_assoc] at ht'
        exact List.self_eq_append_right.mp ht'.symm
      exact absurd (by rw [(List.append_eq_nil_iff.mp hnone).1, List.append_nil]) hne

end Stream

end Framing
