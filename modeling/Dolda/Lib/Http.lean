/-
# `Dolda.Lib.Http` — reading a response

What a server sends as an HTTP/1.1 response is a status line, header fields and an
empty line, each ended by CR LF, and then as many bytes as the field
`Content-Length` says.  `read` is a client: it takes one response off the front of
the bytes that came.

    a response is read as it was written, whatever follows it    (`read_write`)
    what has been read stays read when more comes                (`read_append`)
    no proper part of a response is read as one                  (`read_cut`)
-/
import Mathlib.Data.List.Infix
import Mathlib.Data.List.TakeWhile
import Mathlib.Tactic.Common

namespace Http

/-- The bytes of a text. -/
def bytes (s : String) : List UInt8 := s.toUTF8.data.toList

structure Response where
  code : Nat
  reason : List UInt8
  fields : List (List UInt8 × List UInt8)
  body : List UInt8
deriving DecidableEq

/-! ## Writing -/

def version : List UInt8 := bytes "HTTP/1.1 "

def crlf : List UInt8 := [13, 10]

def writeField (field : List UInt8 × List UInt8) : List UInt8 :=
  field.1 ++ ([58, 32] ++ (field.2 ++ crlf))

def write (r : Response) : List UInt8 :=
  version ++ (bytes (toString r.code) ++ (32 :: (r.reason ++ (crlf ++
    (r.fields.flatMap writeField ++ (crlf ++ r.body))))))

/-! ## Reading -/

/-- What is before the first `a` with a `b` behind it, and what is after these two. -/
def cut (a b : UInt8) : List UInt8 → Option (List UInt8 × List UInt8)
  | x :: y :: rest =>
      if x = a ∧ y = b then some ([], rest)
      else (cut a b (y :: rest)).map (fun p => (x :: p.1, p.2))
  | _ => none

def isDigit (b : UInt8) : Bool := 48 ≤ b && b ≤ 57

def readNat (digits : List UInt8) : Option Nat :=
  if digits ≠ [] ∧ digits.all isDigit then
    some (Nat.ofDigitChars 10 (digits.map Char.ofUInt8) 0)
  else none

/-- The code and the reason. -/
def readStatus (line : List UInt8) : Option (Nat × List UInt8) :=
  if version <+: line then
    let status := line.drop version.length
    (readNat (status.takeWhile (· ≠ 32))).map (fun code => (code, (status.dropWhile (· ≠ 32)).tail))
  else none

theorem cut_eq {a b : UInt8} {input line rest : List UInt8}
    (h : cut a b input = some (line, rest)) :
    input = line ++ a :: b :: rest := by
  induction input generalizing line with
  | nil => cases h
  | cons x input ih =>
      cases input with
      | nil => cases h
      | cons y input =>
          rw [cut] at h
          by_cases hab : x = a ∧ y = b
          · rw [if_pos hab] at h
            cases h
            rw [hab.1, hab.2, List.nil_append]
          · rw [if_neg hab, Option.map_eq_some_iff] at h
            obtain ⟨⟨line', rest'⟩, hcut, hp⟩ := h
            cases hp
            rw [ih hcut, List.cons_append]

/-- The header fields, up to the empty line. -/
def readFields (input : List UInt8) :
    Option (List (List UInt8 × List UInt8) × List UInt8) :=
  match _h : cut 13 10 input with
  | none => none
  | some ([], rest) => some ([], rest)
  | some (x :: line, rest) =>
      match cut 58 32 (x :: line) with
      | none => none
      | some field => (readFields rest).map (fun p => (field :: p.1, p.2))
termination_by input.length
decreasing_by
  rw [cut_eq ‹cut 13 10 input = _›, List.length_append]
  simp only [List.length_cons]
  omega

def contentLength (fields : List (List UInt8 × List UInt8)) : Option Nat :=
  (fields.lookup (bytes "Content-Length")).bind readNat

/-- One response, and the bytes behind it. -/
def read (input : List UInt8) : Option (Response × List UInt8) := do
  let (line, rest) ← cut 13 10 input
  let (code, reason) ← readStatus line
  let (fields, rest) ← readFields rest
  let length ← contentLength fields
  if length ≤ rest.length then
    some ({ code, reason, fields, body := rest.take length }, rest.drop length)
  else none

/-! ## More bytes -/

section
variable {a b : UInt8} {input line rest more : List UInt8}

theorem cut_append (h : cut a b input = some (line, rest)) (more : List UInt8) :
    cut a b (input ++ more) = some (line, rest ++ more) := by
  induction input generalizing line with
  | nil => cases h
  | cons x input ih =>
      cases input with
      | nil => cases h
      | cons y input =>
          rw [cut] at h
          rw [List.cons_append, List.cons_append, cut]
          by_cases hab : x = a ∧ y = b
          · rw [if_pos hab] at h ⊢
            cases h
            rfl
          · rw [if_neg hab, Option.map_eq_some_iff] at h
            obtain ⟨⟨line', rest'⟩, hcut, hp⟩ := h
            cases hp
            rw [if_neg hab, ← List.cons_append, ih hcut]
            rfl

/-! ## Header fields -/

theorem readFields_end (h : cut 13 10 input = some ([], rest)) :
    readFields input = some ([], rest) := by
  rw [readFields]
  split <;> simp_all

theorem readFields_line {x : UInt8} (h : cut 13 10 input = some (x :: line, rest)) :
    readFields input =
      (cut 58 32 (x :: line)).bind (fun field =>
        (readFields rest).map (fun p => (field :: p.1, p.2))) := by
  rw [readFields]
  split
  case h_1 heq => simp_all
  case h_2 heq => simp_all
  case h_3 heq =>
    rw [h] at heq
    cases heq
    cases cut 58 32 (x :: line) <;> rfl

theorem readFields_append {fields : List (List UInt8 × List UInt8)}
    (h : readFields input = some (fields, rest)) (more : List UInt8) :
    readFields (input ++ more) = some (fields, rest ++ more) := by
  induction input using readFields.induct generalizing fields with
  | case1 input hcut =>
      rw [readFields] at h
      split at h <;> simp_all
  | case2 input rest' hcut =>
      rw [readFields_end hcut] at h
      cases h
      exact readFields_end (cut_append hcut more)
  | case3 input x line rest' hcut hfield =>
      rw [readFields_line hcut, hfield] at h
      cases h
  | case4 input x line rest' hcut field hfield ih =>
      rw [readFields_line hcut, hfield, Option.bind_some, Option.map_eq_some_iff] at h
      obtain ⟨⟨fields', rest''⟩, hrest, hp⟩ := h
      cases hp
      rw [readFields_line (cut_append hcut more), hfield, Option.bind_some, ih hrest]
      rfl

theorem read_append {r : Response} (h : read input = some (r, rest)) (more : List UInt8) :
    read (input ++ more) = some (r, rest ++ more) := by
  simp only [read, Option.bind_eq_bind, Option.bind_eq_some_iff] at h
  obtain ⟨⟨line, rest₁⟩, hline, ⟨code, reason⟩, hstatus, ⟨fields, rest₂⟩, hfields, length, hlength,
    hbody⟩ := h
  split at hbody
  · rename_i hle
    cases hbody
    have hle' : length ≤ (rest₂ ++ more).length := by
      rw [List.length_append]
      exact Nat.le_add_right_of_le hle
    simp only [read, cut_append hline, hstatus, readFields_append hfields, hlength,
      Option.bind_eq_bind, Option.bind_some, if_pos hle', List.take_append_of_le_length hle,
      List.drop_append_of_le_length hle]
  · cases hbody

end

/-! ## Reading what was written -/

section
variable {a b : UInt8} {line rest : List UInt8}

theorem cut_line (h : a ∉ line) (rest : List UInt8) :
    cut a b (line ++ a :: b :: rest) = some (line, rest) := by
  induction line with
  | nil => rw [List.nil_append, cut, if_pos ⟨rfl, rfl⟩]
  | cons x line ih =>
      obtain ⟨hx, hline⟩ := not_or.mp (mt List.mem_cons.mpr h)
      have hrest := ih hline
      cases line with
      | nil =>
          rw [List.nil_append] at hrest
          rw [List.cons_append, List.nil_append, cut, if_neg (fun hx' => hx hx'.1.symm), hrest]
          rfl
      | cons y line =>
          rw [List.cons_append] at hrest
          rw [List.cons_append, List.cons_append, cut, if_neg (fun hx' => hx hx'.1.symm), hrest]
          rfl

/-- A field whose value may hold anything but a CR. -/
theorem readFields_cons {field : List UInt8 × List UInt8} (hname : 13 ∉ field.1)
    (hcolon : 58 ∉ field.1) (hvalue : 13 ∉ field.2) (rest : List UInt8) :
    readFields (writeField field ++ rest) =
      (readFields rest).map (fun p => (field :: p.1, p.2)) := by
  have hline : 13 ∉ field.1 ++ 58 :: 32 :: field.2 := by
    simp only [List.mem_append, List.mem_cons, not_or]
    exact ⟨hname, by decide, by decide, hvalue⟩
  have hcut : cut 13 10 (writeField field ++ rest) =
      some (field.1 ++ 58 :: 32 :: field.2, rest) := by
    have h := cut_line (b := 10) hline rest
    simpa only [writeField, crlf, List.append_assoc, List.cons_append, List.nil_append] using h
  obtain ⟨x, line, hx⟩ := List.exists_cons_of_ne_nil
    (List.append_ne_nil_of_right_ne_nil field.1 (List.cons_ne_nil 58 (32 :: field.2)))
  have hfield := cut_line (b := 32) hcolon field.2
  rw [hx] at hcut hfield
  rw [readFields_line hcut, hfield]
  rfl

end

/-! ## Numbers -/

theorem bytes_append (s t : String) : bytes (s ++ t) = bytes s ++ bytes t := by
  simp only [bytes, String.toUTF8_eq_toByteArray, String.toByteArray_append, ByteArray.data_append,
    Array.toList_append]

theorem length_bytes (s : String) : (bytes s).length = s.utf8ByteSize := by
  rw [bytes, String.toUTF8_eq_toByteArray, Array.length_toList]
  rfl

theorem bytes_ofList (cs : List Char) :
    bytes (String.ofList cs) = cs.flatMap String.utf8EncodeChar := by
  rw [bytes, String.toUTF8_eq_toByteArray, String.toByteArray_ofList, List.utf8Encode,
    List.data_toByteArray]

/-- Characters of one byte. -/
theorem bytes_ascii {cs : List Char} (h : ∀ c ∈ cs, c.val ≤ 127) :
    bytes (String.ofList cs) = cs.map (fun c => c.val.toUInt8) := by
  rw [bytes_ofList]
  induction cs with
  | nil => rfl
  | cons c cs ih =>
      obtain ⟨hc, hcs⟩ := List.forall_mem_cons.mp h
      rw [List.flatMap_cons, List.map_cons, ih hcs,
        String.utf8EncodeChar_eq_singleton (Char.utf8Size_eq_one_iff.mpr hc)]
      rfl

theorem digit_val {n : Nat} {c : Char} (h : c ∈ Nat.toDigits 10 n) :
    48 ≤ c.val.toNat ∧ c.val.toNat ≤ 57 := by
  have hdigit := Nat.isDigit_of_mem_toDigits (by decide) (by decide) h
  rw [Char.isDigit, Bool.and_eq_true, decide_eq_true_eq, decide_eq_true_eq] at hdigit
  exact hdigit

theorem bytes_number (n : Nat) :
    bytes (toString n) = (Nat.toDigits 10 n).map (fun c => c.val.toUInt8) := by
  rw [Nat.toString_eq_ofList_toDigits]
  refine bytes_ascii (fun c hc => UInt32.le_iff_toNat_le.mpr ?_)
  exact (digit_val hc).2.trans (by decide)

theorem isDigit_bytes {n : Nat} {b : UInt8} (h : b ∈ bytes (toString n)) : isDigit b = true := by
  rw [bytes_number] at h
  obtain ⟨c, hc, rfl⟩ := List.mem_map.mp h
  obtain ⟨hlow, hhigh⟩ := digit_val hc
  rw [isDigit, Bool.and_eq_true, decide_eq_true_eq, decide_eq_true_eq, UInt8.le_iff_toNat_le,
    UInt8.le_iff_toNat_le, UInt32.toNat_toUInt8, Nat.mod_eq_of_lt (by omega)]
  exact ⟨hlow, hhigh⟩

theorem readNat_bytes (n : Nat) : readNat (bytes (toString n)) = some n := by
  have hdigits : (bytes (toString n)).map Char.ofUInt8 = Nat.toDigits 10 n := by
    rw [bytes_number, List.map_map]
    conv_rhs => rw [← List.map_id (Nat.toDigits 10 n)]
    refine List.map_congr_left (fun c hc => Char.ext (UInt32.toNat_inj.mp ?_))
    -- a digit is below 2 ^ 8
    have hsmall := Nat.mod_eq_of_lt ((Nat.lt_succ_of_le (digit_val hc).2).trans
      (show 58 < 2 ^ 8 by decide))
    exact (UInt8.toNat_toUInt32 _).trans ((UInt32.toNat_toUInt8 _).trans hsmall)
  have hne : bytes (toString n) ≠ [] := by
    rw [bytes_number]
    exact mt List.map_eq_nil_iff.mp Nat.toDigits_ne_nil
  rw [readNat, if_pos ⟨hne, List.all_eq_true.mpr (fun b hb => isDigit_bytes hb)⟩, hdigits,
    Nat.ofDigitChars_ten_toDigits]

/-! ## Responses -/

/-- Nothing in the head ends a line early, and the body is as long as the head says. -/
structure Response.Sendable (r : Response) : Prop where
  reason : 13 ∉ r.reason
  names : ∀ field ∈ r.fields, 13 ∉ field.1 ∧ 58 ∉ field.1
  values : ∀ field ∈ r.fields, 13 ∉ field.2
  length : contentLength r.fields = some r.body.length

theorem readFields_write {fields : List (List UInt8 × List UInt8)}
    (hnames : ∀ field ∈ fields, 13 ∉ field.1 ∧ 58 ∉ field.1)
    (hvalues : ∀ field ∈ fields, 13 ∉ field.2) (rest : List UInt8) :
    readFields (fields.flatMap writeField ++ (crlf ++ rest)) = some (fields, rest) := by
  induction fields with
  | nil =>
      refine readFields_end ?_
      rw [List.flatMap_nil, List.nil_append]
      exact cut_line List.not_mem_nil rest
  | cons field fields ih =>
      obtain ⟨hname, hnames⟩ := List.forall_mem_cons.mp hnames
      obtain ⟨hvalue, hvalues⟩ := List.forall_mem_cons.mp hvalues
      rw [List.flatMap_cons, List.append_assoc, readFields_cons hname.1 hname.2 hvalue,
        ih hnames hvalues]
      rfl

theorem not_mem_number {n : Nat} {b : UInt8} (h : isDigit b = false) :
    b ∉ bytes (toString n) := by
  intro hmem
  rw [isDigit_bytes hmem] at h
  cases h

theorem readStatus_write (code : Nat) (reason : List UInt8) :
    readStatus (version ++ (bytes (toString code) ++ 32 :: reason)) = some (code, reason) := by
  have hdigit : ∀ b ∈ bytes (toString code), decide (b ≠ 32) = true := by
    intro b hb
    refine decide_eq_true ?_
    rintro rfl
    exact not_mem_number (by decide) hb
  rw [readStatus, if_pos (List.prefix_append _ _)]
  simp only [List.drop_left]
  rw [List.takeWhile_append_of_pos hdigit, List.dropWhile_append_of_pos hdigit,
    List.takeWhile_cons_of_neg (by decide), List.dropWhile_cons_of_neg (by decide),
    List.append_nil, readNat_bytes]
  rfl

/-- **A response is read as it was written**, whatever follows it. -/
theorem read_write {r : Response} (h : r.Sendable) (rest : List UInt8) :
    read (write r ++ rest) = some (r, rest) := by
  have hline : 13 ∉ version ++ (bytes (toString r.code) ++ 32 :: r.reason) := by
    simp only [List.mem_append, List.mem_cons, not_or]
    exact ⟨by decide, not_mem_number (by decide), by decide, h.reason⟩
  have hcut : cut 13 10 (write r ++ rest) =
      some (version ++ (bytes (toString r.code) ++ 32 :: r.reason),
        r.fields.flatMap writeField ++ (crlf ++ (r.body ++ rest))) := by
    have hcut := cut_line (b := 10) hline
      (r.fields.flatMap writeField ++ (crlf ++ (r.body ++ rest)))
    simpa only [write, crlf, List.append_assoc, List.cons_append, List.nil_append] using hcut
  have hle : r.body.length ≤ (r.body ++ rest).length := by
    rw [List.length_append]
    exact Nat.le_add_right _ _
  simp only [read, hcut, readStatus_write, readFields_write h.names h.values, h.length,
    Option.bind_eq_bind, Option.bind_some, if_pos hle, List.take_left, List.drop_left]

/-- **No proper part of a response is read as one.** -/
theorem read_cut {r : Response} (h : r.Sendable) {part : List UInt8} (hpart : part <+: write r)
    (hne : part ≠ write r) : read part = none := by
  obtain ⟨more, hmore⟩ := hpart
  cases hread : read part with
  | none => rfl
  | some p =>
      have happend := read_append hread more
      have hwhole := read_write h []
      rw [List.append_nil, ← hmore, happend] at hwhole
      -- then nothing is missing
      have hnil := (List.append_eq_nil_iff.mp (Prod.mk.inj (Option.some.inj hwhole)).2).2
      rw [hnil, List.append_nil] at hmore
      exact absurd hmore hne

end Http
