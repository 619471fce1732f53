import Mathlib.Data.Nat.Notation
import Mathlib.Data.List.Infix

/-!
# Form data in a request body

How `application/x-www-form-urlencoded` writes a list of names and values: most
bytes as an escape of three, a space as `+`, names and values parted by `=` and
one entry from the next by `&`.

* `encodeByte`, `encode` — a name or a value;
* `serialize` — the body;
* `splitOn_serialize` — the separators part the entries and nothing else.

Other writers escape more bytes or write their escapes otherwise:

* `Writes`, `Field` — all the ways to write a value, and a field;
* `percentDecode` — how an escape is read, wherever it stands.
-/

namespace UrlEncoding

/-- A statement about all bytes can be checked one byte after the other. -/
theorem forall_byte {p : UInt8 → Prop} (h : ∀ n : Fin 256, p (UInt8.ofFin n)) (b : UInt8) :
    p b := h b.toFin

/-- A byte that is written as it is. -/
def plain (b : UInt8) : Bool :=
  (0x30 ≤ b && b ≤ 0x39) || (0x41 ≤ b && b ≤ 0x5A) || (0x61 ≤ b && b ≤ 0x7A) ||
    b == 0x2A || b == 0x2D || b == 0x2E || b == 0x5F

/-- A digit of an escape. -/
def hexDigit (n : ℕ) : UInt8 := UInt8.ofNat (if n < 10 then 0x30 + n else 0x41 + (n - 10))

/-- A byte as it is written. -/
def encodeByte (b : UInt8) : List UInt8 :=
  if plain b then [b]
  else if b = 0x20 then [0x2B]
  else [0x25, hexDigit (b.toNat / 16), hexDigit (b.toNat % 16)]

/-- A name or a value as it is written. -/
def encode (s : List UInt8) : List UInt8 := s.flatMap encodeByte

/-- A name and its value. -/
def entry (p : List UInt8 × List UInt8) : List UInt8 := encode p.1 ++ 0x3D :: encode p.2

/-- The body. -/
def serialize (pairs : List (List UInt8 × List UInt8)) : List UInt8 :=
  [0x26].intercalate (pairs.map entry)

theorem encode_plain {s : List UInt8} (h : s.all plain) : encode s = s := by
  induction s with
  | nil => rfl
  | cons b s ih =>
    obtain ⟨hb, hs⟩ := (Bool.and_eq_true _ _).mp h
    rw [encode, List.flatMap_cons, encodeByte, if_pos hb]
    exact congrArg (b :: ·) (ih hs)

/-- Neither separator is written for a byte. -/
theorem separator_notMem_encodeByte (b : UInt8) :
    0x26 ∉ encodeByte b ∧ 0x3D ∉ encodeByte b := by
  apply forall_byte (p := fun b => 0x26 ∉ encodeByte b ∧ 0x3D ∉ encodeByte b)
  decide +kernel

theorem amp_notMem_encode (s : List UInt8) : 0x26 ∉ encode s := by
  intro h
  obtain ⟨b, -, hb⟩ := List.mem_flatMap.mp h
  exact (separator_notMem_encodeByte b).1 hb

theorem eq_notMem_encode (s : List UInt8) : 0x3D ∉ encode s := by
  intro h
  obtain ⟨b, -, hb⟩ := List.mem_flatMap.mp h
  exact (separator_notMem_encodeByte b).2 hb

theorem amp_notMem_entry (p : List UInt8 × List UInt8) : 0x26 ∉ entry p := by
  rw [entry, List.mem_append, List.mem_cons]
  rintro (hname | heq | hvalue)
  · exact amp_notMem_encode p.1 hname
  · exact absurd heq (by decide)
  · exact amp_notMem_encode p.2 hvalue

/-- **The entries of a body** are what is between the separators. -/
theorem splitOn_serialize {pairs : List (List UInt8 × List UInt8)} (h : pairs ≠ []) :
    (serialize pairs).splitOn 0x26 = pairs.map entry := by
  refine List.splitOn_intercalate _ ?_ (mt List.map_eq_nil_iff.mp h)
  intro l hl
  obtain ⟨p, -, rfl⟩ := List.mem_map.mp hl
  exact amp_notMem_entry p

/-- The name is what is before the first `=`. -/
theorem takeWhile_name {name : List UInt8} (hname : 0x3D ∉ name) (value : List UInt8) :
    (name ++ 0x3D :: value).takeWhile (· ≠ 0x3D) = name := by
  rw [List.takeWhile_append_of_pos]
  · exact List.append_nil _
  · intro b hb
    exact decide_eq_true (ne_of_mem_of_not_mem hb hname)

/-! ## Every way to write a form -/

/-- A digit of an escape, if it is a small letter. -/
def lowerHexDigit (n : ℕ) : UInt8 := UInt8.ofNat (if n < 10 then 0x30 + n else 0x61 + (n - 10))

/-- A digit for `n`, small or not. -/
abbrev IsHexDigit (n : ℕ) (d : UInt8) : Prop := d = hexDigit n ∨ d = lowerHexDigit n

/-- A byte that no name has to escape. -/
def unreserved (b : UInt8) : Bool :=
  (0x30 ≤ b && b ≤ 0x39) || (0x41 ≤ b && b ≤ 0x5A) || (0x61 ≤ b && b ≤ 0x7A) ||
    b == 0x2D || b == 0x2E || b == 0x5F || b == 0x7E

/-- The ways to write a value: a space and the four bytes with a meaning are not
written as they are, and every byte can be escaped. -/
inductive Writes : List UInt8 → List UInt8 → Prop where
  | nil : Writes [] []
  | same {b : UInt8} {v w : List UInt8} (hb : b ∉ [0x20, 0x25, 0x26, 0x2B, 0x3D])
    (h : Writes v w) : Writes (b :: v) (b :: w)
  | plus {v w : List UInt8} (h : Writes v w) : Writes (0x20 :: v) (0x2B :: w)
  | escape {b hi lo : UInt8} {v w : List UInt8} (hhi : IsHexDigit (b.toNat / 16) hi)
    (hlo : IsHexDigit (b.toNat % 16) lo) (h : Writes v w) : Writes (b :: v) (0x25 :: hi :: lo :: w)

example : Writes [0x61, 0x20, 0x2B] [0x61, 0x2B, 0x25, 0x32, 0x62] :=
  .same (by decide) (.plus (.escape (.inl rfl) (.inr rfl) .nil))

/-- A field of a form, as it is written. -/
structure Field where
  /-- its name -/
  name : List UInt8
  /-- which is written as it is -/
  name_unreserved : name.all unreserved
  /-- its value -/
  value : List UInt8
  /-- the value as it is written -/
  written : List UInt8
  /-- in one of the ways there are -/
  writes : Writes value written

/-- A name and its value. -/
def Field.entry (f : Field) : List UInt8 := f.name ++ 0x3D :: f.written

/-- The body. -/
def body (fields : List Field) : List UInt8 := [0x26].intercalate (fields.map Field.entry)

theorem unreserved_ne {b : UInt8} (h : unreserved b) : b ≠ 0x26 ∧ b ≠ 0x3D := by
  revert h
  apply forall_byte (p := fun b => unreserved b → b ≠ 0x26 ∧ b ≠ 0x3D)
  decide +kernel

/-- A digit is no separator. -/
theorem isHexDigit_ne {n : ℕ} (hn : n < 16) {d : UInt8} (h : IsHexDigit n d) : d ≠ 0x26 := by
  have hall : ∀ n < 16, hexDigit n ≠ 0x26 ∧ lowerHexDigit n ≠ 0x26 := by decide
  rcases h with rfl | rfl
  · exact (hall n hn).1
  · exact (hall n hn).2

theorem Writes.amp_notMem {v w : List UInt8} (h : Writes v w) : 0x26 ∉ w := by
  induction h with
  | nil => exact List.not_mem_nil
  | same hb _ ih =>
    rw [List.mem_cons, not_or]
    exact ⟨fun h => hb (h ▸ by simp), ih⟩
  | plus _ ih => simpa using ih
  | @escape b hi lo _ _ hhi hlo _ ih =>
    have hlt := b.toNat_lt
    have hhi := isHexDigit_ne (by omega) hhi
    have hlo := isHexDigit_ne (by omega) hlo
    simpa [hhi.symm, hlo.symm] using ih

theorem Field.eq_notMem_name (f : Field) : 0x3D ∉ f.name :=
  fun h => (unreserved_ne (List.all_eq_true.mp f.name_unreserved _ h)).2 rfl

theorem Field.amp_notMem_entry (f : Field) : 0x26 ∉ f.entry := by
  rw [entry, List.mem_append, List.mem_cons]
  rintro (hname | heq | hvalue)
  · exact (unreserved_ne (List.all_eq_true.mp f.name_unreserved _ hname)).1 rfl
  · exact absurd heq (by decide)
  · exact f.writes.amp_notMem hvalue

/-- **The fields of a body** are what is between the separators. -/
theorem splitOn_body {fields : List Field} (h : fields ≠ []) :
    (body fields).splitOn 0x26 = fields.map Field.entry := by
  refine List.splitOn_intercalate _ ?_ (mt List.map_eq_nil_iff.mp h)
  intro l hl
  obtain ⟨f, -, rfl⟩ := List.mem_map.mp hl
  exact f.amp_notMem_entry

/-! ## Reading escapes -/

/-- What a digit stands for. -/
def digitValue? (d : UInt8) : Option ℕ := (List.range 16).find? fun n => IsHexDigit n d

/-- A `%` and two digits are read as one byte, and anything else as it is. -/
def percentDecode : List UInt8 → List UInt8
  | [] => []
  | b :: rest =>
    if b = 0x25 then
      match rest with
      | hi :: lo :: rest' =>
        match digitValue? hi, digitValue? lo with
        | some h, some l => UInt8.ofNat (16 * h + l) :: percentDecode rest'
        | _, _ => b :: percentDecode (hi :: lo :: rest')
      | rest => b :: percentDecode rest
    else b :: percentDecode rest

/-- `+` stands for a space. -/
def plusToSpace (s : List UInt8) : List UInt8 := s.map fun b => if b = 0x2B then 0x20 else b

end UrlEncoding
