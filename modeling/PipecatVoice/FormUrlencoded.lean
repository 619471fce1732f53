import PipecatVoice.Lib.UrlEncoding

/-!
# The reader of form data

`form_urlencoded.cpp` takes a field out of the body that the captive portal
posts.

* `urlDecode`, `formGet` — its functions;
* `formGet_serialize` — it reads what a browser writes.
-/

namespace PipecatVoice

/-- `hexValue` -/
def hexValue (c : UInt8) : Option ℕ :=
  if 0x30 ≤ c ∧ c ≤ 0x39 then some (c.toNat - 0x30)
  else if 0x61 ≤ c ∧ c ≤ 0x66 then some (10 + (c.toNat - 0x61))
  else if 0x41 ≤ c ∧ c ≤ 0x46 then some (10 + (c.toNat - 0x41))
  else none

/-- `urlDecode` -/
def urlDecode : List UInt8 → List UInt8
  | [] => []
  | c :: rest =>
    if c = 0x2B then 0x20 :: urlDecode rest
    else if c = 0x25 then
      match rest with
      | hi :: lo :: rest' =>
        match hexValue hi, hexValue lo with
        | some h, some l => UInt8.ofNat (h <<< 4 ||| l) :: urlDecode rest'
        -- a malformed escape stays as it is
        | _, _ => c :: urlDecode (hi :: lo :: rest')
      | rest => c :: urlDecode rest
    else c :: urlDecode rest

/-- `formGet`: the loop goes over what is between the `&`. -/
def formGet (body key : List UInt8) : Option (List UInt8) :=
  (body.splitOn 0x26).findSome? fun field =>
    if 0x3D ∈ field ∧ field.takeWhile (· ≠ 0x3D) = key then
      some (urlDecode (field.drop (key.length + 1)))
    else none

theorem hexValue_hexDigit : ∀ n < 16, hexValue (UrlEncoding.hexDigit n) = some n := by
  decide

theorem urlDecode_cons_of_ne {c : UInt8} (hplus : c ≠ 0x2B) (hpercent : c ≠ 0x25)
    (rest : List UInt8) : urlDecode (c :: rest) = c :: urlDecode rest := by
  rw [urlDecode.eq_def]
  simp only [if_neg hplus, if_neg hpercent]

theorem plain_ne {b : UInt8} (h : UrlEncoding.plain b) : b ≠ 0x2B ∧ b ≠ 0x25 ∧ b ≠ 0x3D := by
  revert h
  apply UrlEncoding.forall_byte
    (p := fun b => UrlEncoding.plain b → b ≠ 0x2B ∧ b ≠ 0x25 ∧ b ≠ 0x3D)
  decide +kernel

/-- The two digits of a byte. -/
theorem digits_byte (b : UInt8) :
    UInt8.ofNat ((b.toNat / 16) <<< 4 ||| b.toNat % 16) = b := by
  apply UrlEncoding.forall_byte (p := fun b =>
    UInt8.ofNat ((b.toNat / 16) <<< 4 ||| b.toNat % 16) = b)
  decide +kernel

/-- **One byte** is read as it was written. -/
theorem urlDecode_encodeByte (b : UInt8) (rest : List UInt8) :
    urlDecode (UrlEncoding.encodeByte b ++ rest) = b :: urlDecode rest := by
  unfold UrlEncoding.encodeByte
  split
  · rename_i hplain
    obtain ⟨hplus, hpercent, -⟩ := plain_ne hplain
    exact urlDecode_cons_of_ne hplus hpercent rest
  · split
    · rename_i hspace
      rw [hspace, List.singleton_append, urlDecode.eq_def]
      rfl
    · have hlt := b.toNat_lt
      have hhi := hexValue_hexDigit (b.toNat / 16) (by omega)
      have hlo := hexValue_hexDigit (b.toNat % 16) (by omega)
      show urlDecode (0x25 :: _ :: _ :: rest) = _
      rw [urlDecode.eq_def]
      simp only [hhi, hlo, digits_byte, if_true]
      rfl

/-- A value is read as it was written. -/
theorem urlDecode_encode (s : List UInt8) : urlDecode (UrlEncoding.encode s) = s := by
  induction s with
  | nil => rfl
  | cons b s ih =>
    rw [UrlEncoding.encode, List.flatMap_cons, urlDecode_encodeByte]
    exact congrArg (b :: ·) ih

/-- What is found in a field. -/
theorem find_entry {name : List UInt8} (hname : 0x3D ∉ name) (value key : List UInt8) :
    (if 0x3D ∈ name ++ 0x3D :: value ∧ (name ++ 0x3D :: value).takeWhile (· ≠ 0x3D) = key then
        some (urlDecode ((name ++ 0x3D :: value).drop (key.length + 1))) else none) =
      if name = key then some (urlDecode value) else none := by
  have hmem : 0x3D ∈ name ++ 0x3D :: value := List.mem_append_right _ List.mem_cons_self
  rw [UrlEncoding.takeWhile_name hname]
  by_cases hkey : name = key
  · rw [if_pos ⟨hmem, hkey⟩, if_pos hkey, ← hkey, List.drop_length_add_append]
    rfl
  · rw [if_neg fun h => hkey h.2, if_neg hkey]

/-- **A field is read as it was written**, under a name without escapes. -/
theorem formGet_serialize (pairs : List (List UInt8 × List UInt8)) (hne : pairs ≠ [])
    (hnames : ∀ p ∈ pairs, p.1.all UrlEncoding.plain) (key : List UInt8) :
    formGet (UrlEncoding.serialize pairs) key = pairs.lookup key := by
  rw [formGet, UrlEncoding.splitOn_serialize hne, List.findSome?_map]
  clear hne
  induction pairs with
  | nil => rfl
  | cons p pairs ih =>
    obtain ⟨hp, hrest⟩ := List.forall_mem_cons.mp hnames
    rw [List.findSome?_cons, List.lookup_cons, Function.comp_apply, UrlEncoding.entry,
      find_entry (UrlEncoding.eq_notMem_encode p.1), UrlEncoding.encode_plain hp, urlDecode_encode]
    by_cases hkey : p.1 = key
    · rw [if_pos hkey, hkey, beq_self_eq_true]
    · rw [if_neg hkey, beq_eq_false_iff_ne.mpr (Ne.symm hkey)]
      exact ih hrest

end PipecatVoice
