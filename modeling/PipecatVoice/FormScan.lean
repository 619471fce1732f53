import PipecatVoice.FormUrlencoded

/-!
# The scans of the form reader

`urlDecode` and `formGet` as `form_urlencoded.cpp` has them, with a moving index
into a `string_view`. What they read out of bounds, or cut from beyond the end, is
`none`: nothing is (`urlDecode_eq`, `formGet_eq`). `form_decoding` says what they
compute; a name is compared as it is written (`formGet_escapedName`).
-/

namespace PipecatVoice.FormScan

/-! ## The code -/

/-- `urlDecode` from the index `i` on, with `out` so far -/
def urlDecodeFrom (s : List UInt8) (i : ℕ) (out : List UInt8) : Option (List UInt8) :=
  if i < s.length then do
    let c ← s[i]?
    if c = 0x2B then urlDecodeFrom s (i + 1) (out ++ [0x20])
    else if c = 0x25 ∧ i + 2 < s.length then do
      let hi ← s[i + 1]?
      let lo ← s[i + 2]?
      match hexValue hi, hexValue lo with
      | some h, some l => urlDecodeFrom s (i + 2 + 1) (out ++ [UInt8.ofNat (h <<< 4 ||| l)])
      -- a malformed escape: what comes after the `%` is looked at again
      | _, _ => urlDecodeFrom s (i + 1) (out ++ [c])
    else urlDecodeFrom s (i + 1) (out ++ [c])
  else some out
termination_by s.length - i

/-- `urlDecode` -/
def urlDecode (s : List UInt8) : Option (List UInt8) := urlDecodeFrom s 0 []

/-- `string_view::find` -/
def find (s : List UInt8) (c : UInt8) (pos : ℕ) : Option ℕ :=
  ((s.drop pos).idxOf? c).map (pos + ·)

/-- `string_view::substr` -/
def substr (s : List UInt8) (pos n : ℕ) : Option (List UInt8) :=
  if pos ≤ s.length then some ((s.drop pos).take n) else none

theorem find_ge {s : List UInt8} {c : UInt8} {pos i : ℕ} (h : find s c pos = some i) : pos ≤ i := by
  obtain ⟨j, -, rfl⟩ := Option.map_eq_some_iff.mp h
  exact Nat.le_add_right pos j

/-- What an iteration of `formGet` returns, if it does. -/
def fieldValue (body key : List UInt8) (pos stop : ℕ) : Option (Option (List UInt8)) :=
  match find body 0x3D pos with
  | some eq =>
    if eq < stop then do
      let k ← substr body pos (eq - pos)
      if k = key then
        let value ← substr body (eq + 1) (stop - eq - 1)
        return some (← urlDecode value)
      else return none
    else return none
  | none => return none

/-- `formGet` from the index `pos` on -/
def formGetFrom (body key : List UInt8) (pos : ℕ) : Option (Option (List UInt8)) :=
  if pos < body.length then do
    let stop := (find body 0x26 pos).getD body.length
    match ← fieldValue body key pos stop with
    | some value => return some value
    | none =>
      match h : find body 0x26 pos with
      | none => return none
      | some amp => formGetFrom body key (amp + 1)
  else return none
termination_by body.length - pos
decreasing_by
  have := find_ge h
  omega

/-- `formGet` -/
def formGet (body key : List UInt8) : Option (Option (List UInt8)) := formGetFrom body key 0

/-! ## What the scans compute -/

/-- What is left at an index, and what is read there. -/
theorem drop_eq_cons {s rest : List UInt8} {i : ℕ} {c : UInt8} (h : s.drop i = c :: rest) :
    i < s.length ∧ s[i]? = some c ∧ s.drop (i + 1) = rest := by
  have hc : s[i]? = some c := by
    have hhead : (s.drop i)[0]? = some c := by rw [h]; rfl
    rwa [List.getElem?_drop] at hhead
  obtain ⟨hi, -⟩ := List.getElem?_eq_some_iff.mp hc
  refine ⟨hi, hc, ?_⟩
  rw [← List.drop_drop, h, List.drop_one, List.tail_cons]

/-- **From every index on**, the loop does what the recursion does with the bytes
that are left, and reads no other. -/
theorem urlDecodeFrom_eq (s : List UInt8) (i : ℕ) (out : List UInt8) :
    urlDecodeFrom s i out = some (out ++ PipecatVoice.urlDecode (s.drop i)) := by
  induction hleft : s.length - i using Nat.strongRecOn generalizing i out with
  | ind left ih =>
    have hnext {j : ℕ} (hj : i < j) (hi : i < s.length) (c : UInt8) :
        urlDecodeFrom s j (out ++ [c]) =
          some (out ++ c :: PipecatVoice.urlDecode (s.drop j)) := by
      rw [ih _ (by omega) j _ rfl, List.append_assoc, List.singleton_append]
    rw [urlDecodeFrom]
    cases hrest : s.drop i with
    | nil =>
      rw [if_neg (Nat.not_lt.mpr (List.drop_eq_nil_iff.mp hrest)), PipecatVoice.urlDecode,
        List.append_nil]
    | cons c rest =>
      obtain ⟨hin, hc, hdrop⟩ := drop_eq_cons hrest
      have hlen : s.length = i + 1 + rest.length := by
        have := congrArg List.length hrest
        rw [List.length_drop, List.length_cons] at this
        omega
      have hone := hnext (Nat.lt_succ_self i) hin
      rw [hdrop] at hone
      rw [if_pos hin, hc, PipecatVoice.urlDecode.eq_def]
      simp only [Option.bind_eq_bind, Option.bind_some]
      by_cases hplus : c = 0x2B
      · rw [if_pos hplus, if_pos hplus, hone]
      · rw [if_neg hplus, if_neg hplus]
        by_cases hpercent : c = 0x25
        · rw [if_pos hpercent]
          rcases rest with _ | ⟨hi, _ | ⟨lo, rest'⟩⟩
          · rw [if_neg (by simp [hlen]), hone]
          · rw [if_neg (by simp [hlen]), hone]
          · obtain ⟨-, hhi, hdrop'⟩ := drop_eq_cons hdrop
            obtain ⟨-, hlo, hdrop''⟩ := drop_eq_cons hdrop'
            have hthree := hnext (show i < i + 2 + 1 by omega) hin
            rw [hdrop''] at hthree
            have hroom : i + 2 < s.length := by
              rw [hlen, List.length_cons, List.length_cons]
              omega
            rw [if_pos ⟨hpercent, hroom⟩, hhi, hlo]
            simp only [Option.bind_some]
            cases hexValue hi with
            | none => exact hone c
            | some h =>
              cases hexValue lo with
              | none => exact hone c
              | some l => exact hthree _
        · rw [if_neg hpercent, if_neg (fun h => hpercent h.1), hone]

theorem urlDecode_eq (s : List UInt8) : urlDecode s = some (PipecatVoice.urlDecode s) :=
  urlDecodeFrom_eq s 0 []

/-- The first occurrence is found. -/
theorem find_eq_some {s pre post : List UInt8} {c : UInt8} {pos : ℕ}
    (h : s.drop pos = pre ++ c :: post) (hpre : c ∉ pre) :
    find s c pos = some (pos + pre.length) := by
  have hidx : (pre ++ c :: post).idxOf? c = some pre.length := by
    clear h
    induction pre with
    | nil => simp [List.idxOf?_cons]
    | cons b pre ih =>
      obtain ⟨hne, hpre⟩ := not_or.mp (mt List.mem_cons.mpr hpre)
      rw [List.cons_append, List.idxOf?_cons, if_neg (by simpa using Ne.symm hne), ih hpre]
      rfl
  rw [find, h, hidx]
  rfl

theorem find_eq_none {s : List UInt8} {c : UInt8} {pos : ℕ} (h : c ∉ s.drop pos) :
    find s c pos = none := by
  rw [find, List.idxOf?_eq_none_iff.mpr h]
  rfl

theorem substr_eq {s pre post : List UInt8} {pos : ℕ} (hpos : pos ≤ s.length)
    (h : s.drop pos = pre ++ post) : substr s pos pre.length = some pre := by
  rw [substr, if_pos hpos, h, List.take_left]

/-- **An iteration** looks at the bytes up to the next `&` only, although the search
for `=` goes on behind it. -/
theorem fieldValue_eq {body field tail : List UInt8} {pos : ℕ} (hpos : pos ≤ body.length)
    (hdrop : body.drop pos = field ++ tail) (key : List UInt8) :
    fieldValue body key pos (pos + field.length) =
      some (if 0x3D ∈ field ∧ field.takeWhile (· ≠ 0x3D) = key then
        some (PipecatVoice.urlDecode (field.drop (key.length + 1))) else none) := by
  rw [fieldValue]
  by_cases heq : 0x3D ∈ field
  · obtain ⟨k, v, rfl, hk⟩ := List.eq_append_cons_of_mem heq
    rw [List.append_assoc, List.cons_append] at hdrop
    have hafter : body.drop (pos + k.length + 1) = v ++ tail := by
      rw [Nat.add_assoc, ← List.drop_drop, hdrop, List.drop_length_add_append]
      rfl
    have hlen : (k ++ 0x3D :: v).length = k.length + 1 + v.length := by
      rw [List.length_append, List.length_cons]
      omega
    have hin : pos + k.length + 1 ≤ body.length := by
      have := congrArg List.length hdrop
      rw [List.length_drop, List.length_append, List.length_cons] at this
      omega
    have hstop : pos + (k.length + 1 + v.length) - (pos + k.length) - 1 = v.length := by omega
    rw [find_eq_some hdrop hk, find_entry hk, hlen]
    simp only
    rw [if_pos (by omega), Nat.add_sub_cancel_left, substr_eq hpos hdrop, hstop,
      substr_eq hin hafter]
    simp only [Option.bind_eq_bind, Option.bind_some, urlDecode_eq, pure]
    by_cases hkey : k = key
    · rw [if_pos hkey, if_pos hkey]
    · rw [if_neg hkey, if_neg hkey]
  · rw [if_neg fun h => heq h.1]
    by_cases htail : 0x3D ∈ tail
    · obtain ⟨k, v, rfl, hk⟩ := List.eq_append_cons_of_mem htail
      rw [← List.append_assoc] at hdrop
      have hbefore : 0x3D ∉ field ++ k := by
        rw [List.mem_append, not_or]
        exact ⟨heq, hk⟩
      rw [find_eq_some hdrop hbefore]
      simp only [List.length_append]
      rw [if_neg (by omega)]
      rfl
    · rw [find_eq_none (by rw [hdrop, List.mem_append, not_or]; exact ⟨heq, htail⟩)]
      rfl

/-- **From the beginning of every field on**, the loop finds what is to be found in
the fields left. -/
theorem formGetFrom_eq {body : List UInt8} {pos : ℕ} (hpos : pos ≤ body.length)
    (key : List UInt8) :
    formGetFrom body key pos = some (PipecatVoice.formGet (body.drop pos) key) := by
  induction hleft : body.length - pos using Nat.strongRecOn generalizing pos with
  | ind left ih =>
    rw [formGetFrom, PipecatVoice.formGet]
    by_cases hend : pos < body.length
    · rw [if_pos hend]
      by_cases hamp : 0x26 ∈ body.drop pos
      · obtain ⟨field, rest, hdrop, hfield⟩ := List.eq_append_cons_of_mem hamp
        have hrest : body.drop (pos + field.length + 1) = rest := by
          rw [Nat.add_assoc, ← List.drop_drop, hdrop, List.drop_length_add_append]
          rfl
        rw [find_eq_some hdrop hfield]
        simp only [Option.getD_some, Option.bind_eq_bind, fieldValue_eq hpos hdrop,
          Option.bind_some]
        have hin : pos + field.length + 1 ≤ body.length := by
          have := congrArg List.length hdrop
          rw [List.length_drop, List.length_append, List.length_cons] at this
          omega
        have hnext := ih _ (by omega) hin rfl
        rw [hrest, PipecatVoice.formGet] at hnext
        rw [hdrop, List.splitOn_append_cons_self_of_not_mem hfield, List.findSome?_cons, hnext]
        split_ifs <;> rfl
      · have hlast : body.drop pos = body.drop pos ++ [] := (List.append_nil _).symm
        have hstop : pos + (body.drop pos).length = body.length := by
          rw [List.length_drop]
          omega
        have hvalue := fieldValue_eq hpos hlast key
        rw [hstop] at hvalue
        rw [find_eq_none hamp, List.splitOn_eq_singleton hamp, List.findSome?_singleton]
        simp only [Option.getD_none, Option.bind_eq_bind, hvalue, Option.bind_some]
        split_ifs <;> rfl
    · rw [if_neg hend, List.drop_eq_nil_iff.mpr (Nat.not_lt.mp hend)]
      rfl

theorem formGet_eq (body key : List UInt8) :
    formGet body key = some (PipecatVoice.formGet body key) :=
  formGetFrom_eq (Nat.zero_le _) key

/-! ## What is read -/

/-- A digit is what it is read as. -/
theorem hexValue_isHexDigit {n : ℕ} (hn : n < 16) {d : UInt8} (h : UrlEncoding.IsHexDigit n d) :
    hexValue d = some n := by
  have hall : ∀ n < 16, hexValue (UrlEncoding.lowerHexDigit n) = some n := by decide
  rcases h with rfl | rfl
  · exact hexValue_hexDigit n hn
  · exact hall n hn

/-- However a value is written, it is read. -/
theorem urlDecode_writes {v w : List UInt8} (h : UrlEncoding.Writes v w) :
    PipecatVoice.urlDecode w = v := by
  induction h with
  | nil => rfl
  | same hb _ ih =>
    rw [urlDecode_cons_of_ne (fun h => hb (h ▸ by simp)) (fun h => hb (h ▸ by simp)), ih]
  | plus _ ih =>
    rw [PipecatVoice.urlDecode.eq_def]
    exact congrArg (0x20 :: ·) ih
  | @escape b hi lo v w hhi hlo _ ih =>
    have hlt := b.toNat_lt
    have hhi := hexValue_isHexDigit (by omega) hhi
    have hlo := hexValue_isHexDigit (by omega) hlo
    rw [PipecatVoice.urlDecode.eq_def]
    simp only [hhi, hlo, digits_byte, ih]
    rfl

/-- **The first field** of the name is what is found. -/
theorem formGet_body (fields : List UrlEncoding.Field) (key : List UInt8) :
    PipecatVoice.formGet (UrlEncoding.body fields) key =
      (fields.find? (·.name = key)).map UrlEncoding.Field.value := by
  by_cases hne : fields = []
  · rw [hne]
    rfl
  rw [PipecatVoice.formGet, UrlEncoding.splitOn_body hne, List.findSome?_map]
  clear hne
  induction fields with
  | nil => rfl
  | cons f fields ih =>
    rw [List.findSome?_cons, Function.comp_apply, UrlEncoding.Field.entry,
      find_entry f.eq_notMem_name, List.find?_cons, urlDecode_writes f.writes]
    by_cases hkey : f.name = key
    · rw [if_pos hkey, decide_eq_true hkey]
      rfl
    · rw [if_neg hkey, decide_eq_false hkey]
      exact ih

/-- A `+` is no digit, and neither is a space. -/
theorem digitValue?_plusToSpace (b : UInt8) :
    UrlEncoding.digitValue? (if b = 0x2B then 0x20 else b) = hexValue b := by
  apply UrlEncoding.forall_byte
    (p := fun b => UrlEncoding.digitValue? (if b = 0x2B then 0x20 else b) = hexValue b)
  decide +kernel

theorem hexValue_lt {b : UInt8} {n : ℕ} (h : hexValue b = some n) : n < 16 := by
  have hall : ∀ b, (hexValue b).all (· < 16) := by
    intro b
    apply UrlEncoding.forall_byte (p := fun b => (hexValue b).all (· < 16))
    decide +kernel
  have hb := hall b
  rw [h] at hb
  exact of_decide_eq_true hb

/-- The byte of two digits. -/
theorem shift_or {h l : ℕ} (hl : l < 16) : h <<< 4 ||| l = 16 * h + l := by
  rw [Nat.shiftLeft_eq, Nat.mul_comm, ← Nat.two_pow_add_eq_or_of_lt hl]

/-- **Wherever they stand**, escapes are read as they are to be read. -/
theorem urlDecode_eq_percentDecode (s : List UInt8) : PipecatVoice.urlDecode s =
    UrlEncoding.percentDecode (UrlEncoding.plusToSpace s) := by
  induction s using PipecatVoice.urlDecode.induct with
  | case1 => rfl
  | case2 rest ih =>
    rw [PipecatVoice.urlDecode.eq_def, UrlEncoding.plusToSpace, List.map_cons,
      UrlEncoding.percentDecode.eq_def]
    exact congrArg (0x20 :: ·) ih
  | case3 hi lo rest h l hlo hhi _ ih =>
    rw [PipecatVoice.urlDecode.eq_def, UrlEncoding.plusToSpace, List.map_cons, List.map_cons,
      List.map_cons, UrlEncoding.percentDecode.eq_def]
    simp only [digitValue?_plusToSpace, hhi, hlo, shift_or (hexValue_lt hlo)]
    exact congrArg (_ :: ·) ih
  | case4 hi lo rest hbad _ ih =>
    rw [PipecatVoice.urlDecode.eq_def, UrlEncoding.plusToSpace, List.map_cons, List.map_cons,
      List.map_cons, UrlEncoding.percentDecode.eq_def]
    simp only [digitValue?_plusToSpace]
    cases hhi : hexValue hi with
    | none => exact congrArg (0x25 :: ·) ih
    | some h =>
      cases hlo : hexValue lo with
      | none => exact congrArg (0x25 :: ·) ih
      | some l => exact absurd hlo (fun hlo => hbad h l hhi hlo)
  | case5 rest hshort _ ih =>
    rcases rest with _ | ⟨hi, _ | ⟨lo, rest'⟩⟩
    · rfl
    · exact congrArg (0x25 :: ·) ih
    · exact absurd rfl (hshort hi lo rest')
  | case6 c rest hplus hpercent ih =>
    rw [urlDecode_cons_of_ne hplus hpercent, UrlEncoding.plusToSpace, List.map_cons, if_neg hplus,
      UrlEncoding.percentDecode.eq_def]
    simp only [if_neg hpercent]
    exact congrArg (c :: ·) ih

/-- **The reader reads what is written**: of fields written in any way there is, it
takes the value of the first with the name asked for; and escapes are read as they
are to be read wherever they stand. -/
theorem form_decoding :
    (∀ (fields : List UrlEncoding.Field) (key : List UInt8),
      formGet (UrlEncoding.body fields) key =
        some ((fields.find? (·.name = key)).map UrlEncoding.Field.value)) ∧
    ∀ s : List UInt8,
      urlDecode s = some (UrlEncoding.percentDecode (UrlEncoding.plusToSpace s)) := by
  refine ⟨?_, ?_⟩
  · intro fields key
    rw [formGet_eq, formGet_body]
  · intro s
    rw [urlDecode_eq, urlDecode_eq_percentDecode]

/-- A name is compared as it is written: `%73sid=x` has no field `ssid`, though `%73` is a
way to write its first byte. -/
theorem formGet_escapedName :
    let ssid : List UInt8 := [0x73, 0x73, 0x69, 0x64]
    let written : List UInt8 := [0x25, 0x37, 0x33, 0x73, 0x69, 0x64]
    ssid.all UrlEncoding.unreserved ∧ UrlEncoding.Writes ssid written ∧
      UrlEncoding.Writes [0x78] [0x78] ∧
      formGet (written ++ 0x3D :: [0x78]) ssid = some none := by
  refine ⟨by decide, ?_, .same (by decide) .nil, ?_⟩
  · -- the first byte is escaped, the others are not
    exact .escape (.inl rfl) (.inl rfl)
      (.same (by decide) (.same (by decide) (.same (by decide) .nil)))
  · rw [formGet_eq]
    decide

end PipecatVoice.FormScan
