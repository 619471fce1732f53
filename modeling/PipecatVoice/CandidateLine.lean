import PipecatVoice.SessionDescription

/-!
# Candidates are read as they were written

A candidate is a line of numbers and words between blanks, which `sscanf` reads one by one. An
address is printed by the platform and read by it.

* `scanString_word`, `scanNumber_decimal` — words and numbers are read back;
* `inetPton_inetNtop` — so are addresses;
* `iceCandidateFromDescription_candidateLine` — so are candidates.
-/

namespace PipecatVoice.SessionDescription

open BindingCheck CArray Decimal TurnPairs
open TurnAllocate (IceCandidate iceCandidateCreate)

/-! ## Printable text -/

/-- Printable, and no equals sign. -/
def isPlain (b : UInt8) : Bool := 32 ≤ b && b ≤ 126 && b ≠ 61

/-- Printable, and no blank. -/
def isWord (b : UInt8) : Bool := 33 ≤ b && b ≤ 126 && b ≠ 61

/-- A word is plain text. -/
theorem isPlain_of_isWord {b : UInt8} (h : isWord b) : isPlain b := by
  simp only [isWord, isPlain, Bool.and_eq_true, decide_eq_true_eq] at h ⊢
  exact ⟨⟨UInt8.le_trans (by decide) h.1.1, h.1.2⟩, h.2⟩

/-- A number is a word. -/
theorem isWord_of_isDigit {b : UInt8} (h : isDigit b) : isWord b := by
  simp only [isWord, isDigit, Bool.and_eq_true, decide_eq_true_eq] at h ⊢
  refine ⟨⟨UInt8.le_trans (by decide) h.1, UInt8.le_trans h.2 (by decide)⟩, ?_⟩
  rintro rfl
  exact absurd h.2 (by decide)

/-- No byte of a word ends it. -/
theorem not_isSpace_of_isWord {b : UInt8} (h : isWord b) : isSpace b = false := by
  simp only [isWord, Bool.and_eq_true, decide_eq_true_eq] at h
  have hne : b ≠ 32 := by
    rintro rfl
    exact absurd h.1.1 (by decide)
  have hlarge : ¬ b ≤ 13 := fun hle => absurd (UInt8.le_trans h.1.1 hle) (by decide)
  simp [isSpace, hne, hlarge]

theorem isWord_decimal {n : ℕ} {b : UInt8} (h : b ∈ decimal n) : isWord b :=
  isWord_of_isDigit (isDigit_of_mem_decimal h)

/-! ## Words and numbers -/

/-- A word between blanks. -/
theorem scanString_word {room : ℕ} {blanks word rest : CString} (hblanks : blanks.all isSpace)
    (hword : ∀ b ∈ word, isWord b) (hne : word ≠ []) (hroom : word.length < room)
    (hrest : ∀ b ∈ rest.head?, isSpace b) :
    scanString room (blanks ++ (word ++ rest)) = .ok (word, rest) := by
  -- the blanks in front are skipped, and the word goes on until the next one
  have hskip : (blanks ++ (word ++ rest)).dropWhile isSpace = word ++ rest := by
    rw [List.dropWhile_append_of_pos fun b hb => List.all_eq_true.mp hblanks b hb]
    cases word with
    | nil => exact absurd rfl hne
    | cons b word =>
      rw [List.cons_append, List.dropWhile_cons_of_neg]
      rw [not_isSpace_of_isWord (hword b List.mem_cons_self)]
      exact Bool.false_ne_true
  have htoken : (word ++ rest).takeWhile (!isSpace ·) = word := by
    rw [List.takeWhile_append_of_pos fun b hb => by
      rw [not_isSpace_of_isWord (hword b hb)]
      rfl]
    cases rest with
    | nil => rw [List.takeWhile_nil, List.append_nil]
    | cons b rest =>
      rw [List.takeWhile_cons_of_neg (by rw [hrest b rfl]; decide), List.append_nil]
  simp only [scanString, hskip, htoken, if_neg hne, if_neg (Nat.not_le.mpr hroom), List.drop_left]

/-- A number between blanks. -/
theorem scanNumber_decimal {blanks rest : CString} (hblanks : blanks.all isSpace) (n : ℕ)
    (hrest : ∀ b ∈ rest.head?, isSpace b) :
    scanNumber (blanks ++ (decimal n ++ rest)) = .ok (.ofNat n, rest) := by
  have hspace : ∀ b ∈ rest.head?, isDigit b = false := by
    intro b hb
    by_contra hdigit
    have hword := not_isSpace_of_isWord (isWord_of_isDigit (Bool.not_eq_false _ |>.mp hdigit))
    rw [hrest b hb] at hword
    exact absurd hword (by decide)
  have hscan := scan_decimal n hspace
  obtain ⟨b, digits, hdigits⟩ := List.exists_cons_of_ne_nil (decimal_ne_nil n)
  have hdigit : isDigit b := isDigit_of_mem_decimal (n := n) (hdigits ▸ List.mem_cons_self)
  have hskip : (blanks ++ (decimal n ++ rest)).dropWhile isSpace = decimal n ++ rest := by
    rw [List.dropWhile_append_of_pos fun b hb => List.all_eq_true.mp hblanks b hb, hdigits,
      List.cons_append, List.dropWhile_cons_of_neg]
    rw [not_isSpace_of_isWord (isWord_of_isDigit hdigit)]
    exact Bool.false_ne_true
  rw [scanNumber, hskip]
  rw [hdigits, List.cons_append] at hscan ⊢
  -- a digit is no sign
  split
  · next heq =>
    obtain ⟨rfl, -⟩ := List.cons.inj heq
    exact absurd hdigit (by decide)
  · next heq =>
    obtain ⟨rfl, -⟩ := List.cons.inj heq
    exact absurd hdigit (by decide)
  · simp only [hscan]
    rfl

/-! ## Addresses -/

/-- A part of an address, written and read. -/
theorem octet_decimal {n : ℕ} (h : n ≤ 255) : octet (decimal n) = some n := by
  have hlen := length_decimal_le (n := n) (k := 3) (by decide) (Nat.lt_of_le_of_lt h (by decide))
  have hall : (decimal n).all isDigit := List.all_eq_true.mpr fun b hb => isDigit_of_mem_decimal hb
  rw [octet, value_decimal, if_pos ⟨decimal_ne_nil n, hlen, hall, h⟩]

/-- The dots of an address stand between its parts only. -/
theorem dot_notMem_decimal (n : ℕ) : (46 : UInt8) ∉ decimal n := fun h =>
  absurd (isDigit_of_mem_decimal h) (by decide)

theorem intercalate_dot (a b c d : CString) :
    [46].intercalate [a, b, c, d] = a ++ [46] ++ b ++ [46] ++ c ++ [46] ++ d := by
  simp only [List.intercalate, List.intersperse, List.flatten_cons, List.flatten_nil,
    List.append_nil, List.append_assoc]

/-- An address is read back. -/
theorem inetPton_inetNtop (a : UInt32) : inetPton (inetNtop a) = some a := by
  have hsplit : (inetNtop a).splitOn 46 = [decimal (a.toNat / 2 ^ 24),
      decimal (a.toNat / 2 ^ 16 % 256), decimal (a.toNat / 2 ^ 8 % 256),
      decimal (a.toNat % 256)] := by
    have hdots : ∀ l ∈ [decimal (a.toNat / 2 ^ 24), decimal (a.toNat / 2 ^ 16 % 256),
        decimal (a.toNat / 2 ^ 8 % 256), decimal (a.toNat % 256)], (46 : UInt8) ∉ l := by
      simp only [List.mem_cons, List.not_mem_nil, or_false]
      rintro l (rfl | rfl | rfl | rfl) <;> exact dot_notMem_decimal _
    rw [← List.splitOn_intercalate 46 hdots (List.cons_ne_nil _ _), intercalate_dot]
    rfl
  have hlt := a.toNat_lt
  rw [inetPton, hsplit]
  simp only [octet_decimal (show a.toNat / 2 ^ 24 ≤ 255 by omega),
    octet_decimal (show a.toNat / 2 ^ 16 % 256 ≤ 255 by omega),
    octet_decimal (show a.toNat / 2 ^ 8 % 256 ≤ 255 by omega),
    octet_decimal (show a.toNat % 256 ≤ 255 by omega), Option.bind_eq_bind, Option.bind_some,
    Option.pure_def]
  refine congrArg some ?_
  apply UInt32.toNat.inj
  rw [UInt32.toNat_ofNat']
  omega

/-- A part of an IPv4 address has no colon. -/
theorem colon_notMem_of_octet {s : CString} {n : ℕ} (h : octet s = some n) : (58 : UInt8) ∉ s := by
  intro hcolon
  obtain ⟨⟨-, -, hall, -⟩, -⟩ := Option.ite_none_right_eq_some.mp h
  exact absurd (List.all_eq_true.mp hall 58 hcolon) (by decide)

/-- A text with a colon is no IPv4 address. -/
theorem inetPton_eq_none {s : CString} (h : 58 ∈ s) : inetPton s = none := by
  by_contra hsome
  obtain ⟨n, hn⟩ := Option.ne_none_iff_exists'.mp hsome
  rw [inetPton] at hn
  split at hn
  · next a b c d hsplit =>
    obtain ⟨na, ha, hn⟩ := Option.bind_eq_some_iff.mp hn
    obtain ⟨nb, hb, hn⟩ := Option.bind_eq_some_iff.mp hn
    obtain ⟨nc, hc, hn⟩ := Option.bind_eq_some_iff.mp hn
    obtain ⟨nd, hd, hn⟩ := Option.bind_eq_some_iff.mp hn
    -- four octets and three dots, and none of them is a colon
    have hwhole : [46].intercalate (s.splitOn 46) = s := List.intercalate_splitOn 46
    rw [hsplit, intercalate_dot] at hwhole
    rw [← hwhole] at h
    simp only [List.mem_append, List.mem_singleton, colon_notMem_of_octet ha,
      colon_notMem_of_octet hb, colon_notMem_of_octet hc, colon_notMem_of_octet hd] at h
    simp at h
  · cases hn

/-- A letter of an address. -/
def isAddress (b : UInt8) : Bool := isDigit b || b = 46 || b = 58 || (97 ≤ b && b ≤ 102)

/-- The platform reads an address as it writes it. -/
def Resolver.Names (res : Resolver) : IpAddr → Prop
  | .v4 _ => True
  | .v6 a => res.pton6 (res.ntop6 a) = some a ∧ 58 ∈ res.ntop6 a ∧
      (res.ntop6 a).all isAddress ∧ (res.ntop6 a).length < 46

/-- An address is a word. -/
theorem isWord_of_isAddress {b : UInt8} (h : isAddress b) : isWord b := by
  simp only [isAddress, Bool.or_eq_true, Bool.and_eq_true, decide_eq_true_eq] at h
  obtain ((hdigit | rfl) | rfl) | ⟨hge, hle⟩ := h
  · exact isWord_of_isDigit hdigit
  · decide
  · decide
  · simp only [isWord, Bool.and_eq_true, decide_eq_true_eq]
    refine ⟨⟨UInt8.le_trans (by decide) hge, UInt8.le_trans hle (by decide)⟩, ?_⟩
    rintro rfl
    exact absurd hge (by decide)

/-- What `inet_ntop` writes for IPv4 is digits and dots. -/
theorem isAddress_inetNtop {a : UInt32} {b : UInt8} (h : b ∈ inetNtop a) : isAddress b := by
  have hdigit : ∀ {n}, b ∈ decimal n → isAddress b := fun hb => by
    rw [isAddress, isDigit_of_mem_decimal hb]
    rfl
  have hdot : ∀ b ∈ ascii ".", isAddress b := List.all_eq_true.mp (by decide)
  simp only [inetNtop, List.mem_append] at h
  obtain (((((h | h) | h) | h) | h) | h) | h := h
  all_goals first | exact hdigit h | exact hdot b h

/-- An IPv4 address has at most fifteen letters. -/
theorem length_inetNtop (a : UInt32) : (inetNtop a).length ≤ 15 := by
  have hlt := a.toNat_lt
  have h₁ := length_decimal_le (n := a.toNat / 2 ^ 24) (k := 3) (by decide) (by omega)
  have h₂ := length_decimal_le (n := a.toNat / 2 ^ 16 % 256) (k := 3) (by decide) (by omega)
  have h₃ := length_decimal_le (n := a.toNat / 2 ^ 8 % 256) (k := 3) (by decide) (by omega)
  have h₄ := length_decimal_le (n := a.toNat % 256) (k := 3) (by decide) (by omega)
  have hdot : (ascii ".").length = 1 := rfl
  simp only [inetNtop, List.length_append, hdot]
  omega

variable {res : Resolver}

/-- What is written for an address is one, of either family. -/
theorem isAddress_addrToString {ip : IpAddr} (h : res.Names ip) {b : UInt8}
    (hb : b ∈ addrToString res ip) : isAddress b := by
  cases ip with
  | v4 a => exact isAddress_inetNtop hb
  | v6 a => exact List.all_eq_true.mp h.2.2.1 b hb

/-- An address fits into the reader's buffer. -/
theorem length_addrToString {ip : IpAddr} (h : res.Names ip) :
    (addrToString res ip).length < 46 := by
  cases ip with
  | v4 a => exact Nat.lt_of_le_of_lt (length_inetNtop a) (by decide)
  | v6 a => exact h.2.2.2

/-- Every address is written as something. -/
theorem addrToString_ne_nil {ip : IpAddr} (h : res.Names ip) : addrToString res ip ≠ [] := by
  cases ip with
  | v4 a => exact List.append_ne_nil_of_right_ne_nil _ (decimal_ne_nil _)
  | v6 a => exact List.ne_nil_of_mem h.2.1

/-- An address is no name in the local network, and is read back. -/
theorem candidateAddr_addrToString {ip : IpAddr} (h : res.Names ip) :
    candidateAddr res (addrToString res ip) = .ok ip := by
  have hlocal : ¬ ascii "local" <:+: addrToString res ip := fun hwithin =>
    absurd (isAddress_addrToString h (hwithin.subset (List.mem_cons_self (a := byte 'l'))))
      (by decide)
  have hread : addrFromString res (addrToString res ip) = some ip := by
    cases ip with
    | v4 a => rw [addrFromString, addrToString, inetPton_inetNtop]
    | v6 a =>
      rw [addrFromString, addrToString, inetPton_eq_none h.2.1]
      exact congrArg (Option.map IpAddr.v6) h.1
  rw [candidateAddr, if_neg hlocal, hread]

/-! ## Candidates -/

/-- A candidate as the agent makes them. -/
structure Told (res : Resolver) (c : IceCandidate) : Prop where
  /-- it is numbered -/
  foundation : c.foundation < 100
  /-- it carries everything -/
  component : c.component = 1
  transport : c.transport = "UDP"
  type : c.type ≠ .prflx
  addr : res.Names c.addr.ip

/-- The agent's own candidates are made so. -/
theorem told_iceCandidateCreate {f : ℕ} {type : CandidateType} {addr : Address} (hf : f < 100)
    (htype : type ≠ .prflx) (haddr : res.Names addr.ip) :
    Told res (iceCandidateCreate f type addr) :=
  ⟨hf, rfl, rfl, htype, haddr⟩

/-- A candidate as it is read back. -/
def asRead (c : IceCandidate) : RemoteCandidate where
  foundation := decimal c.foundation
  component := 1
  priority := c.priority
  transport := ascii "UDP"
  type := c.type
  addr := c.addr

/-- The word for a type, and what stands behind it. -/
def typeWord : CandidateType → CString × CString
  | .host => (ascii "host", [])
  | .srflx => (ascii "srflx", ascii " raddr 0.0.0.0 rport 0")
  | .relay => (ascii "relay", ascii " raddr 0.0.0.0 rport 0")
  | .prflx => ([], [])

/-- The end of a line: the word for the type, and the related address. -/
theorem typRaddr_eq (type : CandidateType) :
    typRaddr type = (typeWord type).1 ++ (typeWord type).2 := by
  cases type <;> rfl

theorem blank_append (s : CString) : ∀ b ∈ (ascii " " ++ s).head?, isSpace b := by
  rintro b ⟨⟩
  rfl

theorem typ_append (s : CString) : ∀ b ∈ (ascii " typ" ++ s).head?, isSpace b := by
  rintro b ⟨⟩
  rfl

/-- The keyword is skipped. -/
theorem scanTyp_append (s : CString) : scanTyp (ascii " typ" ++ s) = .ok s := rfl

/-- The word for a type is read as that type. -/
theorem candidateType_typeWord {type : CandidateType} (h : type ≠ .prflx) :
    candidateType (typeWord type).1 = .ok type := by
  cases type <;> first | exact absurd rfl h | rfl

theorem ok_bind {α β : Type} (a : α) (f : α → Except Failure β) :
    ((Except.ok a : Except Failure α) >>= f) = f a := rfl

/-- The words of a candidate's line. -/
structure Words where
  foundation : CString
  component : ℕ
  transport : CString
  priority : ℕ
  addr : CString
  port : ℕ
  type : CString

/-- The words are read as a candidate. -/
structure Words.Spell (res : Resolver) (w : Words) (type : CandidateType) (ip : IpAddr) : Prop where
  foundation : ∀ b ∈ w.foundation, isWord b
  foundation_ne : w.foundation ≠ []
  /-- they fit into the buffers -/
  length_foundation : w.foundation.length < 33
  transport : ∀ b ∈ w.transport, isWord b
  length_transport : w.transport.length < 33
  udp : ascii "UDP" <+: w.transport ∨ ascii "udp" <+: w.transport
  addr : ∀ b ∈ w.addr, isWord b
  addr_ne : w.addr ≠ []
  length_addr : w.addr.length < 46
  ip : candidateAddr res w.addr = .ok ip
  word : ∀ b ∈ w.type, isWord b
  word_ne : w.type ≠ []
  length_word : w.type.length < 16
  type : candidateType w.type = .ok type

/-- The candidate. -/
def Words.remote (w : Words) (type : CandidateType) (ip : IpAddr) : RemoteCandidate where
  foundation := w.foundation
  component := .ofNat w.component
  priority := .ofNat w.priority
  transport := w.transport
  type := type
  addr := ⟨ip, (UInt32.ofNat w.port).toUInt16⟩

/-- What stands behind `a=candidate:`, and behind the type. -/
def Words.text (w : Words) (rest : CString) : CString :=
  w.foundation ++ (ascii " " ++ (decimal w.component ++ (ascii " " ++ (w.transport ++
    (ascii " " ++ (decimal w.priority ++ (ascii " " ++ (w.addr ++ (ascii " " ++
      (decimal w.port ++ (ascii " typ" ++ (ascii " " ++ (w.type ++ rest)))))))))))))

/-- More text comes at the end. -/
theorem Words.text_append (w : Words) (s t : CString) : w.text s ++ t = w.text (s ++ t) := by
  simp only [Words.text, List.append_assoc]

/-- A line of such words has no byte that would end it. -/
theorem Words.Spell.plain {w : Words} {type : CandidateType} {ip : IpAddr}
    (h : w.Spell res type ip) {rest : CString} (hrest : ∀ b ∈ rest, isPlain b) :
    ∀ b ∈ w.text rest, isPlain b := by
  have hword : ∀ {t : CString}, (∀ b ∈ t, isWord b) → ∀ b ∈ t, isPlain b := fun ht b hb =>
    isPlain_of_isWord (ht b hb)
  have hnumber : ∀ {n}, ∀ b ∈ decimal n, isPlain b := hword fun _ hb => isWord_decimal hb
  have hblank : ∀ b ∈ ascii " ", isPlain b := List.all_eq_true.mp (by decide)
  have htyp : ∀ b ∈ ascii " typ", isPlain b := List.all_eq_true.mp (by decide)
  simp only [Words.text, List.forall_mem_append]
  exact ⟨hword h.foundation, hblank, hnumber, hblank, hword h.transport, hblank, hnumber, hblank,
    hword h.addr, hblank, hnumber, htyp, hblank, hword h.word, hrest⟩

/-- **The words of a candidate are read one by one.** -/
theorem iceCandidateFromDescription_text {w : Words} {type : CandidateType} {ip : IpAddr}
    (h : w.Spell res type ip) {rest : CString} (hrest : ∀ b ∈ rest.head?, isSpace b) :
    iceCandidateFromDescription res (ascii "a=candidate:" ++ w.text rest) =
      .ok (w.remote type ip) := by
  have hblank : List.all (ascii " ") isSpace := by decide
  have hne : w.transport ≠ [] := by
    rintro hnil
    have hudp := h.udp
    rw [hnil] at hudp
    obtain hfront | hfront := hudp <;> exact absurd (List.prefix_nil.mp hfront) (by decide)
  have hfoundation : ∀ {s : CString}, (∀ b ∈ s.head?, isSpace b) →
      scanString 33 (w.foundation ++ s) = .ok (w.foundation, s) := fun {s} hs => by
    rw [← List.nil_append (w.foundation ++ s)]
    exact scanString_word rfl h.foundation h.foundation_ne h.length_foundation hs
  have hcandidate : ascii "a=candidate:" = ascii "a=" ++ ascii "candidate:" := rfl
  rw [hcandidate, List.append_assoc, iceCandidateFromDescription, if_pos (List.prefix_append _ _)]
  simp only [List.drop_left' (show (ascii "a=").length = 2 from rfl),
    List.drop_left' (show (ascii "candidate:").length = 10 from rfl), Words.text]
  -- the foundation, component, transport, priority, address, port and type
  rw [hfoundation (blank_append _), ok_bind, scanNumber_decimal hblank _ (blank_append _), ok_bind,
    scanString_word hblank h.transport hne h.length_transport (blank_append _), ok_bind,
    scanNumber_decimal hblank _ (blank_append _), ok_bind,
    scanString_word hblank h.addr h.addr_ne h.length_addr (blank_append _), ok_bind,
    scanNumber_decimal hblank _ (typ_append _), ok_bind, scanTyp_append, ok_bind,
    scanString_word hblank h.word h.word_ne h.length_word hrest, ok_bind]
  simp only [h.type, h.ip, ok_bind]
  rw [if_neg fun hnot => h.udp.elim hnot.1 hnot.2]
  rfl

/-- The words of the agent's own candidates. -/
def wordsOf (res : Resolver) (c : IceCandidate) : Words where
  foundation := decimal c.foundation
  component := c.component
  transport := ascii c.transport
  priority := c.priority.toNat
  addr := addrToString res c.addr.ip
  port := c.addr.port.toNat
  type := (typeWord c.type).1

/-- The line of a candidate is written in words. -/
theorem candidateLine_eq (c : IceCandidate) :
    candidateLine res c = ascii "a=candidate:" ++ (wordsOf res c).text (typeWord c.type).2 := by
  have htyp : ascii " typ " = ascii " typ" ++ ascii " " := rfl
  simp only [candidateLine, Words.text, wordsOf, typRaddr_eq, htyp, List.append_assoc]

/-- The words of the agent's own candidates can be read. -/
theorem spell_wordsOf {c : IceCandidate} (h : Told res c) :
    (wordsOf res c).Spell res c.type c.addr.ip := by
  have hudp : (wordsOf res c).transport = ascii "UDP" := congrArg ascii h.transport
  have hword : ∀ type, (∀ b ∈ (typeWord type).1, isWord b) ∧ (typeWord type).1.length < 16 := by
    intro type
    cases type <;> exact ⟨List.all_eq_true.mp (by decide), by decide⟩
  have hne : ∀ type ≠ .prflx, (typeWord type).1 ≠ [] := by
    intro type htype
    cases type <;> first | exact absurd rfl htype | exact List.cons_ne_nil _ _
  exact {
    foundation := fun _ hb => isWord_decimal hb
    foundation_ne := decimal_ne_nil _
    length_foundation :=
      Nat.lt_of_le_of_lt (length_decimal_le (k := 2) (by decide) h.foundation) (by decide)
    transport := hudp ▸ List.all_eq_true.mp (by decide)
    length_transport := hudp ▸ by decide
    udp := .inl (hudp ▸ List.prefix_refl _)
    addr := fun _ hb => isWord_of_isAddress (isAddress_addrToString h.addr hb)
    addr_ne := addrToString_ne_nil h.addr
    length_addr := length_addrToString h.addr
    ip := candidateAddr_addrToString h.addr
    word := (hword c.type).1
    word_ne := hne c.type h.type
    length_word := (hword c.type).2
    type := candidateType_typeWord h.type }

/-- **A candidate is read back.** -/
theorem iceCandidateFromDescription_candidateLine {c : IceCandidate} (h : Told res c)
    (rest : CString) :
    iceCandidateFromDescription res (candidateLine res c ++ (crlf ++ rest)) = .ok (asRead c) := by
  have hbehind : ∀ b ∈ ((typeWord c.type).2 ++ (crlf ++ rest)).head?, isSpace b := by
    cases c.type <;> rintro b ⟨⟩ <;> rfl
  have hport : (UInt32.ofNat c.addr.port.toNat).toUInt16 = c.addr.port := by
    apply UInt16.toNat.inj
    have hlt := c.addr.port.toNat_lt
    rw [UInt32.toNat_toUInt16, UInt32.toNat_ofNat']
    omega
  rw [candidateLine_eq, List.append_assoc, Words.text_append,
    iceCandidateFromDescription_text (spell_wordsOf h) hbehind]
  simp only [Words.remote, wordsOf, h.component, h.transport, UInt32.ofNat_toNat, hport]
  rfl

end PipecatVoice.SessionDescription
