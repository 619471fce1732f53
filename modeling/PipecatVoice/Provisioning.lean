import Mathlib.Algebra.GroupWithZero.Nat
import Mathlib.Logic.Function.Basic
import PipecatVoice.FormUrlencoded
import PipecatVoice.Lib.CArray

/-!
# Provisioning

The captive portal asks for a network, its password and the backend. A browser
posts them to `/save`, the handler reads them back and stores them, and after
the reboot they are copied into the fixed fields of the Wi-Fi configuration.

* `handleSave`, `onCredentials`, `decideAndRun`, `wifiConnect` — the way of the
  credentials;
* `Form` — what the form lets a person submit;
* `preserved_iff` — which submissions arrive unchanged.
-/

namespace PipecatVoice.Provisioning

/-- A text in UTF-8. -/
def utf8 (text : List Char) : List UInt8 := text.flatMap String.utf8EncodeChar

/-- `c_str`: what is before the first zero byte. -/
def cString (s : List UInt8) : List UInt8 := s.takeWhile (· ≠ 0)

/-! ## The portal -/

/-- `WifiCredentials` -/
structure WifiCredentials where
  /-- `ssid` -/
  ssid : List UInt8
  /-- `psk` -/
  psk : List UInt8
  /-- `backend_url` -/
  backendUrl : List UInt8
  deriving DecidableEq

/-- What `httpd_req_recv` returns. -/
inductive Got where
  /-- `HTTPD_SOCK_ERR_TIMEOUT` -/
  | timeout
  /-- some of the body; nothing if the connection was closed -/
  | data (bytes : List UInt8)
  /-- an error -/
  | failed

/-- The loop that receives `remaining` bytes. -/
def recvBody (remaining : ℕ) : List Got → List UInt8 → Option (List UInt8)
  | [], body => if body.length < remaining then none else some body
  | got :: rest, body =>
    if body.length < remaining then
      match got with
      | .timeout => recvBody remaining rest body
      | .data bytes => if bytes = [] then none else recvBody remaining rest (body ++ bytes)
      | .failed => none
    else some body

/-- `kMaxBodyBytes` -/
def kMaxBodyBytes : ℕ := 512

/-- The names of the fields. -/
def ssidKey : List UInt8 := utf8 "ssid".toList

@[inherit_doc ssidKey]
def pskKey : List UInt8 := utf8 "psk".toList

@[inherit_doc ssidKey]
def backendKey : List UInt8 := utf8 "backend".toList

/-- How a request to `/save` ends. -/
inductive SaveResult where
  /-- 413, `request body too large` -/
  | tooLarge
  /-- 400, `incomplete form submission` -/
  | incomplete
  /-- 400, `missing ssid or backend` -/
  | missing
  /-- 200, and the credentials are passed on -/
  | saved (creds : WifiCredentials)
  deriving DecidableEq

/-- `handleSave` -/
def handleSave (contentLen : ℕ) (received : List Got) : SaveResult :=
  if contentLen > kMaxBodyBytes then .tooLarge
  else
    match recvBody contentLen received [] with
    | none => .incomplete
    | some body =>
      match formGet body ssidKey, formGet body backendKey with
      | some ssid, some backend => .saved ⟨ssid, (formGet body pskKey).getD [], backend⟩
      | _, _ => .missing

/-! ## The store and the configuration -/

/-- The keys of the namespace `pipecat-cfg`. -/
inductive NvsKey where
  | wifiSsid
  | wifiPsk
  | backendUrl
  | hostname
  deriving DecidableEq

/-- The strings in the non-volatile store. -/
abbrev Nvs := NvsKey → Option (List UInt8)

/-- `NvsKv::setStr` -/
def setStr (nvs : Nvs) (key : NvsKey) (value : List UInt8) : Nvs :=
  Function.update nvs key (some (cString value))

/-- What `runProvisioning` does with credentials before the reboot. -/
def onCredentials (c : WifiCredentials) (nvs : Nvs) : Nvs :=
  setStr (setStr (setStr nvs .wifiSsid c.ssid) .wifiPsk c.psk) .backendUrl c.backendUrl

/-- The fields of `wifi_config_t` that are written. -/
structure StaConfig where
  /-- `sta.ssid` -/
  ssid : CArray 32
  /-- `sta.password` -/
  password : CArray 64
  deriving DecidableEq

/-- `WifiSta::connect`: the configuration that is set. -/
def wifiConnect (ssid psk : List UInt8) : StaConfig where
  ssid := (CArray.zero 32).strncpy (cString ssid) 31 (by decide)
  password := (CArray.zero 64).strncpy (cString psk) 63 (by decide)

/-- `decideAndRun`: the configuration it connects with and the backend of the
session, or nothing if it starts the portal. -/
def decideAndRun (nvs : Nvs) : Option (StaConfig × List UInt8) :=
  match nvs .wifiSsid, nvs .backendUrl with
  | some ssid, some backend =>
    if ssid = [] ∨ backend = [] then none
    else some (wifiConnect ssid ((nvs .wifiPsk).getD []), backend)
  | _, _ => none

/-! ## What is submitted -/

/-- The length a form counts: UTF-16 code units. -/
def utf16Length (text : List Char) : ℕ :=
  (text.map fun c => if c.toNat < 0x10000 then 1 else 2).sum

/-- A character that a line of a form may hold. -/
def lineChar (c : Char) : Bool := c ≠ '\x00' && c ≠ '\n' && c ≠ '\r'

/-- The limits of the form, and of the networks there are: a name has at most 32
bytes, a password is printable ASCII. -/
structure Form where
  /-- `ssid` -/
  ssid : List Char
  /-- `psk` -/
  psk : List Char
  /-- `backend` -/
  backend : List Char
  /-- `required` and `maxlength="31"` -/
  ssid_units : 1 ≤ utf16Length ssid ∧ utf16Length ssid ≤ 31
  /-- the name of a network -/
  ssid_bytes : (utf8 ssid).length ≤ 32
  /-- `maxlength="63"` -/
  psk_units : psk.length ≤ 63
  /-- printable ASCII -/
  psk_ascii : psk.all fun c => 0x20 ≤ c.toNat && c.toNat ≤ 0x7E
  /-- `required` and `maxlength="127"` -/
  backend_units : 1 ≤ utf16Length backend ∧ utf16Length backend ≤ 127
  /-- single lines without NUL -/
  lines : ssid.all lineChar ∧ backend.all lineChar

/-- The body a browser posts. -/
def Form.body (f : Form) : List UInt8 :=
  UrlEncoding.serialize
    [(ssidKey, utf8 f.ssid), (pskKey, utf8 f.psk), (backendKey, utf8 f.backend)]

/-- What has come in, put together. -/
def joined (received : List Got) : List UInt8 :=
  received.flatMap fun
    | .data bytes => bytes
    | .timeout | .failed => []

/-- A body that comes in, in pieces and with pauses. -/
structure Delivery (body : List UInt8) where
  /-- what `httpd_req_recv` returns -/
  received : List Got
  /-- the pieces make up the body -/
  joined_eq : joined received = body
  /-- the connection holds -/
  holds : ∀ got ∈ received, got ≠ .failed ∧ got ≠ .data []

/-- The credentials are accepted, and after the reboot the fields hold what was
submitted. -/
def Preserved (f : Form) (received : List Got) (nvs : Nvs) : Prop :=
  ∃ creds config, handleSave f.body.length received = .saved creds ∧
    decideAndRun (onCredentials creds nvs) = some (config, utf8 f.backend) ∧
    config.ssid.bytes = CArray.padded 32 (utf8 f.ssid) ∧
    config.password.bytes = CArray.padded 64 (utf8 f.psk)

/-! ## Bytes of a text -/

theorem ofNat_ne_zero {n : ℕ} (hpos : 0 < n) (hlt : n < 256) : UInt8.ofNat n ≠ 0 := by
  intro h
  have hnat := congrArg UInt8.toNat h
  rw [UInt8.toNat_ofNat_of_lt' hlt] at hnat
  exact absurd hnat (Nat.ne_of_gt hpos)

/-- Only NUL is written with a zero byte. -/
theorem zero_notMem_utf8EncodeChar {c : Char} (h : c.toNat ≠ 0) :
    0 ∉ String.utf8EncodeChar c := by
  have hne : ∀ n, 0 < n → n < 256 → (0 : UInt8) ≠ UInt8.ofNat n :=
    fun n hpos hlt => (ofNat_ne_zero hpos hlt).symm
  have hval : 0 < c.val.toNat := Nat.pos_of_ne_zero h
  unfold String.utf8EncodeChar
  simp only
  split_ifs with h1 h2 h3
  all_goals simp only [List.mem_cons, List.not_mem_nil, or_false, not_or]
  · exact hne _ hval (by omega)
  · exact ⟨hne _ (by omega) (by omega), hne _ (by omega) (by omega)⟩
  · exact ⟨hne _ (by omega) (by omega), hne _ (by omega) (by omega), hne _ (by omega) (by omega)⟩
  · exact ⟨hne _ (by omega) (by omega), hne _ (by omega) (by omega), hne _ (by omega) (by omega),
      hne _ (by omega) (by omega)⟩

theorem zero_notMem_utf8 {text : List Char} (h : ∀ c ∈ text, c.toNat ≠ 0) : 0 ∉ utf8 text := by
  intro hzero
  obtain ⟨c, hc, hmem⟩ := List.mem_flatMap.mp hzero
  exact zero_notMem_utf8EncodeChar (h c hc) hmem

theorem zero_notMem_line {text : List Char} (h : text.all lineChar) : 0 ∉ utf8 text := by
  apply zero_notMem_utf8
  intro c hc hzero
  have hline := List.all_eq_true.mp h c hc
  have hnul : c = '\x00' := Char.toNat_inj.mp hzero
  rw [hnul] at hline
  exact absurd hline (by decide)

/-- A text that is not empty has a byte. -/
theorem utf8_ne_nil {text : List Char} (h : 1 ≤ utf16Length text) : utf8 text ≠ [] := by
  cases text with
  | nil => exact absurd h (by decide)
  | cons c text =>
    intro hnil
    exact String.utf8EncodeChar_ne_nil (List.append_eq_nil_iff.mp hnil).1

/-- ASCII takes a byte for each character. -/
theorem utf8_length_ascii {text : List Char} (h : ∀ c ∈ text, c.toNat ≤ 0x7E) :
    (utf8 text).length = text.length := by
  induction text with
  | nil => rfl
  | cons c text ih =>
    obtain ⟨hc, hrest⟩ := List.forall_mem_cons.mp h
    have hone : String.utf8EncodeChar c = [UInt8.ofNat c.val.toNat] :=
      if_pos (Nat.le_trans hc (by decide))
    rw [utf8, List.flatMap_cons, hone, List.singleton_append, List.length_cons, List.length_cons]
    exact congrArg (· + 1) (ih hrest)

theorem cString_of_notMem {s : List UInt8} (h : 0 ∉ s) : cString s = s := by
  rw [cString, List.takeWhile_eq_self_iff]
  intro b hb
  exact decide_eq_true (ne_of_mem_of_not_mem hb h)

namespace Form

variable (f : Form)

theorem ssid_zero : 0 ∉ utf8 f.ssid := zero_notMem_line f.lines.1

theorem backend_zero : 0 ∉ utf8 f.backend := zero_notMem_line f.lines.2

theorem psk_char {c : Char} (h : c ∈ f.psk) : 0x20 ≤ c.toNat ∧ c.toNat ≤ 0x7E := by
  have hascii := List.all_eq_true.mp f.psk_ascii c h
  rwa [Bool.and_eq_true, decide_eq_true_eq, decide_eq_true_eq] at hascii

theorem psk_zero : 0 ∉ utf8 f.psk := by
  apply zero_notMem_utf8
  intro c hc hzero
  have hchar := f.psk_char hc
  omega

theorem psk_length : (utf8 f.psk).length ≤ 63 := by
  rw [utf8_length_ascii fun c hc => (f.psk_char hc).2]
  exact f.psk_units

/-- The credentials as they were submitted. -/
def creds : WifiCredentials := ⟨utf8 f.ssid, utf8 f.psk, utf8 f.backend⟩

/-- Each field is read as it was written. -/
theorem formGet_body :
    formGet f.body ssidKey = some (utf8 f.ssid) ∧ formGet f.body pskKey = some (utf8 f.psk) ∧
      formGet f.body backendKey = some (utf8 f.backend) := by
  have hread := formGet_serialize
    [(ssidKey, utf8 f.ssid), (pskKey, utf8 f.psk), (backendKey, utf8 f.backend)]
    (List.cons_ne_nil _ _) (by
      simp only [List.forall_mem_cons, List.not_mem_nil, false_implies, implies_true, and_true]
      decide)
  exact ⟨hread ssidKey, hread pskKey, hread backendKey⟩

end Form

/-! ## The way of the credentials -/

/-- **The loop receives the body**, in whatever pieces it comes. -/
theorem recvBody_joined (received : List Got)
    (h : ∀ got ∈ received, got ≠ .failed ∧ got ≠ .data []) :
    ∀ body, recvBody (body ++ joined received).length received body =
      some (body ++ joined received) := by
  induction received with
  | nil =>
    intro body
    rw [joined, List.flatMap_nil, List.append_nil, recvBody, if_neg (Nat.lt_irrefl _)]
  | cons got rest ih =>
    intro body
    obtain ⟨⟨hfailed, hempty⟩, hrest⟩ := List.forall_mem_cons.mp h
    cases got with
    | failed => exact absurd rfl hfailed
    | timeout =>
      show recvBody (body ++ joined rest).length _ body = some (body ++ joined rest)
      rw [recvBody]
      split
      · exact ih hrest body
      · rename_i hdone
        rw [List.length_append] at hdone
        have hnil : joined rest = [] := List.eq_nil_of_length_eq_zero (by omega)
        rw [hnil, List.append_nil]
    | data bytes =>
      have hbytes : bytes ≠ [] := fun h => hempty (h ▸ rfl)
      have hmore : body.length < (body ++ (bytes ++ joined rest)).length := by
        have hpos := List.length_pos_of_ne_nil hbytes
        rw [List.length_append, List.length_append]
        omega
      show recvBody (body ++ (bytes ++ joined rest)).length _ body =
        some (body ++ (bytes ++ joined rest))
      rw [recvBody, if_pos hmore]
      simp only [if_neg hbytes]
      rw [← List.append_assoc]
      exact ih hrest (body ++ bytes)

/-- A body that is small enough is accepted. -/
theorem handleSave_body (f : Form) (d : Delivery f.body) (h : f.body.length ≤ kMaxBodyBytes) :
    handleSave f.body.length d.received = .saved f.creds := by
  have hrecv := recvBody_joined d.received d.holds []
  rw [List.nil_append, d.joined_eq] at hrecv
  obtain ⟨hssid, hpsk, hbackend⟩ := f.formGet_body
  rw [handleSave, if_neg (Nat.not_lt.mpr h), hrecv]
  simp only [hssid, hpsk, hbackend, Option.getD_some]
  rfl

/-- What the device connects with after the reboot. -/
theorem decideAndRun_onCredentials (f : Form) (nvs : Nvs) :
    decideAndRun (onCredentials f.creds nvs) =
      some (wifiConnect (utf8 f.ssid) (utf8 f.psk), utf8 f.backend) := by
  have hssid : onCredentials f.creds nvs .wifiSsid = some (utf8 f.ssid) :=
    congrArg some (cString_of_notMem f.ssid_zero)
  have hpsk : onCredentials f.creds nvs .wifiPsk = some (utf8 f.psk) :=
    congrArg some (cString_of_notMem f.psk_zero)
  have hbackend : onCredentials f.creds nvs .backendUrl = some (utf8 f.backend) :=
    congrArg some (cString_of_notMem f.backend_zero)
  have hne : ¬ (utf8 f.ssid = [] ∨ utf8 f.backend = []) :=
    not_or.mpr ⟨utf8_ne_nil f.ssid_units.1, utf8_ne_nil f.backend_units.1⟩
  rw [decideAndRun, hssid, hpsk, hbackend]
  exact if_neg hne

/-- The fields after the copy. -/
theorem wifiConnect_fields (f : Form) :
    (wifiConnect (utf8 f.ssid) (utf8 f.psk)).ssid.bytes =
        CArray.padded 32 ((utf8 f.ssid).take 31) ∧
      (wifiConnect (utf8 f.ssid) (utf8 f.psk)).password.bytes =
        CArray.padded 64 (utf8 f.psk) := by
  have hpsk : (utf8 f.psk).take 63 = utf8 f.psk := List.take_of_length_le f.psk_length
  refine ⟨?_, ?_⟩
  · rw [wifiConnect, CArray.strncpy_zero_bytes, cString_of_notMem f.ssid_zero]
  · rw [wifiConnect, CArray.strncpy_zero_bytes, cString_of_notMem f.psk_zero, hpsk]

/-- **The credentials arrive unchanged, exactly when** the name of the network
has at most 31 bytes and the body at most 512, however the body comes in and
whatever was stored before. -/
theorem preserved_iff (f : Form) (d : Delivery f.body) (nvs : Nvs) :
    Preserved f d.received nvs ↔ (utf8 f.ssid).length ≤ 31 ∧ f.body.length ≤ kMaxBodyBytes := by
  have hfields := wifiConnect_fields f
  rw [← CArray.padded_take_iff f.ssid_zero 32 31]
  refine ⟨?_, ?_⟩
  · rintro ⟨creds, config, hsave, hrun, hssid, -⟩
    have hlen : f.body.length ≤ kMaxBodyBytes := by
      by_contra hlarge
      rw [handleSave, if_pos (Nat.lt_of_not_le hlarge)] at hsave
      cases hsave
    rw [handleSave_body f d hlen] at hsave
    obtain rfl := SaveResult.saved.inj hsave
    rw [decideAndRun_onCredentials] at hrun
    obtain ⟨rfl, -⟩ := Prod.mk.inj (Option.some.inj hrun)
    exact ⟨hfields.1.symm.trans hssid, hlen⟩
  · rintro ⟨hssid, hlen⟩
    exact ⟨f.creds, _, handleSave_body f d hlen, decideAndRun_onCredentials f nvs,
      hfields.1.trans hssid, hfields.2⟩

/-! ## Two forms that do not arrive -/

/-- A name of sixteen letters of two bytes. -/
def cyrillic : Form where
  ssid := List.replicate 16 (Char.ofNat 0x416)
  psk := []
  backend := "http://10.0.0.1".toList
  ssid_units := by decide +kernel
  ssid_bytes := by decide +kernel
  psk_units := by decide
  psk_ascii := by decide
  backend_units := by decide +kernel
  lines := by decide +kernel

/-- A long password and a long address, of characters that are escaped. -/
def escaped : Form where
  ssid := "home".toList
  psk := List.replicate 63 '#'
  backend := "http://10.0.0.1/".toList ++ List.replicate 111 '/'
  ssid_units := by decide +kernel
  ssid_bytes := by decide +kernel
  psk_units := by decide +kernel
  psk_ascii := by decide +kernel
  backend_units := by decide +kernel
  lines := by decide +kernel

/-- The name is cut to 31 bytes; the long form is refused. -/
theorem preserved_cyrillic_escaped :
    let nvs : Nvs := fun _ => none
    (decideAndRun (onCredentials cyrillic.creds nvs)).map (fun c => c.1.ssid.bytes) =
        some (CArray.padded 32 ((utf8 cyrillic.ssid).take 31)) ∧
      ¬ Preserved cyrillic [.data cyrillic.body] nvs ∧
      handleSave escaped.body.length [.data escaped.body] = .tooLarge ∧
      ¬ Preserved escaped [.data escaped.body] nvs := by
  intro nvs
  have hcut : (decideAndRun (onCredentials cyrillic.creds nvs)).map (fun c => c.1.ssid.bytes) =
      some (CArray.padded 32 ((utf8 cyrillic.ssid).take 31)) := by decide +kernel
  have hsaved : handleSave cyrillic.body.length [.data cyrillic.body] = .saved cyrillic.creds := by
    decide +kernel
  have hlarge : handleSave escaped.body.length [.data escaped.body] = .tooLarge := by
    decide +kernel
  refine ⟨hcut, ?_, hlarge, ?_⟩
  · rintro ⟨creds, config, hsave, hrun, hssid, -⟩
    obtain rfl := SaveResult.saved.inj (hsaved.symm.trans hsave)
    rw [hrun, Option.map_some, hssid] at hcut
    revert hcut
    decide +kernel
  · rintro ⟨creds, config, hsave, -⟩
    rw [hlarge] at hsave
    cases hsave

end PipecatVoice.Provisioning
