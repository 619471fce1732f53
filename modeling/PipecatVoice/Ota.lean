import PipecatVoice.Lib.Awaiting
import PipecatVoice.Provisioning
import PipecatVoice.Session

/-!
# Firmware uploads

`handleOta` of `web_server.cpp`: the body of a POST goes piece by piece into the
slot that is not booted, the image is closed, and the device boots from it. The
calls to the update API are recorded in the order they are made.

* `handleOta` — the handler;
* `AllOrNothing` — what an upload may leave behind;
* `allOrNothing_iff` — which uploads keep to it.
-/

namespace PipecatVoice.Ota

open Provisioning Awaiting

/-- What `esp_ota_end` returns. -/
inductive EndResult where
  | ok
  /-- `ESP_ERR_OTA_VALIDATE_FAILED` -/
  | validateFailed
  /-- another error -/
  | failed
  deriving DecidableEq, Repr

/-- The calls to the update API. -/
inductive Call where
  /-- `esp_ota_begin` -/
  | begin (ok : Bool)
  /-- `esp_ota_write` -/
  | write (bytes : List UInt8) (ok : Bool)
  /-- `esp_ota_abort` -/
  | abort
  /-- `esp_ota_end` -/
  | finish (result : EndResult)
  /-- `esp_ota_set_boot_partition` -/
  | setBoot (ok : Bool)
  deriving DecidableEq, Repr

/-- A response. -/
structure Response where
  /-- the status line -/
  status : String
  /-- the body -/
  text : String
  deriving DecidableEq, Repr

/-- What the flash and the other tasks bring to an upload. -/
structure Env where
  /-- `esp_ota_get_next_update_partition` finds a slot -/
  partition : Bool
  /-- `esp_ota_begin` succeeds -/
  beginOk : Bool
  /-- what `esp_ota_end` returns -/
  endResult : EndResult
  /-- `esp_ota_set_boot_partition` succeeds -/
  setBootOk : Bool
  /-- what the other tasks do to the ring during the upload -/
  others : Ui → Ui

/-- One round of the loop: what `httpd_req_recv` finds on the socket, and whether
`esp_ota_write` would accept it. -/
structure Round where
  /-- what is on the socket -/
  got : Got
  /-- `esp_ota_write` succeeds -/
  written : Bool

/-- The loop's variables, and what it has done. -/
structure Upload where
  /-- `remaining` -/
  remaining : ℤ
  /-- the calls made -/
  calls : List Call
  /-- the bytes received -/
  received : List UInt8

/-- What an upload leaves behind. -/
structure Outcome where
  /-- the calls made -/
  calls : List Call
  /-- the bytes received -/
  received : List UInt8
  /-- the LED driver -/
  ui : Ui
  /-- `ota_reboot_task` was created -/
  rebooting : Bool
  /-- the response -/
  response : Response

/-- The size of `buf`. -/
def bufSize : ℕ := 1536

/-- The body of the loop; a piece that cannot be received or written ends it. -/
def uploadBody (u : Upload) (round : Round) : Upload ⊕ Upload × Bool :=
  match round.got with
  | .timeout => .inl u
  | .failed => .inr (u, false)
  | .data avail =>
    let bytes := avail.take (min u.remaining.toNat bufSize)
    if bytes = [] then .inr (u, false)
    else
      let received := u.received ++ bytes
      let calls := u.calls ++ [.write bytes round.written]
      if round.written then .inl ⟨u.remaining - bytes.length, calls, received⟩
      else .inr (⟨u.remaining, calls, received⟩, false)

/-- The receive loop: how far it came, and whether it came to the end. -/
def uploadLoop : Loop Upload Round (Upload × Bool) where
  exit u := if u.remaining > 0 then none else some (u, true)
  body := uploadBody

/-- What follows the loop. -/
def conclude (env : Env) (ui : Ui) : Upload × Bool → Outcome
  | (u, false) =>
    ⟨u.calls ++ [.abort], u.received, ui.resumeAuto, false,
      ⟨"400 Bad Request", "upload/write failed"⟩⟩
  | (u, true) =>
    let calls := u.calls ++ [.finish env.endResult]
    match env.endResult with
    | .validateFailed =>
      ⟨calls, u.received, ui.resumeAuto, false, ⟨"400 Bad Request", "invalid firmware image"⟩⟩
    | .failed =>
      ⟨calls, u.received, ui.resumeAuto, false, ⟨"400 Bad Request", "esp_ota_end failed"⟩⟩
    | .ok =>
      let calls := calls ++ [.setBoot env.setBootOk]
      if env.setBootOk then
        ⟨calls, u.received, ui, true, ⟨"200 OK", "ok — rebooting into new firmware"⟩⟩
      else
        ⟨calls, u.received, ui.resumeAuto, false,
          ⟨"500 Internal Server Error", "set_boot_partition failed"⟩⟩

/-- `handleOta`: nothing while it is still receiving. The content length has the type
of a size, and the loop counts in an `int`. -/
def handleOta (contentLen : UInt32) (env : Env) (ui : Ui) (now : ℕ) (rounds : List Round) :
    Option Outcome :=
  if !env.partition then
    some ⟨[], [], ui, false, ⟨"500 Internal Server Error", "no OTA partition"⟩⟩
  else if !env.beginOk then
    some ⟨[.begin false], [], ui, false,
      ⟨"500 Internal Server Error", "esp_ota_begin failed"⟩⟩
  else
    let ui := env.others (ui.overrideEffect .rainbow ⟨0, 0, 0⟩ 0x80 0x40 otaHoldMs now)
    match uploadLoop.run rounds ⟨contentLen.toInt32.toInt, [.begin true], []⟩ with
    | .inl _ => none
    | .inr result => some (conclude env ui result)

/-! ## What an upload may leave behind -/

/-- The bytes written to the slot. -/
def slot (calls : List Call) : List UInt8 :=
  calls.flatMap fun
    | .write bytes true => bytes
    | _ => []

/-- The calls that release the handle. -/
def Call.releases : Call → Bool
  | .abort | .finish _ => true
  | _ => false

/-- The boot partition was switched. -/
def Switched (calls : List Call) : Prop := .setBoot true ∈ calls

/-- What an upload may leave behind. -/
structure AllOrNothing (contentLen : UInt32) (out : Outcome) : Prop where
  /-- the boot partition is switched for a complete image and for no other -/
  switched : Switched out.calls ↔
    out.received.length = contentLen.toNat ∧ slot out.calls = out.received ∧
      .finish .ok ∈ out.calls ∧ .setBoot true ∈ out.calls
  /-- without a switch everything is undone -/
  undone : ¬ Switched out.calls → .begin true ∈ out.calls →
    out.calls.countP Call.releases = 1 ∧ out.rebooting = false ∧ out.ui.overrideUntilUs = 0

/-- The length as the loop counts it. -/
theorem toInt_cases (contentLen : UInt32) :
    contentLen.toNat < 2 ^ 31 ∧ contentLen.toInt32.toInt = contentLen.toNat ∨
      2 ^ 31 ≤ contentLen.toNat ∧ contentLen.toInt32.toInt < 0 := by
  have hlt := contentLen.toNat_lt
  have hint : contentLen.toInt32.toInt = (contentLen.toNat : ℤ).bmod (2 ^ 32) :=
    BitVec.toInt_eq_toNat_bmod contentLen.toBitVec
  rw [Int.bmod_def] at hint
  split at hint <;> omega

/-! ## The loop -/

/-- The calls before and in the loop. -/
def Call.plain : Call → Bool
  | .begin _ | .write _ _ => true
  | _ => false

/-- How far the loop has come, of `len` bytes. -/
structure Loading (len : ℤ) (u : Upload) : Prop where
  /-- what is left -/
  remaining_eq : u.remaining + u.received.length = len
  /-- no more is taken than is left -/
  nonneg : 0 ≤ len → 0 ≤ u.remaining
  /-- a negative length ends the loop at once -/
  negative : len < 0 → u.received = []
  /-- every byte is written once, in order -/
  slot_eq : slot u.calls = u.received
  /-- nothing else is called -/
  plain : ∀ c ∈ u.calls, c.plain

theorem slot_append (calls : List Call) (c : Call) :
    slot (calls ++ [c]) = slot calls ++ slot [c] :=
  List.flatMap_append

theorem plain_append {calls : List Call} {c : Call} (h : ∀ c ∈ calls, c.plain) (hc : c.plain) :
    ∀ c' ∈ calls ++ [c], c'.plain := by
  intro c' hmem
  rcases List.mem_append.mp hmem with hmem | hmem
  · exact h c' hmem
  · rwa [List.mem_singleton.mp hmem]

theorem Loading.start (len : ℤ) : Loading len ⟨len, [.begin true], []⟩ where
  remaining_eq := Int.add_zero len
  nonneg h := h
  negative _ := rfl
  slot_eq := rfl
  plain c hc := by
    rw [List.mem_singleton.mp hc]
    rfl

/-- A round that keeps the loop going brought nothing, or a piece that was written. -/
theorem uploadBody_inl {u u' : Upload} {round : Round} (h : uploadBody u round = .inl u') :
    u' = u ∨ ∃ bytes : List UInt8, bytes.length ≤ u.remaining.toNat ∧
      u' = ⟨u.remaining - bytes.length, u.calls ++ [.write bytes true], u.received ++ bytes⟩ := by
  rw [uploadBody] at h
  cases hgot : round.got with
  | timeout =>
    rw [hgot] at h
    exact Or.inl (Sum.inl.inj h).symm
  | failed =>
    rw [hgot] at h
    cases h
  | data avail =>
    rw [hgot] at h
    simp only at h
    split at h
    · cases h
    · split at h
      · rename_i hwritten
        cases h
        refine Or.inr ⟨_, ?_, by rw [hwritten]⟩
        exact (List.length_take_le _ _).trans (min_le_left _ _)
      · cases h

/-- A round that ends the loop wrote nothing, or a piece that may not be on the flash. -/
theorem uploadBody_inr {u u' : Upload} {round : Round} {complete : Bool}
    (h : uploadBody u round = .inr (u', complete)) : complete = false ∧
      (u'.calls = u.calls ∨ ∃ bytes, u'.calls = u.calls ++ [.write bytes round.written]) := by
  rw [uploadBody] at h
  cases hgot : round.got with
  | timeout =>
    rw [hgot] at h
    cases h
  | failed =>
    rw [hgot] at h
    cases h
    exact ⟨rfl, Or.inl rfl⟩
  | data avail =>
    rw [hgot] at h
    simp only at h
    split at h
    · cases h
      exact ⟨rfl, Or.inl rfl⟩
    · split at h
      · cases h
      · cases h
        exact ⟨rfl, Or.inr ⟨_, rfl⟩⟩

/-- **One round** that keeps the loop going. -/
theorem Loading.step {len : ℤ} {u u' : Upload} {round : Round} (h : Loading len u)
    (hmore : u.remaining > 0) (hbody : uploadBody u round = .inl u') : Loading len u' := by
  obtain rfl | ⟨bytes, hbytes, rfl⟩ := uploadBody_inl hbody
  · exact h
  have hremaining := h.remaining_eq
  refine ⟨?_, ?_, ?_, ?_, plain_append h.plain rfl⟩
  · simp only [List.length_append]
    omega
  · intro _
    simp only
    omega
  · intro hneg
    omega
  · rw [slot_append, h.slot_eq, slot, List.flatMap_singleton]

/-- The loop is left. -/
structure Left (len : ℤ) (u : Upload) (complete : Bool) : Prop where
  /-- nothing else was called -/
  plain : ∀ c ∈ u.calls, c.plain
  /-- at its end nothing was left to receive -/
  loading : complete = true → Loading len u ∧ u.remaining ≤ 0

theorem Loading.failed {len : ℤ} {u u' : Upload} {round : Round} {complete : Bool}
    (h : Loading len u) (hbody : uploadBody u round = .inr (u', complete)) :
    Left len u' complete := by
  obtain ⟨rfl, hcalls⟩ := uploadBody_inr hbody
  refine ⟨?_, fun h => absurd h Bool.false_ne_true⟩
  rcases hcalls with hcalls | ⟨bytes, hcalls⟩
  · rw [hcalls]
    exact h.plain
  · rw [hcalls]
    exact plain_append h.plain rfl

/-- **The loop**, from its start to its end. -/
theorem left_of_run {len : ℤ} {rounds : List Round} {u : Upload} {complete : Bool}
    (hrun : uploadLoop.run rounds ⟨len, [.begin true], []⟩ = .inr (u, complete)) :
    Left len u complete := by
  refine Loop.run_invariant (I := Loading len) (Q := fun result => Left len result.1 result.2)
    ?_ ?_ ?_ rounds _ (Loading.start len) _ hrun
  · intro u result h hexit
    simp only [uploadLoop] at hexit
    split at hexit
    · cases hexit
    · rename_i hdone
      cases hexit
      exact ⟨h.plain, fun _ => ⟨h, not_lt.mp hdone⟩⟩
  · intro u round u' h hexit hbody
    have hmore : u.remaining > 0 := by
      by_contra hdone
      simp only [uploadLoop, if_neg hdone] at hexit
      cases hexit
    exact h.step hmore hbody
  · intro u round result h _ hbody
    exact h.failed hbody

/-! ## After the loop -/

theorem countP_plain {calls : List Call} (h : ∀ c ∈ calls, c.plain) :
    calls.countP Call.releases = 0 := by
  rw [List.countP_eq_zero]
  intro c hc
  have hplain := h c hc
  cases c with
  | begin ok => exact Bool.false_ne_true
  | write bytes ok => exact Bool.false_ne_true
  | abort => cases hplain
  | finish result => cases hplain
  | setBoot ok => cases hplain

theorem setBoot_notMem {calls : List Call} (h : ∀ c ∈ calls, c.plain) {ok : Bool} :
    Call.setBoot ok ∉ calls := by
  intro hmem
  cases h _ hmem

/-- When the boot partition is switched. -/
theorem switched_conclude {len : ℤ} {env : Env} {ui : Ui} {u : Upload} {complete : Bool}
    (h : Left len u complete) :
    Switched (conclude env ui (u, complete)).calls ↔
      complete = true ∧ env.endResult = .ok ∧ env.setBootOk = true := by
  have hnone : Call.setBoot true ∉ u.calls := setBoot_notMem h.plain
  cases complete with
  | false => simp [conclude, Switched, hnone]
  | true =>
    cases hend : env.endResult with
    | ok => cases hboot : env.setBootOk <;> simp [conclude, Switched, hend, hboot, hnone]
    | validateFailed => simp [conclude, Switched, hend, hnone]
    | failed => simp [conclude, Switched, hend, hnone]

/-- **Without a switch** the handle is released once and the rest is undone. -/
theorem undone_conclude {len : ℤ} {env : Env} {ui : Ui} {u : Upload} {complete : Bool}
    (h : Left len u complete) (hkept : ¬ Switched (conclude env ui (u, complete)).calls) :
    (conclude env ui (u, complete)).calls.countP Call.releases = 1 ∧
      (conclude env ui (u, complete)).rebooting = false ∧
      (conclude env ui (u, complete)).ui.overrideUntilUs = 0 := by
  have hcount := countP_plain h.plain
  cases complete with
  | false =>
    refine ⟨?_, rfl, rfl⟩
    rw [conclude, List.countP_append, hcount]
    rfl
  | true =>
    cases hend : env.endResult with
    | ok =>
      cases hboot : env.setBootOk with
      | true => exact absurd ((switched_conclude h).mpr ⟨rfl, hend, hboot⟩) hkept
      | false =>
        simp [conclude, hend, hboot, hcount, Ui.resumeAuto]
        rfl
    | validateFailed => simp [conclude, hend, hcount, Call.releases, Ui.resumeAuto]
    | failed => simp [conclude, hend, hcount, Call.releases, Ui.resumeAuto]

/-- **With a switch** everything was called that had to be. -/
theorem conclude_ok {env : Env} (ui : Ui) (u : Upload) (hend : env.endResult = .ok)
    (hboot : env.setBootOk = true) :
    (conclude env ui (u, true)).calls = u.calls ++ [.finish .ok, .setBoot true] ∧
      (conclude env ui (u, true)).received = u.received := by
  simp [conclude, hend, hboot]

/-- The uploads that keep to it: those of a length an `int` can hold, and those that
fail. -/
def Fits (contentLen : UInt32) (env : Env) : Prop :=
  contentLen.toNat < 2 ^ 31 ∨ ¬ (env.partition = true ∧ env.beginOk = true ∧
    env.endResult = .ok ∧ env.setBootOk = true)

/-- What the loop has left behind, concluded. -/
theorem allOrNothing_conclude {contentLen : UInt32} {env : Env} {ui : Ui} {u : Upload}
    {complete : Bool} (h : Left contentLen.toInt32.toInt u complete)
    (hfits : contentLen.toNat < 2 ^ 31 ∨ ¬ (env.endResult = .ok ∧ env.setBootOk = true)) :
    AllOrNothing contentLen (conclude env ui (u, complete)) := by
  refine ⟨⟨fun hswitched => ?_, fun hcalled => hcalled.2.2.2⟩,
    fun hkept _ => undone_conclude h hkept⟩
  obtain ⟨rfl, hend, hboot⟩ := (switched_conclude h).mp hswitched
  have hlength := hfits.resolve_right (not_not.mpr ⟨hend, hboot⟩)
  obtain ⟨hloading, hdone⟩ := h.loading rfl
  obtain ⟨hcalls, hreceived⟩ := conclude_ok ui u hend hboot
  rw [hcalls, hreceived]
  refine ⟨?_, ?_, by simp, by simp⟩
  · have hremaining := hloading.remaining_eq
    have hnonneg := hloading.nonneg
    rcases toInt_cases contentLen with ⟨-, hint⟩ | ⟨hlarge, -⟩ <;> omega
  · rw [slot, List.flatMap_append, ← slot, hloading.slot_eq]
    exact List.append_nil _

/-- An upload that does not get as far as the loop. -/
theorem allOrNothing_early {contentLen : UInt32} {calls : List Call} {ui : Ui}
    {response : Response} (hcalls : ∀ c ∈ calls, c = .begin false) :
    AllOrNothing contentLen ⟨calls, [], ui, false, response⟩ := by
  have hnone : Call.setBoot true ∉ calls := fun hmem => by cases hcalls _ hmem
  refine ⟨⟨fun hswitched => absurd hswitched hnone, fun h => absurd h.2.2.2 hnone⟩, ?_⟩
  intro _ hbegun
  cases hcalls _ hbegun

/-- An upload keeps to it if its length fits an `int` or a call fails. -/
theorem allOrNothing_of_fits {contentLen : UInt32} {env : Env} {ui : Ui} {now : ℕ}
    {rounds : List Round} {out : Outcome} (hfits : Fits contentLen env)
    (hout : handleOta contentLen env ui now rounds = some out) :
    AllOrNothing contentLen out := by
  cases hpart : env.partition with
  | false =>
    rw [handleOta, hpart] at hout
    cases hout
    exact allOrNothing_early fun c hc => by cases hc
  | true =>
    cases hbegin : env.beginOk with
    | false =>
      rw [handleOta, hpart, hbegin] at hout
      cases hout
      exact allOrNothing_early fun c hc => List.mem_singleton.mp hc
    | true =>
      rw [handleOta, hpart, hbegin] at hout
      simp only [Bool.not_true, Bool.false_eq_true, if_false] at hout
      split at hout
      · cases hout
      · rename_i result hrun
        cases hout
        apply allOrNothing_conclude (left_of_run hrun)
        exact hfits.imp_right fun h hall => h ⟨hpart, hbegin, hall⟩

/-- An upload whose length an `int` cannot hold boots a slot that nothing was written to. -/
theorem handleOta_unfit {contentLen : UInt32} {env : Env} (ui : Ui) (now : ℕ)
    (rounds : List Round) (hunfit : ¬ Fits contentLen env) :
    ∃ out, handleOta contentLen env ui now rounds = some out ∧
      out.calls = [.begin true, .finish .ok, .setBoot true] ∧ out.received = [] := by
  obtain ⟨hlarge, hall⟩ := not_or.mp hunfit
  obtain ⟨hpart, hbegin, hend, hboot⟩ := not_not.mp hall
  -- the loop is left before anything is received
  have hneg : ¬ contentLen.toInt32.toInt > 0 := by
    rcases toInt_cases contentLen with ⟨hsmall, -⟩ | ⟨-, hneg⟩ <;> omega
  have hrun : uploadLoop.run rounds ⟨contentLen.toInt32.toInt, [.begin true], []⟩ =
      .inr (⟨contentLen.toInt32.toInt, [.begin true], []⟩, true) :=
    Loop.run_of_exit (if_neg hneg) rounds
  refine ⟨_, by rw [handleOta, hpart, hbegin]; simp only [hrun]; rfl, ?_⟩
  exact conclude_ok _ _ hend hboot

theorem exists_partial {contentLen : UInt32} {env : Env} (ui : Ui) (now : ℕ)
    (rounds : List Round) (hunfit : ¬ Fits contentLen env) :
    ∃ out, handleOta contentLen env ui now rounds = some out ∧
      ¬ AllOrNothing contentLen out := by
  obtain ⟨out, hout, hcalls, hreceived⟩ := handleOta_unfit ui now rounds hunfit
  obtain ⟨hlarge, -⟩ := not_or.mp hunfit
  refine ⟨out, hout, fun h => hlarge ?_⟩
  have hswitched : Switched out.calls := by
    rw [Switched, hcalls]
    decide
  obtain ⟨hlength, -⟩ := h.switched.mp hswitched
  rw [← hlength, hreceived]
  decide

/-- An API that does not close an image nothing was written to makes up for it. -/
theorem allOrNothing_of_refuses {contentLen : UInt32} {env : Env} {ui : Ui} {now : ℕ}
    {rounds : List Round} {out : Outcome}
    (hout : handleOta contentLen env ui now rounds = some out)
    (hrefuses : .finish .ok ∈ out.calls → slot out.calls ≠ []) :
    AllOrNothing contentLen out := by
  by_cases hfits : Fits contentLen env
  · exact allOrNothing_of_fits hfits hout
  · obtain ⟨out', hout', hcalls, -⟩ := handleOta_unfit ui now rounds hfits
    obtain rfl : out' = out := Option.some.inj (hout'.symm.trans hout)
    rw [hcalls] at hrefuses
    exact absurd rfl (hrefuses (by decide))

/-- **All or nothing**: an upload switches the boot partition for a complete image only,
and otherwise undoes what it did, exactly if its length fits an `int` or a call fails. -/
theorem allOrNothing_iff (contentLen : UInt32) (env : Env) (ui : Ui) (now : ℕ)
    (rounds : List Round) :
    (∀ out, handleOta contentLen env ui now rounds = some out → AllOrNothing contentLen out) ↔
      Fits contentLen env := by
  refine ⟨fun h => ?_, fun hfits out hout => allOrNothing_of_fits hfits hout⟩
  by_contra hunfit
  obtain ⟨out, hout, hpartial⟩ := exists_partial ui now rounds hunfit
  exact hpartial (h out hout)

/-- A slot, and calls that all succeed. -/
def willing : Env := ⟨true, true, .ok, true, fun ui => ui⟩

theorem allOrNothing_two_gigabytes :
    ¬ ∀ out, handleOta 0x80000000 willing (Ui.new ⟨0, 0, 0⟩) 0 [] = some out →
      AllOrNothing 0x80000000 out := by
  intro h
  have hunfit : ¬ Fits 0x80000000 willing := by
    rintro (hsmall | hfails)
    · exact absurd hsmall (by decide)
    · exact hfails ⟨rfl, rfl, rfl, rfl⟩
  obtain ⟨out, hout, hpartial⟩ := exists_partial (Ui.new ⟨0, 0, 0⟩) 0 [] hunfit
  exact hpartial (h out hout)

end PipecatVoice.Ota
