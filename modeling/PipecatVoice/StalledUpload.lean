import PipecatVoice.Ota

/-!
# Stalled uploads

Two handlers receive a body in a loop: `handleOta` and the portal's `handleSave`.
Both go round again when a receive times out, and each is run by the one task that
serves every request.

* `otaCounts`, `saveCounts` — both loops wait for a total;
* `uploads_return_iff` — the handlers return unless a client stops sending and keeps the
  connection;
* `handleSave_of_returns` — once it returns, the loop is the handler that `Provisioning` has.
-/

namespace PipecatVoice

open Awaiting Provisioning Ota

/-! ## The firmware upload -/

/-- What a round brings of the image; a round that ends the loop brings nothing. -/
def roundAmount (round : Round) : Option ℕ :=
  match round.got with
  | .timeout => some 0
  | .failed => none
  | .data avail =>
    if avail = [] ∨ round.written = false then none else some (min avail.length bufSize)

/-- A round that brings nothing ends the loop. -/
theorem uploadBody_ends (u : Upload) {round : Round} (h : roundAmount round = none) :
    ∃ r, uploadBody u round = .inr r := by
  rw [roundAmount] at h
  rw [uploadBody]
  cases hgot : round.got with
  | timeout =>
    rw [hgot] at h
    cases h
  | failed => exact ⟨_, rfl⟩
  | data avail =>
    rw [hgot] at h
    simp only at h ⊢
    split
    · exact ⟨_, rfl⟩
    · rename_i hbytes
      have havail : avail ≠ [] := fun h => hbytes (by rw [h, List.take_nil])
      have hwritten : round.written = false := by
        split at h
        · rename_i hor
          exact hor.resolve_left havail
        · cases h
      rw [if_neg (by rw [hwritten]; exact Bool.false_ne_true)]
      exact ⟨_, rfl⟩

/-- A round that brings `n` bytes has that much taken off, as far as it remains. -/
theorem uploadBody_takes {u : Upload} {round : Round} {n : ℕ} (hpos : 0 < u.remaining)
    (h : roundAmount round = some n) : ∃ u', uploadBody u round = .inl u' ∧
      (n = 0 → u' = u) ∧ (u.remaining ≤ n → u'.remaining ≤ 0) ∧
      (n < u.remaining → u'.remaining = u.remaining - n) := by
  rw [roundAmount] at h
  rw [uploadBody]
  cases hgot : round.got with
  | failed =>
    rw [hgot] at h
    cases h
  | timeout =>
    rw [hgot] at h
    cases h
    refine ⟨u, rfl, fun _ => rfl, fun h => ?_, fun _ => (Int.sub_zero _).symm⟩
    exact absurd hpos (not_lt.mpr h)
  | data avail =>
    rw [hgot] at h
    simp only at h ⊢
    split at h
    · cases h
    · rename_i hgood
      cases h
      obtain ⟨havail, hwritten⟩ := not_or.mp hgood
      have hlength := List.length_pos_of_ne_nil havail
      have hbuf : 0 < bufSize := by decide
      have hbytes : (avail.take (min u.remaining.toNat bufSize)).length =
          min (min u.remaining.toNat bufSize) avail.length := List.length_take
      have htaken : avail.take (min u.remaining.toNat bufSize) ≠ [] :=
        List.ne_nil_of_length_pos (by omega)
      rw [if_neg htaken, if_pos (eq_true_of_ne_false hwritten)]
      refine ⟨_, rfl, fun h => ?_, fun h => ?_, fun h => ?_⟩
      · omega
      · simp only
        omega
      · simp only
        omega

/-- The firmware upload waits for its total. -/
theorem otaCounts : Counts uploadLoop Upload.remaining roundAmount where
  exit_iff u := by simp [uploadLoop]
  ends u _ h := uploadBody_ends u h
  takes _ _ _ hpos h := uploadBody_takes hpos h

/-! ## The form -/

/-- What a receive brings of the form. -/
def gotAmount : Got → Option ℕ
  | .timeout => some 0
  | .failed => none
  | .data bytes => if bytes = [] then none else some bytes.length

/-- The loop of `handleSave`: the body, or nothing if it is incomplete. -/
def saveLoop (contentLen : ℕ) : Loop (List UInt8) Got (Option (List UInt8)) where
  exit body := if body.length < contentLen then none else some (some body)
  body body got :=
    match got with
    | .timeout => .inl body
    | .failed => .inr none
    | .data bytes => if bytes = [] then .inr none else .inl (body ++ bytes)

/-- The loop is the one of the portal. -/
theorem recvBody_of_run {contentLen : ℕ} {r : Option (List UInt8)} (received : List Got) :
    ∀ {body}, (saveLoop contentLen).run received body = .inr r →
      recvBody contentLen received body = r := by
  induction received with
  | nil =>
    intro body hrun
    rw [recvBody]
    split
    · rename_i hmore
      rw [Loop.run_nil (if_pos hmore)] at hrun
      cases hrun
    · rename_i hdone
      rw [Loop.run_of_exit (if_neg hdone)] at hrun
      exact Sum.inr.inj hrun
  | cons got rest ih =>
    intro body hrun
    by_cases hmore : body.length < contentLen
    · have hexit : (saveLoop contentLen).exit body = none := if_pos hmore
      cases got with
      | timeout =>
        rw [Loop.run_cons hexit rfl] at hrun
        rw [recvBody, if_pos hmore]
        exact ih hrun
      | failed =>
        rw [Loop.run_cons_return hexit rfl] at hrun
        rw [recvBody, if_pos hmore]
        exact Sum.inr.inj hrun
      | data bytes =>
        rw [recvBody, if_pos hmore]
        split
        · rename_i hempty
          have hbody : (saveLoop contentLen).body body (.data bytes) = .inr none :=
            if_pos hempty
          rw [Loop.run_cons_return hexit hbody] at hrun
          exact Sum.inr.inj hrun
        · rename_i hbytes
          have hbody : (saveLoop contentLen).body body (.data bytes) = .inl (body ++ bytes) :=
            if_neg hbytes
          rw [Loop.run_cons hexit hbody] at hrun
          exact ih hrun
    · rw [Loop.run_of_exit (if_neg hmore)] at hrun
      cases got <;> rw [recvBody, if_neg hmore] <;> exact Sum.inr.inj hrun

/-- The portal waits for its total. -/
theorem saveCounts (contentLen : ℕ) :
    Counts (saveLoop contentLen) (fun body => (contentLen : ℤ) - body.length) gotAmount where
  exit_iff body := by simp [saveLoop]
  ends body got hnone := by
    cases got with
    | timeout => cases hnone
    | failed => exact ⟨none, rfl⟩
    | data bytes =>
      rw [gotAmount] at hnone
      split at hnone
      · rename_i hempty
        exact ⟨none, if_pos hempty⟩
      · cases hnone
  takes body got n hpos hsome := by
    cases got with
    | failed => cases hsome
    | timeout =>
      cases hsome
      refine ⟨body, rfl, fun _ => rfl, fun h => ?_, fun _ => (Int.sub_zero _).symm⟩
      exact absurd hpos (not_lt.mpr h)
    | data bytes =>
      rw [gotAmount] at hsome
      split at hsome
      · cases hsome
      · rename_i hbytes
        cases hsome
        have hlength := List.length_pos_of_ne_nil hbytes
        refine ⟨body ++ bytes, if_neg hbytes, fun h => ?_, fun h => ?_, fun h => ?_⟩
        · omega
        · rw [List.length_append]
          omega
        · rw [List.length_append]
          omega

/-! ## When the handlers return -/

/-- The upload's loop is entered, and the client stops sending before the image is
complete and keeps the connection. -/
def OtaStalled (contentLen : UInt32) (env : Env) (rounds : Stream' Round) : Prop :=
  env.partition = true ∧ env.beginOk = true ∧
    DriesUp roundAmount contentLen.toInt32.toInt rounds

/-- The form is short enough, and the client stops sending before it is complete and
keeps the connection. -/
def SaveStalled (contentLen : UInt32) (received : Stream' Got) : Prop :=
  contentLen.toNat ≤ kMaxBodyBytes ∧ DriesUp gotAmount contentLen.toNat received

/-- The firmware upload returns, unless it is begun and dries up. -/
theorem ota_returns_iff (contentLen : UInt32) (env : Env) (ui : Ui) (now : ℕ)
    (rounds : Stream' Round) :
    (∃ k out, handleOta contentLen env ui now (rounds.take k) = some out) ↔
      ¬ OtaStalled contentLen env rounds := by
  cases hpart : env.partition with
  | false =>
    -- it is refused before the first receive, and so it is when it cannot begin
    refine ⟨fun _ h => ?_, fun _ => ⟨0, _, by rw [handleOta, hpart]; rfl⟩⟩
    rw [OtaStalled, hpart] at h
    cases h.1
  | true =>
    cases hbegin : env.beginOk with
    | false =>
      refine ⟨fun _ h => ?_, fun _ => ⟨0, _, by rw [handleOta, hpart, hbegin]; rfl⟩⟩
      rw [OtaStalled, hbegin] at h
      cases h.2.1
    | true =>
      -- from here on it is the loop
      have hloop := otaCounts.returns_iff rounds
        ⟨contentLen.toInt32.toInt, [.begin true], []⟩
      have hstalled : OtaStalled contentLen env rounds ↔
          DriesUp roundAmount contentLen.toInt32.toInt rounds :=
        ⟨fun h => h.2.2, fun h => ⟨hpart, hbegin, h⟩⟩
      rw [hstalled, ← hloop, Loop.Returns]
      apply exists_congr
      intro k
      rw [handleOta, hpart, hbegin]
      simp only [Bool.not_true, Bool.false_eq_true, if_false]
      split
      · rename_i hrun
        rw [hrun]
        refine ⟨fun h => ?_, fun h => ?_⟩
        · obtain ⟨_, hnone⟩ := h
          cases hnone
        · obtain ⟨_, hinl⟩ := h
          cases hinl
      · rename_i result hrun
        rw [hrun]
        exact ⟨fun _ => ⟨_, rfl⟩, fun _ => ⟨_, rfl⟩⟩

/-- What `handleSave` does with the body. -/
def saveBody (body : List UInt8) : SaveResult :=
  match formGet body ssidKey, formGet body backendKey with
  | some ssid, some backend => .saved ⟨ssid, (formGet body pskKey).getD [], backend⟩
  | _, _ => .missing

/-- `handleSave`: nothing while it is still receiving. The loop counts in an `int`. -/
def handleSave? (contentLen : UInt32) (received : List Got) : Option SaveResult :=
  if contentLen.toInt32.toInt < 0 ∨ contentLen.toInt32.toInt > kMaxBodyBytes then some .tooLarge
  else
    match (saveLoop contentLen.toNat).run received [] with
    | .inl _ => none
    | .inr none => some .incomplete
    | .inr (some body) => some (saveBody body)

/-- Once it returns, it is the handler of the portal. -/
theorem handleSave_of_returns {contentLen : UInt32} {received : List Got} {result : SaveResult}
    (h : handleSave? contentLen received = some result) :
    handleSave contentLen.toNat received = result := by
  have hcases := toInt_cases contentLen
  rw [handleSave?] at h
  rw [handleSave]
  by_cases hlarge : contentLen.toInt32.toInt < 0 ∨ contentLen.toInt32.toInt > kMaxBodyBytes
  · rw [if_pos hlarge] at h
    rw [kMaxBodyBytes] at hlarge ⊢
    rw [if_pos (by omega)]
    exact Option.some.inj h
  · rw [if_neg hlarge] at h
    rw [kMaxBodyBytes] at hlarge ⊢
    rw [if_neg (by omega)]
    split at h
    · cases h
    · rename_i hrun
      rw [recvBody_of_run received hrun]
      exact Option.some.inj h
    · rename_i body hrun
      rw [recvBody_of_run received hrun]
      exact Option.some.inj h

/-- The portal answers, unless the form is short enough and dries up. -/
theorem save_returns_iff (contentLen : UInt32) (received : Stream' Got) :
    (∃ k result, handleSave? contentLen (received.take k) = some result) ↔
      ¬ SaveStalled contentLen received := by
  have hcases := toInt_cases contentLen
  by_cases hlarge : contentLen.toInt32.toInt < 0 ∨ contentLen.toInt32.toInt > kMaxBodyBytes
  · -- a form that is too large is refused before the first receive
    refine ⟨fun _ h => ?_, fun _ => ⟨0, _, if_pos hlarge⟩⟩
    have hsmall := h.1
    rw [kMaxBodyBytes] at hsmall hlarge
    omega
  · have hsmall : contentLen.toNat ≤ kMaxBodyBytes := by
      rw [kMaxBodyBytes] at hlarge ⊢
      omega
    have hloop := (saveCounts contentLen.toNat).returns_iff received []
    have hstalled : SaveStalled contentLen received ↔
        DriesUp gotAmount contentLen.toNat received := ⟨fun h => h.2, fun h => ⟨hsmall, h⟩⟩
    rw [List.length_nil, Int.ofNat_zero, Int.sub_zero] at hloop
    rw [hstalled, ← hloop, Loop.Returns]
    apply exists_congr
    intro k
    rw [handleSave?, if_neg hlarge]
    split
    · rename_i hrun
      rw [hrun]
      refine ⟨fun h => ?_, fun h => ?_⟩
      · obtain ⟨_, hnone⟩ := h
        cases hnone
      · obtain ⟨_, hinl⟩ := h
        cases hinl
    · rename_i hrun
      rw [hrun]
      exact ⟨fun _ => ⟨_, rfl⟩, fun _ => ⟨_, rfl⟩⟩
    · rename_i body hrun
      rw [hrun]
      exact ⟨fun _ => ⟨_, rfl⟩, fun _ => ⟨_, rfl⟩⟩

/-- **Stalled uploads** are the ones that hold the task: each handler returns after
finitely many receives unless its client stops sending and keeps the connection. -/
theorem uploads_return_iff (contentLen : UInt32) (env : Env) (ui : Ui) (now : ℕ)
    (rounds : Stream' Round) (received : Stream' Got) :
    ((∃ k out, handleOta contentLen env ui now (rounds.take k) = some out) ↔
        ¬ OtaStalled contentLen env rounds) ∧
      ((∃ k result, handleSave? contentLen (received.take k) = some result) ↔
        ¬ SaveStalled contentLen received) :=
  ⟨ota_returns_iff contentLen env ui now rounds, save_returns_iff contentLen received⟩

/-- A client that opens a connection, announces one byte and sends nothing. -/
theorem not_returns_silent :
    (¬ ∃ k out, handleOta 1 willing (Ui.new ⟨0, 0, 0⟩) 0
      ((Stream'.const ⟨.timeout, true⟩).take k) = some out) ∧
    ¬ ∃ k result, handleSave? 1 ((Stream'.const .timeout).take k) = some result := by
  have hdry : ∀ {ε : Type} (amount : ε → Option ℕ) (e : ε), amount e = some 0 →
      DriesUp amount 1 (Stream'.const e) := fun amount e he =>
    ⟨0, fun e' he' => absurd he' List.not_mem_nil, Int.zero_lt_one, fun i => he⟩
  refine ⟨fun h => ?_, fun h => ?_⟩
  · exact (ota_returns_iff _ _ _ _ _).mp h ⟨rfl, rfl, hdry roundAmount _ rfl⟩
  · exact (save_returns_iff _ _).mp h ⟨by decide, hdry gotAmount _ rfl⟩

end PipecatVoice
