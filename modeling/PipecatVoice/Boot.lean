import PipecatVoice.Lib.RetryBudget
import PipecatVoice.Lib.Runs
import PipecatVoice.Provisioning

/-!
# From boot to boot

The device decides at boot, by what is stored, between its portal and the network. A network
that it cannot join is erased from the store, and so it is by a long press; one that it loses
later is tried again a few times, and then no more until there is an address.

* `eventHandler`, `Link` — the Wi-Fi events, and what they make of the station;
* `Device`, `step` — the store and what the device is doing, from boot to boot;
* `gives_up_iff` — when a station tries again, and when it does not;
* `forgets_iff` — which runs keep the stored network, and what is left of it after the others.
-/

namespace PipecatVoice.Boot

open Provisioning Runs

/-! ## The station -/

/-- `kMaxConnectTries` -/
def kMaxConnectTries : ℕ := 5

/-- The events that are handled once the station is started. -/
inductive WifiEvent where
  /-- WIFI_EVENT_STA_DISCONNECTED -/
  | disconnected
  /-- IP_EVENT_STA_GOT_IP -/
  | gotIp
  deriving DecidableEq

/-- The variables of `wifi_sta.cpp`. -/
structure Link where
  /-- `g_tries`; an int, for fewer than 2³¹ disconnects in a row -/
  tries : ℕ
  /-- `kBitConnected` -/
  connected : Bool
  /-- `kBitFailed` -/
  failed : Bool
  deriving DecidableEq

/-- The handler of WIFI_EVENT_STA_START has called `esp_wifi_connect`. -/
def Link.started : Link := ⟨0, false, false⟩

/-- `eventHandler`: what it leaves, and whether it has called `esp_wifi_connect`. -/
def eventHandler (l : Link) : WifiEvent → Link × Bool
  | .disconnected =>
    if l.tries + 1 < kMaxConnectTries then ({ l with tries := l.tries + 1 }, true)
    else ({ l with tries := l.tries + 1, failed := true }, false)
  | .gotIp => ({ l with tries := 0, connected := true }, false)

/-- What an event leaves. The driver may report what it likes: nothing is assumed of when it does
and when it does not. -/
def Link.next (l : Link) (e : WifiEvent) : Link := (eventHandler l e).1

open RetryBudget (Budget note)

/-- The attempts of a station. -/
def Link.budget (l : Link) : Budget := ⟨l.tries, l.failed⟩

theorem Link.budget_next (l : Link) (e : WifiEvent) :
    (l.next e).budget = note kMaxConnectTries .disconnected l.budget e := by
  cases e with
  | gotIp => rfl
  | disconnected =>
    rw [note, if_pos rfl, Link.next, eventHandler]
    split
    · next hless => simp [Link.budget, Nat.not_le.mpr hless]
    · next hmany => simp [Link.budget, Nat.not_lt.mp hmany]

theorem Link.budget_foldl (es : List WifiEvent) (l : Link) :
    (es.foldl Link.next l).budget =
      es.foldl (note kMaxConnectTries .disconnected) l.budget := by
  induction es generalizing l with
  | nil => rfl
  | cons e es ih => rw [List.foldl_cons, ih, l.budget_next, List.foldl_cons]

theorem connected_foldl (es : List WifiEvent) (l : Link) :
    (es.foldl Link.next l).connected ↔ l.connected ∨ .gotIp ∈ es := by
  induction es generalizing l with
  | nil => simp
  | cons e es ih =>
    rw [List.foldl_cons, ih, List.mem_cons]
    cases e with
    | gotIp => simp [Link.next, eventHandler]
    | disconnected =>
      rw [Link.next, eventHandler]
      split <;> simp

/-- **When a station gives up**, whatever happens to it in whatever order. It tries again at a
disconnect, if that is not the fifth or a later one in a row; so after the fifth it does not until
there is an address again. `kBitFailed` tells whether it ever came to that. -/
theorem gives_up_iff (es : List WifiEvent) :
    (∀ e, (eventHandler (es.foldl Link.next .started) e).2 ↔
      e = .disconnected ∧ ¬ List.replicate kMaxConnectTries .disconnected <:+ es ++ [e]) ∧
    ((es.foldl Link.next .started).failed ↔
      List.replicate kMaxConnectTries .disconnected <:+: es) ∧
    ((es.foldl Link.next .started).connected ↔ .gotIp ∈ es) := by
  have hbudget := Link.budget_foldl es .started
  refine ⟨fun e => ?_, ?_, (connected_foldl es _).trans (or_iff_right Bool.false_ne_true)⟩
  · cases e with
    | gotIp => exact iff_of_false Bool.false_ne_true fun h => absurd h.1 (by decide)
    | disconnected =>
      have hrow := RetryBudget.le_failures_iff kMaxConnectTries .disconnected
        (es ++ [WifiEvent.disconnected]) (m := kMaxConnectTries)
      rw [List.foldl_concat, note, if_pos rfl] at hrow
      have htries : (es.foldl Link.next .started).tries =
          (es.foldl (note kMaxConnectTries .disconnected) Budget.whole).failures :=
        congrArg Budget.failures hbudget
      rw [← hrow, ← htries, eventHandler]
      split
      · next hless => exact iff_of_true rfl ⟨rfl, Nat.not_le.mpr hless⟩
      · next hmany => exact iff_of_false Bool.false_ne_true fun h => h.2 (Nat.not_lt.mp hmany)
  · have hspent : (es.foldl Link.next .started).failed =
        (es.foldl (note kMaxConnectTries .disconnected) Budget.whole).spent :=
      congrArg Budget.spent hbudget
    rw [hspent]
    exact RetryBudget.spent_iff (by decide) _ es

/-! ## The device -/

/-- What `nvs_flash_init` comes to. -/
inductive NvsInit where
  /-- the partition is as it was -/
  | ok
  /-- it was erased, and is empty -/
  | erased
  /-- it cannot be used -/
  | failed
  deriving DecidableEq

/-- What a boot depends on, beside what is stored. -/
structure BootEnv where
  init : NvsInit
  /-- the namespace can be opened to read the credentials -/
  opens : Bool
  /-- the portal comes up -/
  portal : Bool
  /-- the Wi-Fi stack comes up -/
  wifi : Bool
  /-- the namespace can be opened to erase the credentials -/
  erases : Bool
  deriving DecidableEq

/-- What the device is doing. -/
inductive Phase where
  /-- without power, or about to restart -/
  | off
  /-- `runProvisioning` -/
  | portal
  /-- `WifiSta::connect` -/
  | joining (l : Link)
  /-- it has joined, and the hardware comes up -/
  | starting (l : Link)
  /-- the session is running -/
  | running (l : Link)
  deriving DecidableEq

/-- The device knows a network to be in. -/
def Phase.online : Phase → Bool
  | .joining _ | .starting _ | .running _ => true
  | .off | .portal => false

/-- The store and the phase. -/
structure Device where
  nvs : Nvs
  phase : Phase

/-- What happens. -/
inductive Event where
  /-- a boot, also in the middle of everything -/
  | boot (env : BootEnv)
  /-- a Wi-Fi event; `opens` if the namespace can be opened -/
  | wifi (e : WifiEvent) (opens : Bool)
  /-- `kConnectTimeoutMs` are over -/
  | timeout (opens : Bool)
  /-- the hardware has come up, or has not -/
  | hal (up : Bool)
  /-- a request to `/save` -/
  | save (contentLen : ℕ) (received : List Got) (opens : Bool)
  | longPress (opens : Bool)

/-- The name and the password of the network are erased. -/
def forgotten (nvs : Nvs) : Nvs :=
  Function.update (Function.update nvs .wifiSsid none) .wifiPsk none

/-- Erasing, if the namespace can be opened, and a restart. -/
def forget (opens : Bool) (nvs : Nvs) : Device := ⟨if opens then forgotten nvs else nvs, .off⟩

/-- `decideAndRun`, up to the waiting for the network. -/
def boot (env : BootEnv) (nvs : Nvs) : Device :=
  let nvs := if env.init = .erased then fun _ => none else nvs
  if env.init = .failed then ⟨nvs, .off⟩
  else if env.opens ∧ (decideAndRun nvs).isSome then
    if env.wifi then ⟨nvs, .joining .started⟩ else forget env.erases nvs
  else ⟨nvs, if env.portal then .portal else .off⟩

/-- The bits after an event end the waiting, or do not. -/
def joining (opens : Bool) (l : Link) (nvs : Nvs) : Device :=
  if l.connected then ⟨nvs, .starting l⟩
  else if l.failed then forget opens nvs
  else ⟨nvs, .joining l⟩

/-- `handleSave` and the callback of `runProvisioning`. -/
def save (contentLen : ℕ) (received : List Got) (opens : Bool) (nvs : Nvs) : Device :=
  match handleSave contentLen received with
  | .saved creds => if opens then ⟨onCredentials creds nvs, .off⟩ else ⟨nvs, .portal⟩
  | .tooLarge | .incomplete | .missing => ⟨nvs, .portal⟩

/-- One event. -/
def step (d : Device) (event : Event) : Device :=
  match event, d.phase with
  | .boot env, _ => boot env d.nvs
  | .wifi e opens, .joining l => joining opens (l.next e) d.nvs
  | .wifi e _, .starting l => { d with phase := .starting (l.next e) }
  | .wifi e _, .running l => { d with phase := .running (l.next e) }
  | .timeout opens, .joining _ => forget opens d.nvs
  | .hal up, .starting l => { d with phase := if up then .running l else .off }
  | .save contentLen received opens, .portal => save contentLen received opens d.nvs
  | .longPress opens, .running _ => forget opens d.nvs
  | .wifi _ _, _ | .timeout _, _ | .hal _, _ | .save _ _ _, _ | .longPress _, _ => d

/-! ## The stored network -/

/-- Nobody saves anything, and the partition is not erased. -/
def Event.quiet : Event → Bool
  | .boot env => env.init ≠ .erased
  | .save contentLen received opens =>
    match handleSave contentLen received with
    | .saved _ => !opens
    | .tooLarge | .incomplete | .missing => true
  | .wifi _ _ | .timeout _ | .hal _ | .longPress _ => true

/-- The event does not end in erasing the network: it is no fifth disconnect in a row or timeout of
a device that joins, no long press of one that runs, and no boot without a Wi-Fi stack; or the
namespace cannot be opened for it. -/
def keeps (d : Device) (event : Event) : Bool :=
  match event, d.phase with
  | .boot env, _ =>
    !(env.init = .ok && env.opens && (decideAndRun d.nvs).isSome && !env.wifi && env.erases)
  | .wifi .disconnected opens, .joining l => !(opens && kMaxConnectTries ≤ l.tries + 1)
  | .timeout opens, .joining _ => !opens
  | .longPress opens, .running _ => !opens
  | _, _ => true

/-- A device that joins is still waiting for the first bit, and one that is online has a network
stored. -/
structure Inv (d : Device) : Prop where
  waiting : ∀ l, d.phase = .joining l → l.connected = false ∧ l.failed = false
  stored : d.phase.online → (decideAndRun d.nvs).isSome

theorem inv_off (nvs : Nvs) : Inv ⟨nvs, .off⟩ :=
  ⟨fun _ h => (Phase.noConfusion h), fun h => absurd h Bool.false_ne_true⟩

theorem inv_portal (nvs : Nvs) : Inv ⟨nvs, .portal⟩ :=
  ⟨fun _ h => (Phase.noConfusion h), fun h => absurd h Bool.false_ne_true⟩

theorem inv_forget (opens : Bool) (nvs : Nvs) : Inv (forget opens nvs) := inv_off _

theorem inv_boot (env : BootEnv) (nvs : Nvs) : Inv (boot env nvs) := by
  rw [boot]
  generalize (if env.init = .erased then fun _ => none else nvs) = nvs'
  split
  · exact inv_off _
  · split
    · next h =>
      split
      · refine ⟨fun l hl => ?_, fun _ => h.2⟩
        obtain rfl := Phase.joining.inj hl
        exact ⟨rfl, rfl⟩
      · exact inv_forget _ _
    · split
      · exact inv_portal _
      · exact inv_off _

/-- An event of a station that waits: it joins, gives up, or waits on. -/
theorem joining_next {l : Link} (hl : l.connected = false ∧ l.failed = false)
    (e : WifiEvent) (opens : Bool) (nvs : Nvs) :
    joining opens (l.next e) nvs =
      match e with
      | .gotIp => ⟨nvs, .starting (l.next .gotIp)⟩
      | .disconnected =>
        if kMaxConnectTries ≤ l.tries + 1 then forget opens nvs
        else ⟨nvs, .joining (l.next .disconnected)⟩ := by
  obtain ⟨hconnected, hfailed⟩ := hl
  rw [joining]
  cases e with
  | gotIp => simp [Link.next, eventHandler]
  | disconnected =>
    by_cases htries : l.tries + 1 < kMaxConnectTries
    · simp [Link.next, eventHandler, htries, Nat.not_le.mpr htries, hconnected, hfailed]
    · simp [Link.next, eventHandler, htries, Nat.not_lt.mp htries, hconnected]

theorem waiting_next {l : Link} (hl : l.connected = false ∧ l.failed = false)
    (htries : ¬ kMaxConnectTries ≤ l.tries + 1) :
    (l.next .disconnected).connected = false ∧ (l.next .disconnected).failed = false := by
  obtain ⟨hconnected, hfailed⟩ := hl
  simp [Link.next, eventHandler, Nat.not_le.mp htries, hconnected, hfailed]

theorem Inv.step {d : Device} (h : Inv d) (event : Event) : Inv (step d event) := by
  cases event with
  | boot env => exact inv_boot env d.nvs
  | wifi e opens =>
    cases hphase : d.phase with
    | off | portal => simpa only [Boot.step, hphase] using h
    | joining l =>
      have hstored := h.stored (by rw [hphase]; rfl)
      have hwaiting := h.waiting l hphase
      simp only [Boot.step, hphase, joining_next hwaiting]
      cases e with
      | gotIp => exact ⟨fun _ heq => Phase.noConfusion heq, fun _ => hstored⟩
      | disconnected =>
        simp only
        split
        · exact inv_forget _ _
        · next htries =>
          refine ⟨fun l' hl' => ?_, fun _ => hstored⟩
          obtain rfl := Phase.joining.inj hl'
          exact waiting_next hwaiting htries
    | starting l | running l =>
      have hstored := h.stored (by rw [hphase]; rfl)
      simp only [Boot.step, hphase]
      exact ⟨fun _ heq => Phase.noConfusion heq, fun _ => hstored⟩
  | timeout opens =>
    cases hphase : d.phase with
    | joining l => simpa only [Boot.step, hphase] using inv_forget opens d.nvs
    | off | portal | starting l | running l => simpa only [Boot.step, hphase] using h
  | hal up =>
    cases hphase : d.phase with
    | starting l =>
      have hstored := h.stored (by rw [hphase]; rfl)
      simp only [Boot.step, hphase]
      cases up with
      | true => exact ⟨fun _ heq => Phase.noConfusion heq, fun _ => hstored⟩
      | false => exact inv_off _
    | off | portal | joining l | running l => simpa only [Boot.step, hphase] using h
  | save contentLen received opens =>
    cases hphase : d.phase with
    | portal =>
      simp only [Boot.step, hphase, save]
      split
      · cases opens with
        | true => exact inv_off _
        | false => exact inv_portal _
      · exact inv_portal _
      · exact inv_portal _
      · exact inv_portal _
    | off | joining l | starting l | running l => simpa only [Boot.step, hphase] using h
  | longPress opens =>
    cases hphase : d.phase with
    | running l => simpa only [Boot.step, hphase] using inv_forget opens d.nvs
    | off | portal | joining l | starting l => simpa only [Boot.step, hphase] using h

/-- A request that saves nothing. -/
theorem save_quiet {contentLen : ℕ} {received : List Got} {opens : Bool}
    (h : (Event.save contentLen received opens).quiet) (nvs : Nvs) :
    save contentLen received opens nvs = ⟨nvs, .portal⟩ := by
  rw [save]
  simp only [Event.quiet] at h
  cases hsave : handleSave contentLen received with
  | saved creds =>
    rw [hsave] at h
    rw [(Bool.not_eq_true' opens).mp h]
    rfl
  | tooLarge | incomplete | missing => rfl

/-- What an event does to the store: nothing, or the network is erased and the device restarts. -/
theorem step_quiet {d : Device} (h : Inv d) {event : Event} (hquiet : event.quiet) :
    if keeps d event then (step d event).nvs = d.nvs
    else step d event = ⟨forgotten d.nvs, .off⟩ := by
  cases event with
  | boot env =>
    obtain ⟨init, opens, portal, wifi, erases⟩ := env
    simp only [keeps, step, boot, forget]
    cases init with
    | erased => exact absurd hquiet (by simp [Event.quiet])
    | failed => rfl
    | ok =>
      cases hsome : (decideAndRun d.nvs).isSome <;> cases opens <;> cases wifi <;> cases erases <;>
        simp [hsome]
  | wifi e opens =>
    cases hphase : d.phase with
    | joining l =>
      simp only [step, hphase, joining_next (h.waiting l hphase)]
      cases e with
      | gotIp => simp [keeps]
      | disconnected =>
        by_cases htries : kMaxConnectTries ≤ l.tries + 1
        · cases opens <;> simp [keeps, hphase, htries, forget]
        · simp [keeps, hphase, htries]
    | off | portal | starting l | running l => cases e <;> simp [keeps, step, hphase]
  | timeout opens =>
    cases hphase : d.phase with
    | joining l => cases opens <;> simp [keeps, step, hphase, forget]
    | off | portal | starting l | running l => simp [keeps, step, hphase]
  | hal up => cases hphase : d.phase <;> simp [keeps, step, hphase]
  | save contentLen received opens =>
    cases hphase : d.phase with
    | portal =>
      simp only [keeps, step, hphase, save_quiet hquiet, if_true]
    | off | joining l | starting l | running l => simp [keeps, step, hphase]
  | longPress opens =>
    cases hphase : d.phase with
    | running l => cases opens <;> simp [keeps, step, hphase, forget]
    | off | portal | joining l | starting l => simp [keeps, step, hphase]

/-- The network was erased, and the device knows it. -/
structure Lost (nvs : Nvs) (d : Device) : Prop where
  nvs_eq : d.nvs = forgotten nvs
  offline : d.phase.online = false

theorem decideAndRun_forgotten (nvs : Nvs) : decideAndRun (forgotten nvs) = none := rfl

/-- A device that is not online does nothing but boot and save. -/
theorem step_offline {d : Device} (hoff : d.phase.online = false) {event : Event}
    (hquiet : event.quiet) (hboot : ∀ env, event ≠ .boot env) : step d event = d := by
  cases event with
  | boot env => exact absurd rfl (hboot env)
  | wifi e opens | timeout opens | hal up | longPress opens =>
    cases hphase : d.phase with
    | off | portal => simp only [step, hphase]
    | joining l | starting l | running l =>
      rw [hphase] at hoff
      cases hoff
  | save contentLen received opens =>
    cases hphase : d.phase with
    | off => simp only [step, hphase]
    | portal =>
      simp only [step, hphase, save_quiet hquiet]
      rw [← hphase]
    | joining l | starting l | running l =>
      rw [hphase] at hoff
      cases hoff

/-- It stays so until somebody saves another. -/
theorem Lost.step {nvs : Nvs} {d : Device} (h : Lost nvs d) {event : Event} (hquiet : event.quiet) :
    Lost nvs (step d event) := by
  by_cases hboot : ∃ env, event = .boot env
  · obtain ⟨⟨init, opens, portal, wifi, erases⟩, rfl⟩ := hboot
    cases init with
    | erased => exact absurd hquiet (by simp [Event.quiet])
    | failed => exact ⟨h.nvs_eq, rfl⟩
    | ok =>
      simp only [Boot.step, boot, h.nvs_eq]
      refine ⟨?_, ?_⟩ <;> cases portal <;> simp [decideAndRun_forgotten, Phase.online]
  · rwa [step_offline h.offline hquiet fun env heq => hboot ⟨env, heq⟩]

theorem run_quiet {es : List Event} (hquiet : ∀ event ∈ es, event.quiet) :
    ∀ {d : Device}, Inv d →
      if Meets step keeps d es then (run step d es).nvs = d.nvs
      else Lost d.nvs (run step d es) := by
  induction es with
  | nil => exact fun _ => rfl
  | cons event es ih =>
    intro d h
    obtain ⟨hnow, hlater⟩ := List.forall_mem_cons.mp hquiet
    have hstep := step_quiet h hnow
    have hrest := ih hlater (h.step event)
    show if keeps d event && Meets step keeps (step d event) es then _ else _
    cases hkeeps : keeps d event with
    | true =>
      rw [hkeeps, if_pos rfl] at hstep
      rw [hstep] at hrest
      exact hrest
    | false =>
      rw [hkeeps, if_neg Bool.false_ne_true] at hstep
      rw [Bool.false_and, if_neg Bool.false_ne_true]
      refine run_induct_mem (I := Lost d.nvs) (fun d' e he h' => h'.step (hlater e he)) ?_
      rw [hstep]
      exact ⟨rfl, rfl⟩

/-- **What becomes of the stored network**, whatever is stored at first, in a run in which nobody
saves another: it is kept exactly as long as the device can join it at every boot and nobody holds
the button down. Else its name and password are erased, the backend and the host name are kept, and
the device is not online again. -/
theorem forgets_iff (nvs : Nvs) {es : List Event} (hquiet : ∀ event ∈ es, event.quiet) :
    ((run step ⟨nvs, .off⟩ es).nvs =
      if Meets step keeps ⟨nvs, .off⟩ es then nvs else forgotten nvs) ∧
    (Meets step keeps ⟨nvs, .off⟩ es = false → (run step ⟨nvs, .off⟩ es).phase.online = false) ∧
    ((run step ⟨nvs, .off⟩ es).phase.online →
      (decideAndRun (run step ⟨nvs, .off⟩ es).nvs).isSome) := by
  have hrun := run_quiet hquiet (inv_off nvs)
  have hinv : Inv (run step ⟨nvs, .off⟩ es) :=
    run_induct (fun d event h => h.step event) es (inv_off nvs)
  cases hmeets : Meets step keeps ⟨nvs, .off⟩ es with
  | true =>
    rw [hmeets, if_pos rfl] at hrun
    exact ⟨hrun, fun h => absurd h (by decide), hinv.stored⟩
  | false =>
    rw [hmeets, if_neg Bool.false_ne_true] at hrun
    exact ⟨hrun.nvs_eq, fun _ => hrun.offline, hinv.stored⟩

/-- A network, without a password, and a backend. -/
def homeNvs : Nvs
  | .wifiSsid => some [104, 111, 109, 101]
  | .backendUrl => some [104, 116, 116, 112]
  | .wifiPsk | .hostname => none

/-- A boot without trouble. -/
def plainBoot : BootEnv := ⟨.ok, true, true, true, true⟩

/-- The router is not up yet at one boot, and is up at the next. -/
theorem forgets_iff_router :
    (run step ⟨homeNvs, .off⟩ (.boot plainBoot :: List.replicate 5 (.wifi .disconnected true) ++
      [.boot plainBoot, .wifi .gotIp true])).nvs = forgotten homeNvs ∧
    (run step ⟨homeNvs, .off⟩ (.boot plainBoot :: List.replicate 5 (.wifi .disconnected true) ++
      [.boot plainBoot, .wifi .gotIp true])).phase.online = false := by
  have hquiet : ∀ event ∈ Event.boot plainBoot :: List.replicate 5 (.wifi .disconnected true) ++
      [.boot plainBoot, .wifi .gotIp true], event.quiet := by
    intro event hevent
    simp only [List.cons_append, List.mem_cons, List.mem_append, List.mem_replicate,
      List.not_mem_nil, or_false] at hevent
    obtain rfl | ⟨-, rfl⟩ | rfl | rfl := hevent <;> rfl
  obtain ⟨hnvs, hphase, -⟩ := forgets_iff homeNvs hquiet
  exact ⟨hnvs, hphase rfl⟩

end PipecatVoice.Boot
